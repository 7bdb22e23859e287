import BlendBackstop.Storage

/-!
# The emissions manager

`backstop/src/emissions/manager.rs`, one definition per function.  Each takes the backstop's
`State`, the ledger's view of the call, and the answers of the contracts it calls (the emitter,
the BLND token, the pool-threshold check), and returns the new state or the `Panic` that aborts
the invocation.  An aborted invocation changes nothing, so a caller keeps its old state.

`distribute` advances the global index `rzEmissionIndex` by the emitter's new emissions over
the reward zone's non-queued tokens.  Each pool realises its share lazily in
`updateRzEmisData`, which `gulpEmissions` calls with `toGulp` to hand out what the pool
accrued: 70% to the pool's backstop depositors through `setBackstopEmissionEps`, 30% to the
pool as a BLND allowance.
-/

namespace BlendBackstop

def maxRzSize : Nat := 50

structure Ledger where
  timestamp : Nat
  sequence : Nat
  deriving DecidableEq, Repr

/-! ### Realising a pool's emissions -/

def setRzEmissions (s : State) (pool : Address) (index accrued : Int) (toGulp : Bool) :
    State × Int :=
  if toGulp then ({ s with rzEmisData := s.rzEmisData.set pool ⟨index, 0⟩ }, accrued)
  else ({ s with rzEmisData := s.rzEmisData.set pool ⟨index, accrued⟩ }, 0)

/-- `update_rz_emis_data`: credit the pool with its non-queued tokens times the index it has
not seen yet, and move its index up to the global one. -/
def updateRzEmisData (c : Config) (s : State) (pool : Address) (toGulp : Bool) :
    Except Panic (State × Int) :=
  match s.rzEmisData.get pool with
  | none => .ok (s, 0)
  | some emissionData =>
    let poolBalance := s.poolBalance pool
    let gulpIndex := s.rzEmissionIndex
    if emissionData.index < gulpIndex ∨ toGulp = true then
      if 0 < c.nonQueuedTokens poolBalance then do
        let gap ← i128Sub gulpIndex emissionData.index
        let newEmissions ← unwrapOptimized (fixedMulFloor (c.nonQueuedTokens poolBalance) gap scalar14)
        let accrued ← i128Add emissionData.accrued newEmissions
        pure (setRzEmissions s pool gulpIndex accrued toGulp)
      else .ok (setRzEmissions s pool gulpIndex emissionData.accrued toGulp)
    else .ok (s, 0)

/-! ### The reward zone -/

/-- `remove_pool`: take a pool out of the reward zone and set its index to `i128::MAX`, so that it
accrues nothing more. -/
def removePool (s : State) (now : Nat) (rewardZone : List Address) (toRemove : Address) :
    Except Panic (State × List Address) :=
  match rewardZone.indexOf? toRemove with
  | some idx => do
    let cutoff ← u64Sub now (24 * 60 * 60)
    if s.lastDistributionTime < cutoff then throw (.contract .badRequest)
    else
      let toRemoveEmisData ← unwrapOptimized (s.rzEmisData.get toRemove)
      let s := (setRzEmissions s toRemove i128Max toRemoveEmisData.accrued false).1
      pure (s, rewardZone.eraseIdx idx)
  | none => .error (.contract .invalidRewardZoneEntry)

/-- The first half of `add_to_reward_zone`: the new reward zone with `toAdd` in front, and on
a full zone `toRemove` swapped out through `removePool`. -/
def makeRoom (s : State) (now : Nat) (toAdd : Address) (toRemove : Option Address) :
    Except Panic (State × List Address) :=
  if s.rewardZone.length < maxRzSize then .ok (s, toAdd :: s.rewardZone)
  else match toRemove with
    | none => .error (.contract .rewardZoneFull)
    | some toRemove =>
      if (s.poolBalance toAdd).tokens ≤ (s.poolBalance toRemove).tokens then
        .error (.contract .invalidRewardZoneEntry)
      else (removePool s now s.rewardZone toRemove).map fun r => (r.1, toAdd :: r.2)

/-- `add_to_reward_zone`: the new pool starts from the global index and keeps what it accrued.
`aboveThreshold` is what `require_pool_above_threshold` answers for `toAdd`. -/
def addToRewardZone (s : State) (now : Nat) (toAdd : Address) (toRemove : Option Address)
    (aboveThreshold : Bool) : Except Panic State :=
  if toAdd ∈ s.rewardZone then .error (.contract .badRequest)
  else if !aboveThreshold then .error (.contract .invalidRewardZoneEntry)
  else (makeRoom s now toAdd toRemove).map fun r =>
    let s₁ := match r.1.rzEmisData.get toAdd with
      | some toAddEmisData => (setRzEmissions r.1 toAdd s.rzEmissionIndex toAddEmisData.accrued false).1
      | none => (setRzEmissions r.1 toAdd s.rzEmissionIndex 0 false).1
    { s₁ with rewardZone := r.2 }

def removeFromRewardZone (s : State) (now : Nat) (toRemove : Address) (aboveThreshold : Bool) :
    Except Panic State :=
  if aboveThreshold then .error (.contract .badRequest)
  else do
    let (s, rewardZone) ← removePool s now s.rewardZone toRemove
    pure { s with rewardZone }

/-! ### Distribution -/

/-- How `distribute` reads the emitter's answer: backfill or not, reset or not, the status to store,
and the time emissions are counted up to. -/
structure EmitterRead where
  isBackfill : Bool
  needsReset : Bool
  backfillStatus : Option Bool
  emitterLastDistribution : Nat
  deriving DecidableEq, Repr

/-- The first part of `distribute`: the emitter's answer `reply` to `get_last_distro`, `none`
where the emitter does not know this backstop and the ledger time stands in for it. -/
def emitterRead (lastBackfillStatus : Option Bool) (now : Nat) : Option Nat → EmitterRead
  | some distro =>
    if lastBackfillStatus = some true then ⟨false, true, some false, distro⟩
    else ⟨false, false, lastBackfillStatus, distro⟩
  | none =>
    if lastBackfillStatus = none then ⟨true, false, some true, now⟩
    else ⟨true, false, lastBackfillStatus, now⟩

def sumNonQueued (c : Config) (s : State) : Int → List Address → Except Panic Int
  | total, [] => .ok total
  | total, rzPool :: rest => do
    let total ← i128Add total (c.nonQueuedTokens (s.poolBalance rzPool))
    sumNonQueued c s total rest

def addBackfill (c : Config) (s : State) (newEmissions : Int) : Except Panic State := do
  let curBackfill ← i128Add s.backfillEmissions newEmissions
  if c.maxBackfilledEmissions < curBackfill then throw (.contract .maxBackfillEmissions)
  else pure { s with backfillEmissions := curBackfill }

def advanceIndex (c : Config) (s : State) (newEmissions : Int) : Except Panic State := do
  let totalNonQueuedTokens ← sumNonQueued c s 0 s.rewardZone
  let additionalIndex ← unwrapOptimized (fixedDivFloor newEmissions totalNonQueuedTokens scalar14)
  let newIndex ← i128Add s.rzEmissionIndex additionalIndex
  pure { s with rzEmissionIndex := newIndex }

/-- `distribute`: credit the emitter's time since the last distribution, one token per second,
to the reward zone.  Returns the emissions credited. -/
def distribute (c : Config) (s : State) (now : Nat) (reply : Option Nat) :
    Except Panic (State × Int) :=
  let r := emitterRead s.backfillStatus now reply
  let s := { s with backfillStatus := r.backfillStatus }
  if s.lastDistributionTime = 0 then
    .ok ({ s with lastDistributionTime := r.emitterLastDistribution }, 0)
  else if r.needsReset then
    .ok ({ s with lastDistributionTime := r.emitterLastDistribution }, 0)
  else if s.rewardZone.length = 0 then .error (.contract .badRequest)
  else do
    let horizon ← u64Add s.lastDistributionTime (60 * 60)
    if r.emitterLastDistribution ≤ horizon then throw (.contract .badRequest)
    else
      let newEmissions ← i128Mul ↑(r.emitterLastDistribution - s.lastDistributionTime) scalar7
      let s ← (if r.isBackfill then addBackfill c s newEmissions else pure s)
      let s ← advanceIndex c { s with lastDistributionTime := r.emitterLastDistribution } newEmissions
      pure (s, newEmissions)

/-! ### Gulping -/

def epsWindow : Nat := 7 * 24 * 60 * 60

/-- The record `set_backstop_emission_eps` stores at `now`: the new tokens and what the old rate has
not paid out yet, spread over a new window. -/
def nextBackstopEmisData (now : Nat) (updated : Option BackstopEmissionData) (newTokens : Int) :
    Except Panic BackstopEmissionData := do
  let expiration ← u64Add now epsWindow
  match updated with
  | some emissionData =>
    let emissionData :=
      if emissionData.lastTime ≠ now then { emissionData with lastTime := now } else emissionData
    let tokensLeftToEmit ← (if now < emissionData.expiration then do
        let timeSinceLastEmission := emissionData.expiration - now
        let tokensSinceLastEmission ← unwrapOptimized
          (fixedMulFloor emissionData.eps timeSinceLastEmission scalar7)
        i128Add newTokens tokensSinceLastEmission
      else pure newTokens)
    let scaled ← i128Mul tokensLeftToEmit scalar7
    let eps ← toU64 (scaled.tdiv epsWindow)
    pure { emissionData with eps, expiration }
  | none =>
    let scaled ← i128Mul newTokens scalar7
    let eps ← toU64 (scaled.tdiv epsWindow)
    pure ⟨eps, expiration, 0, now⟩

def setBackstopEmissionEps (c : Config) (s : State) (now : Nat) (pool : Address)
    (poolBalance : PoolBalance) (newTokens : Int) : Except Panic State := do
  let data ← nextBackstopEmisData now
    ((s.backstopEmisData.get pool).map (c.updateEmissionData now poolBalance)) newTokens
  pure { s with backstopEmisData := s.backstopEmisData.set pool data }

/-- `gulp_emissions`: realise the pool's emissions and hand 70% to its backstop depositors and 30%
to the pool.  `allowance` is the BLND token's `allowance(backstop, pool)`. -/
def gulpEmissions (c : Config) (s : State) (ledger : Ledger) (pool : Address) (allowance : Int) :
    Except Panic (State × (Int × Int) × Option Int) := do
  let poolBalance := s.poolBalance pool
  let (s, newEmissions) ← updateRzEmisData c s pool true
  if 0 < newEmissions then
    let newBackstopEmissions ← unwrapOptimized (fixedMulFloor newEmissions 7000000 scalar7)
    let newPoolEmissions ← unwrapOptimized (fixedMulFloor newEmissions 3000000 scalar7)
    let _newSeq ← u32Add ledger.sequence c.ledgerBumpUser
    let approved ← i128Add allowance newPoolEmissions
    let s ← setBackstopEmissionEps c s ledger.timestamp pool poolBalance newBackstopEmissions
    pure (s, (newBackstopEmissions, newPoolEmissions), some approved)
  else pure (s, (0, 0), none)

end BlendBackstop
