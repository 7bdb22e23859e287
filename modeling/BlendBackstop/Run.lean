import BlendBackstop.Manager

/-!
# Runs of the backstop

A `Call` is one invocation that reaches the emissions manager: the ledger it runs in, the
operation, and the answers of the contracts the operation consults.  Deposits, withdrawals
and their queueing change a pool's balance; the backstop realises the pool's emissions with
`update_rz_emis_data(pool, false)` just before, and `Op.setPoolBalance` is that pair.

`step` runs one call.  An invocation is all or nothing, so a call that panics leaves the state
as it was; a `Run` records only the calls that succeed, each with the state before and after.

* `Run.inv`: a property of the first state that every successful step keeps, for the calls a
  run is allowed to make, holds in every state of such a run.
* `Run.of_runCalls`: a list of calls that all succeed is a run.
-/

namespace BlendBackstop

/-- The operations of the backstop that reach the emissions manager. -/
inductive Op
  | addToRewardZone (toAdd : Address) (toRemove : Option Address) (aboveThreshold : Bool)
  | removeFromRewardZone (toRemove : Address) (aboveThreshold : Bool)
  | distribute (emitterReply : Option Nat)
  | gulpEmissions (pool : Address) (allowance : Int)
  | updateRzEmisData (pool : Address)
  | setPoolBalance (pool : Address) (balance : PoolBalance)
  deriving DecidableEq, Repr

structure Call where
  ledger : Ledger
  op : Op
  deriving DecidableEq, Repr

inductive Ret
  | unit
  | emissions (amount : Int)
  | gulped (backstopEmissions poolEmissions : Int) (approved : Option Int)
  deriving DecidableEq, Repr

/-- One invocation of the backstop. -/
def step (c : Config) (s : State) (call : Call) : Except Panic (State × Ret) :=
  match call.op with
  | .addToRewardZone toAdd toRemove above =>
    (addToRewardZone s call.ledger.timestamp toAdd toRemove above).map (·, .unit)
  | .removeFromRewardZone toRemove above =>
    (removeFromRewardZone s call.ledger.timestamp toRemove above).map (·, .unit)
  | .distribute reply =>
    (distribute c s call.ledger.timestamp reply).map fun r => (r.1, .emissions r.2)
  | .gulpEmissions pool allowance =>
    (gulpEmissions c s call.ledger pool allowance).map fun r => (r.1, .gulped r.2.1.1 r.2.1.2 r.2.2)
  | .updateRzEmisData pool =>
    (updateRzEmisData c s pool false).map fun r => (r.1, .emissions r.2)
  | .setPoolBalance pool balance =>
    (updateRzEmisData c s pool false).map fun r =>
      ({ r.1 with poolBalances := r.1.poolBalances.set pool balance }, .unit)

/-- A successful invocation: the state it started from, the call, what it returned, and the
state it left. -/
structure Entry where
  pre : State
  call : Call
  ret : Ret
  post : State

/-- The runs of the backstop from its first state, with the log of their successful calls. -/
inductive Run (c : Config) : State → List Entry → Prop
  | init : Run c State.init []
  | step {s s' : State} {log : List Entry} {call : Call} {r : Ret} :
      Run c s log → BlendBackstop.step c s call = .ok (s', r) → Run c s' (log ++ [⟨s, call, r, s'⟩])

variable {c : Config}

/-- **Invariants of runs.**  A property of the first state that every successful call in
`allowed` keeps holds in every state of a run whose calls are all in `allowed`. -/
theorem Run.inv {P : State → Prop} (allowed : Call → Prop) (h0 : P State.init)
    (hstep : ∀ s call s' r, P s → allowed call → BlendBackstop.step c s call = .ok (s', r) → P s')
    {s : State} {log : List Entry} (hrun : Run c s log) (hlog : ∀ e ∈ log, allowed e.call) :
    P s := by
  induction hrun with
  | init => exact h0
  | step _ hs ih =>
    simp only [List.mem_append, List.mem_singleton] at hlog
    exact hstep _ _ _ _ (ih fun e he => hlog e (.inl he)) (hlog _ (.inr rfl)) hs

theorem Run.step_of_mem {s : State} {log : List Entry} (hrun : Run c s log) {e : Entry}
    (he : e ∈ log) : BlendBackstop.step c e.pre e.call = .ok (e.post, e.ret) := by
  induction hrun with
  | init => cases he
  | step _ hs ih =>
    rcases List.mem_append.1 he with he | he
    · exact ih he
    · rw [List.mem_singleton.1 he]; exact hs

def runCalls (c : Config) : State → List Entry → List Call → Option (State × List Entry)
  | s, log, [] => some (s, log)
  | s, log, call :: calls =>
    match step c s call with
    | .ok (s', r) => runCalls c s' (log ++ [⟨s, call, r, s'⟩]) calls
    | .error _ => none

theorem runCalls_cons_eq_some {s : State} {log : List Entry} {call : Call} {calls : List Call}
    {res : State × List Entry} (h : runCalls c s log (call :: calls) = some res) :
    ∃ s' r, BlendBackstop.step c s call = .ok (s', r) ∧
      runCalls c s' (log ++ [⟨s, call, r, s'⟩]) calls = some res := by
  unfold runCalls at h
  split at h
  · exact ⟨_, _, ‹_›, h⟩
  · cases h

theorem Run.of_runCalls {s s' : State} {log log' : List Entry} :
    ∀ {calls : List Call}, Run c s log → runCalls c s log calls = some (s', log') → Run c s' log'
  | [], hrun, h => by cases h; exact hrun
  | _ :: _, hrun, h => by
    obtain ⟨_, _, hs, h⟩ := runCalls_cons_eq_some h
    exact Run.of_runCalls (hrun.step hs) h

/-! ### A sample run -/

/-- A backstop under `specConfig` that starts its emissions, admits a pool holding 100 tokens,
credits a day of emitter time and gulps it, runs a day as a backfill while the emitter does not
know it, re-synchronises to the emitter, and lets the pool go. -/
def sampleCalls : List Call :=
  [⟨⟨1713139200, 1⟩, .distribute (some 1713139200)⟩,
   ⟨⟨1713139200, 1⟩, .setPoolBalance 1 ⟨1000000000, 1000000000, 0⟩⟩,
   ⟨⟨1713139200, 1⟩, .addToRewardZone 1 none true⟩,
   ⟨⟨1713225600, 2⟩, .distribute (some 1713225600)⟩,
   ⟨⟨1713225600, 2⟩, .gulpEmissions 1 0⟩,
   ⟨⟨1713312000, 3⟩, .distribute none⟩,
   ⟨⟨1713398400, 4⟩, .distribute (some 1713398400)⟩,
   ⟨⟨1713398400, 4⟩, .removeFromRewardZone 1 false⟩]

theorem sampleCalls_ok : (runCalls specConfig State.init [] sampleCalls).isSome = true := by rfl

def sampleRun : State × List Entry := (runCalls specConfig State.init [] sampleCalls).get sampleCalls_ok

theorem sampleRun_run : Run specConfig sampleRun.1 sampleRun.2 :=
  Run.of_runCalls Run.init (Option.some_get sampleCalls_ok).symm

end BlendBackstop
