import Mathlib.Algebra.BigOperators.Ring.List
import Mathlib.Algebra.Order.BigOperators.Group.List
import Mathlib.Tactic.Ring
import BlendBackstop.RewardZone
import BlendBackstop.Distribution
import BlendBackstop.Eviction

/-!
# Conservation of emissions

`distribute` credits the reward zone through the global index, and each pool realises its
share lazily.  What the manager owes the pools is the stored `accrued` and, for each pool in the
zone, its non-queued tokens times the index it has not seen yet.  Scaled by `SCALAR_14` the
second part needs no rounding, so the law reads: what the gulps realised and what the manager
owes never exceed what `distribute` credited (`conservation`).  One distribution adds to what is
owed at most what it credited, because its index increment is rounded down; a realisation turns
pending emissions into `accrued` rounded down; an eviction drops a pool's pending emissions.

The law needs every evicted pool's index to stay at `i128::MAX`, and a gulp of an evicted pool
breaks that (`Eviction`): on the re-entry run the manager ends up owing more than it credited
(`emissions_overdistributed`).  `conservation` is therefore about runs that never gulp an
evicted pool.

* `AccrualInv`: the structural facts the law rests on.
* `accrualInv_step`: one call keeps them and the law.
* `conservation`: on every run without evicted gulps and with non-negative balances, the
  realised and owed emissions stay within the credited ones, and the global index never
  decreases.
* `emission_budget`: with the clock of `Distribution`, the realised and owed emissions stay
  within one token per second of emitter time.
-/

namespace BlendBackstop

variable {c : Config}

/-! ### What the manager owes -/

/-- The index a pool last saw; a pool without a record reads as having seen the global one. -/
def State.seenIndex (s : State) (p : Address) : Int :=
  ((s.rzEmisData.get p).map (·.index)).getD s.rzEmissionIndex

/-- What the global index has credited a pool since it last saw it, in units of
`1 / SCALAR_14`. -/
def pendingScaled (c : Config) (s : State) (p : Address) : Int :=
  c.nonQueuedTokens (s.poolBalance p) * (s.rzEmissionIndex - s.seenIndex p)

def zonePending (c : Config) (s : State) : Int := (s.rewardZone.map (pendingScaled c s)).sum

def totalAccrued (s : State) : Int := s.rzEmisData.sum (·.accrued)

/-- What the manager owes the pools, in units of `1 / SCALAR_14`. -/
def owedScaled (c : Config) (s : State) : Int := scalar14 * totalAccrued s + zonePending c s

def Entry.realisedByGulp (c : Config) (e : Entry) : Int :=
  match e.call.op with
  | .gulpEmissions pool _ =>
    match updateRzEmisData c e.pre pool true with
    | .ok r => r.2
    | .error _ => 0
  | _ => 0

/-- The emissions of a run in whole units: what the gulps realised, the stored
`accrued`, and each zone pool's pending emissions rounded down to units. -/
def emissionTotal (c : Config) (s : State) (log : List Entry) : Int :=
  (log.map (Entry.realisedByGulp c)).sum + totalAccrued s +
    (s.rewardZone.map fun p => pendingScaled c s p / scalar14).sum



/-! ### Sums over the reward zone -/

theorem sum_map_update {l : List Address} (hl : l.Nodup) {p : Address} (hp : p ∈ l)
    {f g : Address → Int} (hfg : ∀ q ∈ l, q ≠ p → g q = f q) :
    (l.map g).sum + f p = (l.map f).sum + g p := by
  rw [← List.sum_map_erase f hp, ← List.sum_map_erase g hp,
    List.map_congr_left fun q hq => hfg q (List.mem_of_mem_erase hq) ((hl.mem_erase_iff.1 hq).1)]
  omega

theorem pendingScaled_congr {s s' : State} {p : Address}
    (hb : s'.poolBalance p = s.poolBalance p) (hd : s'.rzEmisData.get p = s.rzEmisData.get p)
    (hG : s'.rzEmissionIndex = s.rzEmissionIndex) : pendingScaled c s' p = pendingScaled c s p := by
  simp only [pendingScaled, State.seenIndex, hb, hd, hG]

theorem pendingScaled_of_seen {s : State} {p : Address} (h : s.seenIndex p = s.rzEmissionIndex) :
    pendingScaled c s p = 0 := by
  simp [pendingScaled, h]

/-! ### The invariant -/

/-- The structural facts the conservation law rests on: a well-formed zone, non-negative
balances, an index within `i128`, zone pools with a record that has not run ahead of the
global index, evicted pools at `i128::MAX`, and non-negative `accrued`. -/
structure AccrualInv (c : Config) (s : State) : Prop where
  wf : ZoneWF s.rewardZone
  nonneg : ∀ p, 0 ≤ c.nonQueuedTokens (s.poolBalance p)
  index_le : s.rzEmissionIndex ≤ i128Max
  zone : ∀ p ∈ s.rewardZone, ∃ d, s.rzEmisData.get p = some d ∧ d.index ≤ s.rzEmissionIndex
  evicted : ∀ p d, p ∉ s.rewardZone → s.rzEmisData.get p = some d → d.index = i128Max
  accrued : ∀ p d, s.rzEmisData.get p = some d → 0 ≤ d.accrued

theorem pendingScaled_of_get {s : State} {p : Address} {d : RzEmissionData}
    (hd : s.rzEmisData.get p = some d) :
    pendingScaled c s p = c.nonQueuedTokens (s.poolBalance p) * (s.rzEmissionIndex - d.index) := by
  simp [pendingScaled, State.seenIndex, hd]

theorem realised_bounds {s : State} {p : Address} {d : RzEmissionData}
    (hn : 0 ≤ c.nonQueuedTokens (s.poolBalance p)) (hi : d.index ≤ s.rzEmissionIndex) :
    0 ≤ realised c s p d ∧
      scalar14 * realised c s p d ≤
        c.nonQueuedTokens (s.poolBalance p) * (s.rzEmissionIndex - d.index) := by
  have : 0 ≤ c.nonQueuedTokens (s.poolBalance p) * (s.rzEmissionIndex - d.index) :=
    mul_nonneg hn (by omega)
  unfold realised scalar14
  split <;> omega

/-- **Realising.**  A successful `update_rz_emis_data` that gulps only a zone pool or one without a
record keeps `AccrualInv`, and lowers what is owed by `SCALAR_14` times what it returns. -/
theorem updateRzEmisData_inv {s s' : State} {p : Address} {g : Bool} {x : Int}
    (hinv : AccrualInv c s) (h : updateRzEmisData c s p g = .ok (s', x))
    (hg : g = true → p ∈ s.rewardZone ∨ s.rzEmisData.get p = none) :
    AccrualInv c s' ∧ (p ∈ s.rewardZone → s'.seenIndex p = s.rzEmissionIndex) ∧ 0 ≤ x ∧
      owedScaled c s' + scalar14 * x ≤ owedScaled c s := by
  rcases updateRzEmisData_eq_ok h with ⟨rfl, rfl, hno⟩ | ⟨d, hd, hgo, he⟩
  · refine ⟨hinv, fun hp => ?_, le_rfl, by simp⟩
    obtain ⟨d, hd, hle⟩ := hinv.zone p hp
    have := (hno d hd).1
    simp only [State.seenIndex, hd, Option.map_some', Option.getD_some]
    omega
  rw [setRzEmissions_eq] at he
  obtain ⟨rfl, rfl⟩ := Prod.mk.inj he
  have hp : p ∈ s.rewardZone := by
    by_contra hp
    have hmax := hinv.evicted p d hp hd
    have := hinv.index_le
    rcases hgo with hlt | hgt
    · omega
    · rcases hg hgt with h1 | h1
      · exact hp h1
      · rw [hd] at h1; cases h1
  obtain ⟨d', hd', hle⟩ := hinv.zone p hp
  rw [hd] at hd'; cases hd'
  obtain ⟨hr0, hr⟩ := realised_bounds (hinv.nonneg p) hle
  have hacc := hinv.accrued p d hd
  refine ⟨⟨hinv.wf, hinv.nonneg, hinv.index_le, fun q hq => ?_, fun q e hq he => ?_,
    fun q e he => ?_⟩, fun _ => by simp [State.seenIndex], by split <;> omega, ?_⟩
  · by_cases hqp : q = p
    · subst hqp; exact ⟨_, Store.get_set_self _ _ _, le_rfl⟩
    · rw [Store.get_set_ne _ _ hqp]; exact hinv.zone q hq
  · have hqp : q ≠ p := fun h => hq (h ▸ hp)
    rw [Store.get_set_ne _ _ hqp] at he; exact hinv.evicted q e hq he
  · by_cases hqp : q = p
    · subst hqp; rw [Store.get_set_self] at he; cases he; dsimp only; split <;> omega
    · rw [Store.get_set_ne _ _ hqp] at he; exact hinv.accrued q e he
  · generalize hacc' : (if g = true then 0 else d.accrued + realised c s p d) = acc
    have hsum := Store.sum_set (·.accrued) s.rzEmisData p ⟨s.rzEmissionIndex, acc⟩
    rw [hd] at hsum
    have hzone := sum_map_update hinv.wf.nodup hp (f := pendingScaled c s)
      (g := pendingScaled c { s with rzEmisData := s.rzEmisData.set p ⟨s.rzEmissionIndex, acc⟩ })
      fun q _ hqp => pendingScaled_congr rfl (Store.get_set_ne _ _ hqp) rfl
    have h0 : pendingScaled c { s with rzEmisData := s.rzEmisData.set p ⟨s.rzEmissionIndex, acc⟩ } p
        = 0 := pendingScaled_of_seen (by simp [State.seenIndex])
    rw [h0, pendingScaled_of_get hd] at hzone
    simp only [Option.map_some', Option.getD_some] at hsum
    unfold owedScaled totalAccrued zonePending
    unfold scalar14 at *
    dsimp only at hsum hzone ⊢
    cases g <;> simp only [Bool.false_eq_true, if_false, if_true] at hacc' ⊢ <;> omega

theorem owedScaled_erase {s t : State} {r : Address} (hnd : s.rewardZone.Nodup)
    (hr : r ∈ s.rewardZone) (hz : t.rewardZone = s.rewardZone.erase r)
    (hG : t.rzEmissionIndex = s.rzEmissionIndex) (hb : t.poolBalances = s.poolBalances)
    (hget : ∀ q, q ≠ r → t.rzEmisData.get q = s.rzEmisData.get q)
    (hacc : totalAccrued t = totalAccrued s) (hpend : 0 ≤ pendingScaled c s r) :
    owedScaled c t ≤ owedScaled c s := by
  have := List.sum_map_erase (pendingScaled c s) hr
  unfold owedScaled zonePending
  rw [hz, List.map_congr_left (g := pendingScaled c s) fun q hq => pendingScaled_congr
    (by simp [State.poolBalance, hb]) (hget q (hnd.mem_erase_iff.1 hq).1) hG, hacc]
  omega

theorem owedScaled_cons {s t : State} {q : Address} (hq : q ∉ s.rewardZone)
    (hz : t.rewardZone = q :: s.rewardZone) (hG : t.rzEmissionIndex = s.rzEmissionIndex)
    (hb : t.poolBalances = s.poolBalances)
    (hget : ∀ p, p ≠ q → t.rzEmisData.get p = s.rzEmisData.get p)
    (hseen : t.seenIndex q = t.rzEmissionIndex) (hacc : totalAccrued t = totalAccrued s) :
    owedScaled c t = owedScaled c s := by
  unfold owedScaled zonePending
  rw [hz, List.map_cons, List.sum_cons, pendingScaled_of_seen hseen, zero_add,
    List.map_congr_left (g := pendingScaled c s) fun p hp => pendingScaled_congr
      (by simp [State.poolBalance, hb]) (hget p fun h => hq (h ▸ hp)) hG, hacc]

/-- **Evicting** keeps `AccrualInv` and drops the evicted pool's pending emissions from what is
owed. -/
theorem removePool_inv {s s₁ : State} {now : Nat} {rz₁ : List Address} {r : Address}
    (hinv : AccrualInv c s) (h : removePool s now s.rewardZone r = .ok (s₁, rz₁)) :
    AccrualInv c { s₁ with rewardZone := rz₁ } ∧ s₁.rzEmissionIndex = s.rzEmissionIndex ∧
      owedScaled c { s₁ with rewardZone := rz₁ } ≤ owedScaled c s := by
  obtain ⟨hr, -, -, rfl, d, hd, rfl⟩ := removePool_eq_ok h
  obtain ⟨hwf, -, hmem⟩ := hinv.wf.erase hr
  obtain ⟨d', hd', hle⟩ := hinv.zone r hr
  rw [hd] at hd'; cases hd'
  refine ⟨⟨hwf, hinv.nonneg, hinv.index_le, fun q hq => ?_, fun q e hq he => ?_, fun q e he => ?_⟩,
    rfl, ?_⟩
  · obtain ⟨hq, hqr⟩ := (hmem q).1 hq
    rw [Store.get_set_ne _ _ hqr]; exact hinv.zone q hq
  · by_cases hqr : q = r
    · subst hqr; rw [Store.get_set_self] at he; cases he; rfl
    · rw [Store.get_set_ne _ _ hqr] at he
      exact hinv.evicted q e (fun h => hq ((hmem q).2 ⟨h, hqr⟩)) he
  · by_cases hqr : q = r
    · subst hqr; rw [Store.get_set_self] at he; cases he; exact hinv.accrued _ d hd
    · rw [Store.get_set_ne _ _ hqr] at he; exact hinv.accrued q e he
  · have hsum := Store.sum_set (·.accrued) s.rzEmisData r ⟨i128Max, d.accrued⟩
    rw [hd] at hsum
    simp only [Option.map_some', Option.getD_some, add_left_inj] at hsum
    have hpend : 0 ≤ pendingScaled c s r := by
      rw [pendingScaled_of_get hd]; exact mul_nonneg (hinv.nonneg r) (by omega)
    exact owedScaled_erase hinv.wf.nodup hr rfl rfl rfl (fun q hq => Store.get_set_ne _ _ hq) hsum
      hpend

/-- **Admitting** a pool at the global index, with the `accrued` it had, keeps `AccrualInv` and what
is owed. -/
theorem admit_inv {s : State} {q : Address} (hinv : AccrualInv c s) (hq : q ∉ s.rewardZone)
    (hroom : s.rewardZone.length < maxRzSize) :
    AccrualInv c { s with
      rzEmisData := s.rzEmisData.set q ⟨s.rzEmissionIndex, accruedOf s q⟩
      rewardZone := q :: s.rewardZone } ∧
    owedScaled c { s with
      rzEmisData := s.rzEmisData.set q ⟨s.rzEmissionIndex, accruedOf s q⟩
      rewardZone := q :: s.rewardZone } = owedScaled c s := by
  refine ⟨⟨hinv.wf.cons hq hroom, hinv.nonneg, hinv.index_le, fun p hp => ?_, fun p e hp he => ?_,
    fun p e he => ?_⟩, ?_⟩
  · by_cases hpq : p = q
    · subst hpq; exact ⟨_, Store.get_set_self _ _ _, le_rfl⟩
    · rw [Store.get_set_ne _ _ hpq]
      exact hinv.zone p ((List.mem_cons.1 hp).resolve_left hpq)
  · have hpq : p ≠ q := fun h => hp (h ▸ List.mem_cons_self _ _)
    rw [Store.get_set_ne _ _ hpq] at he
    exact hinv.evicted p e (fun h => hp (List.mem_cons_of_mem _ h)) he
  · by_cases hpq : p = q
    · subst hpq; rw [Store.get_set_self] at he; cases he
      cases hg : s.rzEmisData.get p <;> simp [accruedOf, hg]
      exact hinv.accrued p _ hg
    · rw [Store.get_set_ne _ _ hpq] at he; exact hinv.accrued p e he
  · have hsum := Store.sum_set (·.accrued) s.rzEmisData q ⟨s.rzEmissionIndex, accruedOf s q⟩
    simp only [accruedOf, add_left_inj] at hsum
    exact owedScaled_cons hq rfl rfl rfl (fun p hp => Store.get_set_ne _ _ hp)
      (by simp [State.seenIndex]) hsum

theorem AccrualInv.of_frame {s t : State} (hinv : AccrualInv c s)
    (hz : t.rewardZone = s.rewardZone) (hG : t.rzEmissionIndex = s.rzEmissionIndex)
    (hd : t.rzEmisData = s.rzEmisData) (hb : t.poolBalances = s.poolBalances) :
    AccrualInv c t := by
  cases t; cases s
  dsimp only at hz hG hd hb
  subst hz hG hd hb
  exact ⟨hinv.1, hinv.2, hinv.3, hinv.4, hinv.5, hinv.6⟩

theorem owedScaled_of_frame {s t : State} (hz : t.rewardZone = s.rewardZone)
    (hG : t.rzEmissionIndex = s.rzEmissionIndex) (hd : t.rzEmisData = s.rzEmisData)
    (hb : t.poolBalances = s.poolBalances) : owedScaled c t = owedScaled c s := by
  cases t; cases s
  dsimp only at hz hG hd hb
  subst hz hG hd hb
  rfl

theorem zonePending_raise {s t : State} (hinv : AccrualInv c s) (d : Int)
    (hz : t.rewardZone = s.rewardZone) (hG : t.rzEmissionIndex = s.rzEmissionIndex + d)
    (hd : t.rzEmisData = s.rzEmisData) (hb : t.poolBalances = s.poolBalances) :
    zonePending c t = zonePending c s + d * zoneTokens c s := by
  unfold zonePending zoneTokens
  rw [hz, ← List.sum_map_mul_left, ← List.sum_map_add]
  congr 1
  refine List.map_congr_left fun p hp => ?_
  obtain ⟨e, he, -⟩ := hinv.zone p hp
  rw [pendingScaled_of_get (hd ▸ he), pendingScaled_of_get he, hG]
  simp only [State.poolBalance, hb]
  ring

/-- **Distributing** keeps `AccrualInv`, does not lower the global index, and adds to what is owed
at most `SCALAR_14` times what it credited. -/
theorem distribute_inv {s s' : State} {now : Nat} {reply : Option Nat} {n : Int}
    (hinv : AccrualInv c s) (h : distribute c s now reply = .ok (s', n)) :
    AccrualInv c s' ∧ s.rzEmissionIndex ≤ s'.rzEmissionIndex ∧
      owedScaled c s' ≤ owedScaled c s + scalar14 * n := by
  rcases distribute_eq_ok h with ⟨-, rfl, rfl⟩ | ⟨-, -, -, -, rfl, -, d, hd, hin, rfl⟩
  · exact ⟨hinv.of_frame rfl rfl rfl rfl, le_rfl,
      by rw [mul_zero, add_zero]; exact (owedScaled_of_frame rfl rfl rfl rfl).le⟩
  have hT : 0 ≤ zoneTokens c s := List.sum_nonneg fun _ hx => by
    obtain ⟨p, -, rfl⟩ := List.mem_map.1 hx; exact hinv.nonneg p
  obtain ⟨hT, rfl⟩ := fixedDivFloor_eq_some hd hT
  generalize hN : ((emitterRead s.backfillStatus now reply).emitterLastDistribution -
    s.lastDistributionTime : Nat) = N at *
  have h0 : 0 ≤ (N : Int) * scalar7 * scalar14 / zoneTokens c s :=
    Int.ediv_nonneg (by unfold scalar7 scalar14; omega) hT.le
  have hle := Int.ediv_mul_le ((N : Int) * scalar7 * scalar14) hT.ne'
  have hraise := zonePending_raise (t := { s with
    backfillStatus := (emitterRead s.backfillStatus now reply).backfillStatus
    lastDistributionTime := (emitterRead s.backfillStatus now reply).emitterLastDistribution
    backfillEmissions := s.backfillEmissions +
      if (emitterRead s.backfillStatus now reply).isBackfill then (N : Int) * scalar7 else 0
    rzEmissionIndex := s.rzEmissionIndex + (N : Int) * scalar7 * scalar14 / zoneTokens c s })
    hinv _ rfl rfl rfl rfl
  refine ⟨⟨hinv.wf, hinv.nonneg, hin.2, fun p hp => ?_, hinv.evicted, hinv.accrued⟩,
    by dsimp only; omega, ?_⟩
  · obtain ⟨e, he, hle⟩ := hinv.zone p hp
    exact ⟨e, he, by dsimp only; omega⟩
  · unfold owedScaled at *
    rw [hraise]
    dsimp only [totalAccrued]
    linarith only [hle]

theorem owedScaled_setBalance {t : State} {p : Address} (b : PoolBalance)
    (hseen : p ∈ t.rewardZone → t.seenIndex p = t.rzEmissionIndex) :
    owedScaled c { t with poolBalances := t.poolBalances.set p b } = owedScaled c t := by
  have h : ∀ q ∈ t.rewardZone,
      pendingScaled c { t with poolBalances := t.poolBalances.set p b } q = pendingScaled c t q := by
    intro q hq
    by_cases hqp : q = p
    · subst hqp
      rw [pendingScaled_of_seen (hseen hq)]
      exact pendingScaled_of_seen (hseen hq)
    · exact pendingScaled_congr (by simp only [State.poolBalance, Store.get_set_ne _ _ hqp]) rfl rfl
  unfold owedScaled zonePending
  rw [List.map_congr_left h]
  rfl

/-- **Changing a balance** after realising the pool keeps `AccrualInv` and the global index and does
not raise what is owed. -/
theorem setPoolBalance_inv {s s₁ : State} {p : Address} {b : PoolBalance} {x : Int}
    (hinv : AccrualInv c s) (h : updateRzEmisData c s p false = .ok (s₁, x))
    (hb : 0 ≤ c.nonQueuedTokens b) :
    AccrualInv c { s₁ with poolBalances := s₁.poolBalances.set p b } ∧
      s₁.rzEmissionIndex = s.rzEmissionIndex ∧
      owedScaled c { s₁ with poolBalances := s₁.poolBalances.set p b } ≤ owedScaled c s := by
  obtain ⟨hinv₁, hseen, hx, howed⟩ := updateRzEmisData_inv hinv h (by simp)
  obtain ⟨m, rfl⟩ := updateRzEmisData_frame h
  refine ⟨⟨hinv₁.wf, fun q => ?_, hinv₁.index_le, hinv₁.zone, hinv₁.evicted, hinv₁.accrued⟩, rfl,
    ?_⟩
  · by_cases hqp : q = p
    · subst hqp; simpa only [State.poolBalance, Store.get_set_self] using hb
    · simpa only [State.poolBalance, Store.get_set_ne _ _ hqp] using hinv₁.nonneg q
  · rw [owedScaled_setBalance b hseen]
    have : 0 ≤ scalar14 * x := mul_nonneg (by unfold scalar14; omega) hx
    omega

/-- **Gulping** a zone pool or a pool without a record keeps `AccrualInv` and lowers what is owed by
`SCALAR_14` times what it realised. -/
theorem gulpEmissions_inv {s s' : State} {ledger : Ledger} {p : Address} {a : Int}
    {shares : Int × Int} {approved : Option Int} (hinv : AccrualInv c s)
    (h : gulpEmissions c s ledger p a = .ok (s', shares, approved))
    (hg : p ∈ s.rewardZone ∨ s.rzEmisData.get p = none) :
    ∃ s₁ x, updateRzEmisData c s p true = .ok (s₁, x) ∧ AccrualInv c s' ∧
      s'.rzEmissionIndex = s.rzEmissionIndex ∧ owedScaled c s' + scalar14 * x ≤ owedScaled c s ∧
      0 ≤ shares.1 ∧ 0 ≤ shares.2 ∧ shares.1 + shares.2 ≤ x := by
  obtain ⟨s₁, x, hu, hcase⟩ := gulpEmissions_eq_ok h
  obtain ⟨hinv₁, -, hx, howed⟩ := updateRzEmisData_inv hinv hu fun _ => hg
  obtain ⟨m, rfl⟩ := updateRzEmisData_frame hu
  refine ⟨_, x, hu, ?_⟩
  rcases hcase with ⟨-, rfl, -, hset⟩ | ⟨-, rfl, -, rfl⟩
  · obtain ⟨d, -, rfl⟩ := setBackstopEmissionEps_eq_ok hset
    refine ⟨hinv₁.of_frame rfl rfl rfl rfl, rfl, howed, ?_⟩
    unfold scalar7; dsimp only; omega
  · exact ⟨hinv₁, rfl, howed, le_rfl, le_rfl, by simpa using hx⟩

/-! ### Runs -/

def Entry.backstopShare (e : Entry) : Int :=
  match e.ret with
  | .gulped backstop _ _ => backstop
  | _ => 0

def Entry.poolShare (e : Entry) : Int :=
  match e.ret with
  | .gulped _ pool _ => pool
  | _ => 0

def Entry.HandsOutRealised (c : Config) (e : Entry) : Prop :=
  0 ≤ e.backstopShare ∧ 0 ≤ e.poolShare ∧ e.backstopShare + e.poolShare ≤ e.realisedByGulp c

def Entry.setsNegativeBalance (c : Config) (e : Entry) : Bool :=
  match e.call.op with
  | .setPoolBalance _ b => decide (c.nonQueuedTokens b < 0)
  | _ => false

def Entry.gulpsEvicted (e : Entry) : Bool :=
  match e.call.op with
  | .gulpEmissions p _ => decide (p ∉ e.pre.rewardZone) && (e.pre.rzEmisData.get p).isSome
  | _ => false

/-- **One call** that sets no negative balance and gulps no evicted pool keeps `AccrualInv`; what is
owed grows by at most `SCALAR_14` times what it credited less what it realised. -/
theorem accrualInv_step {s s' : State} {call : Call} {r : Ret} (hinv : AccrualInv c s)
    (h : step c s call = .ok (s', r))
    (hbal : Entry.setsNegativeBalance c ⟨s, call, r, s'⟩ = false)
    (hgulp : Entry.gulpsEvicted ⟨s, call, r, s'⟩ = false) :
    AccrualInv c s' ∧ s.rzEmissionIndex ≤ s'.rzEmissionIndex ∧
      owedScaled c s' + scalar14 * Entry.realisedByGulp c ⟨s, call, r, s'⟩ ≤
        owedScaled c s + scalar14 * Entry.distributed ⟨s, call, r, s'⟩ ∧
      Entry.HandsOutRealised c ⟨s, call, r, s'⟩ := by
  unfold Entry.setsNegativeBalance at hbal
  unfold Entry.gulpsEvicted at hgulp
  unfold Entry.HandsOutRealised Entry.realisedByGulp Entry.distributed Entry.backstopShare
    Entry.poolShare
  rcases step_eq_ok h with ⟨q, t, above, hop, rfl, ha⟩ | ⟨t, above, hop, rfl, hr⟩ |
    ⟨reply, n, hop, rfl, hd⟩ | ⟨p, a, shares, approved, hop, rfl, hg⟩ | ⟨p, x, hop, rfl, hu⟩ |
    ⟨p, b, s₁, x, hop, rfl, hu, rfl⟩
  case inl =>
    simp only [hop, mul_zero, add_zero, le_refl, and_true]
    obtain ⟨hq, -, s₁, rz₁, hz, rfl⟩ := addToRewardZone_eq_ok ha
    rcases hz with ⟨hroom, rfl, rfl⟩ | ⟨-, t, -, -, hrem⟩
    · exact ⟨(admit_inv hinv hq hroom).1, le_rfl, (admit_inv hinv hq hroom).2.le⟩
    · obtain ⟨hR, -, howed⟩ := removePool_inv hinv hrem
      obtain ⟨ht, -, -, rfl, d, hd, rfl⟩ := removePool_eq_ok hrem
      have hlen := (hinv.wf.erase ht).2.1
      have := hinv.wf.length_le
      have hA := admit_inv hR (fun h => hq (List.mem_of_mem_erase h)) (by dsimp only; omega)
      exact ⟨hA.1, le_rfl, hA.2.le.trans howed⟩
  case inr.inl =>
    obtain ⟨-, s₁, rz₁, hrem, rfl⟩ := removeFromRewardZone_eq_ok hr
    obtain ⟨hR, hG, howed⟩ := removePool_inv hinv hrem
    simpa [hop, hG] using And.intro hR howed
  case inr.inr.inl =>
    obtain ⟨h1, h2, h3⟩ := distribute_inv hinv hd
    simpa [hop] using And.intro h1 (And.intro h2 h3)
  case inr.inr.inr.inl =>
    have hg' : p ∈ s.rewardZone ∨ s.rzEmisData.get p = none := by
      by_cases hp : p ∈ s.rewardZone
      · exact .inl hp
      · simpa [hop, hp, Option.isSome_iff_ne_none] using hgulp
    obtain ⟨s₁, x, hu, h1, h2, h3, h4⟩ := gulpEmissions_inv hinv hg hg'
    simp only [hop, hu]
    exact ⟨h1, h2.ge, by simpa using h3, h4⟩
  case inr.inr.inr.inr.inl =>
    obtain ⟨h1, -, hx, h3⟩ := updateRzEmisData_inv hinv hu (by simp)
    have : 0 ≤ scalar14 * x := mul_nonneg (by unfold scalar14; omega) hx
    simp only [hop]
    exact ⟨h1, (updateRzEmisData_frame hu).elim fun _ h => h ▸ le_rfl, by omega, by simp⟩
  case inr.inr.inr.inr.inr =>
    obtain ⟨h1, h2, h3⟩ := setPoolBalance_inv hinv hu (by simpa [hop] using hbal)
    simpa [hop, h2] using And.intro h1 h3

theorem accrualInv_init (hnq : 0 ≤ c.nonQueuedTokens ⟨0, 0, 0⟩) : AccrualInv c State.init :=
  ⟨zoneWF_nil, fun _ => hnq, by decide, fun _ h => (List.not_mem_nil _ h).elim,
    fun _ _ _ h => Option.noConfusion h, fun _ _ h => Option.noConfusion h⟩

theorem conservation_law {s : State} {log : List Entry}
    (hnq : 0 ≤ c.nonQueuedTokens ⟨0, 0, 0⟩) (hrun : Run c s log)
    (hbal : ∀ e ∈ log, e.setsNegativeBalance c = false) (hgulp : ∀ e ∈ log, e.gulpsEvicted = false) :
    AccrualInv c s ∧
      scalar14 * ((log.map (Entry.realisedByGulp c)).sum + totalAccrued s) + zonePending c s ≤
        scalar14 * (log.map Entry.distributed).sum ∧
      ∀ e ∈ log, e.pre.rzEmissionIndex ≤ e.post.rzEmissionIndex ∧
        e.HandsOutRealised c := by
  induction hrun with
  | init =>
    exact ⟨accrualInv_init hnq, by simp [totalAccrued, zonePending, State.init, Store.sum, Store.empty],
      fun _ h => (List.not_mem_nil _ h).elim⟩
  | step _ hs ih =>
    simp only [List.mem_append, List.mem_singleton] at hbal hgulp
    obtain ⟨hinv, hlaw, hlog⟩ := ih (fun e he => hbal e (.inl he)) (fun e he => hgulp e (.inl he))
    obtain ⟨hinv', hG, hstep, hout⟩ :=
      accrualInv_step hinv hs (hbal _ (.inr rfl)) (hgulp _ (.inr rfl))
    refine ⟨hinv', ?_, fun e he => ?_⟩
    · simp only [List.map_append, List.map_singleton, List.sum_append, List.sum_singleton]
      unfold owedScaled scalar14 at *
      omega
    · rcases List.mem_append.1 he with he | he
      · exact hlog e he
      · rw [List.mem_singleton.1 he]; exact ⟨hG, hout⟩

/-- **Conservation of emissions.**  On every run with non-negative non-queued tokens that gulps no
evicted pool, what the gulps realised plus what the manager owes stays within what `distribute`
credited, also counted in whole units. -/
theorem conservation {s : State} {log : List Entry} (hnq : 0 ≤ c.nonQueuedTokens ⟨0, 0, 0⟩)
    (hrun : Run c s log) (hbal : ∀ e ∈ log, e.setsNegativeBalance c = false)
    (hgulp : ∀ e ∈ log, e.gulpsEvicted = false) :
    AccrualInv c s ∧
      scalar14 * ((log.map (Entry.realisedByGulp c)).sum + totalAccrued s) + zonePending c s ≤
        scalar14 * (log.map Entry.distributed).sum ∧
      emissionTotal c s log ≤ (log.map Entry.distributed).sum ∧
      ∀ e ∈ log, e.pre.rzEmissionIndex ≤ e.post.rzEmissionIndex ∧
        e.HandsOutRealised c := by
  obtain ⟨hinv, hlaw, hlog⟩ := conservation_law hnq hrun hbal hgulp
  refine ⟨hinv, hlaw, ?_, hlog⟩
  have hround : ∀ l : List Address,
      scalar14 * (l.map fun p => pendingScaled c s p / scalar14).sum ≤
        (l.map (pendingScaled c s)).sum := by
    intro l
    induction l with
    | nil => simp
    | cons p l ih =>
      simp only [List.map_cons, List.sum_cons]
      unfold scalar14 at *
      omega
  have := hround s.rewardZone
  unfold emissionTotal
  unfold zonePending scalar14 at *
  omega

theorem conservation_sample :
    AccrualInv specConfig sampleRun.1 ∧
      scalar14 * ((sampleRun.2.map (Entry.realisedByGulp specConfig)).sum +
          totalAccrued sampleRun.1) + zonePending specConfig sampleRun.1 ≤
        scalar14 * (sampleRun.2.map Entry.distributed).sum ∧
      emissionTotal specConfig sampleRun.1 sampleRun.2 ≤ (sampleRun.2.map Entry.distributed).sum ∧
      ∀ e ∈ sampleRun.2, e.pre.rzEmissionIndex ≤ e.post.rzEmissionIndex ∧
        e.HandsOutRealised specConfig :=
  conservation (by decide) sampleRun_run (by decide) (by decide)

/-! ### Gulping an evicted pool -/

/-- On the re-entry run, whose balances all have non-negative non-queued tokens, the gulps
realised `86 400` tokens and the pool left in the zone is owed `129 600`, while `distribute`
credited `172 800` (tokens have seven decimals). -/
theorem emissions_overdistributed :
    Run specConfig reentryRun.1 reentryRun.2 ∧
    (∀ e ∈ reentryRun.2, e.setsNegativeBalance specConfig = false) ∧
    (reentryRun.2.map Entry.distributed).sum = 1728000000000 ∧
    emissionTotal specConfig reentryRun.1 reentryRun.2 = 2160000000000 :=
  ⟨reentryRun_run, by decide, by decide, by decide⟩


/-! ### The emission budget -/

/-- **One token per second.**  On those runs whose emitter never goes back, the gulps, the stored
`accrued` and the zone's pending emissions stay within one token per second of emitter time since
the first distribution. -/
theorem emission_budget (hnq : 0 ≤ c.nonQueuedTokens ⟨0, 0, 0⟩) {s : State} {log : List Entry}
    (hrun : Run c s log) (hbal : ∀ e ∈ log, e.setsNegativeBalance c = false)
    (hgulp : ∀ e ∈ log, e.gulpsEvicted = false) (hmono : EmitterMonotone log) :
    scalar14 * ((log.map (Entry.realisedByGulp c)).sum + totalAccrued s) + zonePending c s ≤
      scalar14 * (scalar7 * ((s.lastDistributionTime - firstDistributionTime log : Nat) : Int)) :=
  calc _ ≤ scalar14 * (log.map Entry.distributed).sum := (conservation_law hnq hrun hbal hgulp).2.1
    _ ≤ _ := mul_le_mul_of_nonneg_left (clockInv_run hrun hmono).total (by decide)

theorem emission_budget_sample :
    EmitterMonotone sampleRun.2 ∧
      scalar14 * ((sampleRun.2.map (Entry.realisedByGulp specConfig)).sum +
          totalAccrued sampleRun.1) + zonePending specConfig sampleRun.1 ≤
        scalar14 * (scalar7 *
          ((sampleRun.1.lastDistributionTime - firstDistributionTime sampleRun.2 : Nat) : Int)) :=
  have hmono : EmitterMonotone sampleRun.2 := by decide
  ⟨hmono, emission_budget (by decide) sampleRun_run (by decide) (by decide) hmono⟩

end BlendBackstop
