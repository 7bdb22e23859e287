import BlendBackstop.Spec

/-!
# Evicted pools

`remove_pool` evicts a pool by setting its index to `i128::MAX`, "to prevent further
emissions".  Two things in `manager.rs` work against that comment and the one above it, "update
backstop emissions for the pool before removing it from the reward zone".

* `remove_pool` keeps the stored `accrued` and drops what the global index has credited the
  pool since its last update (`removePool_keeps_accrued`; at a concrete eviction,
  `remove_pool_drops_pending`).
* `update_rz_emis_data(pool, true)` has no case for an evicted pool.  With no non-queued tokens
  it moves the index back to the global one, and the pool accrues again outside the reward zone
  (`evicted_pool_reaccrues`).  With two or more, `n * (G - i128::MAX)` leaves the `i128` range
  and `gulp_emissions` panics, as the integration test expects (`gulp_evicted`).

The concrete runs start from the sample run's time: two pools of a hundred tokens each, a day
of emissions, and the eviction of the first pool.
-/

namespace BlendBackstop

variable {c : Config}

/-- **Eviction keeps `accrued` as it is.**  The evicted record becomes
`{index: i128::MAX, accrued}`; what the global index credited the pool since its last update is
dropped. -/
theorem removePool_keeps_accrued {s s' : State} {now : Nat} {rz rz' : List Address} {r : Address}
    (h : removePool s now rz r = .ok (s', rz')) :
    s'.rzEmisData.get r = (s.rzEmisData.get r).map fun d => ⟨i128Max, d.accrued⟩ := by
  obtain ⟨-, -, -, -, d, hd, rfl⟩ := removePool_eq_ok h
  simp [hd, Store.get_set_self]

theorem updateRzEmisData_evicted_panics {s : State} {p : Address} {a : Int}
    (hrec : s.rzEmisData.get p = some ⟨i128Max, a⟩) (hG : 0 ≤ s.rzEmissionIndex)
    (hG' : s.rzEmissionIndex < i128Max) (hn : 0 ≤ c.nonQueuedTokens (s.poolBalance p))
    (hout : ¬ InI128 (c.nonQueuedTokens (s.poolBalance p) * (s.rzEmissionIndex - i128Max))) :
    updateRzEmisData c s p true = .error .unwrap := by
  have hn0 : 0 < c.nonQueuedTokens (s.poolBalance p) :=
    lt_of_le_of_ne hn fun h => hout (by rw [← h, zero_mul]; decide)
  have hsub : InI128 (s.rzEmissionIndex - i128Max) := by unfold InI128 i128Min i128Max at *; omega
  simp only [updateRzEmisData, hrec, or_true, if_true, if_pos hn0, i128Sub_ok hsub, ok_bind,
    fixedMulFloor, mulDivFloor_eq_none hout, unwrapOptimized, error_bind]

theorem updateRzEmisData_evicted_empty {s : State} {p : Address} {a : Int}
    (hrec : s.rzEmisData.get p = some ⟨i128Max, a⟩) (hn : c.nonQueuedTokens (s.poolBalance p) = 0) :
    updateRzEmisData c s p true = .ok (setRzEmissions s p s.rzEmissionIndex a true) := by
  simp [updateRzEmisData, hrec, hn]

/-- **Gulping an evicted pool** with `n ≥ 0` non-queued tokens under a global index
`0 ≤ G < i128::MAX` panics when `n * (G - i128::MAX)` leaves `i128`.  With `n = 0` it realises
exactly `accrued`, a successful gulp hands out its 70% and 30%, and with none it succeeds. -/
theorem gulp_evicted {s : State} {p : Address} {a : Int} (ledger : Ledger) (allowance : Int)
    (hrec : s.rzEmisData.get p = some ⟨i128Max, a⟩) (hn : 0 ≤ c.nonQueuedTokens (s.poolBalance p))
    (hG : 0 ≤ s.rzEmissionIndex) (hG' : s.rzEmissionIndex < i128Max) :
    (¬ InI128 (c.nonQueuedTokens (s.poolBalance p) * (s.rzEmissionIndex - i128Max)) →
      gulpEmissions c s ledger p allowance = .error .unwrap) ∧
    (c.nonQueuedTokens (s.poolBalance p) = 0 →
      (∃ s₁, updateRzEmisData c s p true = .ok (s₁, a) ∧ accruedOf s₁ p = 0) ∧
      (∀ s' shares approved, gulpEmissions c s ledger p allowance = .ok (s', shares, approved) →
        shares = if 0 < a then (a * 7000000 / scalar7, a * 3000000 / scalar7) else (0, 0)) ∧
      (a = 0 → ∃ s', gulpEmissions c s ledger p allowance = .ok (s', (0, 0), none))) := by
  refine ⟨fun hout => ?_, fun h0 => ?_⟩
  · simp only [gulpEmissions, updateRzEmisData_evicted_panics hrec hG hG' hn hout, error_bind]
  · have hu := updateRzEmisData_evicted_empty hrec h0
    rw [setRzEmissions, if_pos rfl] at hu
    refine ⟨⟨_, hu, by simp [accruedOf, Store.get_set_self]⟩, fun s' shares approved hg => ?_,
      fun ha => ⟨_, by simp [gulpEmissions, hu, ha]; rfl⟩⟩
    obtain ⟨s₁, x, hx, hcase⟩ := gulpEmissions_eq_ok hg
    rw [hu] at hx
    obtain ⟨-, rfl⟩ := Prod.mk.inj (Except.ok.inj hx)
    rcases hcase with ⟨hpos, rfl, -⟩ | ⟨hle, rfl, -⟩
    · rw [if_pos hpos]
    · rw [if_neg (not_lt.2 hle)]

/-! ### An eviction -/

/-- Two pools of a hundred tokens join the reward zone, a day of emissions is distributed, and
the first pool is evicted. -/
def evictCalls : List Call :=
  [⟨⟨1713139200, 1⟩, .distribute (some 1713139200)⟩,
   ⟨⟨1713139200, 1⟩, .setPoolBalance 1 ⟨1000000000, 1000000000, 0⟩⟩,
   ⟨⟨1713139200, 1⟩, .setPoolBalance 2 ⟨1000000000, 1000000000, 0⟩⟩,
   ⟨⟨1713139200, 1⟩, .addToRewardZone 1 none true⟩,
   ⟨⟨1713139200, 1⟩, .addToRewardZone 2 none true⟩,
   ⟨⟨1713225600, 2⟩, .distribute (some 1713225600)⟩,
   ⟨⟨1713225600, 2⟩, .removeFromRewardZone 1 false⟩]

theorem evictCalls_ok : (runCalls specConfig State.init [] evictCalls).isSome = true := by rfl

def evictRun : State × List Entry := (runCalls specConfig State.init [] evictCalls).get evictCalls_ok

theorem evictRun_run : Run specConfig evictRun.1 evictRun.2 :=
  Run.of_runCalls Run.init (Option.some_get evictCalls_ok).symm

/-- At the eviction the first pool had been credited `43 200` tokens through the global index; its
record afterwards still says `accrued = 0`. -/
theorem remove_pool_drops_pending :
    Run specConfig evictRun.1 evictRun.2 ∧
    ∃ e ∈ evictRun.2, e.call.op = .removeFromRewardZone 1 false ∧ 1 ∈ e.pre.rewardZone ∧
      e.pre.rzEmisData.get 1 = some ⟨0, 0⟩ ∧
      realised specConfig e.pre 1 ⟨0, 0⟩ = 432000000000 ∧
      e.post.rzEmisData.get 1 = some ⟨i128Max, 0⟩ := by
  refine ⟨evictRun_run, ?_⟩
  obtain ⟨e, he, hop, hz, hd, hr⟩ : ∃ e ∈ evictRun.2, e.call.op = .removeFromRewardZone 1 false ∧
      1 ∈ e.pre.rewardZone ∧ e.pre.rzEmisData.get 1 = some ⟨0, 0⟩ ∧
      realised specConfig e.pre 1 ⟨0, 0⟩ = 432000000000 := by decide
  refine ⟨e, he, hop, hz, hd, hr, ?_⟩
  have hs := evictRun_run.step_of_mem he
  rw [step, hop] at hs
  obtain ⟨s₂, hrz, hpost⟩ := map_eq_ok.1 hs
  obtain ⟨-, s₁, rz₁, hrem, rfl⟩ := removeFromRewardZone_eq_ok hrz
  rw [← (Prod.mk.inj hpost).1]
  exact (removePool_keeps_accrued hrem).trans (by rw [hd]; rfl)

/-- After the eviction the evicted pool still holds its hundred tokens, and gulping it
panics. -/
theorem gulp_evicted_panics :
    Run specConfig evictRun.1 evictRun.2 ∧ 1 ∉ evictRun.1.rewardZone ∧
    evictRun.1.rzEmisData.get 1 = some ⟨i128Max, 0⟩ ∧
    specConfig.nonQueuedTokens (evictRun.1.poolBalance 1) = 1000000000 ∧
    evictRun.1.rzEmissionIndex < i128Max ∧
    gulpEmissions specConfig evictRun.1 ⟨1713225600, 2⟩ 1 0 = .error .unwrap :=
  ⟨evictRun_run, by decide, by decide, by decide, by decide, by rfl⟩

/-- The eviction run where the first pool realises its day before it is evicted, and then
withdraws everything: an evicted pool with `accrued > 0` and no non-queued tokens. -/
def drainedCalls : List Call :=
  evictCalls.take 6 ++
  [⟨⟨1713225600, 2⟩, .updateRzEmisData 1⟩,
   ⟨⟨1713225600, 2⟩, .removeFromRewardZone 1 false⟩,
   ⟨⟨1713225600, 2⟩, .setPoolBalance 1 ⟨0, 0, 0⟩⟩]

theorem drainedCalls_ok : (runCalls specConfig State.init [] drainedCalls).isSome = true := by
  rfl

def drainedRun : State × List Entry :=
  (runCalls specConfig State.init [] drainedCalls).get drainedCalls_ok

/-- Both sides of `gulp_evicted`: the evicted pool of the eviction run holds `10^9` non-queued
tokens and its gulp panics; the drained pool holds none and `432 000 000 000` accrued. -/
theorem gulp_evicted_sample :
    (evictRun.1.rzEmisData.get 1 = some ⟨i128Max, 0⟩ ∧
      0 ≤ specConfig.nonQueuedTokens (evictRun.1.poolBalance 1) ∧
      0 ≤ evictRun.1.rzEmissionIndex ∧ evictRun.1.rzEmissionIndex < i128Max ∧
      (¬ InI128 (specConfig.nonQueuedTokens (evictRun.1.poolBalance 1) *
          (evictRun.1.rzEmissionIndex - i128Max)) →
        gulpEmissions specConfig evictRun.1 ⟨1713225600, 2⟩ 1 0 = .error .unwrap) ∧
      (specConfig.nonQueuedTokens (evictRun.1.poolBalance 1) = 0 →
        (∃ s₁, updateRzEmisData specConfig evictRun.1 1 true = .ok (s₁, 0) ∧
          accruedOf s₁ 1 = 0) ∧
        (∀ s' shares approved,
          gulpEmissions specConfig evictRun.1 ⟨1713225600, 2⟩ 1 0 = .ok (s', shares, approved) →
          shares = if (0 : Int) < 0 then (0 * 7000000 / scalar7, 0 * 3000000 / scalar7)
            else (0, 0)) ∧
        ((0 : Int) = 0 →
          ∃ s', gulpEmissions specConfig evictRun.1 ⟨1713225600, 2⟩ 1 0 = .ok (s', (0, 0), none)))) ∧
    (drainedRun.1.rzEmisData.get 1 = some ⟨i128Max, 432000000000⟩ ∧
      0 ≤ specConfig.nonQueuedTokens (drainedRun.1.poolBalance 1) ∧
      0 ≤ drainedRun.1.rzEmissionIndex ∧ drainedRun.1.rzEmissionIndex < i128Max ∧
      (¬ InI128 (specConfig.nonQueuedTokens (drainedRun.1.poolBalance 1) *
          (drainedRun.1.rzEmissionIndex - i128Max)) →
        gulpEmissions specConfig drainedRun.1 ⟨1713225600, 2⟩ 1 0 = .error .unwrap) ∧
      (specConfig.nonQueuedTokens (drainedRun.1.poolBalance 1) = 0 →
        (∃ s₁, updateRzEmisData specConfig drainedRun.1 1 true = .ok (s₁, 432000000000) ∧
          accruedOf s₁ 1 = 0) ∧
        (∀ s' shares approved,
          gulpEmissions specConfig drainedRun.1 ⟨1713225600, 2⟩ 1 0 = .ok (s', shares, approved) →
          shares = if (0 : Int) < 432000000000 then
            (432000000000 * 7000000 / scalar7, 432000000000 * 3000000 / scalar7) else (0, 0)) ∧
        ((432000000000 : Int) = 0 →
          ∃ s', gulpEmissions specConfig drainedRun.1 ⟨1713225600, 2⟩ 1 0 =
            .ok (s', (0, 0), none)))) ∧
    specConfig.nonQueuedTokens (drainedRun.1.poolBalance 1) = 0 :=
  have hrec : evictRun.1.rzEmisData.get 1 = some ⟨i128Max, 0⟩ := by decide
  have hn : 0 ≤ specConfig.nonQueuedTokens (evictRun.1.poolBalance 1) := by decide
  have hG : 0 ≤ evictRun.1.rzEmissionIndex := by decide
  have hG' : evictRun.1.rzEmissionIndex < i128Max := by decide
  have hrec₀ : drainedRun.1.rzEmisData.get 1 = some ⟨i128Max, 432000000000⟩ := by decide
  have hn₀ : specConfig.nonQueuedTokens (drainedRun.1.poolBalance 1) = 0 := by decide
  have hG₀ : 0 ≤ drainedRun.1.rzEmissionIndex := by decide
  have hG₀' : drainedRun.1.rzEmissionIndex < i128Max := by decide
  ⟨⟨hrec, hn, hG, hG', gulp_evicted ⟨1713225600, 2⟩ 0 hrec hn hG hG'⟩,
    ⟨hrec₀, hn₀.ge, hG₀, hG₀', gulp_evicted ⟨1713225600, 2⟩ 0 hrec₀ hn₀.ge hG₀ hG₀'⟩, hn₀⟩

/-! ### An evicted pool accruing again -/

def reentryCalls : List Call :=
  evictCalls ++
  [⟨⟨1713225600, 2⟩, .setPoolBalance 1 ⟨0, 0, 0⟩⟩,
   ⟨⟨1713225600, 2⟩, .gulpEmissions 1 0⟩,
   ⟨⟨1713225600, 2⟩, .setPoolBalance 1 ⟨1000000000, 1000000000, 0⟩⟩,
   ⟨⟨1713312000, 3⟩, .distribute (some 1713312000)⟩,
   ⟨⟨1713312000, 3⟩, .gulpEmissions 1 0⟩]

theorem reentryCalls_ok : (runCalls specConfig State.init [] reentryCalls).isSome = true := by rfl

def reentryRun : State × List Entry :=
  (runCalls specConfig State.init [] reentryCalls).get reentryCalls_ok

theorem reentryRun_run : Run specConfig reentryRun.1 reentryRun.2 :=
  Run.of_runCalls Run.init (Option.some_get reentryCalls_ok).symm

/-- After the eviction the pool withdraws, is gulped with no tokens and deposits again: it stays
outside the zone below `i128::MAX`, and realises the whole `86 400` tokens of a distribution that
ran while it was outside. -/
theorem evicted_pool_reaccrues :
    Run specConfig reentryRun.1 reentryRun.2 ∧
    (∃ e ∈ reentryRun.2, 1 ∉ e.post.rewardZone ∧
      e.post.rzEmisData.get 1 = some ⟨43200000000000000, 0⟩) ∧
    (∀ e ∈ reentryRun.2, e.call.op = .distribute (some 1713312000) → 1 ∉ e.pre.rewardZone) ∧
    ∃ e ∈ reentryRun.2, e.call.op = .gulpEmissions 1 0 ∧ 1 ∉ e.pre.rewardZone ∧
      e.ret = .gulped 604800000000 259200000000 (some 259200000000) :=
  ⟨reentryRun_run, by decide, by decide, by decide⟩

end BlendBackstop
