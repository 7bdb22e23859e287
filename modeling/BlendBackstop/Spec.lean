import BlendBackstop.Run

/-!
# What a successful call does

One lemma per function of the manager says everything a successful call did to the state:
`removePool_eq_ok`, `addToRewardZone_eq_ok`, `removeFromRewardZone_eq_ok`,
`updateRzEmisData_eq_ok`, `distribute_eq_ok`, `gulpEmissions_eq_ok`.  The proofs of the
invariants read these and never unfold the manager again.  `step_eq_ok` says which operation a
successful call ran, and the frame lemmas which entries each operation can write at all.
-/

namespace BlendBackstop

variable {c : Config} {s s' : State}

/-! ### Realising -/

theorem setRzEmissions_eq (s : State) (pool : Address) (index accrued : Int) (toGulp : Bool) :
    setRzEmissions s pool index accrued toGulp =
      ({ s with rzEmisData := s.rzEmisData.set pool ⟨index, if toGulp then 0 else accrued⟩ },
        if toGulp then accrued else 0) := by
  cases toGulp <;> rfl

/-- What `update_rz_emis_data` credits a pool whose record is `d`: its non-queued tokens times
the index it has not seen, in 14 decimals, rounded down. -/
def realised (c : Config) (s : State) (pool : Address) (d : RzEmissionData) : Int :=
  if 0 < c.nonQueuedTokens (s.poolBalance pool) then
    c.nonQueuedTokens (s.poolBalance pool) * (s.rzEmissionIndex - d.index) / scalar14
  else 0

/-- **`update_rz_emis_data`.**  Either nothing happens (no record, or a record that has seen
the index and no gulp), or the pool's record moves to the global index with what it realised
added, and a gulp takes the whole. -/
theorem updateRzEmisData_eq_ok {pool : Address} {toGulp : Bool} {x : Int}
    (h : updateRzEmisData c s pool toGulp = .ok (s', x)) :
    (s' = s ∧ x = 0 ∧ ∀ d, s.rzEmisData.get pool = some d →
      s.rzEmissionIndex ≤ d.index ∧ toGulp = false) ∨
    ∃ d, s.rzEmisData.get pool = some d ∧ (d.index < s.rzEmissionIndex ∨ toGulp = true) ∧
      (s', x) = setRzEmissions s pool s.rzEmissionIndex (d.accrued + realised c s pool d) toGulp := by
  unfold updateRzEmisData at h
  split at h
  · cases h; exact .inl ⟨rfl, rfl, by simp_all⟩
  · rename_i d hd
    dsimp only at h
    split at h
    · rename_i hgo
      refine .inr ⟨d, hd, hgo, ?_⟩
      split at h
      · rename_i hn
        obtain ⟨gap, hgap, h⟩ := bind_eq_ok.1 h
        obtain ⟨m, hm, h⟩ := bind_eq_ok.1 h
        obtain ⟨acc, hacc, h⟩ := bind_eq_ok.1 h
        rw [← Except.ok.inj h]
        rw [i128Sub_eq_ok hgap] at hm
        obtain ⟨rfl, -⟩ := i128Add_eq_ok hacc
        have hp : InI128 (c.nonQueuedTokens (s.poolBalance pool) * (s.rzEmissionIndex - d.index)) := by
          by_contra hp
          simp [fixedMulFloor, mulDivFloor_eq_none hp] at hm
        rw [unwrapOptimized_eq_ok, fixedMulFloor, mulDivFloor_of_pos hp (by decide)] at hm
        cases hm
        simp only [realised, if_pos hn]
      · rename_i hn
        rw [← Except.ok.inj h]
        simp only [realised, if_neg hn, add_zero]
    · rename_i hno
      cases h
      exact .inl ⟨rfl, rfl, fun d' hd' => by simp_all⟩

/-! ### The reward zone -/

theorem indexOf?_eq_some {l : List Address} {a : Address} {i : Nat} (h : l.indexOf? a = some i) :
    a ∈ l ∧ l.eraseIdx i = l.erase a := by
  induction l generalizing i with
  | nil => cases h
  | cons x l ih =>
    rw [List.indexOf?_cons] at h
    by_cases hx : x = a
    · subst hx
      simp only [beq_self_eq_true, ↓reduceIte, Option.some.injEq] at h
      subst h
      simp
    · rw [if_neg (by simpa using hx)] at h
      obtain ⟨j, hj, rfl⟩ := Option.map_eq_some'.1 h
      obtain ⟨hm, he⟩ := ih hj
      refine ⟨List.mem_cons_of_mem _ hm, ?_⟩
      rw [List.eraseIdx_cons_succ, he, List.erase_cons_tail (by simpa using hx)]

/-- **`remove_pool`.**  The pool was in the zone, the last distribution is at most a day old,
and the pool's record keeps its `accrued` under the index `i128::MAX`. -/
theorem removePool_eq_ok {now : Nat} {rz rz' : List Address} {r : Address}
    (h : removePool s now rz r = .ok (s', rz')) :
    r ∈ rz ∧ 24 * 60 * 60 ≤ now ∧ now - 24 * 60 * 60 ≤ s.lastDistributionTime ∧
      rz' = rz.erase r ∧ ∃ d, s.rzEmisData.get r = some d ∧
        s' = { s with rzEmisData := s.rzEmisData.set r ⟨i128Max, d.accrued⟩ } := by
  unfold removePool at h
  split at h
  · rename_i idx hidx
    obtain ⟨hm, he⟩ := indexOf?_eq_some hidx
    obtain ⟨cut, hcut, h⟩ := bind_eq_ok.1 h
    obtain ⟨hc, hle⟩ := u64Sub_eq_ok hcut
    split at h
    · cases h
    · rename_i hlast
      obtain ⟨d, hd, h⟩ := bind_eq_ok.1 h
      obtain ⟨rfl, rfl⟩ := Prod.mk.inj (Except.ok.inj h).symm
      exact ⟨hm, hle, hc ▸ Nat.not_lt.1 hlast, he, d, unwrapOptimized_eq_ok.1 hd, rfl⟩
  · cases h

def accruedOf (s : State) (pool : Address) : Int :=
  ((s.rzEmisData.get pool).map (·.accrued)).getD 0

/-- **`add_to_reward_zone`.**  `toAdd` was not in the zone and passed the threshold; it goes in
front, replacing `toRemove` on a full zone, with a record at the global index that keeps its
`accrued`. -/
theorem addToRewardZone_eq_ok {now : Nat} {toAdd : Address} {toRemove : Option Address}
    {above : Bool} (h : addToRewardZone s now toAdd toRemove above = .ok s') :
    toAdd ∉ s.rewardZone ∧ above = true ∧ ∃ s₁ rz₁,
      ((s.rewardZone.length < maxRzSize ∧ s₁ = s ∧ rz₁ = s.rewardZone) ∨
        (maxRzSize ≤ s.rewardZone.length ∧ ∃ r, toRemove = some r ∧
          (s.poolBalance r).tokens < (s.poolBalance toAdd).tokens ∧
          removePool s now s.rewardZone r = .ok (s₁, rz₁))) ∧
      s' = { s₁ with
        rzEmisData := s₁.rzEmisData.set toAdd ⟨s.rzEmissionIndex, accruedOf s₁ toAdd⟩
        rewardZone := toAdd :: rz₁ } := by
  unfold addToRewardZone at h
  split at h
  · cases h
  · rename_i hin
    split at h
    · cases h
    · rename_i hab
      refine ⟨hin, by simpa using hab, ?_⟩
      obtain ⟨⟨s₁, rz⟩, hz, rfl⟩ := map_eq_ok.1 h
      have hs' : ∀ rz₁, rz = toAdd :: rz₁ →
          (let s₂ := match s₁.rzEmisData.get toAdd with
            | some d => (setRzEmissions s₁ toAdd s.rzEmissionIndex d.accrued false).1
            | none => (setRzEmissions s₁ toAdd s.rzEmissionIndex 0 false).1
           { s₂ with rewardZone := rz }) =
          { s₁ with
            rzEmisData := s₁.rzEmisData.set toAdd ⟨s.rzEmissionIndex, accruedOf s₁ toAdd⟩
            rewardZone := toAdd :: rz₁ } := by
        rintro rz₁ rfl
        unfold accruedOf
        split <;> simp_all [setRzEmissions]
      unfold makeRoom at hz
      split at hz
      · rename_i hlt
        cases hz
        exact ⟨s, s.rewardZone, .inl ⟨hlt, rfl, rfl⟩, hs' _ rfl⟩
      · rename_i hge
        split at hz
        · cases hz
        · rename_i r
          split at hz
          · cases hz
          · obtain ⟨⟨s₂, rz₂⟩, hr, he⟩ := map_eq_ok.1 hz
            cases he
            exact ⟨s₂, rz₂, .inr ⟨by omega, r, rfl, by omega, hr⟩, hs' _ rfl⟩

theorem removeFromRewardZone_eq_ok {now : Nat} {r : Address} {above : Bool}
    (h : removeFromRewardZone s now r above = .ok s') :
    above = false ∧ ∃ s₁ rz₁, removePool s now s.rewardZone r = .ok (s₁, rz₁) ∧
      s' = { s₁ with rewardZone := rz₁ } := by
  unfold removeFromRewardZone at h
  split at h
  · cases h
  · rename_i hab
    obtain ⟨⟨s₁, rz₁⟩, hr, h⟩ := bind_eq_ok.1 h
    exact ⟨by simpa using hab, s₁, rz₁, hr, (Except.ok.inj h).symm⟩

/-! ### Distribution -/

theorem addBackfill_eq_ok {n : Int} (h : addBackfill c s n = .ok s') :
    s.backfillEmissions + n ≤ c.maxBackfilledEmissions ∧
      s' = { s with backfillEmissions := s.backfillEmissions + n } := by
  unfold addBackfill at h
  obtain ⟨b, hb, h⟩ := bind_eq_ok.1 h
  obtain ⟨rfl, -⟩ := i128Add_eq_ok hb
  split at h
  · cases h
  · exact ⟨by omega, (Except.ok.inj h).symm⟩

def zoneTokens (c : Config) (s : State) : Int :=
  (s.rewardZone.map fun p => c.nonQueuedTokens (s.poolBalance p)).sum

theorem sumNonQueued_eq_ok {total t : Int} {l : List Address}
    (h : sumNonQueued c s total l = .ok t) :
    t = total + (l.map fun p => c.nonQueuedTokens (s.poolBalance p)).sum := by
  induction l generalizing total with
  | nil => cases h; simp
  | cons p l ih =>
    obtain ⟨a, ha, h⟩ := bind_eq_ok.1 h
    obtain ⟨rfl, -⟩ := i128Add_eq_ok ha
    rw [ih h, List.map_cons, List.sum_cons, add_assoc]

theorem advanceIndex_eq_ok {n : Int} (h : advanceIndex c s n = .ok s') :
    ∃ d, fixedDivFloor n (zoneTokens c s) scalar14 = some d ∧ InI128 (s.rzEmissionIndex + d) ∧
      s' = { s with rzEmissionIndex := s.rzEmissionIndex + d } := by
  unfold advanceIndex at h
  obtain ⟨total, ht, h⟩ := bind_eq_ok.1 h
  obtain ⟨d, hd, h⟩ := bind_eq_ok.1 h
  obtain ⟨i, hi, h⟩ := bind_eq_ok.1 h
  obtain ⟨rfl, hin⟩ := i128Add_eq_ok hi
  rw [sumNonQueued_eq_ok ht, zero_add] at hd
  exact ⟨d, unwrapOptimized_eq_ok.1 hd, hin, (Except.ok.inj h).symm⟩

/-- **`distribute`.**  The first distribution, and the first acknowledged one after a backfill, only
record the emitter's time.  Any other credits more than an hour of emitter time to a non-empty zone
and raises the global index over the zone's non-queued tokens. -/
theorem distribute_eq_ok {now : Nat} {reply : Option Nat} {n : Int}
    (h : distribute c s now reply = .ok (s', n)) :
    ((s.lastDistributionTime = 0 ∨ (emitterRead s.backfillStatus now reply).needsReset = true) ∧
      n = 0 ∧ s' = { s with
        backfillStatus := (emitterRead s.backfillStatus now reply).backfillStatus
        lastDistributionTime := (emitterRead s.backfillStatus now reply).emitterLastDistribution }) ∨
    (s.lastDistributionTime ≠ 0 ∧ (emitterRead s.backfillStatus now reply).needsReset = false ∧
      s.rewardZone ≠ [] ∧
      s.lastDistributionTime + 60 * 60 < (emitterRead s.backfillStatus now reply).emitterLastDistribution ∧
      n = ((emitterRead s.backfillStatus now reply).emitterLastDistribution -
        s.lastDistributionTime : Nat) * scalar7 ∧
      ((emitterRead s.backfillStatus now reply).isBackfill = true →
        s.backfillEmissions + n ≤ c.maxBackfilledEmissions) ∧
      ∃ d, fixedDivFloor n (zoneTokens c s) scalar14 = some d ∧ InI128 (s.rzEmissionIndex + d) ∧
        s' = { s with
          backfillStatus := (emitterRead s.backfillStatus now reply).backfillStatus
          lastDistributionTime := (emitterRead s.backfillStatus now reply).emitterLastDistribution
          backfillEmissions := s.backfillEmissions +
            if (emitterRead s.backfillStatus now reply).isBackfill then n else 0
          rzEmissionIndex := s.rzEmissionIndex + d }) := by
  unfold distribute at h
  dsimp only at h
  split at h
  · exact .inl ⟨.inl ‹_›, (Prod.mk.inj (Except.ok.inj h)).2.symm, (Prod.mk.inj (Except.ok.inj h)).1.symm⟩
  · rename_i h0
    split at h
    · exact .inl ⟨.inr ‹_›, (Prod.mk.inj (Except.ok.inj h)).2.symm, (Prod.mk.inj (Except.ok.inj h)).1.symm⟩
    · rename_i hreset
      split at h
      · cases h
      · rename_i hnil
        obtain ⟨hz, hzh, h⟩ := bind_eq_ok.1 h
        obtain ⟨rfl, -⟩ := u64Add_eq_ok hzh
        split at h
        · cases h
        · rename_i hlt
          obtain ⟨m, hm, h⟩ := bind_eq_ok.1 h
          have hm' : m = ((emitterRead s.backfillStatus now reply).emitterLastDistribution -
              s.lastDistributionTime : Nat) * scalar7 := (i128Mul_eq_ok hm).1
          obtain ⟨b, hb, h⟩ := bind_eq_ok.1 h
          obtain ⟨s₂, hs₂, h⟩ := bind_eq_ok.1 h
          obtain ⟨hcap, rfl⟩ : ((emitterRead s.backfillStatus now reply).isBackfill = true →
              s.backfillEmissions + m ≤ c.maxBackfilledEmissions) ∧
              b = { s with
                backfillStatus := (emitterRead s.backfillStatus now reply).backfillStatus
                backfillEmissions := s.backfillEmissions +
                  if (emitterRead s.backfillStatus now reply).isBackfill then m else 0 } := by
            split at hb
            · rename_i hbk
              obtain ⟨hle, rfl⟩ := addBackfill_eq_ok hb
              exact ⟨fun _ => hle, by rw [if_pos hbk]⟩
            · rename_i hbk
              cases hb
              exact ⟨fun h => absurd h hbk, by rw [if_neg hbk, add_zero]⟩
          obtain ⟨d, hd, hin, rfl⟩ := advanceIndex_eq_ok hs₂
          obtain ⟨rfl, rfl⟩ := Prod.mk.inj (Except.ok.inj h).symm
          exact .inr ⟨h0, by simpa using hreset, by simpa [List.length_eq_zero] using hnil,
            by omega, hm', hcap, d, hd, hin, rfl⟩

/-! ### Gulping -/

theorem setBackstopEmissionEps_eq_ok {now : Nat} {pool : Address} {b : PoolBalance} {n : Int}
    (h : setBackstopEmissionEps c s now pool b n = .ok s') :
    ∃ d, nextBackstopEmisData now ((s.backstopEmisData.get pool).map (c.updateEmissionData now b)) n
      = .ok d ∧ s' = { s with backstopEmisData := s.backstopEmisData.set pool d } := by
  obtain ⟨d, hd, h⟩ := bind_eq_ok.1 h
  exact ⟨d, hd, (Except.ok.inj h).symm⟩

theorem fixedMulFloor_eq_some {x y z r : Int} (h : fixedMulFloor x y z = some r) (hz : 0 < z) :
    r = x * y / z := by
  by_cases hp : InI128 (x * y)
  · rw [fixedMulFloor, mulDivFloor_of_pos hp hz] at h; exact (Option.some.inj h).symm
  · rw [fixedMulFloor, mulDivFloor_eq_none hp] at h; cases h

theorem fixedDivFloor_eq_some {x y z r : Int} (h : fixedDivFloor x y z = some r) (hy : 0 ≤ y) :
    0 < y ∧ r = x * z / y := by
  by_cases hp : InI128 (x * z)
  · rcases hy.lt_or_eq with hy | rfl
    · rw [fixedDivFloor, mulDivFloor_of_pos hp hy] at h; exact ⟨hy, (Option.some.inj h).symm⟩
    · rw [fixedDivFloor, mulDivFloor_zero_right hp] at h; cases h
  · rw [fixedDivFloor, mulDivFloor_eq_none hp] at h; cases h

/-- **`gulp_emissions`.**  The pool realises its emissions with a gulp; if it got any, 70% goes
to its backstop depositors' rate and 30% is added to the pool's allowance. -/
theorem gulpEmissions_eq_ok {ledger : Ledger} {pool : Address} {allowance : Int}
    {shares : Int × Int} {approved : Option Int}
    (h : gulpEmissions c s ledger pool allowance = .ok (s', shares, approved)) :
    ∃ s₁ x, updateRzEmisData c s pool true = .ok (s₁, x) ∧
      ((0 < x ∧ shares = (x * 7000000 / scalar7, x * 3000000 / scalar7) ∧
        approved = some (allowance + x * 3000000 / scalar7) ∧
        setBackstopEmissionEps c s₁ ledger.timestamp pool (s.poolBalance pool)
          (x * 7000000 / scalar7) = .ok s') ∨
       (x ≤ 0 ∧ shares = (0, 0) ∧ approved = none ∧ s' = s₁)) := by
  obtain ⟨⟨s₁, x⟩, hu, h⟩ := bind_eq_ok.1 h
  refine ⟨s₁, x, hu, ?_⟩
  dsimp only at h
  split at h
  · rename_i hx
    obtain ⟨b, hb, h⟩ := bind_eq_ok.1 h
    obtain ⟨p, hp, h⟩ := bind_eq_ok.1 h
    obtain ⟨q, -, h⟩ := bind_eq_ok.1 h
    obtain ⟨a, ha, h⟩ := bind_eq_ok.1 h
    obtain ⟨s₂, hs₂, h⟩ := bind_eq_ok.1 h
    have he := Except.ok.inj h
    simp only [Prod.mk.injEq] at he
    obtain ⟨rfl, rfl, rfl⟩ := he
    rw [fixedMulFloor_eq_some (unwrapOptimized_eq_ok.1 hb) (by decide)] at hs₂ ⊢
    rw [fixedMulFloor_eq_some (unwrapOptimized_eq_ok.1 hp) (by decide)] at ha ⊢
    exact .inl ⟨hx, rfl, by rw [(i128Add_eq_ok ha).1], hs₂⟩
  · rename_i hx
    have he := Except.ok.inj h
    simp only [Prod.mk.injEq] at he
    obtain ⟨rfl, rfl, rfl⟩ := he
    exact .inr ⟨by omega, rfl, rfl, rfl⟩

/-! ### What each operation writes -/

theorem updateRzEmisData_frame {pool : Address} {toGulp : Bool} {x : Int}
    (h : updateRzEmisData c s pool toGulp = .ok (s', x)) :
    ∃ m, s' = { s with rzEmisData := m } := by
  rcases updateRzEmisData_eq_ok h with ⟨hs, -⟩ | ⟨d, -, -, he⟩
  · exact ⟨s.rzEmisData, hs⟩
  · rw [setRzEmissions_eq] at he
    exact ⟨_, (Prod.mk.inj he).1⟩

theorem gulpEmissions_frame {ledger : Ledger} {pool : Address} {allowance : Int}
    {shares : Int × Int} {approved : Option Int}
    (h : gulpEmissions c s ledger pool allowance = .ok (s', shares, approved)) :
    ∃ m b, s' = { s with rzEmisData := m, backstopEmisData := b } := by
  obtain ⟨s₁, x, hu, hg⟩ := gulpEmissions_eq_ok h
  obtain ⟨m, rfl⟩ := updateRzEmisData_frame hu
  rcases hg with ⟨-, -, -, hs⟩ | ⟨-, -, -, rfl⟩
  · obtain ⟨d, -, rfl⟩ := setBackstopEmissionEps_eq_ok hs
    exact ⟨m, _, rfl⟩
  · exact ⟨m, s.backstopEmisData, rfl⟩

theorem removePool_frame {now : Nat} {rz rz' : List Address} {r : Address}
    (h : removePool s now rz r = .ok (s', rz')) : ∃ m, s' = { s with rzEmisData := m } := by
  obtain ⟨-, -, -, -, d, -, rfl⟩ := removePool_eq_ok h
  exact ⟨_, rfl⟩

theorem addToRewardZone_frame {now : Nat} {q : Address} {t : Option Address} {a : Bool}
    (h : addToRewardZone s now q t a = .ok s') :
    ∃ m rz, s' = { s with rzEmisData := m, rewardZone := rz } := by
  obtain ⟨-, -, s₁, rz₁, hz, rfl⟩ := addToRewardZone_eq_ok h
  rcases hz with ⟨-, rfl, -⟩ | ⟨-, r, -, -, hr⟩
  · exact ⟨_, _, rfl⟩
  · obtain ⟨m, rfl⟩ := removePool_frame hr
    exact ⟨_, _, rfl⟩

theorem removeFromRewardZone_frame {now : Nat} {q : Address} {a : Bool}
    (h : removeFromRewardZone s now q a = .ok s') :
    ∃ m rz, s' = { s with rzEmisData := m, rewardZone := rz } := by
  obtain ⟨-, s₁, rz₁, hr, rfl⟩ := removeFromRewardZone_eq_ok h
  obtain ⟨m, rfl⟩ := removePool_frame hr
  exact ⟨_, _, rfl⟩

/-- **One invocation** is one of the six operations, with what it returned. -/
theorem step_eq_ok {call : Call} {r : Ret} (h : step c s call = .ok (s', r)) :
    (∃ q t a, call.op = .addToRewardZone q t a ∧ r = .unit ∧
      addToRewardZone s call.ledger.timestamp q t a = .ok s') ∨
    (∃ q a, call.op = .removeFromRewardZone q a ∧ r = .unit ∧
      removeFromRewardZone s call.ledger.timestamp q a = .ok s') ∨
    (∃ reply n, call.op = .distribute reply ∧ r = .emissions n ∧
      distribute c s call.ledger.timestamp reply = .ok (s', n)) ∨
    (∃ p a shares approved, call.op = .gulpEmissions p a ∧
      r = .gulped shares.1 shares.2 approved ∧
      gulpEmissions c s call.ledger p a = .ok (s', shares, approved)) ∨
    (∃ p x, call.op = .updateRzEmisData p ∧ r = .emissions x ∧
      updateRzEmisData c s p false = .ok (s', x)) ∨
    (∃ p b s₁ x, call.op = .setPoolBalance p b ∧ r = .unit ∧
      updateRzEmisData c s p false = .ok (s₁, x) ∧
      s' = { s₁ with poolBalances := s₁.poolBalances.set p b }) := by
  cases hop : call.op with
  | addToRewardZone q t a =>
    rw [step, hop] at h
    obtain ⟨s₂, h', he⟩ := map_eq_ok.1 h
    obtain ⟨rfl, rfl⟩ := Prod.mk.inj he
    exact .inl ⟨q, t, a, rfl, rfl, h'⟩
  | removeFromRewardZone q a =>
    rw [step, hop] at h
    obtain ⟨s₂, h', he⟩ := map_eq_ok.1 h
    obtain ⟨rfl, rfl⟩ := Prod.mk.inj he
    exact .inr (.inl ⟨q, a, rfl, rfl, h'⟩)
  | distribute reply =>
    rw [step, hop] at h
    obtain ⟨⟨s₂, n⟩, h', he⟩ := map_eq_ok.1 h
    obtain ⟨rfl, rfl⟩ := Prod.mk.inj he
    exact .inr (.inr (.inl ⟨reply, n, rfl, rfl, h'⟩))
  | gulpEmissions p a =>
    rw [step, hop] at h
    obtain ⟨⟨s₂, shares, approved⟩, h', he⟩ := map_eq_ok.1 h
    obtain ⟨rfl, rfl⟩ := Prod.mk.inj he
    exact .inr (.inr (.inr (.inl ⟨p, a, shares, approved, rfl, rfl, h'⟩)))
  | updateRzEmisData p =>
    rw [step, hop] at h
    obtain ⟨⟨s₂, x⟩, h', he⟩ := map_eq_ok.1 h
    obtain ⟨rfl, rfl⟩ := Prod.mk.inj he
    exact .inr (.inr (.inr (.inr (.inl ⟨p, x, rfl, rfl, h'⟩))))
  | setPoolBalance p b =>
    rw [step, hop] at h
    obtain ⟨⟨s₁, x⟩, h', he⟩ := map_eq_ok.1 h
    obtain ⟨rfl, rfl⟩ := Prod.mk.inj he
    exact .inr (.inr (.inr (.inr (.inr ⟨p, b, s₁, x, rfl, rfl, h', rfl⟩))))

theorem step_of_updateRzEmisData {call : Call} {r : Ret} {p : Address}
    (hop : call.op = .updateRzEmisData p) (h : step c s call = .ok (s', r)) :
    ∃ x, r = .emissions x ∧ updateRzEmisData c s p false = .ok (s', x) := by
  rcases step_eq_ok h with ⟨_, _, _, h', -⟩ | ⟨_, _, h', -⟩ | ⟨_, _, h', -⟩ |
      ⟨_, _, _, _, h', -⟩ | ⟨q, x, h', hr, hu⟩ | ⟨_, _, _, _, h', -⟩ <;> rw [hop] at h' <;> cases h'
  exact ⟨x, hr, hu⟩

theorem step_of_distribute {call : Call} {r : Ret} {reply : Option Nat}
    (hop : call.op = .distribute reply) (h : step c s call = .ok (s', r)) :
    ∃ N, r = .emissions N ∧ distribute c s call.ledger.timestamp reply = .ok (s', N) := by
  rcases step_eq_ok h with ⟨_, _, _, h', -⟩ | ⟨_, _, h', -⟩ | ⟨_, N, h', hr, hd⟩ |
      ⟨_, _, _, _, h', -⟩ | ⟨_, _, h', -⟩ | ⟨_, _, _, _, h', -⟩ <;> rw [hop] at h' <;> cases h'
  exact ⟨N, hr, hd⟩

/-- The entries only `distribute` writes: the global index, the last distribution time and the
backfill ledger. -/
def SameDistribution (s s' : State) : Prop :=
  s'.rzEmissionIndex = s.rzEmissionIndex ∧ s'.lastDistributionTime = s.lastDistributionTime ∧
    s'.backfillStatus = s.backfillStatus ∧ s'.backfillEmissions = s.backfillEmissions

theorem step_sameDistribution {call : Call} {r : Ret} (h : step c s call = .ok (s', r))
    (hop : ∀ reply, call.op ≠ .distribute reply) : SameDistribution s s' := by
  rcases step_eq_ok h with ⟨q, t, a, -, -, ha⟩ | ⟨q, a, -, -, hr⟩ | ⟨reply, n, hd, -⟩ |
    ⟨p, a, sh, ap, -, -, hg⟩ | ⟨p, x, -, -, hu⟩ | ⟨p, b, s₁, x, -, -, hu, rfl⟩
  · obtain ⟨m, rz, rfl⟩ := addToRewardZone_frame ha
    exact ⟨rfl, rfl, rfl, rfl⟩
  · obtain ⟨m, rz, rfl⟩ := removeFromRewardZone_frame hr
    exact ⟨rfl, rfl, rfl, rfl⟩
  · exact absurd hd (hop reply)
  · obtain ⟨m, b, rfl⟩ := gulpEmissions_frame hg
    exact ⟨rfl, rfl, rfl, rfl⟩
  all_goals obtain ⟨m, rfl⟩ := updateRzEmisData_frame hu; exact ⟨rfl, rfl, rfl, rfl⟩

theorem step_rewardZone {call : Call} {r : Ret} (h : step c s call = .ok (s', r))
    (hadd : ∀ q t a, call.op ≠ .addToRewardZone q t a)
    (hrem : ∀ q a, call.op ≠ .removeFromRewardZone q a) : s'.rewardZone = s.rewardZone := by
  rcases step_eq_ok h with ⟨q, t, a, hop, -⟩ | ⟨q, a, hop, -⟩ | ⟨reply, n, -, -, hd⟩ |
    ⟨p, a, sh, ap, -, -, hg⟩ | ⟨p, x, -, -, hu⟩ | ⟨p, b, s₁, x, -, -, hu, rfl⟩
  · exact absurd hop (hadd q t a)
  · exact absurd hop (hrem q a)
  · rcases distribute_eq_ok hd with ⟨-, -, rfl⟩ | ⟨-, -, -, -, -, -, d, -, -, rfl⟩ <;> rfl
  · obtain ⟨m, b, rfl⟩ := gulpEmissions_frame hg
    rfl
  all_goals obtain ⟨m, rfl⟩ := updateRzEmisData_frame hu; rfl

end BlendBackstop
