import BlendBackstop.Overflow
import BlendBackstop.Attribution

/-!
# How the emission indexes move

`distribute` raises the global index by the new emissions over the zone's non-queued tokens,
rounded down, and every other call writes a pool's record: to the global index when it realises
or admits the pool, to `i128::MAX` when it evicts it.  On every run whose balances have
non-negative non-queued tokens the zone total is positive when `distribute` divides by it, so the
global index never goes down; a record only goes up, to the global index, which is at least its
own, or to `i128::MAX`.  The one way down is from `i128::MAX`: re-admitting an evicted pool, or
gulping it, moves its record back to the global index.  No call deletes a record.

* `IndexInv`: non-negative balances, and every record at most the global index or at
  `i128::MAX`.
* `indexInv_step`: one call keeps it, does not lower the global index, and moves the records by
  `RecordMove`.
* `index_order`: the same for every call of every run.
-/

namespace BlendBackstop

variable {c : Config} {s s' : State}

/-! ### Moves of a record -/

/-- How a call may move a pool's record: up, or from or to `i128::MAX`. -/
def RecordMove (d d' : RzEmissionData) : Prop :=
  d.index ≤ d'.index ∨ d.index = i128Max ∨ d'.index = i128Max

/-- Every record before a call is still there after it, moved by `RecordMove`. -/
def RecordsMove (m m' : Store RzEmissionData) : Prop :=
  ∀ p d, m.get p = some d → ∃ d', m'.get p = some d' ∧ RecordMove d d'

theorem RecordsMove.refl (m : Store RzEmissionData) : RecordsMove m m :=
  fun _ d hd => ⟨d, hd, .inl le_rfl⟩

theorem RecordsMove.set {m : Store RzEmissionData} {q : Address} {b : RzEmissionData}
    (hq : ∀ d, m.get q = some d → RecordMove d b) : RecordsMove m (m.set q b) := by
  intro p d hd
  by_cases hpq : p = q
  · subst hpq
    exact ⟨b, Store.get_set_self _ _ _, hq d hd⟩
  · exact ⟨d, by rw [Store.get_set_ne _ _ hpq, hd], .inl le_rfl⟩

theorem RecordsMove.set_set {m : Store RzEmissionData} {r q : Address} {a b : RzEmissionData}
    (hqr : q ≠ r) (hr : ∀ d, m.get r = some d → RecordMove d a)
    (hq : ∀ d, m.get q = some d → RecordMove d b) : RecordsMove m ((m.set r a).set q b) := by
  intro p d hd
  by_cases hpq : p = q
  · subst hpq
    exact ⟨b, Store.get_set_self _ _ _, hq d hd⟩
  rw [Store.get_set_ne _ _ hpq]
  exact RecordsMove.set hr p d hd

/-! ### One call -/

/-- What every state of a run with non-negative balances keeps. -/
structure IndexInv (c : Config) (s : State) : Prop where
  nonneg : ∀ p, 0 ≤ c.nonQueuedTokens (s.poolBalance p)
  index : ∀ p d, s.rzEmisData.get p = some d → d.index ≤ s.rzEmissionIndex ∨ d.index = i128Max

theorem indexInv_set_global {q : Address} (a : Int) (hinv : IndexInv c s) :
    (∀ p d, (s.rzEmisData.set q ⟨s.rzEmissionIndex, a⟩).get p = some d →
      d.index ≤ s.rzEmissionIndex ∨ d.index = i128Max) ∧
      ∀ d, s.rzEmisData.get q = some d → RecordMove d ⟨s.rzEmissionIndex, a⟩ := by
  refine ⟨fun p d hd => ?_, fun d hd => (hinv.index q d hd).imp_right .inl⟩
  by_cases hpq : p = q
  · subst hpq
    rw [Store.get_set_self] at hd
    cases hd
    exact .inl le_rfl
  · rw [Store.get_set_ne _ _ hpq] at hd
    exact hinv.index p d hd

theorem updateRzEmisData_moves {q : Address} {g : Bool} {x : Int} (hinv : IndexInv c s)
    (h : updateRzEmisData c s q g = .ok (s', x)) :
    IndexInv c s' ∧ s'.rzEmissionIndex = s.rzEmissionIndex ∧
      RecordsMove s.rzEmisData s'.rzEmisData := by
  rcases updateRzEmisData_eq_ok h with ⟨rfl, -, -⟩ | ⟨d, -, -, he⟩
  · exact ⟨hinv, rfl, .refl _⟩
  rw [setRzEmissions_eq] at he
  obtain ⟨rfl, -⟩ := Prod.mk.inj he
  obtain ⟨hidx, hmove⟩ := indexInv_set_global (q := q) _ hinv
  exact ⟨⟨hinv.nonneg, hidx⟩, rfl, .set hmove⟩

theorem removePool_moves {now : Nat} {rz rz₁ : List Address} {r : Address} {s₁ : State}
    (hinv : IndexInv c s) (h : removePool s now rz r = .ok (s₁, rz₁)) :
    IndexInv c { s₁ with rewardZone := rz₁ } ∧
      ∃ a, s₁ = { s with rzEmisData := s.rzEmisData.set r ⟨i128Max, a⟩ } := by
  obtain ⟨-, -, -, -, d, -, rfl⟩ := removePool_eq_ok h
  refine ⟨⟨hinv.nonneg, fun p d' hd' => ?_⟩, _, rfl⟩
  by_cases hpr : p = r
  · subst hpr
    rw [Store.get_set_self] at hd'
    cases hd'
    exact .inr rfl
  · rw [Store.get_set_ne _ _ hpr] at hd'
    exact hinv.index p d' hd'

theorem distribute_moves {now : Nat} {reply : Option Nat} {n : Int} (hinv : IndexInv c s)
    (h : distribute c s now reply = .ok (s', n)) :
    IndexInv c s' ∧ s.rzEmissionIndex ≤ s'.rzEmissionIndex ∧ s'.rzEmisData = s.rzEmisData := by
  obtain ⟨hrec, hbal⟩ := distribute_records h
  have hG : s.rzEmissionIndex ≤ s'.rzEmissionIndex := by
    rcases distribute_eq_ok h with ⟨-, -, rfl⟩ | ⟨-, -, -, -, hn, -, d, hd, -, rfl⟩
    · exact le_rfl
    have hT : 0 ≤ zoneTokens c s := List.sum_nonneg fun _ hx => by
      obtain ⟨p, -, rfl⟩ := List.mem_map.1 hx
      exact hinv.nonneg p
    obtain ⟨hT, rfl⟩ := fixedDivFloor_eq_some hd hT
    have : 0 ≤ n * scalar14 / zoneTokens c s :=
      Int.ediv_nonneg (by rw [hn]; unfold scalar7 scalar14; omega) hT.le
    dsimp only
    omega
  refine ⟨⟨fun p => ?_, fun p d hd => ?_⟩, hG, hrec⟩
  · simpa only [State.poolBalance, hbal] using hinv.nonneg p
  · rw [hrec] at hd
    exact (hinv.index p d hd).imp_left (·.trans hG)

/-- **One call.**  A successful call that sets no negative balance keeps `IndexInv`, does not
lower the global index, and moves the records by `RecordMove`. -/
theorem indexInv_step {call : Call} {r : Ret} (hinv : IndexInv c s)
    (h : step c s call = .ok (s', r))
    (hbal : Entry.setsNegativeBalance c ⟨s, call, r, s'⟩ = false) :
    IndexInv c s' ∧ s.rzEmissionIndex ≤ s'.rzEmissionIndex ∧
      RecordsMove s.rzEmisData s'.rzEmisData := by
  unfold Entry.setsNegativeBalance at hbal
  rcases step_eq_ok h with ⟨q, t, a, -, rfl, ha⟩ | ⟨q, a, -, rfl, hr⟩ | ⟨reply, n, -, rfl, hd⟩ |
    ⟨q, a, shares, approved, -, rfl, hg⟩ | ⟨q, x, -, rfl, hu⟩ | ⟨q, b, s₁, x, hop, rfl, hu, rfl⟩
  · obtain ⟨hq, -, s₁, rz₁, hz, rfl⟩ := addToRewardZone_eq_ok ha
    rcases hz with ⟨-, rfl, rfl⟩ | ⟨-, r, -, -, hrem⟩
    · obtain ⟨hidx, hmove⟩ := indexInv_set_global (q := q) (accruedOf _ q) hinv
      exact ⟨⟨hinv.nonneg, hidx⟩, le_rfl, .set hmove⟩
    obtain ⟨hinv₁, a, rfl⟩ := removePool_moves hinv hrem
    have hqr : q ≠ r := fun hqr => hq (hqr ▸ (removePool_eq_ok hrem).1)
    obtain ⟨hidx, hmove⟩ := indexInv_set_global (q := q) (accruedOf _ q) hinv₁
    refine ⟨⟨hinv.nonneg, hidx⟩, le_rfl, .set_set hqr (fun _ _ => .inr (.inr rfl)) fun d hd => ?_⟩
    exact hmove d (by rw [← hd]; exact Store.get_set_ne _ _ hqr)
  · obtain ⟨-, s₁, rz₁, hrem, rfl⟩ := removeFromRewardZone_eq_ok hr
    obtain ⟨hinv₁, a, rfl⟩ := removePool_moves hinv hrem
    exact ⟨hinv₁, le_rfl, .set fun _ _ => .inr (.inr rfl)⟩
  · obtain ⟨hinv', hG, hrec⟩ := distribute_moves hinv hd
    exact ⟨hinv', hG, hrec ▸ .refl _⟩
  · obtain ⟨s₁, x, hu, hcase⟩ := gulpEmissions_eq_ok hg
    obtain ⟨hinv₁, hG, hmove⟩ := updateRzEmisData_moves hinv hu
    rcases hcase with ⟨-, -, -, hset⟩ | ⟨-, -, -, rfl⟩
    · obtain ⟨d, -, rfl⟩ := setBackstopEmissionEps_eq_ok hset
      exact ⟨⟨hinv₁.nonneg, hinv₁.index⟩, hG.ge, hmove⟩
    · exact ⟨hinv₁, hG.ge, hmove⟩
  · obtain ⟨hinv₁, hG, hmove⟩ := updateRzEmisData_moves hinv hu
    exact ⟨hinv₁, hG.ge, hmove⟩
  · obtain ⟨hinv₁, hG, hmove⟩ := updateRzEmisData_moves hinv hu
    simp only [hop, decide_eq_false_iff_not, not_lt] at hbal
    refine ⟨⟨fun p => ?_, hinv₁.index⟩, hG.ge, hmove⟩
    by_cases hpq : p = q
    · subst hpq
      simpa only [State.poolBalance, Store.get_set_self] using hbal
    · simpa only [State.poolBalance, Store.get_set_ne _ _ hpq] using hinv₁.nonneg p

/-! ### Runs -/

/-- **How the indexes move.**  On every run with non-negative non-queued tokens no call lowers the
global index or deletes a record, and a call moves a record only up, to `i128::MAX` (an eviction),
or from it (a re-admission, or a gulp of an evicted pool). -/
theorem index_order (hnq : 0 ≤ c.nonQueuedTokens ⟨0, 0, 0⟩) {log : List Entry}
    (hrun : Run c s log) (hbal : ∀ e ∈ log, e.setsNegativeBalance c = false) :
    ∀ e ∈ log, e.pre.rzEmissionIndex ≤ e.post.rzEmissionIndex ∧
      RecordsMove e.pre.rzEmisData e.post.rzEmisData := by
  suffices IndexInv c s ∧ ∀ e ∈ log, e.pre.rzEmissionIndex ≤ e.post.rzEmissionIndex ∧
      RecordsMove e.pre.rzEmisData e.post.rzEmisData from this.2
  induction hrun with
  | init => exact ⟨⟨fun _ => hnq, fun _ _ h => Option.noConfusion h⟩, by simp⟩
  | step _ hs ih =>
    simp only [List.mem_append, List.mem_singleton] at hbal
    obtain ⟨hinv, hlog⟩ := ih fun e he => hbal e (.inl he)
    obtain ⟨hinv', hG, hmove⟩ := indexInv_step hinv hs (hbal _ (.inr rfl))
    refine ⟨hinv', fun e he => ?_⟩
    rcases List.mem_append.1 he with he | he
    · exact hlog e he
    · rw [List.mem_singleton.1 he]
      exact ⟨hG, hmove⟩

theorem index_order_overflowRun :
    (∀ e ∈ overflowRun.2, e.setsNegativeBalance specConfig = false) ∧
      ∀ e ∈ overflowRun.2, e.pre.rzEmissionIndex ≤ e.post.rzEmissionIndex ∧
        RecordsMove e.pre.rzEmisData e.post.rzEmisData :=
  have hbal : ∀ e ∈ overflowRun.2, e.setsNegativeBalance specConfig = false := by decide
  ⟨hbal, index_order (by decide) overflowRun_run hbal⟩

end BlendBackstop
