import BlendBackstop.Overflow
import BlendBackstop.Attribution

/-!
# The backstop's rate in runs of the backstop

`Allocator` follows `set_backstop_emission_eps` alone, call after call on one pool.  Inside the
backstop it is only reached from `gulp_emissions`, when the gulp realised something, and between
two such calls the other entry points run.  This module reads the allocator's calls on a pool
off a run of the whole backstop (`epsLog`) and shows that they are a run of the allocator: the
other calls leave the pool's backstop record alone, and a gulp hands the allocator its ledger
time, the pool's balance and its backstop share.

Composed with the attribution of `Attribution`, the rate of a pool schedules at most seven tenths
of what `distribute` credited that pool pro rata: the backstop's emissions for a pool come from
that pool's own share, never from another's.

* `epsInv_step`: one call of the backstop keeps `EpsInv` for the allocator's calls on a pool.
* `backstop_schedule`: on every run whose ledger times never go back, the allocator's calls on a
  pool hold the record of the last one, install windows from their own times, and schedule at
  most the tokens handed over, short of them by less than two units a call.
* `backstop_credit`: on every such run that also keeps non-negative balances and gulps no evicted
  pool, a pool's backstop rate schedules at most `7 / 10` of its pro-rata credit.
-/

namespace BlendBackstop

variable {c : Config} {s s' : State} {p : Address}

/-! ### The allocator's calls in a run -/

/-- The allocator's call on `p` in an entry: a gulp of `p` that realised something hands
`set_backstop_emission_eps` the ledger time, `p`'s balance and the backstop share. -/
def Entry.epsStep (p : Address) (e : Entry) : Option (EpsCall × BackstopEmissionData) :=
  match e.call.op, e.ret with
  | .gulpEmissions q _, .gulped backstop _ (some _) =>
    if q = p then
      (e.post.backstopEmisData.get p).map
        ((⟨e.call.ledger.timestamp, e.pre.poolBalance p, backstop⟩, ·))
    else none
  | _, _ => none

/-- The allocator's calls on `p` in a run, in order. -/
def epsLog (p : Address) (log : List Entry) : List (EpsCall × BackstopEmissionData) :=
  log.filterMap (Entry.epsStep p)

theorem Entry.epsStep_now {e : Entry} {x : EpsCall × BackstopEmissionData}
    (h : e.epsStep p = some x) : x.1.now = e.call.ledger.timestamp := by
  unfold Entry.epsStep at h
  split at h
  · split_ifs at h
    obtain ⟨d, -, rfl⟩ := Option.map_eq_some'.1 h
    rfl
  · cases h

theorem EpsInv.of_get {log : List (EpsCall × BackstopEmissionData)} (hinv : EpsInv p s log)
    (h : s'.backstopEmisData.get p = s.backstopEmisData.get p) : EpsInv p s' log :=
  ⟨h.trans hinv.stored, hinv.window, hinv.le, hinv.lt⟩

/-- **One call of the backstop** at a ledger time no earlier than the allocator's earlier calls
keeps `EpsInv` for `p`. -/
theorem epsInv_step (hupd : KeepsRate c) {call : Call} {r : Ret}
    {log : List (EpsCall × BackstopEmissionData)} (hinv : EpsInv p s log)
    (h : step c s call = .ok (s', r)) (ht : ∀ x ∈ log, x.1.now ≤ call.ledger.timestamp) :
    EpsInv p s' (log ++ (Entry.epsStep p ⟨s, call, r, s'⟩).toList) := by
  have hkeep : (∀ q a, call.op ≠ .gulpEmissions q a) → EpsInv p s' log := fun hne =>
    hinv.of_get <| (step_backstopEmisData h).elim (fun h => by rw [h.1])
      fun ⟨q, a, _, _, hop, _⟩ => (hne q a hop).elim
  unfold Entry.epsStep
  rcases step_eq_ok h with ⟨q, t, a, hop, rfl, -⟩ | ⟨q, a, hop, rfl, -⟩ | ⟨reply, n, hop, rfl, -⟩ |
    ⟨q, a, shares, approved, hop, rfl, hg⟩ | ⟨q, x, hop, rfl, -⟩ | ⟨q, b, s₁, x, hop, rfl, -, rfl⟩
  case inr.inr.inr.inl =>
    obtain ⟨s₁, x, hu, ⟨hx, rfl, rfl, hset⟩ | ⟨-, rfl, rfl, rfl⟩⟩ := gulpEmissions_eq_ok hg
    · obtain ⟨m, rfl⟩ := updateRzEmisData_frame hu
      obtain ⟨d, -, rfl⟩ := setBackstopEmissionEps_eq_ok hset
      simp only [hop]
      by_cases hqp : q = p
      · subst hqp
        simp only [if_true, Store.get_set_self, Option.map_some', Option.toList_some]
        refine epsInv_snoc hupd ?_ hset (Store.get_set_self _ _ _) ht ?_
        · exact hinv.of_get rfl
        · dsimp only
          unfold scalar7
          omega
      · simp only [if_neg hqp, Option.toList_none, List.append_nil]
        exact hinv.of_get (Store.get_set_ne _ _ (Ne.symm hqp))
    · obtain ⟨m, rfl⟩ := updateRzEmisData_frame hu
      simp only [hop, Option.toList_none, List.append_nil]
      exact hinv.of_get rfl
  all_goals simpa only [hop, Option.toList_none, List.append_nil] using hkeep (by simp [hop])

theorem mem_epsLog {log : List Entry} {x : EpsCall × BackstopEmissionData}
    (hx : x ∈ epsLog p log) : ∃ e ∈ log, x.1.now = e.call.ledger.timestamp := by
  obtain ⟨e, he, hs⟩ := List.mem_filterMap.1 hx
  exact ⟨e, he, Entry.epsStep_now hs⟩

theorem epsInv_epsLog (hupd : KeepsRate c) {log : List Entry} (hrun : Run c s log)
    (htime : (log.map fun e => e.call.ledger.timestamp).Pairwise (· ≤ ·)) (p : Address) :
    EpsInv p s (epsLog p log) := by
  induction hrun with
  | init =>
    exact ⟨rfl, by simp [epsLog], by simp [epsLog, scheduled, tokensGiven], by simp [epsLog]⟩
  | step _ hs ih =>
    rw [List.map_append, List.pairwise_append] at htime
    have h := epsInv_step hupd (ih htime.1) hs fun x hx => by
      obtain ⟨e, he, hnow⟩ := mem_epsLog hx
      exact hnow ▸ htime.2.2 _ (List.mem_map_of_mem _ he) _ (List.mem_singleton_self _)
    simpa only [epsLog, List.filterMap_append, List.filterMap_cons, List.filterMap_nil] using h

theorem epsStep_tokens_le {call : Call} {r : Ret} (h : step c s call = .ok (s', r))
    (h0 : 0 ≤ Entry.realisedByGulp c ⟨s, call, r, s'⟩) :
    10 * (((Entry.epsStep p ⟨s, call, r, s'⟩).map (·.1.newTokens)).getD 0) ≤
      7 * Entry.gulpedFrom c p ⟨s, call, r, s'⟩ := by
  unfold Entry.epsStep Entry.gulpedFrom
  unfold Entry.realisedByGulp at h0
  rcases step_eq_ok h with ⟨q, t, a, hop, rfl, -⟩ | ⟨q, a, hop, rfl, -⟩ | ⟨reply, n, hop, rfl, -⟩ |
    ⟨q, a, shares, approved, hop, rfl, hg⟩ | ⟨q, x, hop, rfl, -⟩ | ⟨q, b, s₁, x, hop, rfl, -, rfl⟩
  case inr.inr.inr.inl =>
    obtain ⟨s₁, x, hu, ⟨hx, rfl, rfl, -⟩ | ⟨-, rfl, rfl, -⟩⟩ := gulpEmissions_eq_ok hg
    all_goals
      simp only [hop, Entry.realisedByGulp, hu] at h0 ⊢
      by_cases hqp : q = p
    · simp only [hqp, if_true]
      cases s'.backstopEmisData.get p
      · simp only [Option.map_none', Option.getD_none]
        omega
      · simp only [Option.map_some', Option.getD_some]
        unfold scalar7
        omega
    · simp only [hqp, if_false, Option.map_none', Option.getD_none, mul_zero, le_refl]
    · simp only [hqp, if_true, Option.map_none', Option.getD_none]
      omega
    · simp only [hqp, if_false, Option.map_none', Option.getD_none, mul_zero, le_refl]
  all_goals simp only [hop, Option.map_none', Option.getD_none, mul_zero, le_refl]

section Credit

variable {log : List Entry} (hnq : 0 ≤ c.nonQueuedTokens ⟨0, 0, 0⟩)
  (hbal : ∀ e ∈ log, e.setsNegativeBalance c = false) (hgulp : ∀ e ∈ log, e.gulpsEvicted = false)
include hnq hbal hgulp

theorem tokensGiven_epsLog_le (hrun : Run c s log) (p : Address) :
    10 * tokensGiven (epsLog p log) ≤ 7 * (log.map (Entry.gulpedFrom c p)).sum := by
  induction hrun with
  | init => simp [epsLog, tokensGiven]
  | @step s s' log call r hrun hs ih =>
    simp only [List.mem_append, List.mem_singleton] at hbal hgulp
    have hbal' : ∀ e ∈ log, _ := fun e he => hbal e (.inl he)
    have hgulp' : ∀ e ∈ log, _ := fun e he => hgulp e (.inl he)
    have hout := (accrualInv_step (conservation_law hnq hrun hbal' hgulp').1 hs
      (hbal _ (.inr rfl)) (hgulp _ (.inr rfl))).2.2.2
    have he := epsStep_tokens_le (p := p) hs (by unfold Entry.HandsOutRealised at hout; omega)
    have ih := ih hbal' hgulp'
    simp only [epsLog, List.filterMap_append, List.filterMap_cons, List.filterMap_nil,
      tokensGiven, List.map_append, List.sum_append, List.map_singleton,
      List.sum_singleton] at ih he ⊢
    generalize Entry.epsStep p ⟨s, call, r, s'⟩ = E at he ⊢
    cases E <;>
      simp only [List.map_nil, List.map_cons, List.sum_nil, List.sum_cons, Option.map_none',
        Option.map_some', Option.getD_none, Option.getD_some, add_zero] at he ⊢ <;> omega

/-- **The backstop's emissions for a pool come from the pool's own share.**  On every run with
non-negative non-queued tokens, no evicted gulp and a ledger that never goes back, a pool's backstop
windows schedule at most seven tenths of its pro-rata credits. -/
theorem backstop_credit (hupd : KeepsRate c) (hrun : Run c s log)
    (htime : (log.map fun e => e.call.ledger.timestamp).Pairwise (· ≤ ·)) (p : Address) :
    10 * scalar14 * scheduled (epsLog p log) ≤
      7 * scalar7 * (log.map (Entry.proRata c p)).sum := by
  have hsched := (epsInv_epsLog hupd hrun htime p).le
  have hgiven := tokensGiven_epsLog_le hnq hbal hgulp hrun p
  have hcredit := heldFor_add_gulped_le hnq hbal hgulp hrun p
  have hheld := heldFor_nonneg (p := p) (conservation_law hnq hrun hbal hgulp).1
  calc 10 * scalar14 * scheduled (epsLog p log)
      ≤ 10 * scalar14 * (scalar7 * tokensGiven (epsLog p log)) := by unfold scalar14; omega
    _ = scalar7 * scalar14 * (10 * tokensGiven (epsLog p log)) := by ring
    _ ≤ scalar7 * scalar14 * (7 * (log.map (Entry.gulpedFrom c p)).sum) := by
        unfold scalar7 scalar14; omega
    _ ≤ 7 * scalar7 * (log.map (Entry.proRata c p)).sum := by unfold scalar7 scalar14 at *; omega

end Credit

theorem backstop_credit_creditRun :
    KeepsRate specConfig ∧
      (creditRun.2.map fun e => e.call.ledger.timestamp).Pairwise (· ≤ ·) ∧
      10 * scalar14 * scheduled (epsLog 1 creditRun.2) ≤
        7 * scalar7 * (creditRun.2.map (Entry.proRata specConfig 1)).sum :=
  have hupd : KeepsRate specConfig := fun _ _ _ => ⟨rfl, rfl⟩
  have htime : (creditRun.2.map fun e => e.call.ledger.timestamp).Pairwise (· ≤ ·) := by decide
  ⟨hupd, htime, backstop_credit (by decide) (by decide) (by decide) hupd creditRun_run htime 1⟩

end BlendBackstop
