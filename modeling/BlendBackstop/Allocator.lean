import Mathlib.Algebra.BigOperators.Group.List
import Mathlib.Tactic.Ring
import BlendBackstop.Spec

/-!
# The backstop emission rate

`set_backstop_emission_eps` spreads a pool's new backstop tokens over a window of seven days,
together with what the rate it replaces has not paid out yet.  It floors twice: the unpaid
tokens to whole units, and the rate to whole units of `1 / SCALAR_7` per second.  So a rate
never schedules more than it was given, and each call loses less than a unit to the first
floor and less than a window's worth of `1 / SCALAR_7` to the second.

`update_emission_data` belongs to the distributor, which is not under `src/`.  All the
allocator needs of it is that it hands back the stored rate and expiration; what it does to
the index and the last time is its own business.

* `nextBackstopEmisData_eq_ok`: one call, with both floors as bounds.
* `EpsRun`: successful calls on one pool, each with the record it installed.
* `eps_schedule`: on every such run from a pool without a record, at non-decreasing times and
  with non-negative new tokens, each call installs a window from its own time, and the tokens
  scheduled never exceed the tokens given and fall short by less than two units a call.
-/

namespace BlendBackstop

variable {c : Config}

/-- The part of the old window `u` after `now`, in units of `1 / SCALAR_7`: what the old rate
has not paid out yet. -/
def unpaid (now : Nat) (u : Option BackstopEmissionData) : Int :=
  (u.map fun d => (d.eps : Int) * (d.expiration - now : Nat)).getD 0

theorem unpaid_nonneg (now : Nat) (u : Option BackstopEmissionData) : 0 ≤ unpaid now u := by
  cases u <;> simp [unpaid]; positivity

theorem windowEps_eq_ok {tokens : Int} {scaled : Int} {eps : Nat} (ht : 0 ≤ tokens)
    (hs : i128Mul tokens scalar7 = .ok scaled) (he : toU64 (scaled.tdiv epsWindow) = .ok eps) :
    (eps : Int) * epsWindow ≤ scalar7 * tokens ∧ scalar7 * tokens < eps * epsWindow + epsWindow := by
  obtain ⟨rfl, -⟩ := i128Mul_eq_ok hs
  have heps := (toU64_eq_ok he).1
  rw [Int.tdiv_eq_ediv (by unfold scalar7; omega) (by decide)] at heps
  unfold scalar7 epsWindow at *
  omega

/-- **One call of `set_backstop_emission_eps`.**  The record it installs has a window from `now`,
and its rate spreads the new tokens plus the old window's unpaid part over the window, losing under
a unit and a window's rounding. -/
theorem nextBackstopEmisData_eq_ok {now : Nat} {u : Option BackstopEmissionData} {n : Int}
    {d' : BackstopEmissionData} (h : nextBackstopEmisData now u n = .ok d') (hn : 0 ≤ n) :
    d'.expiration = now + epsWindow ∧ d'.lastTime = now ∧
    ∃ f, 0 ≤ unpaid now u - scalar7 * f ∧ unpaid now u - scalar7 * f < scalar7 ∧
      (d'.eps : Int) * epsWindow ≤ scalar7 * (n + f) ∧
      scalar7 * (n + f) < d'.eps * epsWindow + epsWindow := by
  obtain ⟨x, hx, h⟩ := bind_eq_ok.1 h
  obtain ⟨rfl, -⟩ := u64Add_eq_ok hx
  cases u with
  | none =>
    obtain ⟨sc, hsc, h⟩ := bind_eq_ok.1 h
    obtain ⟨eps, heps, h⟩ := bind_eq_ok.1 h
    cases Except.ok.inj h
    have := windowEps_eq_ok hn hsc heps
    exact ⟨rfl, rfl, 0, by simp [unpaid], by simp [unpaid, scalar7], by simpa using this⟩
  | some d =>
    dsimp only at h
    generalize hd₁ : (if d.lastTime ≠ now then { d with lastTime := now } else d) = d₁ at h
    have hd₁' : d₁.eps = d.eps ∧ d₁.expiration = d.expiration ∧ d₁.lastTime = now := by
      subst hd₁
      split
      · exact ⟨rfl, rfl, rfl⟩
      · exact ⟨rfl, rfl, not_not.1 ‹_›⟩
    obtain ⟨l, hl, h⟩ := bind_eq_ok.1 h
    obtain ⟨sc, hsc, h⟩ := bind_eq_ok.1 h
    obtain ⟨eps, heps, h⟩ := bind_eq_ok.1 h
    cases Except.ok.inj h
    have hg : unpaid now (some d) = (d₁.eps : Int) * (d₁.expiration - now : Nat) := by
      simp [unpaid, hd₁']
    have hg0 := unpaid_nonneg now (some d)
    refine ⟨rfl, hd₁'.2.2, ?_⟩
    split at hl
    · obtain ⟨r, hr, hl⟩ := bind_eq_ok.1 hl
      rw [fixedMulFloor_eq_some (unwrapOptimized_eq_ok.1 hr) (by decide)] at hl
      obtain ⟨rfl, -⟩ := i128Add_eq_ok hl
      rw [← hg] at hsc
      refine ⟨unpaid now (some d) / scalar7, ?_, ?_, windowEps_eq_ok ?_ hsc heps⟩
      all_goals unfold scalar7 at *; omega
    · cases hl
      have h0 : unpaid now (some d) = 0 := by rw [hg, Nat.sub_eq_zero_of_le (by omega)]; simp
      exact ⟨0, by simp [h0], by simp [h0, scalar7], by simpa using windowEps_eq_ok hn hsc heps⟩

/-! ### Runs of the allocator -/

/-- One `set_backstop_emission_eps` call on the pool: the ledger time, the pool balance it hands
to `update_emission_data`, and the new tokens. -/
structure EpsCall where
  now : Nat
  poolBalance : PoolBalance
  newTokens : Int
  deriving DecidableEq, Repr

/-- Successful calls of `set_backstop_emission_eps` on `pool` from the state `s`, each with the
record it installed, leading to the state on the right. -/
inductive EpsRun (c : Config) (pool : Address) (s : State) :
    List (EpsCall × BackstopEmissionData) → State → Prop
  | nil : EpsRun c pool s [] s
  | snoc {log : List (EpsCall × BackstopEmissionData)} {s₁ s₂ : State} {call : EpsCall}
      {d : BackstopEmissionData} : EpsRun c pool s log s₁ →
      setBackstopEmissionEps c s₁ call.now pool call.poolBalance call.newTokens = .ok s₂ →
      s₂.backstopEmisData.get pool = some d → EpsRun c pool s (log ++ [(call, d)]) s₂

/-- What a window pays out before the call at `next` replaces it: from its start to `next` or
to its expiration, whichever comes first, in units of `1 / SCALAR_7`. -/
def windowPaid (x : EpsCall × BackstopEmissionData) (next : Nat) : Int :=
  x.2.eps * (min next x.2.expiration - x.1.now : Nat)

/-- The tokens a run of the allocator has scheduled, in units of `1 / SCALAR_7`: each window
until the call after it, and the last window whole. -/
def scheduled : List (EpsCall × BackstopEmissionData) → Int
  | [] => 0
  | [x] => x.2.eps * epsWindow
  | x :: y :: rest => windowPaid x y.1.now + scheduled (y :: rest)

def tokensGiven (log : List (EpsCall × BackstopEmissionData)) : Int :=
  (log.map fun x => x.1.newTokens).sum

theorem scheduled_concat_concat (l : List (EpsCall × BackstopEmissionData))
    (x y : EpsCall × BackstopEmissionData) :
    scheduled (l ++ [x] ++ [y]) =
      scheduled (l ++ [x]) - x.2.eps * epsWindow + windowPaid x y.1.now + y.2.eps * epsWindow := by
  rw [List.append_assoc, List.singleton_append]
  induction l with
  | nil => simp only [List.nil_append, scheduled]; ring
  | cons a l ih =>
    cases l with
    | nil => simp only [List.nil_append, List.singleton_append, List.cons_append, scheduled]; ring
    | cons b l =>
      simp only [List.cons_append, scheduled, List.append_eq] at ih ⊢
      rw [ih]; ring

@[simp] theorem tokensGiven_concat (l : List (EpsCall × BackstopEmissionData))
    (y : EpsCall × BackstopEmissionData) : tokensGiven (l ++ [y]) = tokensGiven l + y.1.newTokens := by
  simp [tokensGiven]

theorem windowPaid_add_unpaid (x : EpsCall × BackstopEmissionData) {t : Nat}
    (hx : x.2.expiration = x.1.now + epsWindow) (ht : x.1.now ≤ t) :
    windowPaid x t + unpaid t (some x.2) = x.2.eps * epsWindow := by
  have : (min t x.2.expiration - x.1.now : Nat) + (x.2.expiration - t : Nat) = epsWindow := by
    omega
  simp only [windowPaid, unpaid, Option.map_some', Option.getD_some, ← mul_add]
  exact_mod_cast congrArg (fun k : Nat => (x.2.eps * k : Int)) this

/-- `update_emission_data` hands back the stored rate and expiration. -/
def KeepsRate (c : Config) : Prop :=
  ∀ now b d, (c.updateEmissionData now b d).eps = d.eps ∧
    (c.updateEmissionData now b d).expiration = d.expiration

theorem unpaid_update (hupd : KeepsRate c) (now : Nat) (b : PoolBalance)
    (u : Option BackstopEmissionData) : unpaid now (u.map (c.updateEmissionData now b)) = unpaid now u := by
  cases u <;> simp [unpaid, (hupd _ _ _).1, (hupd _ _ _).2]

/-- What a run of the allocator keeps: the pool holds the last record, every call installed a window
from its own time, and the schedule is at most the tokens given, short of them by under a unit for
each call after the first and a window's rounding for each call. -/
structure EpsInv (pool : Address) (s : State) (log : List (EpsCall × BackstopEmissionData)) :
    Prop where
  stored : s.backstopEmisData.get pool = log.getLast?.map Prod.snd
  window : ∀ x ∈ log, x.2.expiration = x.1.now + epsWindow ∧ x.2.lastTime = x.1.now
  le : scheduled log ≤ scalar7 * tokensGiven log
  lt : log ≠ [] → scalar7 * tokensGiven log <
    scheduled log + scalar7 * (log.length - 1 : Nat) + epsWindow * log.length

/-- **One more call** at a time no earlier than the others, with non-negative new tokens, keeps
`EpsInv`. -/
theorem epsInv_snoc (hupd : KeepsRate c) {pool : Address} {s₁ s₂ : State}
    {log : List (EpsCall × BackstopEmissionData)} {call : EpsCall} {d : BackstopEmissionData}
    (hinv : EpsInv pool s₁ log)
    (hset : setBackstopEmissionEps c s₁ call.now pool call.poolBalance call.newTokens = .ok s₂)
    (hget : s₂.backstopEmisData.get pool = some d)
    (ht : ∀ x ∈ log, x.1.now ≤ call.now) (hn : 0 ≤ call.newTokens) :
    EpsInv pool s₂ (log ++ [(call, d)]) := by
  obtain ⟨d₀, hnext, rfl⟩ := setBackstopEmissionEps_eq_ok hset
  obtain rfl : d = d₀ := by simpa [Store.get_set_self, eq_comm] using hget
  obtain ⟨hexp, hlast, f, hf₁, hf₂, he₁, he₂⟩ := nextBackstopEmisData_eq_ok hnext hn
  rw [unpaid_update hupd, hinv.stored] at hf₁ hf₂
  have hwin : ∀ x ∈ log ++ [(call, d)],
      x.2.expiration = x.1.now + epsWindow ∧ x.2.lastTime = x.1.now := by
    intro x hx
    rcases List.mem_append.1 hx with hx | hx
    · exact hinv.window x hx
    · rw [List.mem_singleton.1 hx]; exact ⟨hexp, hlast⟩
  suffices scheduled (log ++ [(call, d)]) ≤ scalar7 * tokensGiven (log ++ [(call, d)]) ∧
      (log ++ [(call, d)] ≠ [] → scalar7 * tokensGiven (log ++ [(call, d)]) <
        scheduled (log ++ [(call, d)]) + scalar7 * ((log ++ [(call, d)]).length - 1 : Nat) +
          epsWindow * (log ++ [(call, d)]).length) from
    ⟨by simp [Store.get_set_self], hwin, this.1, this.2⟩
  rcases List.eq_nil_or_concat log with rfl | ⟨L, x, rfl⟩
  · simp only [List.getLast?_nil, Option.map_none', unpaid, Option.getD_none] at hf₁ hf₂
    simp only [List.nil_append, scheduled, tokensGiven, List.map_cons, List.map_nil,
      List.sum_cons, List.sum_nil, add_zero, List.length_singleton, Nat.cast_one]
    unfold scalar7 at *
    exact ⟨by omega, fun _ => by omega⟩
  · simp only [List.concat_eq_append, List.getLast?_concat, Option.map_some'] at hf₁ hf₂ hinv ht ⊢
    have hpaid := windowPaid_add_unpaid x (hinv.window x (by simp)).1 (ht x (by simp))
    have hle := hinv.le
    have hlt := hinv.lt (by simp)
    rw [scheduled_concat_concat, tokensGiven_concat, List.length_append, List.length_singleton]
    simp only [List.length_append, List.length_singleton, Nat.add_sub_cancel] at hlt ⊢
    unfold scalar7 epsWindow at *
    push_cast at hlt hle hpaid he₁ he₂ ⊢
    exact ⟨by omega, fun _ => by omega⟩

theorem epsInv_run (hupd : KeepsRate c) {pool : Address} {s s' : State}
    {log : List (EpsCall × BackstopEmissionData)} (hrun : EpsRun c pool s log s')
    (hnone : s.backstopEmisData.get pool = none)
    (htime : (log.map fun x => x.1.now).Pairwise (· ≤ ·)) (hn : ∀ x ∈ log, 0 ≤ x.1.newTokens) :
    EpsInv pool s' log := by
  induction hrun with
  | nil => exact ⟨by simpa using hnone, by simp, by simp [scheduled, tokensGiven], by simp⟩
  | snoc _ hset hget ih =>
    rw [List.map_append, List.pairwise_append] at htime
    exact epsInv_snoc hupd (ih htime.1 fun x hx => hn x (List.mem_append_left _ hx)) hset hget
      (fun x hx => htime.2.2 _ (List.mem_map_of_mem _ hx) _ (List.mem_singleton_self _))
      (hn _ (List.mem_append_right _ (List.mem_singleton_self _)))

/-- **The allocator never schedules more than it was given.**  On every run on a fresh pool at
non-decreasing times with non-negative tokens, each window starts at its call, and the windows
schedule at most the tokens given, short by under two units a call. -/
theorem eps_schedule (hupd : KeepsRate c) {pool : Address} {s s' : State}
    {log : List (EpsCall × BackstopEmissionData)} (hrun : EpsRun c pool s log s')
    (hnone : s.backstopEmisData.get pool = none)
    (htime : (log.map fun x => x.1.now).Pairwise (· ≤ ·)) (hn : ∀ x ∈ log, 0 ≤ x.1.newTokens) :
    (∀ x ∈ log, x.2.expiration = x.1.now + epsWindow ∧ x.2.lastTime = x.1.now) ∧
    scheduled log ≤ scalar7 * tokensGiven log ∧
    (log ≠ [] → scalar7 * tokensGiven log < scheduled log + 2 * scalar7 * log.length) := by
  have hinv := epsInv_run hupd hrun hnone htime hn
  refine ⟨hinv.window, hinv.le, fun hne => ?_⟩
  have hlt := hinv.lt hne
  have hpos : 0 < log.length := List.length_pos.2 hne
  have hcast : ((log.length - 1 : Nat) : Int) = log.length - 1 := by omega
  have hw : (epsWindow : Int) * log.length ≤ scalar7 * log.length :=
    mul_le_mul_of_nonneg_right (by decide) (by positivity)
  have h7 : (0 : Int) < scalar7 := by decide
  rw [hcast] at hlt
  linarith

def epsCalls (c : Config) (pool : Address) :
    State → List (EpsCall × BackstopEmissionData) → List EpsCall →
      Option (State × List (EpsCall × BackstopEmissionData))
  | s, log, [] => some (s, log)
  | s, log, call :: calls => do
    let s' ← (setBackstopEmissionEps c s call.now pool call.poolBalance call.newTokens).toOption
    let d ← s'.backstopEmisData.get pool
    epsCalls c pool s' (log ++ [(call, d)]) calls

theorem EpsRun.of_epsCalls {pool : Address} {s s₁ s' : State}
    {log log' : List (EpsCall × BackstopEmissionData)} :
    ∀ {calls : List EpsCall}, EpsRun c pool s log s₁ →
      epsCalls c pool s₁ log calls = some (s', log') → EpsRun c pool s log' s'
  | [], hrun, h => by cases h; exact hrun
  | call :: calls, hrun, h => by
    rw [epsCalls.eq_2] at h
    obtain ⟨s₂, hs, h⟩ := Option.bind_eq_some.1 h
    obtain ⟨d, hd, h⟩ := Option.bind_eq_some.1 h
    have hs' : setBackstopEmissionEps c s₁ call.now pool call.poolBalance call.newTokens = .ok s₂ := by
      revert hs
      cases setBackstopEmissionEps c s₁ call.now pool call.poolBalance call.newTokens <;>
        simp [Except.toOption]
    exact EpsRun.of_epsCalls (hrun.snoc hs' hd) h

def sampleEpsCalls : List EpsCall :=
  [⟨1713139200, ⟨0, 0, 0⟩, 10000000000⟩,
   ⟨1713225600, ⟨0, 0, 0⟩, 5000000000⟩,
   ⟨1714003200, ⟨0, 0, 0⟩, 1000000000⟩]

theorem sampleEpsCalls_ok :
    (epsCalls specConfig 1 State.init [] sampleEpsCalls).isSome = true := by rfl

def sampleEpsRun : State × List (EpsCall × BackstopEmissionData) :=
  (epsCalls specConfig 1 State.init [] sampleEpsCalls).get sampleEpsCalls_ok

theorem eps_schedule_sample :
    KeepsRate specConfig ∧ State.init.backstopEmisData.get 1 = none ∧
    (sampleEpsRun.2.map fun x => x.1.now).Pairwise (· ≤ ·) ∧
    (∀ x ∈ sampleEpsRun.2, 0 ≤ x.1.newTokens) ∧
    (∀ x ∈ sampleEpsRun.2, x.2.expiration = x.1.now + epsWindow ∧ x.2.lastTime = x.1.now) ∧
    scheduled sampleEpsRun.2 ≤ scalar7 * tokensGiven sampleEpsRun.2 ∧
    (sampleEpsRun.2 ≠ [] → scalar7 * tokensGiven sampleEpsRun.2 <
      scheduled sampleEpsRun.2 + 2 * scalar7 * sampleEpsRun.2.length) :=
  have hupd : KeepsRate specConfig := fun _ _ _ => ⟨rfl, rfl⟩
  have htime : (sampleEpsRun.2.map fun x => x.1.now).Pairwise (· ≤ ·) := by decide
  have hn : ∀ x ∈ sampleEpsRun.2, 0 ≤ x.1.newTokens := by decide
  ⟨hupd, rfl, htime, hn, eps_schedule hupd
    (EpsRun.of_epsCalls .nil (Option.some_get sampleEpsCalls_ok).symm) rfl htime hn⟩

end BlendBackstop
