import BlendBackstop.Allocator
import BlendBackstop.Conservation

/-!
# Overflow

`manager.rs` computes with checked `i128`, `u64` and `u32` arithmetic, and every overflow
panics.  The amounts stay small because the global index credits each zone pool at most what
was distributed: a distribution raises the index by at most `SCALAR_14` per unit it credits, and
by the conservation law of `Conservation` a zone pool's `accrued` and pending emissions, and so
what a gulp realises, are within what was credited.  A gulp's backstop share becomes a rate
whose window holds at most the shares handed out so far (`BoundInv`).  With at most a hundred
years credited, `3.2 · 10^16` units, every checked operation stays far inside its type.

* `updateRzEmisData_safe`, `gulpEmissions_safe`, `distribute_safe`: one call from a state whose
  amounts are within these bounds does not overflow.
* `boundInv_step`, `boundInv_run`: the bounds hold along every run with bounded balances, no
  gulp of an evicted pool, and a ledger time that never goes back.
* `overflow_safety`: on such a run, `distribute` fails only on its guards or on a zone without
  non-queued tokens, and `update_rz_emis_data` and `gulp_emissions` of a zone pool succeed.
  The checked operations on these paths are the balance sum, `fixed_div_floor`, the index
  addition, `fixed_mul_floor`, the `accrued` and allowance additions, `tokens_left_to_emit *
  SCALAR_7`, and the `u64` conversion of the rate.

An evicted pool gulped with no non-queued tokens escapes the law (`Eviction`): once its index is
back at the global one, it accrues outside the zone at the rate of the zone's own tokens,
however few they are.  On the overflow run the zone holds one unit while the evicted pool holds
a hundred tokens, so a day of emissions leaves it `86.4` trillion tokens; back in the zone, its
gulp asks for a rate beyond `u64::MAX` and panics (`zone_gulp_panics`).
-/

namespace BlendBackstop

variable {c : Config}

def balanceCap : Int := 1267650600228229401496703205376

/-- The balance bound of a run: `0 ≤ non_queued_tokens ≤ tokens ≤ 2^100`. -/
def BalanceBounded (c : Config) (b : PoolBalance) : Prop :=
  0 ≤ c.nonQueuedTokens b ∧ c.nonQueuedTokens b ≤ b.tokens ∧ b.tokens ≤ balanceCap

instance (b : PoolBalance) : Decidable (BalanceBounded c b) :=
  inferInstanceAs (Decidable (_ ∧ _ ∧ _))

def Entry.setsBoundedBalance (c : Config) (e : Entry) : Bool :=
  match e.call.op with
  | .setPoolBalance _ b => decide (BalanceBounded c b)
  | _ => true

/-! ### One call from a bounded state -/

/-- The emissions of a hundred years, `3.2 · 10^9` seconds at one token a second. -/
def creditCap : Int := 32000000000000000

theorem Store.le_sum {β : Type} {f : β → Int} {m : Store β} {k : Address} {v : β}
    (hf : ∀ k v, m.get k = some v → 0 ≤ f v) (h : m.get k = some v) : f v ≤ m.sum f := by
  obtain ⟨l₁, l₂, hl, -⟩ := List.lookup_eq_some_iff.1 (h : m.entries.lookup k = some v)
  unfold Store.sum
  refine List.single_le_sum (fun x hx => ?_) _ (List.mem_map.2 ⟨(k, v), by simp [hl], rfl⟩)
  obtain ⟨e, he, rfl⟩ := List.mem_map.1 hx
  exact hf _ _ (Store.get_of_mem he)

theorem totalAccrued_nonneg {s : State} (hinv : AccrualInv c s) : 0 ≤ totalAccrued s :=
  List.sum_nonneg fun _ hx => by
    obtain ⟨e, he, rfl⟩ := List.mem_map.1 hx
    exact hinv.accrued _ _ (Store.get_of_mem he)

theorem pendingScaled_nonneg {s : State} {p : Address} (hinv : AccrualInv c s)
    (hp : p ∈ s.rewardZone) : 0 ≤ pendingScaled c s p := by
  obtain ⟨e, he, hle⟩ := hinv.zone p hp
  rw [pendingScaled_of_get he]
  exact mul_nonneg (hinv.nonneg p) (by omega)

theorem zonePending_nonneg {s : State} (hinv : AccrualInv c s) : 0 ≤ zonePending c s :=
  List.sum_nonneg fun _ hx => by
    obtain ⟨q, hq, rfl⟩ := List.mem_map.1 hx
    exact pendingScaled_nonneg hinv hq

theorem zonePool_bound {s : State} {p : Address} {d : RzEmissionData} {R D : Int}
    (hinv : AccrualInv c s)
    (hlaw : scalar14 * (R + totalAccrued s) + zonePending c s ≤ scalar14 * D) (hR : 0 ≤ R)
    (hp : p ∈ s.rewardZone) (hd : s.rzEmisData.get p = some d) :
    scalar14 * d.accrued + pendingScaled c s p ≤ scalar14 * D := by
  have ha : d.accrued ≤ totalAccrued s := Store.le_sum hinv.accrued hd
  have hz := List.single_le_sum (fun _ hx => by
    obtain ⟨q, hq, rfl⟩ := List.mem_map.1 hx
    exact pendingScaled_nonneg hinv hq) _ (List.mem_map_of_mem (pendingScaled c s) hp)
  unfold zonePending at hlaw
  unfold scalar14 at *
  omega

theorem windowEps_ok {t : Int} (h0 : 0 ≤ t) (h1 : t ≤ 2 * creditCap) :
    i128Mul t scalar7 = .ok (t * scalar7) ∧
      toU64 ((t * scalar7).tdiv epsWindow) = .ok ((t * scalar7).tdiv epsWindow).toNat := by
  have hm : InI128 (t * scalar7) := by
    unfold InI128 i128Min i128Max scalar7 creditCap at *; omega
  rw [Int.tdiv_eq_ediv (by unfold scalar7; omega) (by decide)]
  refine ⟨i128Mul_ok hm, toU64_ok ?_ ?_⟩
  · unfold scalar7 epsWindow at *; omega
  · unfold scalar7 epsWindow u64Max creditCap at *; omega

/-- **`set_backstop_emission_eps` does not overflow** for new tokens within the credit cap, more
than a window before `u64::MAX`, on a record with a bounded rate and window. -/
theorem nextBackstopEmisData_safe {now : Nat} {u : Option BackstopEmissionData} {n : Int}
    (hn : 0 ≤ n) (hn' : n ≤ creditCap) (hnow : now + epsWindow ≤ u64Max)
    (hu : ∀ d, u = some d →
      (d.eps : Int) * epsWindow ≤ scalar7 * creditCap ∧ d.expiration ≤ now + epsWindow) :
    ∃ d', nextBackstopEmisData now u n = .ok d' := by
  unfold nextBackstopEmisData
  rw [u64Add_ok hnow, ok_bind]
  cases u with
  | none =>
    obtain ⟨hm, he⟩ := windowEps_ok hn (by unfold creditCap at *; omega)
    simp only [hm, he, ok_bind]
    exact ⟨_, rfl⟩
  | some d =>
    obtain ⟨heps, hexp⟩ := hu d rfl
    dsimp only
    generalize hd₁ : (if d.lastTime ≠ now then { d with lastTime := now } else d) = d₁
    have h₁ : d₁.eps = d.eps ∧ d₁.expiration = d.expiration := by
      subst hd₁; split <;> simp
    split
    · have hw : ((d₁.expiration - now : Nat) : Int) ≤ epsWindow := by
        rw [h₁.2]; exact_mod_cast (by omega)
      have hprod : (d₁.eps : Int) * (d₁.expiration - now : Nat) ≤ scalar7 * creditCap :=
        (mul_le_mul_of_nonneg_left hw (Int.natCast_nonneg _)).trans (h₁.1 ▸ heps)
      have hprod0 : 0 ≤ (d₁.eps : Int) * (d₁.expiration - now : Nat) := by positivity
      have hmul : InI128 ((d₁.eps : Int) * (d₁.expiration - now : Nat)) := by
        unfold InI128 i128Min i128Max scalar7 creditCap at *; omega
      have hadd : InI128 (n + (d₁.eps : Int) * (d₁.expiration - now : Nat) / scalar7) := by
        unfold InI128 i128Min i128Max scalar7 creditCap at *; omega
      obtain ⟨hm, he⟩ := windowEps_ok
        (t := n + (d₁.eps : Int) * (d₁.expiration - now : Nat) / scalar7)
        (by unfold scalar7 at *; omega) (by unfold scalar7 creditCap at *; omega)
      rw [fixedMulFloor, mulDivFloor_of_pos hmul (by decide)]
      simp only [unwrapOptimized, ok_bind, i128Add_ok hadd, hm, he]
      exact ⟨_, rfl⟩
    · obtain ⟨hm, he⟩ := windowEps_ok hn (by unfold creditCap at *; omega)
      simp only [pure, Except.pure, ok_bind, hm, he]
      exact ⟨_, rfl⟩

section Safe

variable {s : State} {p : Address}
  (hinv : AccrualInv c s) (hp : p ∈ s.rewardZone)
  (hb : ∀ d, s.rzEmisData.get p = some d →
    scalar14 * d.accrued + pendingScaled c s p ≤ scalar14 * creditCap)
include hinv hp hb

/-- **`update_rz_emis_data` on a zone pool does not overflow** when the pool's `accrued` and
pending emissions are within the credit cap. -/
theorem updateRzEmisData_safe (g : Bool) : ∃ r, updateRzEmisData c s p g = .ok r := by
  obtain ⟨d, hd, hle⟩ := hinv.zone p hp
  have hbd := hb d hd
  rw [pendingScaled_of_get hd] at hbd
  have ha := hinv.accrued p d hd
  have hG := hinv.index_le
  have hgap : 0 ≤ c.nonQueuedTokens (s.poolBalance p) * (s.rzEmissionIndex - d.index) :=
    mul_nonneg (hinv.nonneg p) (by omega)
  unfold updateRzEmisData
  rw [hd]
  dsimp only
  split_ifs with hgo hpos
  · have hle' : s.rzEmissionIndex - d.index ≤
        c.nonQueuedTokens (s.poolBalance p) * (s.rzEmissionIndex - d.index) :=
      le_mul_of_one_le_left (by omega) hpos
    have hsub : InI128 (s.rzEmissionIndex - d.index) := by
      unfold InI128 i128Min i128Max scalar14 creditCap at *; omega
    have hmul : InI128 (c.nonQueuedTokens (s.poolBalance p) * (s.rzEmissionIndex - d.index)) := by
      unfold InI128 i128Min i128Max scalar14 creditCap at *; omega
    have hadd : InI128 (d.accrued +
        c.nonQueuedTokens (s.poolBalance p) * (s.rzEmissionIndex - d.index) / scalar14) := by
      unfold InI128 i128Min i128Max scalar14 creditCap at *; omega
    rw [i128Sub_ok hsub, ok_bind, fixedMulFloor, mulDivFloor_of_pos hmul (by decide)]
    simp only [unwrapOptimized, ok_bind, i128Add_ok hadd]
    exact ⟨_, rfl⟩
  all_goals exact ⟨_, rfl⟩

theorem updateRzEmisData_gulp_le {s₁ : State} {x : Int}
    (h : updateRzEmisData c s p true = .ok (s₁, x)) : 0 ≤ x ∧ x ≤ creditCap := by
  obtain ⟨d, hd, hle⟩ := hinv.zone p hp
  have hbd := hb d hd
  rw [pendingScaled_of_get hd] at hbd
  have ha := hinv.accrued p d hd
  rcases updateRzEmisData_eq_ok h with ⟨-, -, hno⟩ | ⟨d', hd', -, he⟩
  · cases (hno d hd).2
  rw [hd] at hd'; cases hd'
  rw [setRzEmissions_eq] at he
  obtain ⟨-, rfl⟩ := Prod.mk.inj he
  obtain ⟨hr0, hr⟩ := realised_bounds (hinv.nonneg p) hle
  simp only [if_true]
  unfold scalar14 creditCap at *
  omega

/-- **`gulp_emissions` of a zone pool does not overflow** when its rate and window are bounded, the
ledger leaves room for a window and the allowance's TTL, and the allowance is within the cap. -/
theorem gulpEmissions_safe {ledger : Ledger} {allowance : Int} (hupd : KeepsRate c)
    (hrate : ∀ d, s.backstopEmisData.get p = some d →
      (d.eps : Int) * epsWindow ≤ scalar7 * creditCap ∧ d.expiration ≤ ledger.timestamp + epsWindow)
    (hnow : ledger.timestamp + epsWindow ≤ u64Max)
    (hseq : ledger.sequence + c.ledgerBumpUser ≤ u32Max)
    (ha : 0 ≤ allowance) (ha' : allowance ≤ creditCap) :
    ∃ r, gulpEmissions c s ledger p allowance = .ok r := by
  obtain ⟨⟨s₁, x⟩, hu⟩ := updateRzEmisData_safe hinv hp hb true
  obtain ⟨hx, hx'⟩ := updateRzEmisData_gulp_le hinv hp hb hu
  obtain ⟨m, rfl⟩ := updateRzEmisData_frame hu
  unfold gulpEmissions
  rw [hu, ok_bind]
  dsimp only
  split_ifs with hpos
  · have h7 : InI128 (x * 7000000) := by
      unfold InI128 i128Min i128Max creditCap at *; omega
    have h3 : InI128 (x * 3000000) := by
      unfold InI128 i128Min i128Max creditCap at *; omega
    have hadd : InI128 (allowance + x * 3000000 / scalar7) := by
      unfold InI128 i128Min i128Max scalar7 creditCap at *; omega
    have hnext : ∃ d', nextBackstopEmisData ledger.timestamp
        ((s.backstopEmisData.get p).map (c.updateEmissionData ledger.timestamp (s.poolBalance p)))
        (x * 7000000 / scalar7) = .ok d' := by
      refine nextBackstopEmisData_safe (by unfold scalar7; omega)
        (by unfold scalar7 creditCap at *; omega) hnow fun d hd => ?_
      obtain ⟨d₀, hd₀, rfl⟩ := Option.map_eq_some'.1 hd
      rw [(hupd _ _ _).1, (hupd _ _ _).2]
      exact hrate d₀ hd₀
    obtain ⟨d', hd'⟩ := hnext
    have e7 : fixedMulFloor x 7000000 scalar7 = some (x * 7000000 / scalar7) :=
      mulDivFloor_of_pos h7 (by decide)
    have e3 : fixedMulFloor x 3000000 scalar7 = some (x * 3000000 / scalar7) :=
      mulDivFloor_of_pos h3 (by decide)
    rw [e7, unwrapOptimized, ok_bind, e3, unwrapOptimized, ok_bind, u32Add_ok hseq, ok_bind,
      i128Add_ok hadd, ok_bind, setBackstopEmissionEps]
    dsimp only
    rw [hd', ok_bind]
    exact ⟨_, rfl⟩
  · exact ⟨_, rfl⟩

end Safe

/-! ### Distributing from a bounded state -/

theorem sumNonQueued_ok {s : State} {l : List Address} {total : Int}
    (hl : ∀ p ∈ l, 0 ≤ c.nonQueuedTokens (s.poolBalance p) ∧
      c.nonQueuedTokens (s.poolBalance p) ≤ balanceCap)
    (h0 : 0 ≤ total) (hlen : total + balanceCap * l.length ≤ i128Max) :
    sumNonQueued c s total l =
      .ok (total + (l.map fun p => c.nonQueuedTokens (s.poolBalance p)).sum) := by
  induction l generalizing total with
  | nil => simp [sumNonQueued]
  | cons p l ih =>
    obtain ⟨h1, h2⟩ := hl p (List.mem_cons_self _ _)
    simp only [List.length_cons, Nat.cast_succ] at hlen
    have hadd : InI128 (total + c.nonQueuedTokens (s.poolBalance p)) := by
      unfold InI128 i128Min i128Max balanceCap at *; omega
    rw [sumNonQueued, i128Add_ok hadd, ok_bind, ih (fun q hq => hl q (List.mem_cons_of_mem _ hq))
      (by omega) (by unfold balanceCap at *; omega), List.map_cons, List.sum_cons, add_assoc]

/-- **The index step of `distribute` does not overflow**: it fails only on a zone without
non-queued tokens, when the zone's balances are in `[0, 2^100]` and the index stays within
`SCALAR_14` times the credit cap. -/
theorem advanceIndex_safe {t : State} {N : Int} (hN : 0 ≤ N)
    (hzone : ∀ p ∈ t.rewardZone, 0 ≤ c.nonQueuedTokens (t.poolBalance p) ∧
      c.nonQueuedTokens (t.poolBalance p) ≤ balanceCap)
    (hlen : t.rewardZone.length ≤ maxRzSize) (hG0 : 0 ≤ t.rzEmissionIndex)
    (hG : t.rzEmissionIndex + scalar14 * N ≤ scalar14 * creditCap) :
    (zoneTokens c t = 0 ∧ advanceIndex c t N = .error .unwrap) ∨
      ∃ t', advanceIndex c t N = .ok t' := by
  have hT : sumNonQueued c t 0 t.rewardZone = .ok (zoneTokens c t) := by
    rw [sumNonQueued_ok hzone le_rfl (by unfold maxRzSize at hlen; unfold balanceCap i128Max; omega),
      zero_add]
    rfl
  have hTnn : 0 ≤ zoneTokens c t :=
    List.sum_nonneg fun x hx => by
      obtain ⟨p, hp, rfl⟩ := List.mem_map.1 hx; exact (hzone p hp).1
  have hprod : InI128 (N * scalar14) := by unfold InI128 i128Min i128Max scalar14 creditCap at *; omega
  unfold advanceIndex
  rw [hT, ok_bind]
  rcases hTnn.lt_or_eq with hpos | h0
  · have hd := Int.ediv_le_self (zoneTokens c t) (by unfold scalar14 at *; omega : 0 ≤ N * scalar14)
    have hd0 : 0 ≤ N * scalar14 / zoneTokens c t := Int.ediv_nonneg (by unfold scalar14; omega) hpos.le
    have hadd : InI128 (t.rzEmissionIndex + N * scalar14 / zoneTokens c t) := by
      unfold InI128 i128Min i128Max scalar14 creditCap at *; omega
    rw [fixedDivFloor, mulDivFloor_of_pos hprod hpos, unwrapOptimized, ok_bind, i128Add_ok hadd,
      ok_bind]
    exact .inr ⟨_, rfl⟩
  · refine .inl ⟨h0.symm, ?_⟩
    rw [fixedDivFloor, ← h0, mulDivFloor_zero_right hprod]
    rfl

/-- **`distribute` does not overflow**: from a state with balances in `[0, 2^100]`, an index within
`SCALAR_14` times what was credited and a backfill ledger within its cap, a `distribute` that keeps
the credit within the cap fails only on its guards or on an empty zone. -/
theorem distribute_safe {s : State} {now : Nat} {reply : Option Nat} {D : Int}
    (hinv : AccrualInv c s) (hbal : ∀ p, c.nonQueuedTokens (s.poolBalance p) ≤ balanceCap)
    (hG0 : 0 ≤ s.rzEmissionIndex) (hG : s.rzEmissionIndex ≤ scalar14 * D)
    (hcredit : D + ((emitterRead s.backfillStatus now reply).emitterLastDistribution -
      s.lastDistributionTime : Nat) * scalar7 ≤ creditCap)
    (hlast : s.lastDistributionTime + 60 * 60 ≤ u64Max)
    (hbf : 0 ≤ s.backfillEmissions) (hcap : c.maxBackfilledEmissions ≤ creditCap)
    (hbf' : s.backfillEmissions ≤ c.maxBackfilledEmissions) :
    (∃ r, distribute c s now reply = .ok r) ∨
      (∃ k, distribute c s now reply = .error (.contract k)) ∨
      (zoneTokens c s = 0 ∧ distribute c s now reply = .error .unwrap) := by
  unfold distribute
  dsimp only
  generalize emitterRead s.backfillStatus now reply = r at hcredit ⊢
  generalize hN : (((r.emitterLastDistribution - s.lastDistributionTime : Nat) : Int) * scalar7) = N
    at hcredit
  have hN0 : 0 ≤ N := by rw [← hN]; unfold scalar7; positivity
  have hzone : ∀ t : State, t.rewardZone = s.rewardZone → t.poolBalances = s.poolBalances →
      ∀ p ∈ t.rewardZone, 0 ≤ c.nonQueuedTokens (t.poolBalance p) ∧
        c.nonQueuedTokens (t.poolBalance p) ≤ balanceCap := by
    intro t hz hb p _
    simp only [State.poolBalance, hb]
    exact ⟨hinv.nonneg p, hbal p⟩
  have hlen := hinv.wf.length_le
  have hGN : s.rzEmissionIndex + scalar14 * N ≤ scalar14 * creditCap := by
    unfold scalar14 at *; omega
  have hD : 0 ≤ D := by unfold scalar14 at hG; omega
  have hmul : InI128 (((r.emitterLastDistribution - s.lastDistributionTime : Nat) : Int) * scalar7) := by
    rw [hN]; unfold InI128 i128Min i128Max creditCap at *; omega
  by_cases h0 : s.lastDistributionTime = 0
  · rw [if_pos h0]; exact .inl ⟨_, rfl⟩
  by_cases hreset : r.needsReset = true
  · rw [if_neg h0, if_pos hreset]; exact .inl ⟨_, rfl⟩
  by_cases hempty : s.rewardZone.length = 0
  · rw [if_neg h0, if_neg hreset, if_pos hempty]; exact .inr (.inl ⟨_, rfl⟩)
  rw [if_neg h0, if_neg hreset, if_neg hempty, u64Add_ok hlast, ok_bind]
  by_cases hle : r.emitterLastDistribution ≤ s.lastDistributionTime + 60 * 60
  · rw [if_pos hle]; exact .inr (.inl ⟨_, rfl⟩)
  rw [if_neg hle, i128Mul_ok hmul, ok_bind, hN]
  by_cases hbk : r.isBackfill = true
  · rw [if_pos hbk]
    have hadd : InI128 (s.backfillEmissions + N) := by
      unfold InI128 i128Min i128Max creditCap at *; omega
    rw [addBackfill, i128Add_ok hadd, ok_bind]
    by_cases hover : c.maxBackfilledEmissions < s.backfillEmissions + N
    · rw [if_pos hover]; exact .inr (.inl ⟨_, rfl⟩)
    rw [if_neg hover]
    rcases advanceIndex_safe
        (t := { s with
          lastDistributionTime := r.emitterLastDistribution
          backfillStatus := r.backfillStatus
          backfillEmissions := s.backfillEmissions + N })
        hN0 (hzone _ rfl rfl) hlen hG0 hGN with ⟨hT, he⟩ | ⟨t', he⟩
    · exact .inr (.inr ⟨hT, by simp only [pure, Except.pure, ok_bind, he, error_bind]⟩)
    · exact .inl ⟨_, by simp only [pure, Except.pure, ok_bind, he]; rfl⟩
  · rw [if_neg hbk]
    rcases advanceIndex_safe
        (t := { s with
          lastDistributionTime := r.emitterLastDistribution
          backfillStatus := r.backfillStatus })
        hN0 (hzone _ rfl rfl) hlen hG0 hGN with ⟨hT, he⟩ | ⟨t', he⟩
    · exact .inr (.inr ⟨hT, by simp only [pure, Except.pure, ok_bind, he, error_bind]⟩)
    · exact .inl ⟨_, by simp only [pure, Except.pure, ok_bind, he]; rfl⟩

/-! ### Runs that stay bounded -/

theorem step_poolBalances {s s' : State} {call : Call} {r : Ret}
    (h : step c s call = .ok (s', r)) :
    s'.poolBalances = s.poolBalances ∨
      ∃ p b, call.op = .setPoolBalance p b ∧ s'.poolBalances = s.poolBalances.set p b := by
  rcases step_eq_ok h with ⟨q, t, a, -, -, ha⟩ | ⟨q, a, -, -, hr⟩ | ⟨reply, n, -, -, hd⟩ |
    ⟨p, a, sh, ap, -, -, hg⟩ | ⟨p, x, -, -, hu⟩ | ⟨p, b, s₁, x, hop, -, hu, rfl⟩
  · obtain ⟨m, rz, rfl⟩ := addToRewardZone_frame ha
    exact .inl rfl
  · obtain ⟨m, rz, rfl⟩ := removeFromRewardZone_frame hr
    exact .inl rfl
  · rcases distribute_eq_ok hd with ⟨-, -, rfl⟩ | ⟨-, -, -, -, -, -, d, -, -, rfl⟩ <;> exact .inl rfl
  · obtain ⟨m, b, rfl⟩ := gulpEmissions_frame hg
    exact .inl rfl
  · obtain ⟨m, rfl⟩ := updateRzEmisData_frame hu
    exact .inl rfl
  · obtain ⟨m, rfl⟩ := updateRzEmisData_frame hu
    exact .inr ⟨p, b, hop, rfl⟩

theorem step_backstopEmisData {s s' : State} {call : Call} {r : Ret}
    (h : step c s call = .ok (s', r)) :
    (s'.backstopEmisData = s.backstopEmisData ∧ Entry.backstopShare ⟨s, call, r, s'⟩ = 0) ∨
    ∃ p a s₁ x, call.op = .gulpEmissions p a ∧ updateRzEmisData c s p true = .ok (s₁, x) ∧
      Entry.backstopShare ⟨s, call, r, s'⟩ = x * 7000000 / scalar7 ∧
      setBackstopEmissionEps c s₁ call.ledger.timestamp p (s.poolBalance p)
        (x * 7000000 / scalar7) = .ok s' := by
  rcases step_eq_ok h with ⟨q, t, a, -, rfl, ha⟩ | ⟨q, a, -, rfl, hr⟩ | ⟨reply, n, -, rfl, hd⟩ |
    ⟨p, a, sh, ap, hop, rfl, hg⟩ | ⟨p, x, -, rfl, hu⟩ | ⟨p, b, s₁, x, -, rfl, hu, rfl⟩
  · obtain ⟨m, rz, rfl⟩ := addToRewardZone_frame ha
    exact .inl ⟨rfl, rfl⟩
  · obtain ⟨m, rz, rfl⟩ := removeFromRewardZone_frame hr
    exact .inl ⟨rfl, rfl⟩
  · rcases distribute_eq_ok hd with ⟨-, -, rfl⟩ | ⟨-, -, -, -, -, -, d, -, -, rfl⟩ <;>
      exact .inl ⟨rfl, rfl⟩
  · obtain ⟨s₁, x, hu, hcase⟩ := gulpEmissions_eq_ok hg
    rcases hcase with ⟨-, rfl, -, hset⟩ | ⟨-, rfl, -, rfl⟩
    · exact .inr ⟨p, a, s₁, x, hop, hu, rfl, hset⟩
    · obtain ⟨m, rfl⟩ := updateRzEmisData_frame hu
      exact .inl ⟨rfl, rfl⟩
  all_goals obtain ⟨m, rfl⟩ := updateRzEmisData_frame hu; exact .inl ⟨rfl, rfl⟩

theorem distribute_index {s s' : State} {now : Nat} {reply : Option Nat} {n : Int}
    (hinv : AccrualInv c s) (h : distribute c s now reply = .ok (s', n)) :
    s.rzEmissionIndex ≤ s'.rzEmissionIndex ∧ s'.rzEmissionIndex ≤ s.rzEmissionIndex + scalar14 * n ∧
      0 ≤ n := by
  rcases distribute_eq_ok h with ⟨-, rfl, rfl⟩ | ⟨-, -, -, -, rfl, -, d, hd, -, rfl⟩
  · simp
  have hT : 0 ≤ zoneTokens c s := List.sum_nonneg fun _ hx => by
    obtain ⟨p, -, rfl⟩ := List.mem_map.1 hx; exact hinv.nonneg p
  obtain ⟨hT, rfl⟩ := fixedDivFloor_eq_some hd hT
  generalize ((emitterRead s.backfillStatus now reply).emitterLastDistribution -
    s.lastDistributionTime : Nat) = N
  have h0 : 0 ≤ (N : Int) * scalar7 * scalar14 := by unfold scalar7 scalar14; positivity
  have hle := Int.ediv_le_self (zoneTokens c s) h0
  have hnn := Int.ediv_nonneg h0 hT.le
  dsimp only
  refine ⟨by omega, ?_, mul_nonneg (Int.natCast_nonneg _) (by decide)⟩
  rw [mul_comm scalar14]
  omega

theorem nextBackstopEmisData_rate (hupd : KeepsRate c) {now : Nat} {b : PoolBalance}
    {u : Option BackstopEmissionData} {n B : Int} {d' : BackstopEmissionData}
    (h : nextBackstopEmisData now (u.map (c.updateEmissionData now b)) n = .ok d') (hn : 0 ≤ n)
    (hB : 0 ≤ B) (hu : ∀ d, u = some d →
      (d.eps : Int) * epsWindow ≤ scalar7 * B ∧ d.expiration ≤ now + epsWindow) :
    (d'.eps : Int) * epsWindow ≤ scalar7 * (B + n) ∧ d'.expiration = now + epsWindow := by
  obtain ⟨hexp, -, f, hf₁, -, he₁, -⟩ := nextBackstopEmisData_eq_ok h hn
  rw [unpaid_update hupd] at hf₁
  have hunpaid : unpaid now u ≤ scalar7 * B := by
    cases u with
    | none => simp only [unpaid, Option.map_none', Option.getD_none]; unfold scalar7; omega
    | some d =>
      obtain ⟨heps, hd⟩ := hu d rfl
      have hw : ((d.expiration - now : Nat) : Int) ≤ epsWindow := by exact_mod_cast (by omega)
      simp only [unpaid, Option.map_some', Option.getD_some]
      exact (mul_le_mul_of_nonneg_left hw (Int.natCast_nonneg _)).trans heps
  refine ⟨he₁.trans ?_, hexp⟩
  unfold scalar7 at *
  omega

/-- What a run keeps bounded besides the conservation law: the global index within `SCALAR_14` times
what was credited, the balances, the backfill ledger, the clock, and backstop rates within
`SCALAR_7` times the backstop shares handed out. -/
structure BoundInv (c : Config) (s : State) (log : List Entry) : Prop where
  index_nonneg : 0 ≤ s.rzEmissionIndex
  index : s.rzEmissionIndex ≤ scalar14 * (log.map Entry.distributed).sum
  balance : ∀ p, BalanceBounded c (s.poolBalance p)
  backfill : 0 ≤ s.backfillEmissions ∧ s.backfillEmissions ≤ c.maxBackfilledEmissions
  clock : s.lastDistributionTime = 0 ∨ ∃ e ∈ log, e.emitterTime = some s.lastDistributionTime
  given : 0 ≤ (log.map Entry.backstopShare).sum
  eps : ∀ p d, s.backstopEmisData.get p = some d →
    (d.eps : Int) * epsWindow ≤ scalar7 * (log.map Entry.backstopShare).sum
  window : ∀ p d, s.backstopEmisData.get p = some d →
    ∃ e ∈ log, d.expiration = e.call.ledger.timestamp + epsWindow

theorem boundInv_init (hnq : BalanceBounded c ⟨0, 0, 0⟩) (hcap : 0 ≤ c.maxBackfilledEmissions) :
    BoundInv c State.init [] :=
  ⟨le_rfl, by simp [State.init], fun _ => hnq, ⟨le_rfl, hcap⟩, .inl rfl, le_rfl,
    fun _ _ h => Option.noConfusion h, fun _ _ h => Option.noConfusion h⟩

theorem Entry.setsNegativeBalance_of_bounded {e : Entry} (h : e.setsBoundedBalance c = true) :
    e.setsNegativeBalance c = false := by
  unfold Entry.setsBoundedBalance at h
  unfold Entry.setsNegativeBalance
  cases hop : e.call.op <;> simp only [hop] at h ⊢
  simp only [decide_eq_false_iff_not, not_lt]
  exact (of_decide_eq_true h).1

theorem backstopEmisData_step {s s' : State} {log : List Entry} {call : Call} {r : Ret}
    (hupd : KeepsRate c) (h : step c s call = .ok (s', r))
    (hshare : 0 ≤ Entry.backstopShare ⟨s, call, r, s'⟩)
    (hgiven : 0 ≤ (log.map Entry.backstopShare).sum)
    (heps : ∀ p d, s.backstopEmisData.get p = some d →
      (d.eps : Int) * epsWindow ≤ scalar7 * (log.map Entry.backstopShare).sum)
    (hwin : ∀ p d, s.backstopEmisData.get p = some d →
      ∃ e ∈ log, d.expiration = e.call.ledger.timestamp + epsWindow)
    (htime : ∀ e ∈ log, e.call.ledger.timestamp ≤ call.ledger.timestamp) :
    ∀ p d, s'.backstopEmisData.get p = some d →
      (d.eps : Int) * epsWindow ≤
        scalar7 * ((log.map Entry.backstopShare).sum + Entry.backstopShare ⟨s, call, r, s'⟩) ∧
      ∃ e ∈ log ++ [⟨s, call, r, s'⟩], d.expiration = e.call.ledger.timestamp + epsWindow := by
  rcases step_backstopEmisData h with ⟨hd, hsh⟩ | ⟨p, a, s₁, x, -, hu, hsh, hset⟩
  · intro q d hq
    rw [hd] at hq
    obtain ⟨e, he, hexp⟩ := hwin q d hq
    exact ⟨by rw [hsh, add_zero]; exact heps q d hq, e, List.mem_append_left _ he, hexp⟩
  obtain ⟨d', hnext, rfl⟩ := setBackstopEmissionEps_eq_ok hset
  obtain ⟨m, rfl⟩ := updateRzEmisData_frame hu
  rw [hsh] at hshare ⊢
  have hold : ∀ d, s.backstopEmisData.get p = some d →
      (d.eps : Int) * epsWindow ≤ scalar7 * (log.map Entry.backstopShare).sum ∧
        d.expiration ≤ call.ledger.timestamp + epsWindow := by
    intro d hd
    obtain ⟨e, he, hexp⟩ := hwin p d hd
    exact ⟨heps p d hd, by rw [hexp]; have := htime e he; omega⟩
  obtain ⟨hnew, -⟩ := nextBackstopEmisData_rate hupd hnext hshare hgiven hold
  have hexp := (nextBackstopEmisData_eq_ok hnext hshare).1
  intro q d hq
  by_cases hqp : q = p
  · subst hqp
    rw [Store.get_set_self] at hq
    cases hq
    exact ⟨hnew, _, List.mem_append_right _ (List.mem_singleton_self _), hexp⟩
  · rw [Store.get_set_ne _ _ hqp] at hq
    obtain ⟨e, he, hexp⟩ := hwin q d hq
    have := heps q d hq
    refine ⟨?_, e, List.mem_append_left _ he, hexp⟩
    unfold scalar7 at *
    omega

/-- **One call.**  A call that sets only bounded balances, hands out a non-negative backstop
share, and comes at a ledger time no earlier than the run's keeps `BoundInv`. -/
theorem boundInv_step {s s' : State} {log : List Entry} {call : Call} {r : Ret}
    (hupd : KeepsRate c) (hinv : BoundInv c s log) (hacc : AccrualInv c s)
    (h : step c s call = .ok (s', r))
    (hbal : Entry.setsBoundedBalance c ⟨s, call, r, s'⟩ = true)
    (hshare : 0 ≤ Entry.backstopShare ⟨s, call, r, s'⟩)
    (htime : ∀ e ∈ log, e.call.ledger.timestamp ≤ call.ledger.timestamp) :
    BoundInv c s' (log ++ [⟨s, call, r, s'⟩]) := by
  have hsum : ∀ f : Entry → Int, ((log ++ [(⟨s, call, r, s'⟩ : Entry)]).map f).sum =
      (log.map f).sum + f ⟨s, call, r, s'⟩ := by
    simp
  obtain ⟨hG0, hG, hb, hbf, hclock, hgiven, heps, hwin⟩ := hinv
  have hdist : 0 ≤ s'.rzEmissionIndex ∧
      s'.rzEmissionIndex ≤ scalar14 * ((log.map Entry.distributed).sum +
        Entry.distributed ⟨s, call, r, s'⟩) ∧
      0 ≤ Entry.backfilled ⟨s, call, r, s'⟩ := by
    rcases step_distribute_cases h with ⟨reply, n, hop, rfl, hd⟩ | ⟨hnd, hsame⟩
    · obtain ⟨hn, hbk⟩ := Entry.distributed_of_distribute (e := ⟨s, call, _, s'⟩) hop rfl
      obtain ⟨h1, h2, h3⟩ := distribute_index hacc hd
      rw [hn, hbk]
      refine ⟨by omega, by rw [mul_add]; omega, by split <;> omega⟩
    · obtain ⟨hn, hbk⟩ := Entry.distributed_of_ne (e := ⟨s, call, r, s'⟩) hnd
      rw [hn, hbk, hsame.1, add_zero]
      exact ⟨hG0, hG, le_rfl⟩
  obtain ⟨hbf', hbfle⟩ := backfill_step h
  have hbs := backstopEmisData_step hupd h hshare hgiven heps hwin htime
  refine ⟨hdist.1, (hsum _).symm ▸ hdist.2.1, fun q => ?_, ⟨by omega, ?_⟩, ?_, ?_, ?_, ?_⟩
  · rcases step_poolBalances h with hpb | ⟨p, b, hop, hpb⟩
    · simpa only [State.poolBalance, hpb] using hb q
    · by_cases hqp : q = p
      · subst hqp
        simp only [Entry.setsBoundedBalance, hop, decide_eq_true_eq] at hbal
        simpa only [State.poolBalance, hpb, Store.get_set_self] using hbal
      · simpa only [State.poolBalance, hpb, Store.get_set_ne _ _ hqp] using hb q
  · exact hbfle.elim (fun h1 => h1 ▸ hbf.2) id
  · rcases clock_step h with ⟨heq, -⟩ | ⟨ht, -⟩
    · rcases hclock with h0 | ⟨e, he, hte⟩
      · exact .inl (heq.trans h0)
      · exact .inr ⟨e, List.mem_append_left _ he, heq ▸ hte⟩
    · exact .inr ⟨_, List.mem_append_right _ (List.mem_singleton_self _), ht⟩
  · rw [hsum]; omega
  · intro q d hq
    rw [hsum]
    exact (hbs q d hq).1
  · exact fun q d hq => (hbs q d hq).2

theorem boundInv_run (hnq : BalanceBounded c ⟨0, 0, 0⟩) (hupd : KeepsRate c)
    (hcap : 0 ≤ c.maxBackfilledEmissions) {s : State} {log : List Entry} (hrun : Run c s log)
    (hbal : ∀ e ∈ log, e.setsBoundedBalance c = true) (hgulp : ∀ e ∈ log, e.gulpsEvicted = false)
    (htime : (log.map fun e => e.call.ledger.timestamp).Pairwise (· ≤ ·)) :
    BoundInv c s log := by
  induction hrun with
  | init => exact boundInv_init hnq hcap
  | @step s s' log call r hrun hs ih =>
    simp only [List.mem_append, List.mem_singleton] at hbal hgulp
    rw [List.map_append, List.pairwise_append] at htime
    have hneg : ∀ e ∈ log, e.setsNegativeBalance c = false := fun e he =>
      Entry.setsNegativeBalance_of_bounded (hbal e (.inl he))
    have hacc := (conservation_law hnq.1 hrun hneg fun e he => hgulp e (.inl he)).1
    obtain ⟨-, -, -, hout⟩ := accrualInv_step hacc hs
      (Entry.setsNegativeBalance_of_bounded (hbal _ (.inr rfl))) (hgulp _ (.inr rfl))
    exact boundInv_step hupd (ih (fun e he => hbal e (.inl he)) (fun e he => hgulp e (.inl he))
      htime.1) hacc hs (hbal _ (.inr rfl)) hout.1
      fun e he => htime.2.2 _ (List.mem_map_of_mem _ he) _ (List.mem_singleton_self _)

/-- **Overflow safety.**  On a run with balances in `[0, 2^100]`, no evicted gulp and a ledger that
never goes back, that credited at most a hundred years of emissions, `distribute` fails only on its
guards or an empty zone, and `update_rz_emis_data` and `gulp_emissions` of a zone pool succeed. -/
theorem overflow_safety (hnq : BalanceBounded c ⟨0, 0, 0⟩) (hupd : KeepsRate c)
    (hcap : 0 ≤ c.maxBackfilledEmissions) (hcap' : c.maxBackfilledEmissions ≤ creditCap)
    {s : State} {log : List Entry} (hrun : Run c s log)
    (hbal : ∀ e ∈ log, e.setsBoundedBalance c = true) (hgulp : ∀ e ∈ log, e.gulpsEvicted = false)
    (htime : (log.map fun e => e.call.ledger.timestamp).Pairwise (· ≤ ·))
    (hclock : ∀ e ∈ log, ∀ t ∈ e.emitterTime, t + 60 * 60 ≤ u64Max)
    (hcredit : (log.map Entry.distributed).sum ≤ creditCap) (ledger : Ledger)
    (hnow : ∀ e ∈ log, e.call.ledger.timestamp ≤ ledger.timestamp)
    (hnow' : ledger.timestamp + epsWindow ≤ u64Max) :
    (∀ reply, (log.map Entry.distributed).sum +
        ((emitterRead s.backfillStatus ledger.timestamp reply).emitterLastDistribution -
          s.lastDistributionTime : Nat) * scalar7 ≤ creditCap →
      (∃ r, step c s ⟨ledger, .distribute reply⟩ = .ok r) ∨
      (∃ k, step c s ⟨ledger, .distribute reply⟩ = .error (.contract k)) ∨
      (zoneTokens c s = 0 ∧ step c s ⟨ledger, .distribute reply⟩ = .error .unwrap)) ∧
    (∀ p g, p ∈ s.rewardZone → ∃ r, updateRzEmisData c s p g = .ok r) ∧
    (∀ p allowance, p ∈ s.rewardZone → ledger.sequence + c.ledgerBumpUser ≤ u32Max →
      0 ≤ allowance → allowance ≤ (log.map Entry.distributed).sum →
      ∃ r, step c s ⟨ledger, .gulpEmissions p allowance⟩ = .ok r) := by
  have hneg : ∀ e ∈ log, e.setsNegativeBalance c = false := fun e he =>
    Entry.setsNegativeBalance_of_bounded (hbal e he)
  obtain ⟨hacc, hlaw, hlog⟩ := conservation_law hnq.1 hrun hneg hgulp
  have hB := boundInv_run hnq hupd hcap hrun hbal hgulp htime
  have hR : 0 ≤ (log.map (Entry.realisedByGulp c)).sum := List.sum_nonneg fun _ hx => by
    obtain ⟨e, he, rfl⟩ := List.mem_map.1 hx
    obtain ⟨-, h1, h2, h3⟩ := hlog e he
    omega
  have hBR : (log.map Entry.backstopShare).sum ≤ (log.map (Entry.realisedByGulp c)).sum :=
    List.sum_le_sum fun e he => by
      obtain ⟨-, h1, h2, h3⟩ := hlog e he
      omega
  have hRD : (log.map (Entry.realisedByGulp c)).sum ≤ (log.map Entry.distributed).sum := by
    have := totalAccrued_nonneg hacc
    have := zonePending_nonneg hacc
    unfold scalar14 at hlaw
    omega
  have hzone : ∀ p ∈ s.rewardZone, ∀ d, s.rzEmisData.get p = some d →
      scalar14 * d.accrued + pendingScaled c s p ≤ scalar14 * creditCap := fun p hp d hd =>
    (zonePool_bound hacc hlaw hR hp hd).trans (by unfold scalar14; omega)
  refine ⟨fun reply hcr => ?_, fun p g hp => updateRzEmisData_safe hacc hp (hzone p hp) g,
    fun p a hp hseq ha ha' => ?_⟩
  · have hlast : s.lastDistributionTime + 60 * 60 ≤ u64Max := by
      rcases hB.clock with h0 | ⟨e, he, ht⟩
      · rw [h0]; decide
      · exact hclock e he _ ht
    have hbal' : ∀ p, c.nonQueuedTokens (s.poolBalance p) ≤ balanceCap := fun p =>
      (hB.balance p).2.1.trans (hB.balance p).2.2
    rcases distribute_safe hacc hbal' hB.index_nonneg hB.index hcr hlast hB.backfill.1 hcap'
      hB.backfill.2 with ⟨r, he⟩ | ⟨k, he⟩ | ⟨hT, he⟩
    · exact .inl ⟨_, by simp only [step, he]; rfl⟩
    · exact .inr (.inl ⟨k, by simp only [step, he]; rfl⟩)
    · exact .inr (.inr ⟨hT, by simp only [step, he]; rfl⟩)
  · have hrate : ∀ d, s.backstopEmisData.get p = some d →
        (d.eps : Int) * epsWindow ≤ scalar7 * creditCap ∧
          d.expiration ≤ ledger.timestamp + epsWindow := by
      intro d hd
      obtain ⟨e, he, hexp⟩ := hB.window p d hd
      have := hB.eps p d hd
      have := hnow e he
      refine ⟨?_, by omega⟩
      unfold scalar7 at *
      omega
    obtain ⟨r, hr⟩ := gulpEmissions_safe hacc hp (hzone p hp) hupd hrate hnow' hseq ha
      (ha'.trans hcredit)
    exact ⟨_, by simp only [step, hr]; rfl⟩

theorem overflow_safety_evictRun :
    (∀ reply, (evictRun.2.map Entry.distributed).sum +
        ((emitterRead evictRun.1.backfillStatus 1713225600 reply).emitterLastDistribution -
          evictRun.1.lastDistributionTime : Nat) * scalar7 ≤ creditCap →
      (∃ r, step specConfig evictRun.1 ⟨⟨1713225600, 2⟩, .distribute reply⟩ = .ok r) ∨
      (∃ k, step specConfig evictRun.1 ⟨⟨1713225600, 2⟩, .distribute reply⟩ =
        .error (.contract k)) ∨
      (zoneTokens specConfig evictRun.1 = 0 ∧
        step specConfig evictRun.1 ⟨⟨1713225600, 2⟩, .distribute reply⟩ = .error .unwrap)) ∧
    (∀ p g, p ∈ evictRun.1.rewardZone → ∃ r, updateRzEmisData specConfig evictRun.1 p g = .ok r) ∧
    (∀ p allowance, p ∈ evictRun.1.rewardZone →
      2 + specConfig.ledgerBumpUser ≤ u32Max → 0 ≤ allowance →
      allowance ≤ (evictRun.2.map Entry.distributed).sum →
      ∃ r, step specConfig evictRun.1 ⟨⟨1713225600, 2⟩, .gulpEmissions p allowance⟩ = .ok r) :=
  overflow_safety (by decide) (fun _ _ _ => ⟨rfl, rfl⟩) (by decide) (by decide) evictRun_run
    (by decide) (by decide) (by decide) (by decide) (by decide) ⟨1713225600, 2⟩ (by decide)
    (by decide)

/-! ### A zone pool that cannot be gulped -/

/-- After the eviction the first pool withdraws and is gulped, deposits a hundred tokens again,
and the second pool shrinks to one unit; a day of emissions goes to the second pool alone, the
first pool deposits more, and it joins the reward zone again. -/
def overflowCalls : List Call :=
  evictCalls ++
  [⟨⟨1713225600, 2⟩, .setPoolBalance 1 ⟨0, 0, 0⟩⟩,
   ⟨⟨1713225600, 2⟩, .gulpEmissions 1 0⟩,
   ⟨⟨1713225600, 2⟩, .setPoolBalance 1 ⟨1000000000, 1000000000, 0⟩⟩,
   ⟨⟨1713225600, 2⟩, .setPoolBalance 2 ⟨1, 1, 0⟩⟩,
   ⟨⟨1713312000, 3⟩, .distribute (some 1713312000)⟩,
   ⟨⟨1713312000, 3⟩, .setPoolBalance 1 ⟨2000000000, 2000000000, 0⟩⟩,
   ⟨⟨1713312000, 3⟩, .addToRewardZone 1 none true⟩]

theorem overflowCalls_ok : (runCalls specConfig State.init [] overflowCalls).isSome = true := by
  rfl

def overflowRun : State × List Entry :=
  (runCalls specConfig State.init [] overflowCalls).get overflowCalls_ok

theorem overflowRun_run : Run specConfig overflowRun.1 overflowRun.2 :=
  Run.of_runCalls Run.init (Option.some_get overflowCalls_ok).symm

/-- On a run with bounded balances and two days credited, the first pool is back in the zone
with `accrued` of `86.4` trillion tokens.  Its gulp realises them and panics when the rate for
its `70%` share, `6.048 · 10^20 · SCALAR_7 / 604800 = 10^22`, is converted to `u64`. -/
theorem zone_gulp_panics :
    Run specConfig overflowRun.1 overflowRun.2 ∧
    (∀ e ∈ overflowRun.2, e.setsBoundedBalance specConfig = true) ∧
    (overflowRun.2.map Entry.distributed).sum = 1728000000000 ∧
    1 ∈ overflowRun.1.rewardZone ∧
    overflowRun.1.rzEmisData.get 1 =
      some ⟨86400000043200000000000000, 864000000000000000000⟩ ∧
    overflowRun.1.backstopEmisData.get 1 = none ∧
    nextBackstopEmisData 1713312000 none 604800000000000000000 = .error .unwrap ∧
    gulpEmissions specConfig overflowRun.1 ⟨1713312000, 3⟩ 1 0 = .error .unwrap :=
  ⟨overflowRun_run, by decide, by decide, by decide, by decide, by decide, by rfl, by rfl⟩

end BlendBackstop
