import BlendBackstop.Conservation
import BlendBackstop.Rounding

/-!
# What each pool is credited

`distribute` credits the reward zone through one global index, and a pool collects its share
lazily, when `update_rz_emis_data` moves the index it has not seen into `accrued`.  The design
this implements is eager: at every distribution each pool in the zone earns its non-queued tokens
times the index increment (`Entry.proRata`).  This module compares the two, one pool at a time.

What the manager holds for a pool is its stored `accrued` and, while the pool is in the zone, its
pending emissions (`heldFor`, in units of `1 / SCALAR_14`).  A distribution adds exactly the
pool's pro-rata credit to it; a realisation or a gulp moves the pending part into `accrued` or
out to the gulp with one floor, losing less than a unit; an eviction drops the pending part; an
admission changes nothing.

* `heldFor_step`: what one call does to what the manager holds for a pool.
* `accrued_kept`: from any state, calls that do not gulp a pool never lower its `accrued`.
* `pool_credit`: on every run with non-negative balances and no gulp of an evicted pool, no pool
  has been paid and holds more than its pro-rata credit, and a pool that was never evicted falls
  short of it by less than a unit per call that realised it.
-/

namespace BlendBackstop

variable {c : Config} {s s' : State} {p : Address}

/-! ### What the manager holds for a pool -/

/-- What the manager holds for `p`, in units of `1 / SCALAR_14`: its stored `accrued`, scaled, and
its pending emissions while it is in the zone. -/
def heldFor (c : Config) (s : State) (p : Address) : Int :=
  scalar14 * accruedOf s p + if p ∈ s.rewardZone then pendingScaled c s p else 0

/-- The pro-rata credit of `p` in a call, in units of `1 / SCALAR_14`: for a `distribute`, the
pool's non-queued tokens times the index increment if it is in the zone; nothing otherwise. -/
def Entry.proRata (c : Config) (p : Address) (e : Entry) : Int :=
  match e.call.op with
  | .distribute _ =>
    if p ∈ e.pre.rewardZone then
      c.nonQueuedTokens (e.pre.poolBalance p) * (e.post.rzEmissionIndex - e.pre.rzEmissionIndex)
    else 0
  | _ => 0

def Entry.gulpedFrom (c : Config) (p : Address) (e : Entry) : Int :=
  match e.call.op with
  | .gulpEmissions q _ => if q = p then e.realisedByGulp c else 0
  | _ => 0

/-- The call realises `p`: `update_rz_emis_data(p, false)`, a balance change of `p`, or a gulp
of `p`. -/
def Entry.realises (p : Address) (e : Entry) : Bool :=
  match e.call.op with
  | .updateRzEmisData q | .setPoolBalance q _ | .gulpEmissions q _ => decide (q = p)
  | _ => false

theorem heldFor_congr {t : State} (hd : t.rzEmisData.get p = s.rzEmisData.get p)
    (hb : t.poolBalance p = s.poolBalance p) (hG : t.rzEmissionIndex = s.rzEmissionIndex)
    (hz : p ∈ t.rewardZone ↔ p ∈ s.rewardZone) : heldFor c t p = heldFor c s p := by
  simp only [heldFor, accruedOf, hd, hz, pendingScaled_congr hb hd hG]

theorem heldFor_of_get {d : RzEmissionData} (hd : s.rzEmisData.get p = some d) :
    heldFor c s p = scalar14 * d.accrued + if p ∈ s.rewardZone then
      c.nonQueuedTokens (s.poolBalance p) * (s.rzEmissionIndex - d.index) else 0 := by
  simp only [heldFor, accruedOf, hd, Option.map_some', Option.getD_some, pendingScaled_of_get hd]

theorem heldFor_nonneg (hinv : AccrualInv c s) : 0 ≤ heldFor c s p := by
  have hacc : 0 ≤ accruedOf s p := by
    unfold accruedOf
    cases hd : s.rzEmisData.get p with
    | none => exact le_rfl
    | some d => exact hinv.accrued p d hd
  unfold heldFor
  split_ifs with hp
  · obtain ⟨d, hd, hle⟩ := hinv.zone p hp
    have := mul_nonneg (hinv.nonneg p) (sub_nonneg.2 hle)
    rw [pendingScaled_of_get hd]
    unfold scalar14
    omega
  · unfold scalar14
    omega

/-- A pool whose record `update_rz_emis_data` moves, gulping only pools in the zone or without a
record, is in the zone: an evicted pool's index `i128::MAX` is never below the global one. -/
theorem mem_rewardZone_of_moves {g : Bool} {d : RzEmissionData} (hinv : AccrualInv c s)
    (hd : s.rzEmisData.get p = some d) (hgo : d.index < s.rzEmissionIndex ∨ g = true)
    (hg : g = true → p ∈ s.rewardZone ∨ s.rzEmisData.get p = none) : p ∈ s.rewardZone := by
  by_contra hp
  have := hinv.index_le
  rcases hgo with hlt | hgt
  · have := hinv.evicted p d hp hd
    omega
  · rcases hg hgt with h1 | h1
    · exact hp h1
    · rw [hd] at h1
      cases h1

/-! ### One call -/

/-- **A realisation or a gulp of `p`.**  `update_rz_emis_data(p, g)` returns `x` and keeps what it
held for `p` otherwise, less under a unit. -/
theorem heldFor_update {g : Bool} {x : Int} (hinv : AccrualInv c s)
    (h : updateRzEmisData c s p g = .ok (s', x))
    (hg : g = true → p ∈ s.rewardZone ∨ s.rzEmisData.get p = none) :
    heldFor c s' p + scalar14 * x ≤ heldFor c s p ∧
      heldFor c s p ≤ heldFor c s' p + scalar14 * x + (scalar14 - 1) := by
  rcases updateRzEmisData_eq_ok h with ⟨rfl, rfl, -⟩ | ⟨d, hd, hgo, he⟩
  · unfold scalar14
    omega
  have hp := mem_rewardZone_of_moves hinv hd hgo hg
  obtain ⟨d', hd', hle⟩ := hinv.zone p hp
  rw [hd] at hd'
  cases hd'
  rw [setRzEmissions_eq] at he
  obtain ⟨rfl, rfl⟩ := Prod.mk.inj he
  have hn := hinv.nonneg p
  have h0 : 0 ≤ c.nonQueuedTokens (s.poolBalance p) * (s.rzEmissionIndex - d.index) :=
    mul_nonneg hn (by omega)
  rw [heldFor_of_get hd, heldFor_of_get (Store.get_set_self _ _ _)]
  simp only [if_pos hp, realised_of_nonneg hn, sub_self, mul_zero, add_zero]
  unfold scalar14 at *
  cases g <;> simp only [Bool.false_eq_true, if_false, if_true] <;> omega

theorem updateRzEmisData_get_ne {q : Address} {g : Bool} {x : Int}
    (h : updateRzEmisData c s q g = .ok (s', x)) (hqp : q ≠ p) :
    s'.rzEmisData.get p = s.rzEmisData.get p := by
  rcases updateRzEmisData_eq_ok h with ⟨rfl, -, -⟩ | ⟨d, -, -, he⟩
  · rfl
  rw [setRzEmissions_eq] at he
  obtain ⟨rfl, -⟩ := Prod.mk.inj he
  exact Store.get_set_ne _ _ (Ne.symm hqp)

theorem heldFor_update_ne {q : Address} {g : Bool} {x : Int}
    (h : updateRzEmisData c s q g = .ok (s', x)) (hqp : q ≠ p) :
    heldFor c s' p = heldFor c s p := by
  obtain ⟨m, rfl⟩ := updateRzEmisData_frame h
  exact heldFor_congr (updateRzEmisData_get_ne h hqp) rfl rfl Iff.rfl

theorem updateRzEmisData_ret_of_false {x : Int} (h : updateRzEmisData c s p false = .ok (s', x)) :
    x = 0 := by
  rcases updateRzEmisData_eq_ok h with ⟨-, rfl, -⟩ | ⟨d, -, -, he⟩
  · rfl
  · rw [setRzEmissions_eq] at he
    exact (Prod.mk.inj he).2

theorem heldFor_realise {q : Address} {x : Int} (hinv : AccrualInv c s)
    (h : updateRzEmisData c s q false = .ok (s', x)) :
    heldFor c s' p ≤ heldFor c s p ∧
      heldFor c s p ≤ heldFor c s' p + if q = p then scalar14 - 1 else 0 := by
  by_cases hqp : q = p
  · subst hqp
    obtain rfl := updateRzEmisData_ret_of_false h
    simpa only [mul_zero, add_zero, if_pos] using heldFor_update hinv h Bool.noConfusion
  · rw [heldFor_update_ne h hqp, if_neg hqp, add_zero]
    exact ⟨le_rfl, le_rfl⟩

theorem heldFor_gulpEmissions {ledger : Ledger} {q : Address} {a : Int} {shares : Int × Int}
    {approved : Option Int} (h : gulpEmissions c s ledger q a = .ok (s', shares, approved)) :
    ∃ s₁ x, updateRzEmisData c s q true = .ok (s₁, x) ∧ heldFor c s' p = heldFor c s₁ p := by
  obtain ⟨s₁, x, hu, hcase⟩ := gulpEmissions_eq_ok h
  refine ⟨s₁, x, hu, ?_⟩
  rcases hcase with ⟨-, -, -, hset⟩ | ⟨-, -, -, rfl⟩
  · obtain ⟨d, -, rfl⟩ := setBackstopEmissionEps_eq_ok hset
    rfl
  · rfl

theorem heldFor_setPoolBalance {q : Address} {b : PoolBalance}
    (hseen : q ∈ s.rewardZone → s.seenIndex q = s.rzEmissionIndex) :
    heldFor c { s with poolBalances := s.poolBalances.set q b } p = heldFor c s p := by
  by_cases hpq : p = q
  · subst hpq
    unfold heldFor
    by_cases hp : p ∈ s.rewardZone
    · rw [if_pos hp, if_pos hp, pendingScaled_of_seen (s := s) (hseen hp),
        pendingScaled_of_seen (s := { s with poolBalances := s.poolBalances.set p b }) (hseen hp)]
      rfl
    · rw [if_neg hp, if_neg hp]
      rfl
  · exact heldFor_congr rfl (by simp only [State.poolBalance, Store.get_set_ne _ _ hpq]) rfl Iff.rfl

/-- **A distribution** adds exactly the pool's pro-rata credit to what the manager holds for it. -/
theorem heldFor_distribute {now : Nat} {reply : Option Nat} {N : Int} (hinv : AccrualInv c s)
    (h : distribute c s now reply = .ok (s', N)) :
    heldFor c s' p = heldFor c s p + if p ∈ s.rewardZone then
      c.nonQueuedTokens (s.poolBalance p) * (s'.rzEmissionIndex - s.rzEmissionIndex) else 0 := by
  obtain ⟨hrec, hbal⟩ := distribute_records h
  have hz : s'.rewardZone = s.rewardZone := by
    rcases distribute_eq_ok h with ⟨-, -, rfl⟩ | ⟨-, -, -, -, -, -, d, -, -, rfl⟩ <;> rfl
  have hb : s'.poolBalance p = s.poolBalance p := by simp only [State.poolBalance, hbal]
  by_cases hp : p ∈ s.rewardZone
  · obtain ⟨d, hd, -⟩ := hinv.zone p hp
    have hd' : s'.rzEmisData.get p = some d := by rw [hrec]; exact hd
    rw [heldFor_of_get hd, heldFor_of_get hd', hz, hb, if_pos hp, if_pos hp, if_pos hp]
    ring
  · simp only [heldFor, accruedOf, hz, hrec, if_neg hp, add_zero]

theorem heldFor_admit {t : State} {q : Address} (hq : q ∉ t.rewardZone) :
    heldFor c { t with
      rzEmisData := t.rzEmisData.set q ⟨t.rzEmissionIndex, accruedOf t q⟩
      rewardZone := q :: t.rewardZone } p = heldFor c t p := by
  by_cases hpq : p = q
  · subst hpq
    rw [heldFor_of_get (Store.get_set_self _ _ _)]
    simp only [heldFor, List.mem_cons_self, if_true, if_neg hq, sub_self, mul_zero, add_zero]
  · refine heldFor_congr (Store.get_set_ne _ _ hpq) rfl rfl ?_
    simp only [List.mem_cons, hpq, false_or]

/-- **An eviction.**  `remove_pool` keeps `r`'s `accrued` and drops its pending emissions; it
changes nothing the manager holds for any other pool. -/
theorem heldFor_removePool {now : Nat} {r : Address} {s₁ : State} {rz₁ : List Address}
    (hinv : AccrualInv c s) (h : removePool s now s.rewardZone r = .ok (s₁, rz₁)) :
    r ∈ s.rewardZone ∧ r ∉ rz₁ ∧ heldFor c { s₁ with rewardZone := rz₁ } p ≤ heldFor c s p ∧
      (p ≠ r → heldFor c { s₁ with rewardZone := rz₁ } p = heldFor c s p) := by
  obtain ⟨hr, -, -, rfl, d, hd, rfl⟩ := removePool_eq_ok h
  have hr' : r ∉ s.rewardZone.erase r := hinv.wf.nodup.not_mem_erase
  have hne : p ≠ r → heldFor c { s with
      rzEmisData := s.rzEmisData.set r ⟨i128Max, d.accrued⟩
      rewardZone := s.rewardZone.erase r } p = heldFor c s p := fun hpr =>
    heldFor_congr (Store.get_set_ne _ _ hpr) rfl rfl (List.mem_erase_of_ne hpr)
  refine ⟨hr, hr', ?_, hne⟩
  by_cases hpr : p = r
  · subst hpr
    obtain ⟨d', hd', hle⟩ := hinv.zone p hr
    rw [hd] at hd'
    cases hd'
    have := mul_nonneg (hinv.nonneg p) (sub_nonneg.2 hle)
    rw [heldFor_of_get hd, heldFor_of_get (Store.get_set_self _ _ _), if_neg hr', if_pos hr]
    dsimp only
    omega
  · exact (hne hpr).le

theorem heldFor_addToRewardZone {now : Nat} {q : Address} {t : Option Address} {a : Bool}
    (hinv : AccrualInv c s) (h : addToRewardZone s now q t a = .ok s') :
    heldFor c s' p ≤ heldFor c s p ∧
      ((p ∈ s.rewardZone → p ∈ s'.rewardZone) → heldFor c s' p = heldFor c s p) := by
  obtain ⟨hq, -, s₁, rz₁, hz, rfl⟩ := addToRewardZone_eq_ok h
  rcases hz with ⟨-, rfl, rfl⟩ | ⟨-, r, -, -, hrem⟩
  · have := heldFor_admit (c := c) (p := p) hq
    exact ⟨this.le, fun _ => this⟩
  obtain ⟨hr, hr', hle, hne⟩ := heldFor_removePool (p := p) hinv hrem
  obtain ⟨-, -, -, rfl, d, -, rfl⟩ := removePool_eq_ok hrem
  have hadm := heldFor_admit (c := c) (p := p)
    (t := { s with
      rzEmisData := s.rzEmisData.set r ⟨i128Max, d.accrued⟩, rewardZone := s.rewardZone.erase r })
    fun h => hq (List.mem_of_mem_erase h)
  refine ⟨hadm.trans_le hle, fun hstay => hadm.trans (hne fun hpr => ?_)⟩
  subst hpr
  rcases List.mem_cons.1 (hstay hr) with h | h
  · exact hq (h ▸ hr)
  · exact hr' h

theorem heldFor_removeFromRewardZone {now : Nat} {r : Address} {a : Bool} (hinv : AccrualInv c s)
    (h : removeFromRewardZone s now r a = .ok s') :
    heldFor c s' p ≤ heldFor c s p ∧
      ((p ∈ s.rewardZone → p ∈ s'.rewardZone) → heldFor c s' p = heldFor c s p) := by
  obtain ⟨-, s₁, rz₁, hrem, rfl⟩ := removeFromRewardZone_eq_ok h
  obtain ⟨hr, hr', hle, hne⟩ := heldFor_removePool (p := p) hinv hrem
  exact ⟨hle, fun hstay => hne fun hpr => hr' (hpr ▸ hstay (hpr ▸ hr))⟩

/-- **One call, for one pool.**  What the manager holds for `p` after a call, plus what the call
gulped from `p`, is at most what it held plus `p`'s pro-rata credit, and short of it by under a unit
only when the call realises `p`, unless it evicts `p`. -/
theorem heldFor_step {call : Call} {r : Ret} (hinv : AccrualInv c s)
    (h : step c s call = .ok (s', r)) (hgulp : Entry.gulpsEvicted ⟨s, call, r, s'⟩ = false)
    (p : Address) :
    heldFor c s' p + scalar14 * Entry.gulpedFrom c p ⟨s, call, r, s'⟩ ≤
        heldFor c s p + Entry.proRata c p ⟨s, call, r, s'⟩ ∧
      ((p ∈ s.rewardZone → p ∈ s'.rewardZone) →
        heldFor c s p + Entry.proRata c p ⟨s, call, r, s'⟩ ≤
          heldFor c s' p + scalar14 * Entry.gulpedFrom c p ⟨s, call, r, s'⟩ +
            if Entry.realises p ⟨s, call, r, s'⟩ then scalar14 - 1 else 0) := by
  unfold Entry.gulpedFrom Entry.proRata Entry.realises
  unfold Entry.gulpsEvicted at hgulp
  rcases step_eq_ok h with ⟨q, t, a, hop, rfl, ha⟩ | ⟨q, a, hop, rfl, hr⟩ |
    ⟨reply, n, hop, rfl, hd⟩ | ⟨q, a, shares, approved, hop, rfl, hg⟩ | ⟨q, x, hop, rfl, hu⟩ |
    ⟨q, b, s₁, x, hop, rfl, hu, rfl⟩
  case inl =>
    obtain ⟨hle, heq⟩ := heldFor_addToRewardZone (p := p) hinv ha
    simp only [hop, mul_zero, add_zero, Bool.false_eq_true, if_false]
    exact ⟨hle, fun hstay => (heq hstay).ge⟩
  case inr.inl =>
    obtain ⟨hle, heq⟩ := heldFor_removeFromRewardZone (p := p) hinv hr
    simp only [hop, mul_zero, add_zero, Bool.false_eq_true, if_false]
    exact ⟨hle, fun hstay => (heq hstay).ge⟩
  case inr.inr.inl =>
    simp only [hop, heldFor_distribute hinv hd, mul_zero, add_zero, Bool.false_eq_true, if_false]
    exact ⟨le_rfl, fun _ => le_rfl⟩
  case inr.inr.inr.inl =>
    obtain ⟨s₁, x, hu, heq⟩ := heldFor_gulpEmissions (p := p) hg
    simp only [hop, Entry.realisedByGulp, hu, heq, decide_eq_true_eq, add_zero]
    by_cases hqp : q = p
    · subst hqp
      have hg' : q ∈ s.rewardZone ∨ s.rzEmisData.get q = none := by
        by_cases hq : q ∈ s.rewardZone
        · exact .inl hq
        · simpa [hop, hq, Option.isSome_iff_ne_none] using hgulp
      obtain ⟨h1, h2⟩ := heldFor_update hinv hu fun _ => hg'
      simp only [if_true]
      exact ⟨h1, fun _ => h2⟩
    · rw [heldFor_update_ne hu hqp]
      simp only [hqp, if_false, mul_zero, add_zero]
      exact ⟨le_rfl, fun _ => le_rfl⟩
  case inr.inr.inr.inr.inl =>
    obtain ⟨h1, h2⟩ := heldFor_realise (p := p) hinv hu
    simp only [hop, mul_zero, add_zero, decide_eq_true_eq]
    exact ⟨h1, fun _ => h2⟩
  case inr.inr.inr.inr.inr =>
    obtain ⟨-, hseen, -, -⟩ := updateRzEmisData_inv hinv hu (by simp)
    obtain ⟨h1, h2⟩ := heldFor_realise (p := p) hinv hu
    obtain ⟨m, rfl⟩ := updateRzEmisData_frame hu
    simp only [hop, heldFor_setPoolBalance (s := { s with rzEmisData := m }) hseen, mul_zero,
      add_zero, decide_eq_true_eq]
    exact ⟨h1, fun _ => h2⟩

/-! ### Stored credit -/

theorem accruedOf_removePool {now : Nat} {rz rz₁ : List Address} {r : Address} {s₁ : State}
    (h : removePool s now rz r = .ok (s₁, rz₁)) : accruedOf s₁ p = accruedOf s p := by
  obtain ⟨-, -, -, -, d, hd, rfl⟩ := removePool_eq_ok h
  by_cases hpr : p = r
  · subst hpr
    simp only [accruedOf, Store.get_set_self, hd, Option.map_some', Option.getD_some]
  · simp only [accruedOf, Store.get_set_ne _ _ hpr]

theorem accruedOf_realise {q : Address} {x : Int} (h : updateRzEmisData c s q false = .ok (s', x)) :
    accruedOf s p ≤ accruedOf s' p := by
  by_cases hqp : q = p
  · subst hqp
    rcases updateRzEmisData_eq_ok h with ⟨rfl, -, -⟩ | ⟨d, hd, hgo, he⟩
    · exact le_rfl
    rw [setRzEmissions_eq] at he
    obtain ⟨rfl, -⟩ := Prod.mk.inj he
    have hlt : d.index < s.rzEmissionIndex := hgo.resolve_right Bool.noConfusion
    have hr : 0 ≤ realised c s q d := by
      unfold realised
      split_ifs with hn
      · exact Int.ediv_nonneg (mul_nonneg hn.le (by omega)) (by decide)
      · exact le_rfl
    simp only [accruedOf, Store.get_set_self, hd, Option.map_some', Option.getD_some,
      Bool.false_eq_true, if_false]
    omega
  · simp only [accruedOf, updateRzEmisData_get_ne h hqp, le_refl]

theorem accruedOf_step {call : Call} {r : Ret} (h : step c s call = .ok (s', r))
    (hp : ∀ a, call.op ≠ .gulpEmissions p a) : accruedOf s p ≤ accruedOf s' p := by
  rcases step_eq_ok h with ⟨q, t, a, -, rfl, ha⟩ | ⟨q, a, -, rfl, hr⟩ | ⟨reply, n, -, rfl, hd⟩ |
    ⟨q, a, shares, approved, hop, rfl, hg⟩ | ⟨q, x, -, rfl, hu⟩ | ⟨q, b, s₁, x, -, rfl, hu, rfl⟩
  · obtain ⟨-, -, s₁, rz₁, hz, rfl⟩ := addToRewardZone_eq_ok ha
    have h₁ : accruedOf s₁ p = accruedOf s p := by
      rcases hz with ⟨-, rfl, -⟩ | ⟨-, r, -, -, hrem⟩
      · rfl
      · exact accruedOf_removePool hrem
    by_cases hpq : p = q
    · subst hpq
      simp only [accruedOf, Store.get_set_self, Option.map_some', Option.getD_some] at h₁ ⊢
      exact h₁.ge
    · simp only [accruedOf, Store.get_set_ne _ _ hpq] at h₁ ⊢
      exact h₁.ge
  · obtain ⟨-, s₁, rz₁, hrem, rfl⟩ := removeFromRewardZone_eq_ok hr
    exact (accruedOf_removePool hrem).ge
  · simp only [accruedOf, (distribute_records hd).1, le_refl]
  · have hqp : q ≠ p := fun hqp => hp a (hqp ▸ hop)
    obtain ⟨m, b, rfl⟩ := gulpEmissions_frame hg
    obtain ⟨s₁, x, hu, hcase⟩ := gulpEmissions_eq_ok hg
    have hm : m = s₁.rzEmisData := by
      rcases hcase with ⟨-, -, -, hset⟩ | ⟨-, -, -, he⟩
      · obtain ⟨d, -, he⟩ := setBackstopEmissionEps_eq_ok hset
        exact congrArg State.rzEmisData he
      · exact congrArg State.rzEmisData he
    simp only [accruedOf, hm, updateRzEmisData_get_ne hu hqp, le_refl]
  · exact accruedOf_realise hu
  · exact (accruedOf_realise (p := p) hu).trans_eq rfl

/-- **No lost credit.**  From any state, calls none of which gulps `p` never lower the `accrued`
stored for `p`. -/
theorem accrued_kept (p : Address) {s' : State} {log' : List Entry} :
    ∀ {s : State} {log : List Entry} {calls : List Call},
      runCalls c s log calls = some (s', log') →
      (∀ call ∈ calls, ∀ a, call.op ≠ .gulpEmissions p a) → accruedOf s p ≤ accruedOf s' p
  | _, _, [], h, _ => by cases h; exact le_rfl
  | _, _, call :: _, h, hp => by
    obtain ⟨s₁, r, hs, h⟩ := runCalls_cons_eq_some h
    exact (accruedOf_step hs (hp call (List.mem_cons_self _ _))).trans
      (accrued_kept p h fun call' hc => hp call' (List.mem_cons_of_mem _ hc))

/-- Pool `1` joins the zone, a distribution credits it, a balance change realises its share,
and it is removed from the zone. -/
def keptCalls : List Call :=
  sampleCalls.take 4 ++
  [⟨⟨1713225600, 2⟩, .setPoolBalance 1 ⟨1000000000, 1000000000, 0⟩⟩,
   ⟨⟨1713225600, 2⟩, .removeFromRewardZone 1 false⟩]

theorem keptCalls_ok : (runCalls specConfig State.init [] keptCalls).isSome = true := by rfl

theorem accrued_kept_keptCalls :
    (∀ call ∈ keptCalls, ∀ a, call.op ≠ .gulpEmissions 1 a) ∧
      accruedOf State.init 1 ≤
        accruedOf ((runCalls specConfig State.init [] keptCalls).get keptCalls_ok).1 1 :=
  have hp : ∀ call ∈ keptCalls, ∀ a, call.op ≠ .gulpEmissions 1 a := by
    simp [keptCalls, sampleCalls]
  ⟨hp, accrued_kept 1 (Option.some_get keptCalls_ok).symm hp⟩

/-! ### Runs -/

section Runs

variable {log : List Entry} (hnq : 0 ≤ c.nonQueuedTokens ⟨0, 0, 0⟩)
  (hbal : ∀ e ∈ log, e.setsNegativeBalance c = false) (hgulp : ∀ e ∈ log, e.gulpsEvicted = false)
include hnq hbal hgulp

/-- What the manager holds for `p`, plus `SCALAR_14` times what the gulps of `p` took, never
exceeds the sum of `p`'s pro-rata credits. -/
theorem heldFor_add_gulped_le (hrun : Run c s log) (p : Address) :
    heldFor c s p + scalar14 * (log.map (Entry.gulpedFrom c p)).sum ≤
      (log.map (Entry.proRata c p)).sum := by
  induction hrun with
  | init => simp [heldFor, accruedOf, State.init]
  | step hrun hs ih =>
    simp only [List.mem_append, List.mem_singleton] at hbal hgulp
    have hbal' : ∀ e ∈ _, _ := fun e he => hbal e (.inl he)
    have hgulp' : ∀ e ∈ _, _ := fun e he => hgulp e (.inl he)
    have h1 :=
      (heldFor_step (conservation_law hnq hrun hbal' hgulp').1 hs (hgulp _ (.inr rfl)) p).1
    simp only [List.map_append, List.map_singleton, List.sum_append, List.sum_singleton]
    linarith only [ih hbal' hgulp', h1]

/-- A pool that was never evicted holds the sum of its pro-rata credits, less what its gulps
took, but for under a unit per call that realised it. -/
theorem credit_le_heldFor (hrun : Run c s log) (p : Address)
    (hstay : ∀ e ∈ log, p ∈ e.pre.rewardZone → p ∈ e.post.rewardZone) :
    (log.map (Entry.proRata c p)).sum ≤
      heldFor c s p + scalar14 * (log.map (Entry.gulpedFrom c p)).sum +
        (scalar14 - 1) * log.countP (Entry.realises p) := by
  induction hrun with
  | init => simp [heldFor, accruedOf, State.init]
  | step hrun hs ih =>
    simp only [List.mem_append, List.mem_singleton] at hbal hgulp hstay
    have hbal' : ∀ e ∈ _, _ := fun e he => hbal e (.inl he)
    have hgulp' : ∀ e ∈ _, _ := fun e he => hgulp e (.inl he)
    have ih := ih hbal' hgulp' fun e he => hstay e (.inl he)
    have h2 := (heldFor_step (conservation_law hnq hrun hbal' hgulp').1 hs (hgulp _ (.inr rfl))
      p).2 (hstay _ (.inr rfl))
    simp only [List.map_append, List.map_singleton, List.sum_append, List.sum_singleton,
      List.countP_append, List.countP_singleton, Nat.cast_add]
    split_ifs at h2 ⊢ <;> push_cast <;> linarith only [ih, h2]

/-- **Per-pool attribution.**  On every run with non-negative non-queued tokens and no evicted gulp,
what the manager holds for `p` plus what its gulps took is at most `p`'s pro-rata credits, and short
of them by under a unit per realisation of `p` if `p` was never evicted. -/
theorem pool_credit (hrun : Run c s log) (p : Address) :
    heldFor c s p + scalar14 * (log.map (Entry.gulpedFrom c p)).sum ≤
        (log.map (Entry.proRata c p)).sum ∧
      ((∀ e ∈ log, p ∈ e.pre.rewardZone → p ∈ e.post.rewardZone) →
        (log.map (Entry.proRata c p)).sum ≤
          heldFor c s p + scalar14 * (log.map (Entry.gulpedFrom c p)).sum +
            (scalar14 - 1) * log.countP (Entry.realises p)) :=
  ⟨heldFor_add_gulped_le hnq hbal hgulp hrun p, credit_le_heldFor hnq hbal hgulp hrun p⟩

end Runs

/-- The sample run up to its last distribution, where pool `1` is gulped again instead of
leaving the zone. -/
def creditCalls : List Call :=
  sampleCalls.take 7 ++ [⟨⟨1713398400, 4⟩, .gulpEmissions 1 0⟩]

theorem creditCalls_ok : (runCalls specConfig State.init [] creditCalls).isSome = true := by
  rfl

def creditRun : State × List Entry :=
  (runCalls specConfig State.init [] creditCalls).get creditCalls_ok

theorem creditRun_run : Run specConfig creditRun.1 creditRun.2 :=
  Run.of_runCalls Run.init (Option.some_get creditCalls_ok).symm

theorem pool_credit_creditRun :
    heldFor specConfig creditRun.1 1 +
          scalar14 * (creditRun.2.map (Entry.gulpedFrom specConfig 1)).sum ≤
        (creditRun.2.map (Entry.proRata specConfig 1)).sum ∧
      (∀ e ∈ creditRun.2, 1 ∈ e.pre.rewardZone → 1 ∈ e.post.rewardZone) ∧
      (creditRun.2.map (Entry.proRata specConfig 1)).sum ≤
        heldFor specConfig creditRun.1 1 +
            scalar14 * (creditRun.2.map (Entry.gulpedFrom specConfig 1)).sum +
          (scalar14 - 1) * creditRun.2.countP (Entry.realises 1) :=
  have hstay : ∀ e ∈ creditRun.2, 1 ∈ e.pre.rewardZone → 1 ∈ e.post.rewardZone := by decide
  have h := pool_credit (by decide) (by decide) (by decide) creditRun_run 1
  ⟨h.1, hstay, h.2 hstay⟩

end BlendBackstop
