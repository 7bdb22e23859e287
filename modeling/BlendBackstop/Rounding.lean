import Mathlib.Algebra.BigOperators.Ring.List
import Mathlib.Algebra.Order.BigOperators.Group.List
import Mathlib.Tactic.Linarith
import Mathlib.Tactic.Ring
import BlendBackstop.Spec

/-!
# Rounding in the emission index

`distribute` credits the reward zone by raising one global index, rounded down, and a pool
realises what the index credited it only when `update_rz_emis_data` runs, again rounded down to
units.  Both roundings are bounded.

What a pool can collect at a final index `G` is its `accrued` plus its non-queued tokens times the
index it has not seen, rounded down (`collectable`).  A distribution does not touch it, and a
realisation moves part of the unseen index into `accrued` with one more floor, so it loses less
than a unit.

* `realisation_path_independent`: from any record, a gulp after any distributions and `k`
  realisations returns between `X - k` and `X`, for `X` what a single realisation from the
  record returns; a second gulp with no distribution in between returns nothing.
* `distribute_split`: the index increment of one distribution credits the zone pools, rounded
  down pool by pool, at most the emissions it returned, and less by under a unit per pool and
  `T / 10^14` units for `T` the zone's non-queued tokens.
-/

namespace BlendBackstop

variable {c : Config}

/-! ### One call -/

/-- What a pool with `n` non-queued tokens and the record `d` collects when the global index is
`G`: its `accrued` and its tokens times the index it has not seen, rounded down to units. -/
def collectable (n G : Int) (d : RzEmissionData) : Int := d.accrued + n * (G - d.index) / scalar14

theorem realised_of_nonneg {s : State} {p : Address} {d : RzEmissionData}
    (hn : 0 ≤ c.nonQueuedTokens (s.poolBalance p)) :
    realised c s p d =
      c.nonQueuedTokens (s.poolBalance p) * (s.rzEmissionIndex - d.index) / scalar14 := by
  unfold realised
  split
  · rfl
  · rw [show c.nonQueuedTokens (s.poolBalance p) = 0 by omega, zero_mul, Int.zero_ediv]

theorem updateRzEmisData_gulp {s s' : State} {p : Address} {d : RzEmissionData} {x : Int}
    (h : updateRzEmisData c s p true = .ok (s', x)) (hd : s.rzEmisData.get p = some d)
    (hn : 0 ≤ c.nonQueuedTokens (s.poolBalance p)) :
    x = collectable (c.nonQueuedTokens (s.poolBalance p)) s.rzEmissionIndex d := by
  rcases updateRzEmisData_eq_ok h with ⟨-, -, hno⟩ | ⟨d', hd', -, he⟩
  · exact absurd (hno d hd).2 Bool.noConfusion
  rw [hd] at hd'
  cases hd'
  rw [setRzEmissions_eq] at he
  rw [(Prod.mk.inj he).2, if_pos rfl, realised_of_nonneg hn, collectable]

/-- **A realisation.**  `update_rz_emis_data(p, false)` keeps a record for `p` and lowers what
`p` collects at any index `G` by at most one unit. -/
theorem collectable_update {s s' : State} {p : Address} {d : RzEmissionData} {x : Int}
    (h : updateRzEmisData c s p false = .ok (s', x)) (hd : s.rzEmisData.get p = some d)
    (hn : 0 ≤ c.nonQueuedTokens (s.poolBalance p)) :
    s'.poolBalances = s.poolBalances ∧ ∃ d', s'.rzEmisData.get p = some d' ∧ ∀ G,
      collectable (c.nonQueuedTokens (s.poolBalance p)) G d - 1 ≤
          collectable (c.nonQueuedTokens (s.poolBalance p)) G d' ∧
        collectable (c.nonQueuedTokens (s.poolBalance p)) G d' ≤
          collectable (c.nonQueuedTokens (s.poolBalance p)) G d := by
  rcases updateRzEmisData_eq_ok h with ⟨rfl, -, -⟩ | ⟨d', hd', -, he⟩
  · exact ⟨rfl, d, hd, fun G => ⟨by omega, le_rfl⟩⟩
  rw [hd] at hd'
  cases hd'
  rw [setRzEmissions_eq] at he
  obtain ⟨rfl, -⟩ := Prod.mk.inj he
  refine ⟨rfl, _, Store.get_set_self _ _ _, fun G => ?_⟩
  simp only [collectable, realised_of_nonneg hn, Bool.false_eq_true, if_false]
  generalize c.nonQueuedTokens (s.poolBalance p) = n
  have hsplit : n * (G - d.index) =
      n * (s.rzEmissionIndex - d.index) + n * (G - s.rzEmissionIndex) := by ring
  rw [hsplit]
  unfold scalar14
  omega

theorem distribute_records {s s' : State} {now : Nat} {reply : Option Nat} {N : Int}
    (h : distribute c s now reply = .ok (s', N)) :
    s'.rzEmisData = s.rzEmisData ∧ s'.poolBalances = s.poolBalances := by
  rcases distribute_eq_ok h with ⟨-, -, rfl⟩ | ⟨-, -, -, -, -, -, d, -, -, rfl⟩ <;> exact ⟨rfl, rfl⟩

/-- **One call.**  A distribution leaves what `p` collects alone; a realisation of `p` lowers it
by at most one unit. -/
theorem collectable_step {s s' : State} {call : Call} {r : Ret} {p : Address}
    {d : RzEmissionData}
    (hop : (∃ reply, call.op = .distribute reply) ∨ call.op = .updateRzEmisData p)
    (h : step c s call = .ok (s', r)) (hd : s.rzEmisData.get p = some d)
    (hn : 0 ≤ c.nonQueuedTokens (s.poolBalance p)) :
    s'.poolBalances = s.poolBalances ∧ ∃ d', s'.rzEmisData.get p = some d' ∧ ∀ G,
      collectable (c.nonQueuedTokens (s.poolBalance p)) G d -
          (if call.op = .updateRzEmisData p then 1 else 0) ≤
        collectable (c.nonQueuedTokens (s.poolBalance p)) G d' ∧
      collectable (c.nonQueuedTokens (s.poolBalance p)) G d' ≤
        collectable (c.nonQueuedTokens (s.poolBalance p)) G d := by
  rcases hop with ⟨reply, hop⟩ | hop
  · obtain ⟨N, -, hdist⟩ := step_of_distribute hop h
    obtain ⟨hrec, hbal⟩ := distribute_records hdist
    refine ⟨hbal, d, hrec ▸ hd, fun G => ?_⟩
    rw [hop, if_neg fun h => Op.noConfusion h, sub_zero]
    exact ⟨le_rfl, le_rfl⟩
  · obtain ⟨x, -, hu⟩ := step_of_updateRzEmisData hop h
    rw [if_pos hop]
    exact collectable_update hu hd hn

/-! ### Several calls -/

/-- **Realising in several steps.**  Over calls that only distribute or realise `p`, what `p`
collects at any index `G` drops by at most one unit per realisation. -/
theorem collectable_runCalls {p : Address} :
    ∀ {calls : List Call} {s s₁ : State} {log log₁ : List Entry} {d : RzEmissionData},
      (∀ call ∈ calls, (∃ reply, call.op = .distribute reply) ∨ call.op = .updateRzEmisData p) →
      runCalls c s log calls = some (s₁, log₁) → s.rzEmisData.get p = some d →
      0 ≤ c.nonQueuedTokens (s.poolBalance p) →
      s₁.poolBalances = s.poolBalances ∧ ∃ d₁, s₁.rzEmisData.get p = some d₁ ∧ ∀ G,
        collectable (c.nonQueuedTokens (s.poolBalance p)) G d -
            calls.countP (fun call => call.op = .updateRzEmisData p) ≤
          collectable (c.nonQueuedTokens (s.poolBalance p)) G d₁ ∧
        collectable (c.nonQueuedTokens (s.poolBalance p)) G d₁ ≤
          collectable (c.nonQueuedTokens (s.poolBalance p)) G d
  | [], _, _, _, _, _, _, h, hd, _ => by
    cases h
    exact ⟨rfl, _, hd, fun G => by simp⟩
  | call :: calls, s, s₁, log, log₁, d, hcalls, h, hd, hn => by
    obtain ⟨s', r, hs, h⟩ := runCalls_cons_eq_some h
    obtain ⟨hb, d', hd', hstep⟩ := collectable_step (hcalls call (List.mem_cons_self _ _)) hs hd hn
    have hn' : c.nonQueuedTokens (s'.poolBalance p) = c.nonQueuedTokens (s.poolBalance p) := by
      rw [State.poolBalance, hb, ← State.poolBalance]
    obtain ⟨hb₁, d₁, hd₁, hrun⟩ := collectable_runCalls
      (fun call hc => hcalls call (List.mem_cons_of_mem _ hc)) h hd' (hn'.symm ▸ hn)
    rw [hn'] at hrun
    refine ⟨hb₁.trans hb, d₁, hd₁, fun G => ?_⟩
    obtain ⟨h1, h2⟩ := hstep G
    obtain ⟨h3, h4⟩ := hrun G
    by_cases hc : call.op = .updateRzEmisData p
    · rw [if_pos hc] at h1
      simp only [List.countP_cons, hc, decide_True, if_true, Nat.cast_add, Nat.cast_one]
      omega
    · rw [if_neg hc] at h1
      simp only [List.countP_cons, hc, decide_False, Bool.false_eq_true, if_false, add_zero]
      omega

/-! ### Gulping twice -/

theorem collected_of_gulp {s s' : State} {p : Address} {x : Int}
    (h : updateRzEmisData c s p true = .ok (s', x)) :
    ∀ d, s'.rzEmisData.get p = some d → d = ⟨s'.rzEmissionIndex, 0⟩ := by
  rcases updateRzEmisData_eq_ok h with ⟨rfl, -, hno⟩ | ⟨d', -, -, he⟩
  · exact fun d hd => absurd (hno d hd).2 Bool.noConfusion
  rw [setRzEmissions_eq] at he
  obtain ⟨rfl, -⟩ := Prod.mk.inj he
  intro d hd
  rw [Store.get_set_self] at hd
  exact (Option.some.inj hd).symm

theorem updateRzEmisData_of_collected {s s' : State} {p : Address} {g : Bool} {x : Int}
    (hcol : ∀ d, s.rzEmisData.get p = some d → d = ⟨s.rzEmissionIndex, 0⟩)
    (h : updateRzEmisData c s p g = .ok (s', x)) : x = 0 ∧ (g = false → s' = s) := by
  rcases updateRzEmisData_eq_ok h with ⟨rfl, rfl, -⟩ | ⟨d, hd, hgo, he⟩
  · exact ⟨rfl, fun _ => rfl⟩
  obtain rfl := hcol d hd
  have hg : g = true := hgo.resolve_left (lt_irrefl _)
  subst hg
  rw [setRzEmissions_eq] at he
  have hr : realised c s p ⟨s.rzEmissionIndex, 0⟩ = 0 := by
    unfold realised
    split <;> simp
  rw [(Prod.mk.inj he).2, if_pos rfl, hr]
  exact ⟨rfl, Bool.noConfusion⟩

theorem runCalls_of_collected {p : Address} :
    ∀ {calls : List Call} {s s₁ : State} {log log₁ : List Entry},
      (∀ call ∈ calls, call.op = .updateRzEmisData p) →
      (∀ d, s.rzEmisData.get p = some d → d = ⟨s.rzEmissionIndex, 0⟩) →
      runCalls c s log calls = some (s₁, log₁) → s₁ = s
  | [], _, _, _, _, _, _, h => by cases h; rfl
  | call :: calls, s, s₁, log, log₁, hcalls, hcol, h => by
    obtain ⟨s', r, hs, h⟩ := runCalls_cons_eq_some h
    obtain ⟨x, -, hu⟩ := step_of_updateRzEmisData (hcalls call (List.mem_cons_self _ _)) hs
    obtain rfl := (updateRzEmisData_of_collected hcol hu).2 rfl
    exact runCalls_of_collected (fun call hc => hcalls call (List.mem_cons_of_mem _ hc)) hcol h

/-! ### Path independence -/

/-- **Lazy realisation is path independent up to rounding.**  After any distributions and `k`
realisations of `p`, a gulp of `p` returns between `X - k` and `X`, for `X` what `p` collects from
its first record; a second gulp returns `0`. -/
theorem realisation_path_independent (p : Address) :
    (∀ (s₀ s₁ s₂ : State) (log : List Entry) (calls : List Call) (d₀ : RzEmissionData) (x : Int),
      (∀ call ∈ calls, (∃ reply, call.op = .distribute reply) ∨ call.op = .updateRzEmisData p) →
      s₀.rzEmisData.get p = some d₀ → 0 ≤ c.nonQueuedTokens (s₀.poolBalance p) →
      runCalls c s₀ [] calls = some (s₁, log) → updateRzEmisData c s₁ p true = .ok (s₂, x) →
      collectable (c.nonQueuedTokens (s₀.poolBalance p)) s₁.rzEmissionIndex d₀ -
          calls.countP (fun call => call.op = .updateRzEmisData p) ≤ x ∧
        x ≤ collectable (c.nonQueuedTokens (s₀.poolBalance p)) s₁.rzEmissionIndex d₀) ∧
    (∀ (s₀ s₁ s₂ s₃ : State) (log : List Entry) (calls : List Call) (x y : Int),
      updateRzEmisData c s₀ p true = .ok (s₁, x) →
      (∀ call ∈ calls, call.op = .updateRzEmisData p) →
      runCalls c s₁ [] calls = some (s₂, log) → updateRzEmisData c s₂ p true = .ok (s₃, y) →
      y = 0) := by
  refine ⟨fun s₀ s₁ s₂ log calls d₀ x hcalls hd₀ hn hrun hgulp => ?_,
    fun s₀ s₁ s₂ s₃ log calls x y h₁ hcalls hrun h₂ => ?_⟩
  · obtain ⟨hb, d₁, hd₁, hbound⟩ := collectable_runCalls hcalls hrun hd₀ hn
    have hn₁ : c.nonQueuedTokens (s₁.poolBalance p) = c.nonQueuedTokens (s₀.poolBalance p) := by
      rw [State.poolBalance, hb, ← State.poolBalance]
    rw [updateRzEmisData_gulp hgulp hd₁ (hn₁ ▸ hn), hn₁]
    exact hbound _
  · have hcol := collected_of_gulp h₁
    obtain rfl := runCalls_of_collected hcalls hcol hrun
    exact (updateRzEmisData_of_collected hcol h₂).1

/-- Pools `1` and `2` in the zone with `3.0000001` and `4` tokens, both records at the index `0`,
and the last distribution at `1713139200`. -/
def pathStart : State :=
  { State.init with
    rewardZone := [1, 2]
    rzEmisData := (Store.empty.set 1 ⟨0, 0⟩).set 2 ⟨0, 0⟩
    poolBalances := (Store.empty.set 1 ⟨30000001, 30000001, 0⟩).set 2 ⟨40000000, 40000000, 0⟩
    lastDistributionTime := 1713139200 }

def pathCalls : List Call :=
  [⟨⟨1713225600, 2⟩, .distribute (some 1713225600)⟩,
   ⟨⟨1713225600, 2⟩, .updateRzEmisData 1⟩,
   ⟨⟨1713312000, 3⟩, .distribute (some 1713312000)⟩,
   ⟨⟨1713312000, 3⟩, .updateRzEmisData 1⟩]

theorem pathCalls_ok : (runCalls specConfig pathStart [] pathCalls).isSome = true := by rfl

def pathRun : State × List Entry := (runCalls specConfig pathStart [] pathCalls).get pathCalls_ok

/-- What `update_rz_emis_data(p, true)` leaves and returns; `(s, 0)` where it panics. -/
def gulpOf (s : State) (p : Address) : State × Int :=
  match updateRzEmisData specConfig s p true with
  | .ok r => r
  | .error _ => (s, 0)

def regulpCalls : List Call := [⟨⟨1713312000, 3⟩, .updateRzEmisData 1⟩]

theorem regulpCalls_ok : (runCalls specConfig (gulpOf pathRun.1 1).1 [] regulpCalls).isSome = true := by
  rfl

def regulpRun : State × List Entry :=
  (runCalls specConfig (gulpOf pathRun.1 1).1 [] regulpCalls).get regulpCalls_ok

theorem realisation_path_sample :
    (collectable (specConfig.nonQueuedTokens (pathStart.poolBalance 1)) pathRun.1.rzEmissionIndex
          ⟨0, 0⟩ - pathCalls.countP (fun call => call.op = .updateRzEmisData 1) ≤
        (gulpOf pathRun.1 1).2 ∧
      (gulpOf pathRun.1 1).2 ≤
        collectable (specConfig.nonQueuedTokens (pathStart.poolBalance 1)) pathRun.1.rzEmissionIndex
          ⟨0, 0⟩) ∧
    (gulpOf regulpRun.1 1).2 = 0 ∧
    (gulpOf pathRun.1 1).2 + 1 =
      collectable (specConfig.nonQueuedTokens (pathStart.poolBalance 1)) pathRun.1.rzEmissionIndex
        ⟨0, 0⟩ :=
  ⟨(realisation_path_independent (c := specConfig) 1).1 pathStart pathRun.1 (gulpOf pathRun.1 1).1 pathRun.2
      pathCalls ⟨0, 0⟩ (gulpOf pathRun.1 1).2 (by simp [pathCalls]) rfl (by decide)
      (Option.some_get pathCalls_ok).symm rfl,
    (realisation_path_independent (c := specConfig) 1).2 pathRun.1 (gulpOf pathRun.1 1).1 regulpRun.1
      (gulpOf regulpRun.1 1).1 regulpRun.2 regulpCalls (gulpOf pathRun.1 1).2
      (gulpOf regulpRun.1 1).2 rfl (by decide) (Option.some_get regulpCalls_ok).symm rfl,
    by decide⟩

/-! ### The split of one distribution -/

/-- What an index increment `d` credits the reward zone: each pool's non-queued tokens times `d`,
rounded down to units, summed over the zone. -/
def zoneRealised (c : Config) (s : State) (d : Int) : Int :=
  (s.rewardZone.map fun p => c.nonQueuedTokens (s.poolBalance p) * d / scalar14).sum

theorem sum_map_ediv_scalar14 {α : Type} (l : List α) (f : α → Int) :
    scalar14 * (l.map fun a => f a / scalar14).sum ≤ (l.map f).sum ∧
      (l.map f).sum ≤ scalar14 * (l.map fun a => f a / scalar14).sum + (scalar14 - 1) * l.length := by
  induction l with
  | nil => simp
  | cons a l ih =>
    simp only [List.map_cons, List.sum_cons, List.length_cons, Nat.cast_succ]
    unfold scalar14 at *
    omega

/-- **One distribution splits its emissions up to rounding.**  A `distribute` that credits `N > 0`
to a zone `R` holding `T` non-queued tokens credits the pools, each rounded down, at most `N` and
more than `N - |R| - T / 10^14`. -/
theorem distribute_split {s s' : State} {now : Nat} {reply : Option Nat} {N : Int}
    (h : distribute c s now reply = .ok (s', N)) (hN : 0 < N)
    (hn : ∀ p ∈ s.rewardZone, 0 ≤ c.nonQueuedTokens (s.poolBalance p)) :
    (N - s.rewardZone.length) * scalar14 - zoneTokens c s <
        scalar14 * zoneRealised c s (s'.rzEmissionIndex - s.rzEmissionIndex) ∧
      zoneRealised c s (s'.rzEmissionIndex - s.rzEmissionIndex) ≤ N := by
  rcases distribute_eq_ok h with ⟨-, rfl, -⟩ | ⟨-, -, -, -, -, -, d, hd, -, rfl⟩
  · exact absurd hN (lt_irrefl 0)
  have hT0 : 0 ≤ zoneTokens c s := List.sum_nonneg fun _ hx => by
    obtain ⟨p, hp, rfl⟩ := List.mem_map.1 hx
    exact hn p hp
  obtain ⟨hT, rfl⟩ := fixedDivFloor_eq_some hd hT0
  have hinc : s.rzEmissionIndex + N * scalar14 / zoneTokens c s - s.rzEmissionIndex =
      N * scalar14 / zoneTokens c s := add_sub_cancel_left _ _
  dsimp only
  rw [hinc]
  have hlo := Int.lt_ediv_add_one_mul_self (N * scalar14) hT
  have hhi := Int.ediv_mul_le (N * scalar14) hT.ne'
  generalize N * scalar14 / zoneTokens c s = D at hlo hhi ⊢
  obtain ⟨h1, h2⟩ := sum_map_ediv_scalar14 s.rewardZone
    fun p => c.nonQueuedTokens (s.poolBalance p) * D
  rw [List.sum_map_mul_right] at h1 h2
  unfold zoneRealised
  unfold zoneTokens at *
  unfold scalar14 at *
  have hL : (0 : Int) ≤ s.rewardZone.length := Int.natCast_nonneg _
  exact ⟨by linarith only [hlo, h2, hL], by linarith only [h1, hhi]⟩

/-- The zone of `test_distribute`: three pools with `300 000`, `200 000` and `500 000` tokens, the
last distribution a day before the emitter's `1713139190`. -/
def splitStart : State :=
  { State.init with
    rewardZone := [1, 2, 3]
    poolBalances := ((Store.empty.set 1 ⟨2000000000000, 3000000000000, 0⟩).set 2
      ⟨1500000000000, 2000000000000, 0⟩).set 3 ⟨6000000000000, 5000000000000, 0⟩
    lastDistributionTime := 1713052790 }

def splitResult : State × Int :=
  match distribute specConfig splitStart 1713139200 (some 1713139190) with
  | .ok r => r
  | .error _ => (splitStart, 0)

theorem distribute_split_sample :
    ((splitResult.2 - splitStart.rewardZone.length) * scalar14 - zoneTokens specConfig splitStart <
        scalar14 * zoneRealised specConfig splitStart
          (splitResult.1.rzEmissionIndex - splitStart.rzEmissionIndex) ∧
      zoneRealised specConfig splitStart
          (splitResult.1.rzEmissionIndex - splitStart.rzEmissionIndex) ≤ splitResult.2) ∧
    splitResult.1.rzEmissionIndex = 8640000000000 :=
  ⟨distribute_split
      (show distribute specConfig splitStart 1713139200 (some 1713139190) =
        .ok (splitResult.1, splitResult.2) from rfl) (by decide) (by decide),
    by decide⟩

end BlendBackstop
