import BlendBackstop.Basic

/-!
# Storage of the backstop

The emissions manager reads and writes the backstop's persistent entries: the reward zone, the
global `rz_emission_index`, one `RzEmissionData` and one `BackstopEmissionData` per pool, the
pools' `PoolBalance`, `last_distribution_time` and the backfill ledger.  A `State` holds
exactly these.  A family of entries keyed by pool is a `Store`, an association list that
carries the proof that its keys are distinct, so that `Store.sum` counts every entry once.

What the manager calls outside `emissions/manager.rs` is a `Config`: the cap on backfilled
emissions, the TTL bump used for allowances, the tokens of a balance that are not queued for
withdrawal, and the distributor's `update_emission_data`.
-/

namespace BlendBackstop

/-- Persistent entries of one kind, one per key. -/
structure Store (β : Type) where
  entries : List (Address × β)
  nodup : (entries.map Prod.fst).Nodup

namespace Store

variable {β : Type}

def empty : Store β := ⟨[], List.nodup_nil⟩

def get (m : Store β) (k : Address) : Option β := m.entries.lookup k

theorem nodup_set (m : Store β) (k : Address) (v : β) :
    (((k, v) :: m.entries.filter (fun e => e.1 ≠ k)).map Prod.fst).Nodup := by
  simp only [List.map_cons, List.nodup_cons, List.mem_map, List.mem_filter]
  refine ⟨fun ⟨e, ⟨_, he⟩, hk⟩ => by simp_all, ?_⟩
  exact m.nodup.sublist ((List.filter_sublist _).map _)

def set (m : Store β) (k : Address) (v : β) : Store β :=
  ⟨(k, v) :: m.entries.filter (fun e => e.1 ≠ k), nodup_set m k v⟩

def sum (f : β → Int) (m : Store β) : Int := (m.entries.map (fun e => f e.2)).sum

@[simp] theorem get_empty (k : Address) : (empty : Store β).get k = none := rfl

@[simp] theorem get_set_self (m : Store β) (k : Address) (v : β) : (m.set k v).get k = some v :=
  List.lookup_cons_self

theorem lookup_filter_ne {l : List (Address × β)} {k k' : Address} (h : k' ≠ k) :
    (l.filter (fun e => e.1 ≠ k)).lookup k' = l.lookup k' := by
  induction l with
  | nil => rfl
  | cons e l ih =>
    obtain ⟨a, b⟩ := e
    by_cases ha : a = k
    · subst ha
      rw [List.filter_cons_of_neg (by simp), ih, List.lookup_cons, beq_false_of_ne h]
    · rw [List.filter_cons_of_pos (by simpa using ha), List.lookup_cons, List.lookup_cons, ih]

@[simp] theorem get_set_ne (m : Store β) {k k' : Address} (v : β) (h : k' ≠ k) :
    (m.set k v).get k' = m.get k' := by
  rw [get, set, List.lookup_cons, beq_false_of_ne h]
  exact lookup_filter_ne h

theorem get_set (m : Store β) (k k' : Address) (v : β) :
    (m.set k v).get k' = if k' = k then some v else m.get k' := by
  split
  · subst k'; exact get_set_self m k v
  · exact get_set_ne m v ‹_›

theorem sum_filter_add_lookup (f : β → Int) {l : List (Address × β)} (k : Address)
    (h : (l.map Prod.fst).Nodup) :
    ((l.filter (fun e => e.1 ≠ k)).map (fun e => f e.2)).sum + ((l.lookup k).map f).getD 0 =
      (l.map (fun e => f e.2)).sum := by
  induction l with
  | nil => rfl
  | cons e l ih =>
    obtain ⟨a, b⟩ := e
    simp only [List.map_cons, List.nodup_cons, List.mem_map] at h
    by_cases ha : a = k
    · subst ha
      have hnone : l.lookup a = none :=
        List.lookup_eq_none_iff.2 fun p hp => bne_iff_ne.2 fun he => h.1 ⟨p, hp, he.symm⟩
      have := ih h.2
      simp only [hnone, Option.map_none', Option.getD_none, add_zero] at this
      rw [List.filter_cons_of_neg (by simp), List.lookup_cons_self, this]
      simp [add_comm]
    · rw [List.filter_cons_of_pos (by simpa using ha), List.lookup_cons, beq_false_of_ne (Ne.symm ha)]
      simp only [List.map_cons, List.sum_cons]
      rw [add_assoc, ih h.2]

theorem sum_set (f : β → Int) (m : Store β) (k : Address) (v : β) :
    (m.set k v).sum f + ((m.get k).map f).getD 0 = m.sum f + f v := by
  have := sum_filter_add_lookup f k m.nodup
  simp only [sum, set, get, List.map_cons, List.sum_cons] at this ⊢
  linarith

theorem get_of_mem {m : Store β} {e : Address × β} (he : e ∈ m.entries) :
    m.get e.1 = some e.2 := by
  obtain ⟨l, hl⟩ := m
  induction l with
  | nil => cases he
  | cons a l ih =>
    obtain ⟨k, v⟩ := a
    simp only [List.map_cons, List.nodup_cons, List.mem_map] at hl
    rcases List.mem_cons.1 he with rfl | he
    · exact List.lookup_cons_self
    · have hne : e.1 ≠ k := fun h => hl.1 ⟨e, he, h⟩
      rw [get, List.lookup_cons, beq_false_of_ne hne]
      exact ih hl.2 he

end Store

/-! ### Records -/

/-- A pool's backstop deposit book: its tokens, its shares, and the shares queued for
withdrawal. -/
structure PoolBalance where
  shares : Int
  tokens : Int
  q4w : Int
  deriving DecidableEq, Repr

/-- A pool's share of the reward zone's emissions: the global index it last saw, and what it
has realised but not yet gulped. -/
structure RzEmissionData where
  index : Int
  accrued : Int
  deriving DecidableEq, Repr

/-- The emissions a pool's backstop depositors receive: a rate in 14 decimals per second, the
end of its window, and the backstop's own index. -/
structure BackstopEmissionData where
  eps : Nat
  expiration : Nat
  index : Int
  lastTime : Nat
  deriving DecidableEq, Repr

/-- The backstop's entries that the emissions manager reads and writes. -/
structure State where
  rewardZone : List Address
  rzEmissionIndex : Int
  rzEmisData : Store RzEmissionData
  poolBalances : Store PoolBalance
  backstopEmisData : Store BackstopEmissionData
  lastDistributionTime : Nat
  backfillStatus : Option Bool
  backfillEmissions : Int

/-- A backstop before its first call: every entry is absent, and the getters return their
defaults. -/
def State.init : State :=
  ⟨[], 0, .empty, .empty, .empty, 0, none, 0⟩

/-- `storage::get_pool_balance`: an absent balance reads as zero. -/
def State.poolBalance (s : State) (pool : Address) : PoolBalance :=
  (s.poolBalances.get pool).getD ⟨0, 0, 0⟩

/-- What the manager calls outside `emissions/manager.rs`: `MAX_BACKFILLED_EMISSIONS`,
`LEDGER_BUMP_USER`, `PoolBalance::non_queued_tokens` and `update_emission_data`. -/
structure Config where
  maxBackfilledEmissions : Int
  ledgerBumpUser : Nat
  nonQueuedTokens : PoolBalance → Int
  updateEmissionData : Nat → PoolBalance → BackstopEmissionData → BackstopEmissionData

/-- Modelled from the spec: `non_queued_tokens()` = tokens − q4w.  The repository's
`test_update_rz_emis_data` converts q4w from shares first; the sample runs keep q4w = 0. -/
def specNonQueuedTokens (b : PoolBalance) : Int := b.tokens - b.q4w

/-- Modelled from the spec: `update_emission_data` advances the pool's backstop index to `now`
under the old rate, `index += (min(now, expiration) − last_time) · eps / shares`. -/
def specUpdateEmissionData (now : Nat) (b : PoolBalance) (d : BackstopEmissionData) :
    BackstopEmissionData :=
  { d with
    index := d.index + ((min now d.expiration - d.lastTime : Nat) * d.eps : Int) / b.shares
    lastTime := now }

/-- Modelled from the spec: the backstop it describes, with `MAX_BACKFILLED_EMISSIONS` of
5 000 000 · 10⁷ and `LEDGER_BUMP_USER` of 120 days at 17 280 ledgers a day. -/
def specConfig : Config :=
  ⟨50000000000000, 120 * 17280, specNonQueuedTokens, specUpdateEmissionData⟩

end BlendBackstop
