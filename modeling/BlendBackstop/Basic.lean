import Mathlib.Tactic.Linarith

/-!
# Integers of the backstop

The emissions manager computes in `i128` (amounts and indexes), `u64` (ledger timestamps,
emissions per second) and `u32` (ledger sequence numbers), and the contract is built with
overflow checks, so an arithmetic overflow aborts the invocation.  Here the values are `Int`
and `Nat`, and every operation that can overflow returns `Except Panic`.

The fixed-point helpers come from `soroban_fixed_point_math`: `fixed_mul_floor x y d` is
`mul_div_floor x y d`, and `fixed_div_floor x y d` is `mul_div_floor x d y`.  `mul_div_floor`
is a checked product followed by `div_floor`, which rounds a truncating division down.
`mulDivFloor_of_pos` says that for a positive divisor this is floor division `/` on `Int`
whenever the product fits in `i128`.
-/

namespace BlendBackstop

abbrev Address := Nat

/-- The contract errors of the backstop that the emissions manager raises. -/
inductive BackstopError
  | badRequest
  | invalidRewardZoneEntry
  | rewardZoneFull
  | maxBackfillEmissions
  deriving DecidableEq, Repr

/-- Why an invocation aborts: `panic_with_error!`, an overflow of checked arithmetic, or
`unwrap_optimized` on a missing value. -/
inductive Panic
  | contract (e : BackstopError)
  | overflow
  | unwrap
  deriving DecidableEq, Repr

/-! ### Widths -/

def i128Max : Int := 170141183460469231731687303715884105727

def i128Min : Int := -170141183460469231731687303715884105728

def u64Max : Nat := 18446744073709551615

def u32Max : Nat := 4294967295

def InI128 (x : Int) : Prop := i128Min ≤ x ∧ x ≤ i128Max

instance (x : Int) : Decidable (InI128 x) := inferInstanceAs (Decidable (_ ∧ _))

def checkedI128 (x : Int) : Option Int := if InI128 x then some x else none

/-- `unwrap_optimized`: a missing value aborts. -/
def unwrapOptimized : Option α → Except Panic α
  | some a => .ok a
  | none => .error .unwrap

theorem bind_eq_ok {ε α β : Type} {x : Except ε α} {f : α → Except ε β} {b : β} :
    x >>= f = .ok b ↔ ∃ a, x = .ok a ∧ f a = .ok b := by
  cases x <;> simp [bind, Except.bind]

@[simp] theorem ok_bind {ε α β : Type} (a : α) (f : α → Except ε β) :
    (Except.ok a : Except ε α) >>= f = f a := rfl

@[simp] theorem error_bind {ε α β : Type} (e : ε) (f : α → Except ε β) :
    (Except.error e : Except ε α) >>= f = .error e := rfl

theorem map_eq_ok {ε α β : Type} {x : Except ε α} {f : α → β} {b : β} :
    x.map f = .ok b ↔ ∃ a, x = .ok a ∧ f a = b := by
  cases x <;> simp [Except.map]

@[simp] theorem unwrapOptimized_eq_ok {α : Type} {o : Option α} {a : α} :
    unwrapOptimized o = .ok a ↔ o = some a := by
  cases o <;> simp [unwrapOptimized]

/-! ### Checked arithmetic -/

def i128Add (a b : Int) : Except Panic Int :=
  if InI128 (a + b) then .ok (a + b) else .error .overflow

def i128Sub (a b : Int) : Except Panic Int :=
  if InI128 (a - b) then .ok (a - b) else .error .overflow

def i128Mul (a b : Int) : Except Panic Int :=
  if InI128 (a * b) then .ok (a * b) else .error .overflow

def u64Add (a b : Nat) : Except Panic Nat :=
  if a + b ≤ u64Max then .ok (a + b) else .error .overflow

def u64Sub (a b : Nat) : Except Panic Nat :=
  if b ≤ a then .ok (a - b) else .error .overflow

def u32Add (a b : Nat) : Except Panic Nat :=
  if a + b ≤ u32Max then .ok (a + b) else .error .overflow

/-- `cast::u64` of an `i128`, unwrapped: a negative value or one above `u64::MAX` aborts. -/
def toU64 (x : Int) : Except Panic Nat :=
  if 0 ≤ x ∧ x ≤ u64Max then .ok x.toNat else .error .unwrap

@[simp] theorem i128Add_ok {a b : Int} (h : InI128 (a + b)) : i128Add a b = .ok (a + b) :=
  if_pos h

@[simp] theorem i128Sub_ok {a b : Int} (h : InI128 (a - b)) : i128Sub a b = .ok (a - b) :=
  if_pos h

@[simp] theorem i128Mul_ok {a b : Int} (h : InI128 (a * b)) : i128Mul a b = .ok (a * b) :=
  if_pos h

@[simp] theorem u64Add_ok {a b : Nat} (h : a + b ≤ u64Max) : u64Add a b = .ok (a + b) :=
  if_pos h

@[simp] theorem u32Add_ok {a b : Nat} (h : a + b ≤ u32Max) : u32Add a b = .ok (a + b) :=
  if_pos h

@[simp] theorem toU64_ok {x : Int} (h0 : 0 ≤ x) (h1 : x ≤ u64Max) : toU64 x = .ok x.toNat :=
  if_pos ⟨h0, h1⟩

theorem i128Add_eq_ok {a b r : Int} (h : i128Add a b = .ok r) : r = a + b ∧ InI128 (a + b) := by
  unfold i128Add at h
  split at h
  · cases h; exact ⟨rfl, ‹_›⟩
  · cases h

theorem i128Sub_eq_ok {a b r : Int} (h : i128Sub a b = .ok r) : r = a - b := by
  unfold i128Sub at h
  split at h
  · cases h; rfl
  · cases h

theorem i128Mul_eq_ok {a b r : Int} (h : i128Mul a b = .ok r) : r = a * b ∧ InI128 (a * b) := by
  unfold i128Mul at h
  split at h
  · cases h; exact ⟨rfl, ‹_›⟩
  · cases h

theorem u64Add_eq_ok {a b r : Nat} (h : u64Add a b = .ok r) : r = a + b ∧ a + b ≤ u64Max := by
  unfold u64Add at h
  split at h
  · cases h; exact ⟨rfl, ‹_›⟩
  · cases h

theorem u64Sub_eq_ok {a b r : Nat} (h : u64Sub a b = .ok r) : r = a - b ∧ b ≤ a := by
  unfold u64Sub at h
  split at h
  · cases h; exact ⟨rfl, ‹_›⟩
  · cases h

theorem toU64_eq_ok {x : Int} {r : Nat} (h : toU64 x = .ok r) : (r : Int) = x ∧ 0 ≤ x ∧ x ≤ u64Max := by
  unfold toU64 at h
  split at h
  · rename_i hx; cases h; exact ⟨Int.toNat_of_nonneg hx.1, hx⟩
  · cases h

/-! ### Fixed point -/

/-- `SCALAR_7`, 10⁷: token amounts and percentages carry 7 decimals. -/
def scalar7 : Int := 10000000

/-- `SCALAR_14`, 10¹⁴: emission indexes carry 14 decimals. -/
def scalar14 : Int := 100000000000000

/-- `div_floor` of `soroban_fixed_point_math`: a truncating division `r / z`, lowered by one
where the result is negative and inexact.  `none` where a checked operation fails. -/
def divFloor (r z : Int) : Option Int :=
  if r < 0 ∨ (0 < r ∧ z < 0) then
    if z = 0 ∨ (r = i128Min ∧ z = -1) then none
    else checkedI128 (r.tdiv z - if 0 < r % z then 1 else 0)
  else if z = 0 then none else some (r.tdiv z)

/-- `mul_div_floor x y z`, the floor of `x * y / z` with a checked product. -/
def mulDivFloor (x y z : Int) : Option Int :=
  (checkedI128 (x * y)).bind (divFloor · z)

/-- `fixed_mul_floor`: `x * y / denominator`, rounded down. -/
def fixedMulFloor (x y denominator : Int) : Option Int := mulDivFloor x y denominator

/-- `fixed_div_floor`: `x * denominator / y`, rounded down. -/
def fixedDivFloor (x y denominator : Int) : Option Int := mulDivFloor x denominator y

theorem tdiv_sub_eq_ediv {r z : Int} (hr : r < 0) (hz : 0 < z) :
    r.tdiv z - (if 0 < r % z then 1 else 0) = r / z := by
  obtain ⟨a, rfl⟩ : ∃ a, r = -a := ⟨-r, by omega⟩
  rw [Int.neg_tdiv, Int.tdiv_eq_ediv (by omega) hz.le]
  have hd := Int.ediv_add_emod a z
  have h0 := Int.emod_nonneg a hz.ne'
  have h1 := Int.emod_lt_of_pos a hz
  by_cases he : a % z = 0
  · obtain ⟨hq, hm⟩ := (@Int.ediv_emod_unique (-a) z 0 (-(a / z)) hz).2
      ⟨by rw [Int.mul_neg]; omega, le_rfl, hz⟩
    rw [hq, hm]; simp
  · obtain ⟨hq, hm⟩ := (@Int.ediv_emod_unique (-a) z (z - a % z) (-(a / z) - 1) hz).2
      ⟨by rw [Int.mul_sub, Int.mul_neg]; omega, by omega, by omega⟩
    rw [hq, hm, if_pos (by omega)]

/-- **Floor division.**  For a positive divisor `div_floor` is `/` on `Int`. -/
theorem divFloor_of_pos {r z : Int} (hr : InI128 r) (hz : 0 < z) : divFloor r z = some (r / z) := by
  unfold divFloor
  by_cases hneg : r < 0
  · rw [if_pos (.inl hneg), if_neg (by omega), tdiv_sub_eq_ediv hneg hz, checkedI128, if_pos]
    have hlo : r ≤ r / z := Int.le_ediv_of_mul_le hz (by nlinarith)
    have hhi := Int.ediv_neg' hneg hz
    exact ⟨le_trans hr.1 hlo, by unfold i128Max; omega⟩
  · rw [if_neg (by omega), if_neg (by omega), Int.tdiv_eq_ediv (by omega) hz.le]

theorem mulDivFloor_of_pos {x y z : Int} (h : InI128 (x * y)) (hz : 0 < z) :
    mulDivFloor x y z = some (x * y / z) := by
  simp only [mulDivFloor, checkedI128, if_pos h, Option.some_bind, divFloor_of_pos h hz]

theorem mulDivFloor_eq_none {x y z : Int} (h : ¬ InI128 (x * y)) : mulDivFloor x y z = none := by
  simp only [mulDivFloor, checkedI128, if_neg h, Option.none_bind]

theorem mulDivFloor_zero_right {x y : Int} (h : InI128 (x * y)) : mulDivFloor x y 0 = none := by
  by_cases hr : x * y < 0 <;> simp [mulDivFloor, checkedI128, h, divFloor, hr]

end BlendBackstop
