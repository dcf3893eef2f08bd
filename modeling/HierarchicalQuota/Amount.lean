/-
This file defines amounts, the numbers that limits, usages and changes are.
An amount is a signed 64-bit integer, and its arithmetic stops at the ends of that range.
-/

namespace HierarchicalQuota

/-- An amount is an integer that fits into 64 bits with a sign. -/
@[ext] structure Amount where
  value : Int
  lower : -9223372036854775808 ≤ value
  upper : value ≤ 9223372036854775807
deriving DecidableEq

namespace Amount

/-- The clamp of an integer is the amount nearest to it. -/
def clamp (value : Int) : Amount :=
  ⟨max (-9223372036854775808) (min value 9223372036854775807), by omega, by omega⟩

/-- The wrap of an integer is the amount that agrees with it in the last 64 bits. -/
def wrap (value : Int) : Amount :=
  ⟨value.bmod 18446744073709551616, Int.le_bmod (by decide),
    Int.le_of_lt_add_one (Int.bmod_lt (by decide))⟩

/-- This function accepts exactly the integers that are amounts. -/
def ofInt? (value : Int) : Option Amount :=
  if range : -9223372036854775808 ≤ value ∧ value ≤ 9223372036854775807 then
    some ⟨value, range.1, range.2⟩
  else
    none

instance (n : Nat) : OfNat Amount n := ⟨clamp n⟩

instance : Inhabited Amount := ⟨0⟩

instance : Add Amount := ⟨fun left right => clamp (left.value + right.value)⟩

instance : Sub Amount := ⟨fun left right => clamp (left.value - right.value)⟩

instance : Mul Amount := ⟨fun left right => clamp (left.value * right.value)⟩

instance : Neg Amount := ⟨fun amount => clamp (-amount.value)⟩

instance : LE Amount := ⟨fun left right => left.value ≤ right.value⟩

instance : LT Amount := ⟨fun left right => left.value < right.value⟩

instance (left right : Amount) : Decidable (left ≤ right) :=
  inferInstanceAs (Decidable (left.value ≤ right.value))

instance (left right : Amount) : Decidable (left < right) :=
  inferInstanceAs (Decidable (left.value < right.value))

instance : Max Amount := ⟨fun left right => if left ≤ right then right else left⟩

instance : ToString Amount := ⟨fun amount => toString amount.value⟩

/-- The limit `-1` stands for no limit at all. -/
def unlimited : Amount := -1

/-- The double of an amount is the nearest one, and a tie goes to the even significand. -/
def toFloat (amount : Amount) : Float := (Int64.ofInt amount.value).toFloat

theorem value_clamp (value : Int) :
    (clamp value).value = max (-9223372036854775808) (min value 9223372036854775807) := rfl

theorem value_add (left right : Amount) :
    (left + right).value =
      max (-9223372036854775808) (min (left.value + right.value) 9223372036854775807) := rfl

theorem value_sub (left right : Amount) :
    (left - right).value =
      max (-9223372036854775808) (min (left.value - right.value) 9223372036854775807) := rfl

theorem value_mul (left right : Amount) :
    (left * right).value =
      max (-9223372036854775808) (min (left.value * right.value) 9223372036854775807) := rfl

theorem value_neg (amount : Amount) :
    (-amount).value =
      max (-9223372036854775808) (min (-amount.value) 9223372036854775807) := rfl

@[simp] theorem value_zero : (0 : Amount).value = 0 := rfl

@[simp] theorem value_unlimited : unlimited.value = -1 := rfl

/-- An integer that is an amount wraps to itself. -/
theorem value_wrap {value : Int} (lower : -9223372036854775808 ≤ value)
    (upper : value ≤ 9223372036854775807) : (wrap value).value = value :=
  Int.bmod_eq_of_le_mul_two (by omega) (by omega)

theorem value_max (left right : Amount) :
    (max left right).value = max left.value right.value := by
  change (if left ≤ right then right else left).value = _
  split
  · rename_i ordered
    change left.value ≤ right.value at ordered
    omega
  · rename_i unordered
    change ¬ left.value ≤ right.value at unordered
    omega

theorem le_iff (left right : Amount) : left ≤ right ↔ left.value ≤ right.value := Iff.rfl

theorem lt_iff (left right : Amount) : left < right ↔ left.value < right.value := Iff.rfl

theorem ofInt?_value (amount : Amount) : ofInt? amount.value = some amount := by
  simp [ofInt?, amount.lower, amount.upper]

end Amount

end HierarchicalQuota
