/-
CardinalitySearch.Word — arithmetic in words of 32 bits.

An operand is cut to its low 32 bits, and so is the result, except where a count
meets a change, which stops at the ends of the scale.  Each operation comes with the
condition under which it gives the number that it would give without limits.
-/

namespace CardinalitySearch.Word

/-- Whether a signed word can hold the number. -/
def Fits (x : Int) : Prop :=
  -2147483648 ≤ x ∧ x ≤ 2147483647

instance (x : Int) : Decidable (Fits x) :=
  inferInstanceAs (Decidable (_ ∧ _))

/-- The number as a signed word. -/
def signed (x : Int) : Int :=
  (Int32.ofInt x).toInt

/-- The number as an unsigned word. -/
def unsigned (n : Nat) : Nat :=
  (UInt32.ofNat n).toNat

/-- The sum of two signed words. -/
def add (x y : Int) : Int :=
  (Int32.ofInt x + Int32.ofInt y).toInt

/-- The difference of two signed words. -/
def sub (x y : Int) : Int :=
  (Int32.ofInt x - Int32.ofInt y).toInt

/-- The negative of a signed word. -/
def neg (x : Int) : Int :=
  (-Int32.ofInt x).toInt

/-- The unsigned word closest to the sum of an unsigned and a signed one. -/
def saturatingAdd (n : Nat) (x : Int) : Nat :=
  min ((UInt32.ofNat n).toNat + (Int32.ofInt x).toInt).toNat (UInt32.size - 1)

variable {x y : Int} {n : Nat}

/-- A size below the number of words of one sign fits with either sign. -/
theorem fits_of_natAbs_lt (h : x.natAbs < 2147483648) : Fits x := by
  unfold Fits
  omega

theorem signed_eq (h : Fits x) : signed x = x := by
  unfold Fits at h
  exact Int32.toInt_ofInt_of_le (by omega) (by omega)

theorem unsigned_eq (h : n ≤ 4294967295) : unsigned n = n :=
  UInt32.toNat_ofNat_of_lt (Nat.lt_succ_of_le h)

theorem unsigned_le (n : Nat) : unsigned n ≤ 4294967295 :=
  Nat.le_of_lt_succ (UInt32.toNat_lt _)

/-- It does not matter whether a summand has been cut before. -/
theorem add_signed (x y : Int) : add (signed x) y = signed (x + y) := by
  rw [add, signed, signed, Int32.ofInt_toInt, Int32.ofInt_add]

theorem add_eq (h : Fits (x + y)) : add x y = x + y := by
  rw [add, ← Int32.ofInt_add]
  exact signed_eq h

theorem sub_eq (h : Fits (x - y)) : sub x y = x - y := by
  rw [sub, ← Int32.ofInt_sub]
  exact signed_eq h

theorem neg_eq (h : Fits (-x)) : neg x = -x := by
  rw [neg, ← Int32.ofInt_neg]
  exact signed_eq h

/-- Between the ends of the scale the sum is the plain one. -/
theorem saturatingAdd_eq (hn : n ≤ 4294967295) (hx : Fits x) (le : n + x ≤ 4294967295) :
    saturatingAdd n x = (n + x).toNat := by
  have count : (UInt32.ofNat n).toNat = n := unsigned_eq hn
  have change : (Int32.ofInt x).toInt = x := signed_eq hx
  have small : (n + x).toNat ≤ UInt32.size - 1 := Int.toNat_le.mpr le
  rw [saturatingAdd, count, change, Nat.min_eq_left small]

end CardinalitySearch.Word
