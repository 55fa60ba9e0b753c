/-
CardinalitySearch.Arithmetic — the numbers of a search.

Weights and improvements are signed numbers, numbers of true literals are not.  A
problem says how they are kept: without limits, or in words of 32 bits as a machine
keeps them.  All that depends on it goes through the operations here, so there is one
definition of a search for both.

Words can hold what a problem of moderate size needs, and then the operations are the
plain ones.  Each has its equation for that, under a condition that asks nothing when
there are no limits.
-/
import CardinalitySearch.Word

namespace CardinalitySearch

/-- How numbers are kept. -/
inductive Arithmetic where
  /-- Without limits. -/
  | unlimited
  /-- In words of 32 bits. -/
  | words
deriving DecidableEq

namespace Arithmetic

/-- What is kept of a signed number. -/
def signed : Arithmetic → Int → Int
  | .unlimited, x => x
  | .words, x => Word.signed x

/-- What is kept of a size. -/
def unsigned : Arithmetic → Nat → Nat
  | .unlimited, n => n
  | .words, n => Word.unsigned n

/-- The sum of two signed numbers. -/
def add : Arithmetic → Int → Int → Int
  | .unlimited, x, y => x + y
  | .words, x, y => Word.add x y

/-- The difference of two signed numbers. -/
def sub : Arithmetic → Int → Int → Int
  | .unlimited, x, y => x - y
  | .words, x, y => Word.sub x y

/-- The negative of a signed number. -/
def neg : Arithmetic → Int → Int
  | .unlimited, x => -x
  | .words, x => Word.neg x

/-- A number of true literals after a change.  No change takes it below zero, nor a
word above its greatest value. -/
def adjust : Arithmetic → Nat → Int → Nat
  | .unlimited, n, x => (n + x).toNat
  | .words, n, x => Word.saturatingAdd n x

/-! ## Without limits -/

@[simp] theorem signed_unlimited (x : Int) : unlimited.signed x = x := rfl

@[simp] theorem unsigned_unlimited (n : Nat) : unlimited.unsigned n = n := rfl

@[simp] theorem add_unlimited (x y : Int) : unlimited.add x y = x + y := rfl

@[simp] theorem sub_unlimited (x y : Int) : unlimited.sub x y = x - y := rfl

@[simp] theorem neg_unlimited (x : Int) : unlimited.neg x = -x := rfl

@[simp] theorem adjust_unlimited (n : Nat) (x : Int) : unlimited.adjust n x = (n + x).toNat := rfl

/-! ## Numbers that are kept as they are -/

variable {A : Arithmetic} {n : Nat} {x y : Int}

theorem signed_eq (fits : A = .words → Word.Fits x) : A.signed x = x := by
  cases A with
  | unlimited => rfl
  | words => exact Word.signed_eq (fits rfl)

theorem unsigned_eq (fits : A = .words → n ≤ 4294967295) : A.unsigned n = n := by
  cases A with
  | unlimited => rfl
  | words => exact Word.unsigned_eq (fits rfl)

theorem add_eq (fits : A = .words → Word.Fits (x + y)) : A.add x y = x + y := by
  cases A with
  | unlimited => rfl
  | words => exact Word.add_eq (fits rfl)

theorem sub_eq (fits : A = .words → Word.Fits (x - y)) : A.sub x y = x - y := by
  cases A with
  | unlimited => rfl
  | words => exact Word.sub_eq (fits rfl)

theorem neg_eq (fits : A = .words → Word.Fits (-x)) : A.neg x = -x := by
  cases A with
  | unlimited => rfl
  | words => exact Word.neg_eq (fits rfl)

theorem adjust_eq (count : A = .words → n ≤ 4294967295) (change : A = .words → Word.Fits x)
    (sum : A = .words → n + x ≤ 4294967295) : A.adjust n x = (n + x).toNat := by
  cases A with
  | unlimited => rfl
  | words => exact Word.saturatingAdd_eq (count rfl) (change rfl) (sum rfl)

/-- It does not matter whether a summand has been cut before. -/
theorem add_signed (A : Arithmetic) (x y : Int) : A.add (A.signed x) y = A.signed (x + y) := by
  cases A with
  | unlimited => rfl
  | words => exact Word.add_signed x y

end Arithmetic

end CardinalitySearch
