import Mathlib.Algebra.Order.Ring.Int
import RemoteProcedure.Machine.Numeral

/-!
# Arithmetic that may overflow

C defines an operation on `int`s only if its exact result is one; a division by zero it
does not define either.  An operation here has no result where C does not define it.

## Main definitions

* `exactly` — the `int` of this value, if there is one.
* `addInt`, `subInt`, `mulInt`, `divInt` — the operators.

## Main results

* `exactly_eq_some_iff` — **a result is the exact one.**
* `inRange_pow_of_succ` — the powers before one that is in range are in range.
-/

namespace Machine

/-- The `int` of this value. -/
def exactly (z : ℤ) : Option CInt := if InRange z then some (BitVec.ofInt 32 z) else none

/-- `i + j`. -/
def addInt (i j : CInt) : Option CInt := exactly (i.toInt + j.toInt)

/-- `i - j`. -/
def subInt (i j : CInt) : Option CInt := exactly (i.toInt - j.toInt)

/-- `i * j`. -/
def mulInt (i j : CInt) : Option CInt := exactly (i.toInt * j.toInt)

/-- `i / j`, which rounds towards zero. -/
def divInt (i j : CInt) : Option CInt := if j = 0 then none else exactly (i.toInt.tdiv j.toInt)

/-- **A result is the exact one.** -/
theorem exactly_eq_some_iff {z : ℤ} {i : CInt} : exactly z = some i ↔ i.toInt = z := by
  rw [exactly]
  split_ifs with h
  · rw [Option.some_inj]
    constructor
    · rintro rfl
      exact toInt_ofInt_of_inRange h
    · rintro rfl
      exact BitVec.ofInt_toInt
  · refine iff_of_false (fun hno => nomatch hno) ?_
    rintro rfl
    exact h (inRange_toInt i)

@[simp] theorem exactly_toInt (i : CInt) : exactly i.toInt = some i := exactly_eq_some_iff.mpr rfl

theorem exactly_of_not_inRange {z : ℤ} (h : ¬ InRange z) : exactly z = none := if_neg h

@[simp] theorem addInt_eq_some_iff {i j k : CInt} :
    addInt i j = some k ↔ k.toInt = i.toInt + j.toInt := exactly_eq_some_iff

@[simp] theorem subInt_eq_some_iff {i j k : CInt} :
    subInt i j = some k ↔ k.toInt = i.toInt - j.toInt := exactly_eq_some_iff

@[simp] theorem mulInt_eq_some_iff {i j k : CInt} :
    mulInt i j = some k ↔ k.toInt = i.toInt * j.toInt := exactly_eq_some_iff

@[simp] theorem divInt_eq_some_iff {i j k : CInt} :
    divInt i j = some k ↔ j ≠ 0 ∧ k.toInt = i.toInt.tdiv j.toInt := by
  rw [divInt]
  split_ifs with h
  · exact iff_of_false (fun hno => nomatch hno) fun hno => hno.1 h
  · rw [exactly_eq_some_iff]
    exact (and_iff_right h).symm

/-- A decrement that does not overflow. -/
theorem toInt_sub_one {i : CInt} (h : -2 ^ 31 < i.toInt) : (i - 1).toInt = i.toInt - 1 := by
  have hhi := toInt_lt_two_pow i
  have hone : (1 : CInt).toInt = 1 := rfl
  rw [BitVec.toInt_sub, hone]
  exact Int.bmod_eq_of_le (by simp; omega) (by simp; omega)

/-- A number of this size is in range. -/
theorem inRange_of_natAbs {z : ℤ} (h : z.natAbs < 2 ^ 31) : InRange z := by
  unfold InRange
  omega

theorem natAbs_le_of_inRange {z : ℤ} (h : InRange z) : z.natAbs ≤ 2 ^ 31 := by
  unfold InRange at h
  omega

/-- **The powers before one that is in range are in range.** -/
theorem inRange_pow_of_succ {a : ℤ} {n : ℕ} (h : InRange (a ^ (n + 1))) : InRange (a ^ n) := by
  have hbound := natAbs_le_of_inRange h
  apply inRange_of_natAbs
  rw [Int.natAbs_pow] at hbound ⊢
  rcases Nat.lt_or_ge a.natAbs 2 with hsmall | hbig
  · -- zero, or a unit
    have hone : a.natAbs ^ n ≤ 1 ^ n := Nat.pow_le_pow_left (Nat.le_of_lt_succ hsmall) n
    rw [Nat.one_pow] at hone
    omega
  · have hdouble : a.natAbs ^ n * 2 ≤ a.natAbs ^ n * a.natAbs := Nat.mul_le_mul_left _ hbig
    rw [Nat.pow_succ] at hbound
    omega

end Machine
