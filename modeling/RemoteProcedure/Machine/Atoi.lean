import Mathlib.Data.List.TakeWhile
import RemoteProcedure.Machine.Numeral

/-!
# Numbers in a text

`strtol` in base ten takes the longest numeral it finds behind white space, and stays
inside the range of a `long`; `atoi` is what an `int` keeps of it.  A text in which there
is no numeral stands for zero.

## Main definitions

* `strtol`, `atoi` — the functions of the standard library.
* `SignedNumeral` — the numerals they take whole.

## Main results

* `atoi_of_signedNumeral` — **a numeral in the range of `int` is converted to its
  number**.
-/

namespace Machine

def charPlus : Byte := 0x2b

/-- `isspace`. -/
def IsSpace (c : Byte) : Prop := c = 0x20 ∨ 9 ≤ c.toInt ∧ c.toInt ≤ 13

instance (c : Byte) : Decidable (IsSpace c) := inferInstanceAs (Decidable (_ ∨ _))

/-- The number the digits in front stand for. -/
def leadingValue (l : List Byte) : ℕ := digitsValue (l.takeWhile fun c => IsDigit c)

/-- `strtol` in base ten, without the end of what it takes. -/
def strtol (l : List Byte) : ℤ :=
  let value : ℤ :=
    match l.dropWhile fun c => IsSpace c with
    | [] => 0
    | c :: l =>
      if c = charMinus then -leadingValue l
      else if c = charPlus then leadingValue l
      else leadingValue (c :: l)
  max (-2 ^ 63) (min value (2 ^ 63 - 1))

/-- `atoi`. -/
def atoi (l : List Byte) : CInt := BitVec.ofInt 32 (strtol l)

/-- A numeral, which may have either sign in front. -/
inductive SignedNumeral : List Byte → ℤ → Prop where
  | numeral {l : List Byte} {z : ℤ} (h : Numeral l z) : SignedNumeral l z
  | plus {l : List Byte} (hne : l ≠ []) (h : ∀ c ∈ l, IsDigit c) :
      SignedNumeral (charPlus :: l) (digitsValue l)

theorem leadingValue_of_digits {l : List Byte} (h : ∀ c ∈ l, IsDigit c) :
    leadingValue l = digitsValue l := by
  have hall : l.takeWhile (fun c => decide (IsDigit c)) = l :=
    List.takeWhile_eq_self_iff.mpr fun c hc => decide_eq_true (h c hc)
  rw [leadingValue, hall]

theorem not_isSpace_of_isDigit {c : Byte} (h : IsDigit c) : ¬ IsSpace c := by
  revert c
  decide

/-- What `strtol` takes of a numeral is the whole of it. -/
theorem strtol_of_signedNumeral {l : List Byte} {z : ℤ} (h : SignedNumeral l z) (hz : InRange z) :
    strtol l = z := by
  obtain ⟨hlo, hhi⟩ := hz
  have hclamp : max (-2 ^ 63) (min z (2 ^ 63 - 1)) = z := by omega
  cases h with
  | numeral h =>
    cases h with
    | natural hne hdigits =>
      obtain ⟨c, t, rfl⟩ := List.exists_cons_of_ne_nil hne
      have hc := hdigits c List.mem_cons_self
      have hplus : c ≠ charPlus := by
        rintro rfl
        exact absurd hc (by decide)
      rw [strtol, List.dropWhile_cons_of_neg (by simpa using not_isSpace_of_isDigit hc)]
      simp only [if_neg (ne_charMinus_of_digits hdigits), if_neg hplus,
        leadingValue_of_digits hdigits]
      exact hclamp
    | negative hne hdigits =>
      rw [strtol, List.dropWhile_cons_of_neg (by decide)]
      simp only [if_true, leadingValue_of_digits hdigits]
      exact hclamp
  | plus hne hdigits =>
    rw [strtol, List.dropWhile_cons_of_neg (by decide)]
    simp only [if_neg (by decide : ¬ charPlus = charMinus), if_true,
      leadingValue_of_digits hdigits]
    exact hclamp

/-- **A numeral in the range of `int` is converted to its number.** -/
theorem atoi_of_signedNumeral {l : List Byte} {z : ℤ} (h : SignedNumeral l z) (hz : InRange z) :
    atoi l = BitVec.ofInt 32 z := by
  rw [atoi, strtol_of_signedNumeral h hz]

end Machine
