import Mathlib.Data.Nat.Digits.Defs
import Mathlib.Data.List.Basic
import Mathlib.Data.List.Induction
import RemoteProcedure.Machine.Decimal

/-!
# Decimal numerals

The notation that the loops of `Decimal` are about: a numeral is an optional `-`
and one or more of the characters `0` to `9`, and stands for an integer of any
size.  A numeral with leading zeros is a numeral; the canonical one of a number
has none.

## Main definitions

* `digitsValue` — the number some digits stand for.
* `Numeral` — the characters of an integer.
* `Canonical` — the numeral without leading zeros.
* `InRange` — the integers an `int` holds.

## Main results

* `readDecimal_of_digits` — **accumulating digits gives the number they stand
  for**, modulo the width of an `int`.
* `canonical_positive`, `canonical_negative` — the division loop writes canonical
  numerals.
-/

namespace Machine

/-- The integers an `int` holds. -/
def InRange (z : ℤ) : Prop := -2 ^ 31 ≤ z ∧ z < 2 ^ 31

instance (z : ℤ) : Decidable (InRange z) := inferInstanceAs (Decidable (_ ∧ _))

theorem inRange_toInt (i : CInt) : InRange i.toInt := ⟨neg_two_pow_le_toInt i, toInt_lt_two_pow i⟩

theorem toInt_ofInt_of_inRange {z : ℤ} (h : InRange z) : (BitVec.ofInt 32 z).toInt = z := by
  obtain ⟨hlo, hhi⟩ := h
  rw [BitVec.toInt_ofInt]
  exact Int.bmod_eq_of_le (by simp; omega) (by simp; omega)

/-! ### Digits -/

/-- One of the characters `0` to `9`. -/
def IsDigit (c : Byte) : Prop := 48 ≤ c.toInt ∧ c.toInt ≤ 57

instance (c : Byte) : Decidable (IsDigit c) := inferInstanceAs (Decidable (_ ∧ _))

theorem not_isDigit_charMinus : ¬ IsDigit charMinus := by decide

/-- The number some digits stand for, the most significant first. -/
def digitsValue (l : List Byte) : ℕ := Nat.ofDigits 10 (l.reverse.map fun c => c.toNat - 48)

@[simp] theorem digitsValue_nil : digitsValue [] = 0 := rfl

theorem digitsValue_append_singleton (l : List Byte) (c : Byte) :
    digitsValue (l ++ [c]) = digitsValue l * 10 + (c.toNat - 48) := by
  simp only [digitsValue, List.reverse_append, List.reverse_singleton, List.singleton_append,
    List.map_cons, Nat.ofDigits_cons]
  ring

theorem forall_append_singleton {l : List Byte} {c : Byte} {P : Byte → Prop} :
    (∀ d ∈ l ++ [c], P d) ↔ (∀ d ∈ l, P d) ∧ P c := by
  rw [List.forall_mem_append, List.forall_mem_singleton]

/-- A digit is worth what it stands for. -/
theorem charToInt_sub_of_isDigit {c : Byte} (h : IsDigit c) :
    charToInt c - charToInt charZero = BitVec.ofNat 32 (c.toNat - 48) := by
  revert c
  decide

/-- **Accumulating digits gives the number they stand for**, modulo the width of
an `int`. -/
theorem readDecimal_of_digits {l : List Byte} :
    (∀ c ∈ l, IsDigit c) → readDecimal 0 l = BitVec.ofNat 32 (digitsValue l) := by
  induction l using List.reverseRecOn with
  | nil => exact fun _ => rfl
  | append_singleton l c ih =>
    intro h
    obtain ⟨hl, hc⟩ := forall_append_singleton.mp h
    have hfront : l.foldl readDigit 0 = BitVec.ofNat 32 (digitsValue l) := ih hl
    rw [readDecimal, List.foldl_append, hfront, List.foldl_cons, List.foldl_nil, readDigit,
      charToInt_sub_of_isDigit hc, digitsValue_append_singleton, BitVec.ofNat_add, BitVec.ofNat_mul]
    rfl

/-! ### Numerals -/

/-- The characters of an integer: an optional sign, and one or more digits. -/
inductive Numeral : List Byte → ℤ → Prop where
  | natural {l : List Byte} (hne : l ≠ []) (h : ∀ c ∈ l, IsDigit c) : Numeral l (digitsValue l)
  | negative {l : List Byte} (hne : l ≠ []) (h : ∀ c ∈ l, IsDigit c) :
      Numeral (charMinus :: l) (-(digitsValue l))

/-- A numeral starts with a sign or with a digit, not with both. -/
theorem ne_charMinus_of_digits {c : Byte} {l : List Byte} (h : ∀ d ∈ c :: l, IsDigit d) :
    c ≠ charMinus := by
  rintro rfl
  exact not_isDigit_charMinus (h charMinus List.mem_cons_self)

/-- **A numeral stands for one number.** -/
theorem Numeral.unique {l : List Byte} {v w : ℤ} (hv : Numeral l v) (hw : Numeral l w) : v = w := by
  cases hv with
  | natural hne h =>
    cases hw with
    | natural _ _ => rfl
    | negative _ _ => exact absurd rfl (ne_charMinus_of_digits h)
  | negative hne h =>
    cases hw with
    | natural _ h' => exact absurd rfl (ne_charMinus_of_digits h')
    | negative _ _ => rfl

/-- The numeral of an integer that has no leading zero, but for zero itself. -/
structure Canonical (l : List Byte) (z : ℤ) : Prop where
  numeral : Numeral l z
  /-- The sign stands in front of the negative numbers. -/
  sign : l.head? = some charMinus ↔ z < 0
  /-- A zero that leads is alone, -/
  leading : ∀ t, l = charZero :: t → t = []
  /-- and has no sign. -/
  leading_sign : ∀ t, l ≠ charMinus :: charZero :: t

/-! ### The digits the division loop writes -/

/-- The last digit of a natural number. -/
theorem toNat_lastDigit {i : CInt} (h : 0 ≤ i.toInt) :
    (lastDigit i).toNat - 48 = i.toInt.toNat % 10 := by
  have hchar := toInt_lastDigit i
  rw [Int.tmod_eq_emod_of_nonneg h, toInt_byte_eq] at hchar
  split_ifs at hchar <;> omega

/-- The digits of a natural number stand for it. -/
theorem digitsValue_decimalDigits (i : CInt) : 0 ≤ i.toInt →
    digitsValue (decimalDigits i) = i.toInt.toNat := by
  induction i using divisionInduction with
  | zero => exact fun _ => by simp
  | step i h ih =>
    intro hi
    have hdiv : (i.sdiv 10).toInt = i.toInt / 10 := by
      rw [toInt_sdiv_ten, Int.tdiv_eq_ediv_of_nonneg hi]
    have hfront := ih (by omega)
    rw [decimalDigits_of_ne_zero h, digitsValue_append_singleton, hfront, hdiv, toNat_lastDigit hi]
    omega

/-- A digit that stands for nothing is that of a multiple of ten. -/
theorem lastDigit_eq_charZero_iff (i : CInt) : lastDigit i = charZero ↔ i.toInt.tmod 10 = 0 := by
  have hchar := toInt_lastDigit i
  have hzero : charZero.toInt = 48 := by decide
  rw [← BitVec.toInt_inj]
  omega

theorem decimalDigits_ne_nil {i : CInt} (h : i ≠ 0) : decimalDigits i ≠ [] := by
  rw [decimalDigits_of_ne_zero h]
  exact List.append_ne_nil_of_right_ne_nil _ (List.cons_ne_nil _ _)

/-- **No number but zero is written with a leading zero.** -/
theorem head?_decimalDigits_ne (i : CInt) : i ≠ 0 →
    (decimalDigits i).head? ≠ some charZero := by
  induction i using divisionInduction with
  | zero => exact fun h => absurd rfl h
  | step i h ih =>
    intro _
    rw [decimalDigits_of_ne_zero h]
    by_cases hdiv : i.sdiv 10 = 0
    · -- a single digit
      have hquot := toInt_sdiv_ten i
      have hsplit := Int.mul_tdiv_add_tmod i.toInt 10
      have hne := toInt_ne_zero h
      rw [hdiv, show (0 : CInt).toInt = 0 by decide] at hquot
      rw [hdiv, show decimalDigits 0 = [] from decimalDigits_zero, List.nil_append, List.head?_cons,
        Ne, Option.some.injEq, lastDigit_eq_charZero_iff]
      omega
    · rw [List.head?_append_of_ne_nil _ (decimalDigits_ne_nil hdiv)]
      exact ih hdiv

theorem numeral_decimalDigits {i : CInt} (h : 0 ≤ i.toInt) (hne : i ≠ 0) :
    Numeral (decimalDigits i) i.toInt := by
  have hnumeral := Numeral.natural (decimalDigits_ne_nil hne) (isDigit_of_mem_decimalDigits i h)
  rwa [digitsValue_decimalDigits i h, Int.toNat_of_nonneg h] at hnumeral

/-- **A positive number is written canonically.** -/
theorem canonical_positive {i : CInt} (h : 0 < i.toInt) : Canonical (decimalDigits i) i.toInt := by
  have hne : i ≠ 0 := by
    rintro rfl
    exact absurd h (by decide)
  have hzero := head?_decimalDigits_ne i hne
  have hminus := charMinus_notMem_decimalDigits (i := i) (by omega)
  refine ⟨numeral_decimalDigits (by omega) hne, ?_, ?_, ?_⟩
  · exact iff_of_false (fun hhead => hminus (List.mem_of_mem_head? hhead)) (by omega)
  · intro t ht
    rw [ht] at hzero
    exact absurd rfl hzero
  · intro t ht
    rw [ht] at hminus
    exact hminus List.mem_cons_self

/-- Zero is written canonically. -/
theorem canonical_zero : Canonical [charZero] 0 := by
  refine ⟨.natural (List.cons_ne_nil _ _) (by decide), by decide, ?_, ?_⟩
  · rintro t ⟨⟩
    rfl
  · rintro t ⟨⟩

/-- **A negative number is written canonically**, with the digits of its negation. -/
theorem canonical_negative {i : CInt} (h : 0 < i.toInt) :
    Canonical (charMinus :: decimalDigits i) (-i.toInt) := by
  have hne : i ≠ 0 := by
    rintro rfl
    exact absurd h (by decide)
  have hzero := head?_decimalDigits_ne i hne
  have hnumeral := Numeral.negative (decimalDigits_ne_nil hne)
    (isDigit_of_mem_decimalDigits i (by omega))
  rw [digitsValue_decimalDigits i (by omega), Int.toNat_of_nonneg (by omega)] at hnumeral
  refine ⟨hnumeral, iff_of_true rfl (by omega), ?_, ?_⟩
  · rintro t ⟨⟩
  · intro t ht
    rw [List.cons.injEq] at ht
    rw [ht.2] at hzero
    exact absurd rfl hzero

end Machine
