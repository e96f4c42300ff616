import RemoteProcedure.Machine.Word

/-!
# Decimal digits of an `int`

The loop `while (i != 0) { … i /= 10; }` in three uses: counting the digits,
writing them, and the loop that reads them back.  Everything is done in the
wrapping arithmetic of `CInt`, on negative numbers as well: the digits of a
negative `i` are the characters `'0' + i % 10` with `i % 10` negative, which are
not decimal digits but read back to the same value.

## Main definitions

* `decimalLength` — how many times the loop divides.
* `decimalDigits` — the characters it produces, most significant first.
* `readDecimal` — accumulating characters into an `int`.

## Main results

* `readDecimal_decimalDigits` — the characters of any `int` read back to it.
* `decimalLength_le` — an `int` has at most ten digits.
* `isDigit_of_mem_decimalDigits` — those of a non-negative `int` are digits.
-/

namespace Machine

/-- The character `'0'`. -/
def charZero : Byte := 48

/-- The character `'-'`. -/
def charMinus : Byte := 45

/-- How many divisions by ten take `i` to zero. -/
def decimalLength (i : CInt) : ℕ :=
  if i = 0 then 0 else decimalLength (i.sdiv 10) + 1
termination_by i.toInt.natAbs
decreasing_by exact natAbs_toInt_sdiv_ten_lt ‹_›

/-- The character for the last digit of `i`. -/
def lastDigit (i : CInt) : Byte := intToChar (charToInt charZero + i.srem 10)

/-- The characters of `i`, most significant first; none for zero. -/
def decimalDigits (i : CInt) : List Byte :=
  if i = 0 then [] else decimalDigits (i.sdiv 10) ++ [lastDigit i]
termination_by i.toInt.natAbs
decreasing_by exact natAbs_toInt_sdiv_ten_lt ‹_›

/-- Accumulate one more character. -/
def readDigit (res : CInt) (c : Byte) : CInt := res * 10 + (charToInt c - charToInt charZero)

/-- Accumulate characters, most significant first. -/
def readDecimal (res : CInt) (l : List Byte) : CInt := l.foldl readDigit res

@[simp] theorem decimalLength_zero : decimalLength 0#32 = 0 := by
  rw [decimalLength, if_pos (by decide)]

theorem decimalLength_of_ne_zero {i : CInt} (h : i ≠ 0) :
    decimalLength i = decimalLength (i.sdiv 10) + 1 := by
  rw [decimalLength, if_neg h]

@[simp] theorem decimalDigits_zero : decimalDigits 0#32 = [] := by
  rw [decimalDigits, if_pos (by decide)]

theorem decimalDigits_of_ne_zero {i : CInt} (h : i ≠ 0) :
    decimalDigits i = decimalDigits (i.sdiv 10) ++ [lastDigit i] := by
  rw [decimalDigits, if_neg h]

/-- Induction along the division loop. -/
theorem divisionInduction {P : CInt → Prop} (zero : P 0)
    (step : ∀ i, i ≠ 0 → P (i.sdiv 10) → P i) (i : CInt) : P i := by
  by_cases h : i = 0
  · exact h ▸ zero
  · exact step i h (divisionInduction zero step (i.sdiv 10))
termination_by i.toInt.natAbs
decreasing_by exact natAbs_toInt_sdiv_ten_lt h

@[simp] theorem length_decimalDigits (i : CInt) :
    (decimalDigits i).length = decimalLength i := by
  induction i using divisionInduction with
  | zero => simp
  | step i h ih =>
    rw [decimalDigits_of_ne_zero h, decimalLength_of_ne_zero h, List.length_append, ih]
    rfl

theorem decimalLength_pos {i : CInt} (h : i ≠ 0) : 0 < decimalLength i := by
  rw [decimalLength_of_ne_zero h]
  omega

/-- A number below `10 ^ k` in absolute value has at most `k` digits. -/
theorem decimalLength_le_of_lt {k : ℕ} : ∀ {i : CInt}, i.toInt.natAbs < 10 ^ k →
    decimalLength i ≤ k := by
  induction k with
  | zero =>
    intro i h
    have hzero : i = 0 := by
      by_contra hne
      have := toInt_ne_zero hne
      omega
    simp [hzero]
  | succ k ih =>
    intro i h
    by_cases hi : i = 0
    · simp [hi]
    · rw [decimalLength_of_ne_zero hi]
      have hdiv : (i.sdiv 10).toInt.natAbs < 10 ^ k := by
        rw [natAbs_toInt_sdiv_ten]
        rw [pow_succ] at h
        omega
      have := ih hdiv
      omega

/-- **An `int` has at most ten digits.** -/
theorem decimalLength_le (i : CInt) : decimalLength i ≤ 10 := by
  have hlo := neg_two_pow_le_toInt i
  have hhi := toInt_lt_two_pow i
  exact decimalLength_le_of_lt (by omega)

/-! ### Reading the characters back -/

theorem toInt_lastDigit (i : CInt) : (lastDigit i).toInt = 48 + i.toInt.tmod 10 := by
  have hlt : (i.toInt.tmod 10).natAbs < 10 := by
    rw [Int.natAbs_tmod]
    exact Nat.mod_lt _ (by decide)
  have hzero : (charToInt charZero).toInt = 48 := by decide
  have hsum : (charToInt charZero + i.srem 10).toInt = 48 + i.toInt.tmod 10 := by
    rw [BitVec.toInt_add, hzero, toInt_srem_ten]
    exact Int.bmod_eq_of_le (by omega) (by omega)
  have hnat := toInt_eq_toNat_of_nonneg (i := charToInt charZero + i.srem 10) (by omega)
  rw [lastDigit, intToChar, BitVec.toInt_setWidth, ← hnat, hsum]
  exact Int.bmod_eq_of_le (by omega) (by omega)

/-- The character of a digit is worth that digit. -/
theorem charToInt_lastDigit_sub (i : CInt) :
    charToInt (lastDigit i) - charToInt charZero = i.srem 10 := by
  have hlt : (i.toInt.tmod 10).natAbs < 10 := by
    rw [Int.natAbs_tmod]
    exact Nat.mod_lt _ (by decide)
  have hzero : (charToInt charZero).toInt = 48 := by decide
  apply BitVec.eq_of_toInt_eq
  rw [BitVec.toInt_sub, toInt_charToInt, toInt_lastDigit, hzero, toInt_srem_ten]
  rw [show 48 + i.toInt.tmod 10 - 48 = i.toInt.tmod 10 by omega]
  exact Int.bmod_eq_of_le (by omega) (by omega)

/-- **The characters of any `int` read back to it**, negative ones included. -/
theorem readDecimal_decimalDigits (i : CInt) : readDecimal 0 (decimalDigits i) = i := by
  induction i using divisionInduction with
  | zero => simp [readDecimal]
  | step i h ih =>
    unfold readDecimal at ih ⊢
    rw [decimalDigits_of_ne_zero h, List.foldl_append, ih, List.foldl_cons, List.foldl_nil,
      readDigit, charToInt_lastDigit_sub]
    exact sdiv_ten_mul_add_srem i

/-- The characters of a non-negative `int` are decimal digits. -/
theorem isDigit_of_mem_decimalDigits (i : CInt) : 0 ≤ i.toInt →
    ∀ c ∈ decimalDigits i, 48 ≤ c.toInt ∧ c.toInt ≤ 57 := by
  induction i using divisionInduction with
  | zero => intro _ c hc; simp at hc
  | step i h ih =>
    intro hi c hc
    rw [decimalDigits_of_ne_zero h, List.mem_append, List.mem_singleton] at hc
    rcases hc with hc | rfl
    · refine ih ?_ c hc
      rw [toInt_sdiv_ten, Int.tdiv_eq_ediv_of_nonneg hi]
      omega
    · rw [toInt_lastDigit, Int.tmod_eq_emod_of_nonneg hi]
      omega

/-- A non-negative number is not written with a leading sign. -/
theorem charMinus_notMem_decimalDigits {i : CInt} (h : 0 ≤ i.toInt) :
    charMinus ∉ decimalDigits i := by
  intro hmem
  have hrange := isDigit_of_mem_decimalDigits i h _ hmem
  have : charMinus.toInt = 45 := by decide
  omega

end Machine
