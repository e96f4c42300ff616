import Mathlib.Data.Nat.Bitwise
import Mathlib.Data.Int.Order.Basic
import Mathlib.Tactic.Ring

/-!
# Machine words

The fixed-width values a C program computes with: a `char` is a signed byte, an
`int` is a 32-bit word in two's complement, and arithmetic on either wraps.
Both are bit vectors, so that a value out of range cannot be written down.

## Main definitions

* `Byte`, `CInt` — `char` and `int`.
* `charToInt`, `intToChar` — promotion and truncation between the two.
* `intBytes`, `intOfBytes` — the object representation of an `int`, least
  significant byte first.
* `sizeT` — conversion to `size_t`.

## Main results

* `intOfBytes_intBytes` — copying an `int` out to memory and back is lossless.
* `natAbs_toInt_sdiv_ten` — dividing by ten drops a decimal digit, at both ends
  of the range.
-/

namespace Machine

/-- A `char`: eight bits, signed when it is promoted. -/
abbrev Byte := BitVec 8

/-- An `int`: thirty-two bits in two's complement. -/
abbrev CInt := BitVec 32

/-- The integer promotion of a `char`. -/
def charToInt (c : Byte) : CInt := c.signExtend 32

/-- The low byte of an `int`, as assigning it to a `char` keeps it. -/
def intToChar (i : CInt) : Byte := i.setWidth 8

/-- The conversion of an integer to `size_t`, on a machine of 64 bits. -/
def sizeT (n : ℤ) : ℕ := (n % 2 ^ 64).toNat

theorem sizeT_of_nonneg {n : ℤ} (h : 0 ≤ n) (hlt : n < 2 ^ 64) : sizeT n = n.toNat := by
  unfold sizeT
  rw [Int.emod_eq_of_lt h hlt]

/-! ### The representation of an `int` in memory -/

/-- The four bytes of an `int`, least significant first. -/
def intBytes (i : CInt) : List Byte :=
  [i.extractLsb' 0 8, i.extractLsb' 8 8, i.extractLsb' 16 8, i.extractLsb' 24 8]

/-- The `int` whose four bytes, least significant first, are given. -/
def intOfBytes (b₀ b₁ b₂ b₃ : Byte) : CInt := b₃ ++ b₂ ++ b₁ ++ b₀

@[simp] theorem length_intBytes (i : CInt) : (intBytes i).length = 4 := rfl

/-- **Copying an `int` to memory and back is lossless.** -/
theorem intOfBytes_intBytes (i : CInt) :
    intOfBytes (i.extractLsb' 0 8) (i.extractLsb' 8 8) (i.extractLsb' 16 8)
      (i.extractLsb' 24 8) = i := by
  unfold intOfBytes
  rw [BitVec.append_assoc, BitVec.append_assoc]
  apply BitVec.eq_of_getLsbD_eq
  intro k hk
  simp only [BitVec.getLsbD_append, BitVec.getLsbD_cast, BitVec.getLsbD_extractLsb']
  -- bit `k` is bit `n` of the byte that starts at bit `off`
  have hbit : ∀ {n off : ℕ}, n < 8 → off + n = k →
      (decide (n < 8) && i.getLsbD (off + n)) = i.getLsbD k := by
    rintro n off hn rfl
    rw [decide_eq_true hn, Bool.true_and]
  split_ifs
  all_goals exact hbit (by omega) (by omega)

theorem intBytes_injective : Function.Injective intBytes := by
  intro i j h
  rw [← intOfBytes_intBytes i, ← intOfBytes_intBytes j]
  simp only [intBytes, List.cons.injEq, and_true] at h
  rw [h.1, h.2.1, h.2.2.1, h.2.2.2]

/-! ### Signed values -/

theorem neg_two_pow_le_toInt (i : CInt) : -2 ^ 31 ≤ i.toInt := by
  have := BitVec.le_toInt (x := i)
  simpa using this

theorem toInt_lt_two_pow (i : CInt) : i.toInt < 2 ^ 31 := by
  have := BitVec.toInt_lt (x := i)
  simpa using this

theorem toInt_byte_lt (c : Byte) : c.toInt < 128 := by
  have := BitVec.toInt_lt (x := c)
  simpa using this

/-- A natural number below `2 ^ 31` survives the conversion to `int`. -/
theorem toInt_ofNat_of_lt {n : ℕ} (h : n < 2 ^ 31) : (BitVec.ofNat 32 n).toInt = n := by
  rw [BitVec.toInt_ofNat']
  exact Int.bmod_eq_of_le (by omega) (by omega)

/-- No conversion makes it larger. -/
theorem toInt_ofNat_le (n : ℕ) : (BitVec.ofNat 32 n).toInt ≤ n := by
  rw [BitVec.toInt_eq_toNat_cond, BitVec.toNat_ofNat]
  split <;> omega

/-- Adding one does not wrap below the upper end. -/
theorem toInt_add_one {i : CInt} (h : i.toInt + 1 < 2 ^ 31) : (i + 1).toInt = i.toInt + 1 := by
  have hone : (1 : CInt).toInt = 1 := by decide
  have hlo := neg_two_pow_le_toInt i
  rw [BitVec.toInt_add, hone]
  exact Int.bmod_eq_of_le (by omega) (by omega)

theorem toInt_ofNat_add_one {n : ℕ} (h : n + 1 < 2 ^ 31) :
    (BitVec.ofNat 32 n + 1 : CInt).toInt = n + 1 := by
  have hn : (BitVec.ofNat 32 n).toInt = n := toInt_ofNat_of_lt (by omega)
  rw [toInt_add_one (by omega), hn]

theorem toInt_ofNat_byte {n : ℕ} (h : n < 128) : (BitVec.ofNat 8 n).toInt = n := by
  rw [BitVec.toInt_ofNat']
  exact Int.bmod_eq_of_le (by omega) (by omega)

/-- A difference of counters is -1 when the second is one ahead, up to wrapping. -/
theorem ofNat_sub_ofNat_eq_neg_one_iff {a b : ℕ} :
    BitVec.ofNat 32 a - BitVec.ofNat 32 b = (-1 : CInt) ↔ (a + 1) % 2 ^ 32 = b % 2 ^ 32 := by
  have hshift : BitVec.ofNat 32 a - BitVec.ofNat 32 b = (-1 : CInt) ↔
      BitVec.ofNat 32 (a + 1) = BitVec.ofNat 32 b := by
    rw [BitVec.ofNat_add]
    constructor <;> intro h <;> grind
  rw [hshift, ← BitVec.toNat_inj, BitVec.toNat_ofNat, BitVec.toNat_ofNat]

/-- It is zero when they are equal, up to wrapping. -/
theorem ofNat_sub_ofNat_eq_zero_iff {a b : ℕ} :
    BitVec.ofNat 32 a - BitVec.ofNat 32 b = (0 : CInt) ↔ a % 2 ^ 32 = b % 2 ^ 32 := by
  have hequal : BitVec.ofNat 32 a - BitVec.ofNat 32 b = (0 : CInt) ↔
      BitVec.ofNat 32 a = BitVec.ofNat 32 b := by
    constructor <;> intro h <;> grind
  rw [hequal, ← BitVec.toNat_inj, BitVec.toNat_ofNat, BitVec.toNat_ofNat]

theorem toInt_eq_toNat_of_nonneg {i : CInt} (h : 0 ≤ i.toInt) : i.toInt = i.toNat := by
  rw [BitVec.toInt_eq_toNat_cond] at h ⊢
  split at h <;> split <;> omega

theorem toInt_byte_eq (c : Byte) :
    c.toInt = if c.toNat < 128 then (c.toNat : ℤ) else (c.toNat : ℤ) - 256 := by
  rw [BitVec.toInt_eq_toNat_cond]
  have := c.isLt
  split_ifs <;> omega

@[simp] theorem toInt_charToInt (c : Byte) : (charToInt c).toInt = c.toInt :=
  BitVec.toInt_signExtend_of_le (by decide)

/-- The low byte of a length, read back as a signed `char`. -/
theorem toNat_intToChar_ofNat (n : ℕ) : (intToChar (BitVec.ofNat 32 n)).toNat = n % 256 := by
  rw [intToChar, BitVec.toNat_setWidth, BitVec.toNat_ofNat]
  omega

/-! ### Division by ten

C truncates towards zero, so `%` takes the sign of the dividend and the two
operators act on the decimal digits of a negative number as on those of its
absolute value. -/

theorem toInt_sdiv_ten (i : CInt) : (i.sdiv 10).toInt = i.toInt.tdiv 10 := by
  have hlo := neg_two_pow_le_toInt i
  have hhi := toInt_lt_two_pow i
  have hten : (10 : CInt).toInt = 10 := by decide
  have habs : (i.toInt.tdiv 10).natAbs = i.toInt.natAbs / 10 := Int.natAbs_tdiv _ _
  rw [BitVec.toInt_sdiv, hten, Int.bmod_eq_of_le (by simp; omega) (by simp; omega)]

theorem toInt_srem_ten (i : CInt) : (i.srem 10).toInt = i.toInt.tmod 10 := by
  have hten : (10 : CInt).toInt = 10 := by decide
  rw [BitVec.toInt_srem, hten]

/-- **Dividing by ten drops a decimal digit**, `INT_MIN` included. -/
theorem natAbs_toInt_sdiv_ten (i : CInt) :
    (i.sdiv 10).toInt.natAbs = i.toInt.natAbs / 10 := by
  rw [toInt_sdiv_ten]
  exact Int.natAbs_tdiv _ _

theorem toInt_ne_zero {i : CInt} (h : i ≠ 0) : i.toInt ≠ 0 := by
  intro h0
  exact h (BitVec.toInt_inj.mp (by simpa using h0))

theorem natAbs_toInt_sdiv_ten_lt {i : CInt} (h : i ≠ 0) :
    (i.sdiv 10).toInt.natAbs < i.toInt.natAbs := by
  have := toInt_ne_zero h
  rw [natAbs_toInt_sdiv_ten]
  omega

/-- Quotient and remainder rebuild the dividend, in wrapping arithmetic. -/
theorem sdiv_ten_mul_add_srem (i : CInt) : i.sdiv 10 * 10 + i.srem 10 = i := by
  apply BitVec.eq_of_toInt_eq
  have hten : (10 : CInt).toInt = 10 := by decide
  have hsplit : i.toInt.tdiv 10 * 10 + i.toInt.tmod 10 = i.toInt := by
    have := Int.mul_tdiv_add_tmod i.toInt 10
    omega
  rw [BitVec.toInt_add, BitVec.toInt_mul, toInt_sdiv_ten, toInt_srem_ten, hten,
    Int.bmod_add_bmod, hsplit]
  exact Int.bmod_eq_of_le (by have := neg_two_pow_le_toInt i; simp; omega)
    (by have := toInt_lt_two_pow i; simp; omega)

end Machine
