import RemoteProcedure.Machine.Numeral
import RemoteProcedure.Answer

/-!
# What `serialize_integer` writes

The digits of a negative `int` are those of its negation, and `INT_MIN` has none.
There `i` stays negative, and the digits are characters below `0`; the reader
makes `INT_MIN` of them again, but they are not its decimal notation.

Arithmetic wraps in the model.  What the two functions compute is listed beside
them in integers that do not, so that it can be asked whether it ever had to.

## Main definitions

* `serializeResults`, `argSizeResults` — what the operators of `serialize_integer`
  and of `arg_size` result in.
* `WritesDecimal` — canonical notation, counted alike, without overflow.

## Main results

* `inRange_serializeResults`, `inRange_argSizeResults` — but for `INT_MIN` nothing
  leaves the range of `int`.
* `writesDecimal_iff` — **every `int` but `INT_MIN` is written in decimal**.
-/

namespace RemoteProcedure

open Machine

/-! ### The arithmetic -/

/-- The results of `++size` and `tmp /= 10`, round by round. -/
def countResults (size : ℤ) (tmp : CInt) : List ℤ :=
  if tmp = 0 then []
  else (size + 1) :: tmp.toInt.tdiv 10 :: countResults (size + 1) (tmp.sdiv 10)
termination_by tmp.toInt.natAbs
decreasing_by exact natAbs_toInt_sdiv_ten_lt ‹_›

/-- The results of `'0' + (tmp % 10)`, `tmp /= 10` and `--size`, round by round. -/
def digitResults (size : ℤ) (tmp : CInt) : List ℤ :=
  if tmp = 0 then []
  else (48 + tmp.toInt.tmod 10) :: tmp.toInt.tdiv 10 :: (size - 1) ::
    digitResults (size - 1) (tmp.sdiv 10)
termination_by tmp.toInt.natAbs
decreasing_by exact natAbs_toInt_sdiv_ten_lt ‹_›

/-- The results of the operators of `serialize_integer`, as integers of any size. -/
def serializeResults (i : CInt) : List ℤ :=
  let neg := i.slt 0
  let negation := if neg then [-i.toInt] else []
  let i := if neg then -i else i
  if i = 0 then negation
  else
    let size : ℤ := decimalLength i
    let isize := if neg then size + 1 else size
    negation ++ countResults 0 i ++ (if neg then [size + 1] else []) ++ digitResults isize i ++
      [isize + 1]

/-- The results of the operators of `arg_size` on one `int`, the loop of which
divides before it counts. -/
def argSizeResults (tmp : CInt) : List ℤ :=
  let neg := tmp.slt 0
  let negation := if neg then [2, -tmp.toInt] else []
  let size : ℤ := if neg then 2 else 1
  let tmp := if neg then -tmp else tmp
  let zero := if tmp = 0 then [size + 1] else []
  let size := if tmp = 0 then size + 1 else size
  [1] ++ negation ++ zero ++ countResults size tmp ++ [size + decimalLength tmp + 1]

theorem countResults_zero (size : ℤ) : countResults size 0 = [] := by
  rw [countResults, if_pos rfl]

theorem countResults_of_ne_zero (size : ℤ) {tmp : CInt} (h : tmp ≠ 0) :
    countResults size tmp =
      (size + 1) :: tmp.toInt.tdiv 10 :: countResults (size + 1) (tmp.sdiv 10) := by
  rw [countResults, if_neg h]

theorem digitResults_zero (size : ℤ) : digitResults size 0 = [] := by
  rw [digitResults, if_pos rfl]

theorem digitResults_of_ne_zero (size : ℤ) {tmp : CInt} (h : tmp ≠ 0) :
    digitResults size tmp = (48 + tmp.toInt.tmod 10) :: tmp.toInt.tdiv 10 :: (size - 1) ::
      digitResults (size - 1) (tmp.sdiv 10) := by
  rw [digitResults, if_neg h]

theorem inRange_tdiv_ten (tmp : CInt) : InRange (tmp.toInt.tdiv 10) := by
  rw [← toInt_sdiv_ten]
  exact inRange_toInt _

theorem inRange_of_small {z : ℤ} (hlo : -100 ≤ z) (hhi : z ≤ 100) : InRange z :=
  ⟨by omega, by omega⟩

/-- **Counting digits overflows nothing.** -/
theorem inRange_countResults (tmp : CInt) : ∀ size : ℤ, 0 ≤ size →
    size + decimalLength tmp ≤ 100 → ∀ z ∈ countResults size tmp, InRange z := by
  induction tmp using divisionInduction with
  | zero =>
    intro size _ _ z hz
    rw [countResults_zero] at hz
    cases hz
  | step tmp h ih =>
    intro size hpos hsize
    rw [decimalLength_of_ne_zero h, Nat.cast_succ] at hsize
    rw [countResults_of_ne_zero size h, List.forall_mem_cons, List.forall_mem_cons]
    exact ⟨inRange_of_small (by omega) (by omega), inRange_tdiv_ten tmp,
      ih (size + 1) (by omega) (by omega)⟩

/-- **Nor does storing them**, backwards from an index that counts them. -/
theorem inRange_digitResults (tmp : CInt) : ∀ size : ℤ, (decimalLength tmp : ℤ) ≤ size →
    size ≤ 100 → ∀ z ∈ digitResults size tmp, InRange z := by
  induction tmp using divisionInduction with
  | zero =>
    intro size _ _ z hz
    rw [digitResults_zero] at hz
    cases hz
  | step tmp h ih =>
    intro size hlen hsize
    have hdigit : (tmp.toInt.tmod 10).natAbs < 10 := by
      rw [Int.natAbs_tmod]
      exact Nat.mod_lt _ (by decide)
    rw [decimalLength_of_ne_zero h, Nat.cast_succ] at hlen
    rw [digitResults_of_ne_zero size h]
    simp only [List.forall_mem_cons]
    exact ⟨inRange_of_small (by omega) (by omega), inRange_tdiv_ten tmp,
      inRange_of_small (by omega) (by omega), ih (size - 1) (by omega) (by omega)⟩

/-- The negation of every `int` but one is an `int`. -/
theorem inRange_neg_iff (i : CInt) : InRange (-i.toInt) ↔ i ≠ BitVec.intMin 32 := by
  have hmin : (BitVec.intMin 32).toInt = -2 ^ 31 := by decide
  have hlo := neg_two_pow_le_toInt i
  have hhi := toInt_lt_two_pow i
  rw [InRange, Ne, ← BitVec.toInt_inj, hmin]
  omega

/-- **But for `INT_MIN`, nothing in `serialize_integer` leaves the range.** -/
theorem inRange_serializeResults {i : CInt} (h : i ≠ BitVec.intMin 32) :
    ∀ z ∈ serializeResults i, InRange z := by
  have hneg := (inRange_neg_iff i).mpr h
  unfold serializeResults
  cases hsign : i.slt 0 with
  | false =>
    have hlen := decimalLength_le i
    have hcount := inRange_countResults i 0 (by omega) (by omega)
    have hdigits := inRange_digitResults i (decimalLength i) (by omega) (by omega)
    simp only [Bool.false_eq_true, if_false, List.nil_append, List.append_nil]
    split_ifs
    · exact fun z hz => absurd hz List.not_mem_nil
    · simp only [List.forall_mem_append, List.forall_mem_singleton]
      exact ⟨⟨hcount, hdigits⟩, inRange_of_small (by omega) (by omega)⟩
  | true =>
    have hlen := decimalLength_le (-i)
    have hcount := inRange_countResults (-i) 0 (by omega) (by omega)
    have hdigits := inRange_digitResults (-i) (decimalLength (-i) + 1) (by omega) (by omega)
    have hnegation : ∀ z ∈ [-i.toInt], InRange z := List.forall_mem_singleton.mpr hneg
    simp only [if_true]
    split_ifs
    · exact hnegation
    · simp only [List.forall_mem_append, List.forall_mem_singleton]
      exact ⟨⟨⟨⟨hneg, hcount⟩, inRange_of_small (by omega) (by omega)⟩, hdigits⟩,
        inRange_of_small (by omega) (by omega)⟩

/-- What `arg_size` does behind the sign. -/
theorem inRange_countFrom (tmp : CInt) (size : ℤ) (hpos : 0 ≤ size) (hsize : size ≤ 2) :
    ∀ z ∈ (if tmp = 0 then [size + 1] else []) ++
      countResults (if tmp = 0 then size + 1 else size) tmp ++
      [(if tmp = 0 then size + 1 else size) + decimalLength tmp + 1], InRange z := by
  have hlen := decimalLength_le tmp
  set first := if tmp = 0 then size + 1 else size with hfirst
  have hbounds : 0 ≤ first ∧ first ≤ 3 := by
    rw [hfirst]
    split_ifs <;> omega
  simp only [List.forall_mem_append, List.forall_mem_singleton]
  refine ⟨⟨?_, inRange_countResults tmp first hbounds.1 (by omega)⟩,
    inRange_of_small (by omega) (by omega)⟩
  split_ifs
  · exact List.forall_mem_singleton.mpr (inRange_of_small (by omega) (by omega))
  · exact fun z hz => absurd hz List.not_mem_nil

/-- **Nor anything in `arg_size`.** -/
theorem inRange_argSizeResults {i : CInt} (h : i ≠ BitVec.intMin 32) :
    ∀ z ∈ argSizeResults i, InRange z := by
  have hneg := (inRange_neg_iff i).mpr h
  have hone : InRange 1 := by decide
  have htwo : InRange 2 := by decide
  unfold argSizeResults
  cases hsign : i.slt 0 with
  | false =>
    have hrest := inRange_countFrom i 1 (by omega) (by omega)
    simp only [List.forall_mem_append] at hrest
    simp only [Bool.false_eq_true, if_false, List.forall_mem_append, List.append_nil,
      List.forall_mem_singleton]
    exact ⟨⟨⟨hone, hrest.1.1⟩, hrest.1.2⟩, List.forall_mem_singleton.mp hrest.2⟩
  | true =>
    have hrest := inRange_countFrom (-i) 2 (by omega) (by omega)
    simp only [List.forall_mem_append] at hrest
    simp only [if_true, List.forall_mem_append, List.forall_mem_singleton]
    refine ⟨⟨⟨⟨hone, ?_⟩, hrest.1.1⟩, hrest.1.2⟩, List.forall_mem_singleton.mp hrest.2⟩
    exact List.forall_mem_cons.mpr ⟨htwo, List.forall_mem_singleton.mpr hneg⟩

/-! ### The notation -/

/-- **But for `INT_MIN`, the characters are the canonical numeral.** -/
theorem canonical_integerChars {i : CInt} (h : i ≠ BitVec.intMin 32) :
    Canonical (integerChars i) i.toInt := by
  unfold integerChars
  split_ifs with hsign hzero
  · have hneg : (-i).toInt = -i.toInt := BitVec.toInt_neg_of_ne_intMin h
    have hlt : i.toInt < 0 := by simpa [BitVec.slt] using hsign
    have hcanonical := canonical_negative (i := -i) (by omega)
    rwa [hneg, neg_neg] at hcanonical
  · subst hzero
    exact canonical_zero
  · have hnonneg : 0 ≤ i.toInt := by simpa [BitVec.slt] using hsign
    have hne := toInt_ne_zero hzero
    exact canonical_positive (by omega)

/-- `serialize_integer` stores one byte and as many characters as it says, which are
the canonical numeral of the `int`, into untouched cells and returns how many bytes
these are; `arg_size` counts as many for the `int` beside its type byte; and none of
the operators of either leaves the range of `int`. -/
def WritesDecimal (i : CInt) : Prop :=
  (∃ (n : Byte) (l : List Byte), n.toNat = l.length ∧ Canonical l i.toInt ∧
    (∀ pre post : Block Byte,
      serializeInteger i (pre ++ (List.replicate (l.length + 1) [] ++ post)) pre.length =
        .ok (pre ++ ((n :: l).map ([·]) ++ post), l.length + 1)) ∧
    (argSize (some [.int i])).toInt = 1 + (l.length + 1)) ∧
  (∀ z ∈ serializeResults i, InRange z) ∧ ∀ z ∈ argSizeResults i, InRange z

/-- The negation of `INT_MIN` is one of the results. -/
theorem neg_mem_serializeResults :
    -(BitVec.intMin 32).toInt ∈ serializeResults (BitVec.intMin 32) := by
  have hsign : (BitVec.intMin 32).slt 0 = true := by decide
  have hne : -(BitVec.intMin 32) ≠ 0 := by decide
  unfold serializeResults
  simp only [hsign, if_true, if_neg hne, List.cons_append]
  exact List.mem_cons_self

/-- **Every `int` but `INT_MIN` is written in decimal.** -/
theorem writesDecimal_iff (i : CInt) : WritesDecimal i ↔ i ≠ BitVec.intMin 32 := by
  constructor
  · rintro ⟨-, hserialize, -⟩ rfl
    exact absurd (hserialize _ neg_mem_serializeResults) (by decide)
  · intro h
    have hdefined : (RpcArg.int i).Defined := rfl
    obtain ⟨hpos, hlen⟩ := length_integerChars i
    refine ⟨⟨BitVec.ofNat 8 (integerChars i).length, integerChars i, ?_,
      canonical_integerChars h, fun pre post => serializeInteger_middle i pre post, ?_⟩,
      inRange_serializeResults h, inRange_argSizeResults h⟩
    · rw [BitVec.toNat_ofNat]
      exact Nat.mod_eq_of_lt (by omega)
    · have hsize : (encodeArg (.int i)).length = (integerChars i).length + 2 := rfl
      rw [argSize_singleton hdefined, hsize, toInt_ofNat_of_lt (by omega)]
      push_cast
      ring

/-- `INT_MIN` is written with characters that are no digits, and its negation is no
`int`. -/
theorem not_writesDecimal_intMin :
    integerChars (BitVec.intMin 32) =
      charMinus :: [0x2e, 0x2f, 0x2c, 0x29, 0x2c, 0x28, 0x2d, 0x2a, 0x2c, 0x28] ∧
    (¬ ∃ z, Canonical (integerChars (BitVec.intMin 32)) z) ∧
    ¬ WritesDecimal (BitVec.intMin 32) := by
  have hchars : integerChars (BitVec.intMin 32) =
      charMinus :: [0x2e, 0x2f, 0x2c, 0x29, 0x2c, 0x28, 0x2d, 0x2a, 0x2c, 0x28] := by
    decide +kernel
  refine ⟨hchars, ?_, ?_⟩
  · rintro ⟨z, hnumeral, -⟩
    rw [hchars] at hnumeral
    cases hnumeral with
    | natural _ hdigits => exact absurd (hdigits charMinus List.mem_cons_self) (by decide)
    | negative _ hdigits => exact absurd (hdigits 0x2e List.mem_cons_self) (by decide)
  · rintro ⟨-, hserialize, -⟩
    exact absurd (hserialize _ neg_mem_serializeResults) (by decide)

end RemoteProcedure
