import RemoteProcedure.Machine.Numeral
import RemoteProcedure.Integer

/-!
# What `deserialize_integer` takes for an integer

The header promises -1 for an error, and `deserialize_answer` tests for it.  The
function has no way to say so: it reads any characters as digits, takes a length
byte that is not positive for no characters at all, and returns how far its
cursor moved.

## Main definitions

* `IntegerField` — the fields that hold the numeral of an `int`.
* `ReadsField` — such a field is read, and any other one refused.

## Main results

* `deserializeInteger_of_field` — **the value of an integer field is read**.
* `readsField_iff` — **no field is refused**.
-/

namespace RemoteProcedure

open Machine

/-- A length byte, and behind it as many characters, or more, of which these are
the numeral of an integer that an `int` holds. -/
structure IntegerField (len : Byte) (t : List Byte) (v : ℤ) : Prop where
  pos : 1 ≤ len.toInt
  /-- The characters are all there. -/
  whole : len.toInt ≤ t.length
  numeral : Numeral (t.take len.toInt.toNat) v
  inRange : InRange v

/-- An integer field is read, by its bytes alone: the value is stored and `n + 1`
is returned for a length byte `n`.  For any other field -1 is returned. -/
def ReadsField (len : Byte) (t : List Byte) : Prop :=
  (∀ v, IntegerField len t v → ∃ result cpt : CInt, result.toInt = v ∧
    cpt.toInt = len.toInt + 1 ∧ ∀ rest : Buffer Byte,
      deserializeInteger false ((len :: t.take len.toInt.toNat).map some ++ rest) 0 =
        .ok (result, cpt)) ∧
  ((¬ ∃ v, IntegerField len t v) → ∃ result : CInt,
    deserializeInteger false ((len :: t).map some) 0 = .ok (result, -1))

/-- The value read off the characters of a numeral. -/
theorem integerValue_of_numeral {len c : Byte} {t : List Byte} {v : ℤ}
    (hlen : len.toInt.toNat = t.length + 1) (h : Numeral (c :: t) v) :
    integerValue len c t = BitVec.ofInt 32 v := by
  unfold integerValue
  rw [hlen]
  generalize hl : c :: t = l at h
  cases h with
  | natural hne hdigits =>
    have hlong : l.length ≤ t.length + 1 := by rw [← hl, List.length_cons]
    have hsign : c ≠ charMinus := ne_charMinus_of_digits (hl ▸ hdigits)
    rw [if_neg hsign, List.take_of_length_le hlong, readDecimal_of_digits hdigits]
    exact (BitVec.ofInt_natCast _ _).symm
  | negative hne hdigits =>
    obtain ⟨rfl, rfl⟩ := List.cons.inj hl
    rw [if_pos rfl, Nat.add_sub_cancel, List.take_length, readDecimal_of_digits hdigits,
      BitVec.ofInt_neg, BitVec.ofInt_natCast]
    grind

/-- The cursor moves over all the characters of a field, and no others. -/
theorem integerWidth_of_pos {len : Byte} (h : 1 ≤ len.toInt) (c : Byte) :
    integerWidth len c = len.toInt.toNat := by
  unfold integerWidth
  split_ifs
  · exact max_eq_right (by omega)
  · rfl

/-- **The value of an integer field is read**, whatever is behind the field. -/
theorem deserializeInteger_of_field {len : Byte} {t : List Byte} {v : ℤ}
    (h : IntegerField len t v) (rest : Buffer Byte) :
    deserializeInteger false ((len :: t.take len.toInt.toNat).map some ++ rest) 0 =
      .ok (BitVec.ofInt 32 v, charToInt len + 1) := by
  obtain ⟨hpos, hwhole, hnumeral, -⟩ := h
  have hlength : (t.take len.toInt.toNat).length = len.toInt.toNat :=
    List.length_take_of_le (by omega)
  obtain ⟨c, t', ht⟩ : ∃ c t', t.take len.toInt.toNat = c :: t' := by
    apply List.exists_cons_of_ne_nil
    intro hnil
    rw [hnil, List.length_nil] at hlength
    omega
  rw [ht] at hlength hnumeral ⊢
  have hwidth := integerWidth_of_pos hpos c
  have hreturned : BitVec.ofNat 32 (1 + len.toInt.toNat) = charToInt len + 1 := by
    have hlt := toInt_byte_lt len
    apply BitVec.eq_of_toInt_eq
    rw [toInt_ofNat_of_lt (by omega), toInt_charToInt_add_one]
    omega
  have hcells : ((len :: c :: t').map some ++ rest).drop 0 =
      (len :: c :: t').map some ++ rest := rfl
  rw [deserializeInteger_eq_of_cells hcells (Buffer.auditLength_false _ _)
      (by rw [hwidth, ← hlength, List.length_cons]),
    integerValue_of_numeral hlength.symm hnumeral, hwidth, hreturned]

/-- What is returned is never -1. -/
theorem deserializeInteger_ne_minus {buf : Buffer Byte} {result : CInt} :
    deserializeInteger false buf 0 ≠ .ok (result, -1) := by
  intro h
  exact absurd (pos_of_deserializeInteger h) (by decide)

/-- **No field is refused**: what is asked holds exactly of the integer fields. -/
theorem readsField_iff (len : Byte) (t : List Byte) :
    ReadsField len t ↔ ∃ v, IntegerField len t v := by
  constructor
  · rintro ⟨-, hrefuse⟩
    by_contra hnone
    obtain ⟨result, hresult⟩ := hrefuse hnone
    exact deserializeInteger_ne_minus hresult
  · intro hfield
    refine ⟨?_, fun hnone => absurd hfield hnone⟩
    intro v hv
    exact ⟨BitVec.ofInt 32 v, charToInt len + 1, toInt_ofInt_of_inRange hv.inRange,
      toInt_charToInt_add_one len, deserializeInteger_of_field hv⟩

/-- The character `x` is no numeral. -/
theorem not_integerField_x (v : ℤ) : ¬ IntegerField 1 [0x78] v := by
  rintro ⟨-, -, hnumeral, -⟩
  generalize hl : List.take (BitVec.toInt (1 : Byte)).toNat [(0x78 : Byte)] = l at hnumeral
  have hx : l = [0x78] := hl.symm
  subst hx
  cases hnumeral with
  | natural _ hdigits => exact absurd (hdigits 0x78 List.mem_cons_self) (by decide)

/-- Length 1 and the character `x`: the value 72 is read, and 2 returned. -/
theorem not_readsField_x :
    deserializeInteger false ([1, 0x78].map some) 0 = .ok (72, 2) ∧ ¬ ReadsField 1 [0x78] := by
  refine ⟨by decide, ?_⟩
  rintro ⟨-, hrefuse⟩
  obtain ⟨result, hresult⟩ := hrefuse fun ⟨v, hv⟩ => not_integerField_x v hv
  exact deserializeInteger_ne_minus hresult

end RemoteProcedure
