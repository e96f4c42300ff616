import RemoteProcedure.Machine.Decimal
import RemoteProcedure.Data

/-!
# Integers on the wire

`serialize_integer` and `deserialize_integer`: an `int` travels as one length
byte and that many characters.  The writer stores the digits backwards, from the
index of the last one; the reader looks for the sign before it looks at the
length.

## Main definitions

* `serializeInteger`, `deserializeInteger` — the functions of the source.
* `encodeInteger` — the bytes an `int` is sent as.

## Main results

* `serializeInteger_middle` — the writer leaves exactly `encodeInteger`.
* `deserializeInteger_of_drop` — the reader inverts it, on every `int`.
* `pos_of_deserializeInteger` — what the reader returns is never negative.
-/

namespace RemoteProcedure

open Machine

/-- The characters of an `int`: a sign if it is negative, then digits. -/
def integerChars (i : CInt) : List Byte :=
  if i.slt 0 then charMinus :: decimalDigits (-i)
  else if i = 0 then [charZero]
  else decimalDigits i

/-- The bytes an `int` is sent as: how many characters, then the characters. -/
def encodeInteger (i : CInt) : List Byte :=
  BitVec.ofNat 8 (integerChars i).length :: integerChars i

/-! ### Writing -/

/-- The loop storing the digits of `tmp` backwards, the last one at index
`size` of `buf + off`. -/
def storeDigits (buf : Block Byte) (off size : ℕ) (tmp : CInt) : Checked (Block Byte) :=
  if tmp = 0 then .ok buf
  else do
    let buf ← buf.storeOne (off + size) (lastDigit tmp)
    storeDigits buf off (size - 1) (tmp.sdiv 10)
termination_by tmp.toInt.natAbs
decreasing_by exact natAbs_toInt_sdiv_ten_lt ‹_›

/-- `serialize_integer` into `buf + off`; also the number of bytes written. -/
def serializeInteger (i : CInt) (buf : Block Byte) (off : ℕ) : Checked (Block Byte × ℕ) :=
  let neg := i.slt 0
  let i := if neg then -i else i
  if i = 0 then do
    let buf ← buf.storeOne off 1
    let buf ← buf.storeOne (off + 1) charZero
    return (buf, 2)
  else do
    let buf ← if neg then buf.storeOne (off + 1) charMinus else .ok buf
    let isize := if neg then decimalLength i + 1 else decimalLength i
    let buf ← storeDigits buf off isize i
    let buf ← buf.storeOne off (intToChar (BitVec.ofNat 32 isize))
    return (buf, isize + 1)

theorem storeDigits_middle (i : CInt) : ∀ (pre post : Block Byte) (off size : ℕ),
    off < pre.length → off + size + 1 = pre.length + decimalLength i →
      storeDigits (pre ++ (List.replicate (decimalLength i) [] ++ post)) off size i =
        .ok (pre ++ ((decimalDigits i).map ([·]) ++ post)) := by
  induction i using divisionInduction with
  | zero =>
    intro pre post off size _ _
    rw [storeDigits, if_pos (by decide)]
    simp
  | step i h ih =>
    intro pre post off size hoff hsize
    rw [decimalLength_of_ne_zero h] at hsize ⊢
    -- the last untouched cell takes the last digit
    have hcells : pre ++ (List.replicate (decimalLength (i.sdiv 10) + 1) [] ++ post) =
        (pre ++ List.replicate (decimalLength (i.sdiv 10)) []) ++ [] :: post := by
      simp [List.replicate_succ']
    have hstore := Block.storeOne_middle (pre ++ List.replicate (decimalLength (i.sdiv 10)) []) post
      (lastDigit i)
    rw [List.length_append, List.length_replicate,
      show pre.length + decimalLength (i.sdiv 10) = off + size by omega] at hstore
    rw [storeDigits, if_neg h, hcells, hstore, Checked.ok_bind, List.append_assoc,
      ih pre ([lastDigit i] :: post) off (size - 1) hoff (by omega),
      decimalDigits_of_ne_zero h]
    simp

/-- An `int` has at most eleven characters, and at least one. -/
theorem length_integerChars (i : CInt) :
    1 ≤ (integerChars i).length ∧ (integerChars i).length ≤ 11 := by
  unfold integerChars
  split_ifs with hneg hzero
  · have := decimalLength_le (-i)
    simp only [List.length_cons, length_decimalDigits]
    omega
  · simp
  · have := decimalLength_le i
    have := decimalLength_pos hzero
    simp only [length_decimalDigits]
    omega

theorem length_encodeInteger (i : CInt) :
    (encodeInteger i).length = (integerChars i).length + 1 := rfl

theorem intToChar_ofNat (n : ℕ) : intToChar (BitVec.ofNat 32 n) = BitVec.ofNat 8 n := by
  apply BitVec.eq_of_toNat_eq
  rw [toNat_intToChar_ofNat, BitVec.toNat_ofNat]

/-- Negating a negative `int` does not give zero, at `INT_MIN` either. -/
theorem neg_ne_zero_of_slt {i : CInt} (h : i.slt 0 = true) : -i ≠ 0 := by
  intro h0
  have : i = 0 := by simpa using h0
  subst this
  simp at h

/-- **`serialize_integer` leaves exactly `encodeInteger`** in untouched cells
anywhere in an object, each byte stored once, and returns their number. -/
theorem serializeInteger_middle (i : CInt) (pre post : Block Byte) :
    serializeInteger i (pre ++ (List.replicate (encodeInteger i).length [] ++ post)) pre.length =
      .ok (pre ++ ((encodeInteger i).map ([·]) ++ post), (encodeInteger i).length) := by
  have hcells : pre ++ (List.replicate (encodeInteger i).length [] ++ post) =
      pre ++ [] :: (List.replicate (integerChars i).length [] ++ post) := by
    rw [length_encodeInteger, List.replicate_succ, List.cons_append]
  have hresult : pre ++ ((encodeInteger i).map ([·]) ++ post) =
      pre ++ [BitVec.ofNat 8 (integerChars i).length] :: ((integerChars i).map ([·]) ++ post) := by
    simp [encodeInteger]
  rw [hcells, hresult, length_encodeInteger, serializeInteger]
  -- the length byte is stored last, into a cell every other store leaves alone
  have hlast : ∀ rest : Block Byte,
      Block.storeOne (pre ++ [] :: rest) pre.length
        (intToChar (BitVec.ofNat 32 (integerChars i).length)) =
        .ok (pre ++ [BitVec.ofNat 8 (integerChars i).length] :: rest) := by
    intro rest
    rw [intToChar_ofNat]
    exact Block.storeOne_middle pre rest _
  by_cases hneg : i.slt 0 = true
  · have hne := neg_ne_zero_of_slt hneg
    have hchars : integerChars i = charMinus :: decimalDigits (-i) := by
      rw [integerChars, if_pos hneg]
    have hminus := Block.storeOne_middle (pre ++ [[]])
      (List.replicate (decimalLength (-i)) [] ++ post) charMinus
    have hdigits := storeDigits_middle (-i) (pre ++ [[], [charMinus]]) post pre.length
      (decimalLength (-i) + 1) (by simp) (by simp; omega)
    have hlast' := hlast ([charMinus] :: ((decimalDigits (-i)).map ([·]) ++ post))
    rw [hchars] at hlast' ⊢
    simp only [List.length_append, List.length_cons, List.length_nil, zero_add, List.append_assoc,
      List.cons_append, List.nil_append, length_decimalDigits, List.map_cons]
      at hminus hdigits hlast' ⊢
    simp only [hneg, if_true, if_neg hne, List.replicate_succ, List.cons_append, hminus, hdigits,
      hlast', Checked.ok_bind, Checked.pure_eq]
  · by_cases hzero : i = 0
    · have hchars : integerChars i = [charZero] := by
        rw [integerChars, if_neg hneg, if_pos hzero]
      have hlast' := hlast ([] :: post)
      have hdigit := Block.storeOne_middle (pre ++ [[BitVec.ofNat 8 1]]) post charZero
      rw [hchars] at hlast' ⊢
      simp only [List.length_append, List.length_cons, List.length_nil, zero_add, List.append_assoc,
        List.cons_append, List.nil_append, List.map_cons, List.map_nil, List.replicate_one]
        at hlast' hdigit ⊢
      have hone : intToChar (BitVec.ofNat 32 1) = 1 := by decide
      rw [hone] at hlast'
      simp only [hneg, if_pos hzero, Bool.false_eq_true, if_false, hlast', hdigit, Checked.ok_bind,
        Checked.pure_eq]
    · have hchars : integerChars i = decimalDigits i := by
        rw [integerChars, if_neg hneg, if_neg hzero]
      have hdigits := storeDigits_middle i (pre ++ [[]]) post pre.length (decimalLength i)
        (by simp) (by simp; omega)
      have hlast' := hlast ((decimalDigits i).map ([·]) ++ post)
      rw [hchars] at hlast' ⊢
      simp only [List.append_assoc, List.cons_append, List.nil_append, length_decimalDigits]
        at hdigits hlast' ⊢
      simp only [hneg, Bool.false_eq_true, if_false, if_neg hzero, hdigits, hlast', Checked.ok_bind,
        Checked.pure_eq]

theorem serializeInteger_filled_of_le (i : CInt) {l : List Byte} {off n : ℕ}
    (hoff : l.length = off) (hn : (encodeInteger i).length ≤ n) :
    serializeInteger i (Block.filled l n) off =
      .ok (Block.filled (l ++ encodeInteger i) (n - (encodeInteger i).length),
        (encodeInteger i).length) := by
  subst hoff
  obtain ⟨k, rfl⟩ := Nat.exists_eq_add_of_le hn
  have hmiddle := serializeInteger_middle i (l.map ([·])) (List.replicate k [])
  rw [List.length_map] at hmiddle
  rw [Nat.add_sub_cancel_left, Block.filled, ← List.replicate_append_replicate, hmiddle,
    Block.filled, List.map_append, List.append_assoc]

theorem length_storeDigits (i : CInt) : ∀ {buf buf' : Block Byte} {off size : ℕ},
    storeDigits buf off size i = .ok buf' →
      buf'.length = buf.length ∧ (i ≠ 0 → off + size < buf.length) := by
  induction i using divisionInduction with
  | zero =>
    intro buf buf' off size h
    rw [storeDigits, if_pos (by decide)] at h
    obtain rfl := Except.ok.inj h
    exact ⟨rfl, fun h0 => absurd rfl h0⟩
  | step i hne ih =>
    intro buf buf' off size h
    rw [storeDigits, if_neg hne, Checked.bind_eq_ok] at h
    obtain ⟨buf₁, h₁, hrest⟩ := h
    obtain ⟨hlen₁, hlt⟩ := Block.length_storeOne h₁
    obtain ⟨hlen, -⟩ := ih hrest
    exact ⟨hlen.trans hlen₁, fun _ => hlt⟩

/-- A `serialize_integer` that left the object alone beyond its end found room
for the whole encoding. -/
theorem length_serializeInteger {i : CInt} {buf buf' : Block Byte} {off n : ℕ}
    (h : serializeInteger i buf off = .ok (buf', n)) :
    buf'.length = buf.length ∧ off + (encodeInteger i).length ≤ buf.length ∧
      n = (encodeInteger i).length := by
  rw [length_encodeInteger]
  unfold serializeInteger at h
  unfold integerChars
  by_cases hneg : i.slt 0 = true
  · have hne := neg_ne_zero_of_slt hneg
    simp only [hneg, if_true, if_neg hne, Checked.bind_eq_ok, Checked.pure_eq] at h
    obtain ⟨buf₁, h₁, buf₂, h₂, buf₃, h₃, hres⟩ := h
    obtain ⟨rfl, rfl⟩ := Prod.mk.inj (Except.ok.inj hres)
    obtain ⟨hlen₁, -⟩ := Block.length_storeOne h₁
    obtain ⟨hlen₂, hfit₂⟩ := length_storeDigits _ h₂
    obtain ⟨hlen₃, -⟩ := Block.length_storeOne h₃
    have := hfit₂ hne
    simp only [hneg, if_true, List.length_cons, length_decimalDigits, and_true]
    omega
  · by_cases hzero : i = 0
    · simp only [hneg, Bool.false_eq_true, if_false, if_pos hzero, Checked.bind_eq_ok,
        Checked.pure_eq] at h
      obtain ⟨buf₁, h₁, buf₂, h₂, hres⟩ := h
      obtain ⟨rfl, rfl⟩ := Prod.mk.inj (Except.ok.inj hres)
      obtain ⟨hlen₁, -⟩ := Block.length_storeOne h₁
      obtain ⟨hlen₂, hlt₂⟩ := Block.length_storeOne h₂
      simp only [hneg, Bool.false_eq_true, if_false, if_pos hzero, List.length_singleton,
        and_true]
      omega
    · simp only [hneg, Bool.false_eq_true, if_false, if_neg hzero, Checked.ok_bind,
        Checked.bind_eq_ok, Checked.pure_eq] at h
      obtain ⟨buf₂, h₂, buf₃, h₃, hres⟩ := h
      obtain ⟨rfl, rfl⟩ := Prod.mk.inj (Except.ok.inj hres)
      obtain ⟨hlen₂, hfit₂⟩ := length_storeDigits _ h₂
      obtain ⟨hlen₃, -⟩ := Block.length_storeOne h₃
      have := hfit₂ hzero
      simp only [hneg, Bool.false_eq_true, if_false, if_neg hzero, length_decimalDigits, and_true]
      omega

/-! ### Reading -/

/-- The loop reading `n` more characters, from `buf + off` on: the value, and where
the cursor is then. -/
def readDigits (buf : Buffer Byte) : (off n : ℕ) → (cpt res : CInt) → Checked (CInt × CInt)
  | _, 0, cpt, res => .ok (res, cpt)
  | off, n + 1, cpt, res => do
    let c ← buf.read off
    readDigits buf (off + 1) n (cpt + 1) (readDigit res c)

/-- `deserialize_integer` from `buf + off`: the value, and what it returns, which is
how far the cursor moved.  The sign is looked for before the length is looked at, so
that at least two bytes are read whatever the length byte says. -/
def deserializeInteger (audit : Bool) (buf : Buffer Byte) (off : ℕ) : Checked (CInt × CInt) := do
  let len ← buf.read off
  Buffer.auditLength audit len.toInt (buf.length - (off + 1))
  let size := charToInt len + 1
  let c ← buf.read (off + 1)
  let neg := c = charMinus
  let cpt : CInt := if neg then 2 else 1
  let (res, cpt) ← readDigits buf (off + cpt.toInt.toNat) (size.toInt - cpt.toInt).toNat cpt 0
  return (if neg then res * (-1) else res, cpt)

/-- How many bytes after its length byte `deserialize_integer` moves over, by the
length byte and the first character: a sign is always moved over. -/
def integerWidth (len c : Byte) : ℕ :=
  if c = charMinus then max 1 len.toInt.toNat else len.toInt.toNat

theorem integerWidth_le (len c : Byte) : integerWidth len c ≤ 127 := by
  have := toInt_byte_lt len
  unfold integerWidth
  split_ifs <;> omega

/-- What it returns is no more than a `char` counts. -/
theorem toNat_returned (len c : Byte) :
    (BitVec.ofNat 32 (1 + integerWidth len c)).toInt.toNat = 1 + integerWidth len c := by
  have := integerWidth_le len c
  rw [toInt_ofNat_of_lt (by omega), Int.toNat_natCast]

/-- The cursor is counted on in each round. -/
theorem readDigits_of_drop (l : List Byte) : ∀ {buf rest : Buffer Byte} {off : ℕ} (cpt res : CInt),
    buf.drop off = l.map some ++ rest →
      readDigits buf off l.length cpt res =
        .ok (readDecimal res l, cpt + BitVec.ofNat 32 l.length) := by
  induction l with
  | nil => exact fun cpt res _ => congrArg (fun c => Except.ok (res, c)) (BitVec.add_zero cpt).symm
  | cons c l ih =>
    intro buf rest off cpt res h
    have hread : buf.read off = .ok c := Buffer.read_of_drop h
    have hnext := ih (cpt + 1) (readDigit res c) (Buffer.drop_succ h)
    simp only [List.length_cons, readDigits, hread, Checked.ok_bind, hnext]
    rw [Nat.add_comm l.length, BitVec.ofNat_add, BitVec.add_assoc]
    rfl

theorem readDigits_cursor {buf : Buffer Byte} {n : ℕ} : ∀ {off : ℕ} {cpt res : CInt}
    {r : CInt × CInt}, readDigits buf off n cpt res = .ok r → r.2 = cpt + BitVec.ofNat 32 n := by
  induction n with
  | zero =>
    rintro off cpt res r ⟨⟩
    exact (BitVec.add_zero cpt).symm
  | succ n ih =>
    intro off cpt res r h
    rw [readDigits, Checked.bind_eq_ok] at h
    obtain ⟨c, -, h⟩ := h
    rw [ih h, Nat.add_comm, BitVec.ofNat_add, BitVec.add_assoc]
    rfl

/-- The loop does not get past the end of what can be read. -/
theorem readDigits_of_end (l : List Byte) : ∀ {n : ℕ} {buf rest : Buffer Byte} {off : ℕ}
    {e : Fault} (cpt res : CInt), l.length < n → buf.drop off = l.map some ++ rest →
      Buffer.endFault rest = some e → readDigits buf off n cpt res = .error e := by
  induction l with
  | nil =>
    intro n buf rest off e cpt res hn h hend
    obtain ⟨n, rfl⟩ : ∃ n', n = n' + 1 := ⟨n - 1, by rw [List.length_nil] at hn; omega⟩
    rw [readDigits, Buffer.read_of_end h hend]
    rfl
  | cons c l ih =>
    intro n buf rest off e cpt res hn h hend
    obtain ⟨n, rfl⟩ : ∃ n', n = n' + 1 := ⟨n - 1, by rw [List.length_cons] at hn; omega⟩
    rw [readDigits, Buffer.read_of_drop h, Checked.ok_bind]
    exact ih _ _ (by rw [List.length_cons] at hn; omega) (Buffer.drop_succ h) hend

/-- The size `deserialize_integer` computes does not wrap. -/
theorem toInt_charToInt_add_one (len : Byte) : (charToInt len + 1).toInt = len.toInt + 1 := by
  have hhi := toInt_byte_lt len
  have hchar := toInt_charToInt len
  rw [toInt_add_one (by omega), hchar]

/-- The value `deserialize_integer` makes of what is behind the length byte: it reads
any characters as if they were digits. -/
def integerValue (len c : Byte) (t : List Byte) : CInt :=
  if c = charMinus then readDecimal 0 (t.take (len.toInt.toNat - 1)) * (-1)
  else readDecimal 0 ((c :: t).take len.toInt.toNat)

/-- **`deserialize_integer` on bytes of a peer's choice** moves over its length
byte and `integerWidth` bytes, when they can be read, and makes `integerValue` of
them. -/
theorem deserializeInteger_eq_of_cells {audit : Bool} {buf rest : Buffer Byte} {off : ℕ}
    {len c : Byte} {t : List Byte} (h : buf.drop off = (len :: c :: t).map some ++ rest)
    (haudit : Buffer.auditLength audit len.toInt (buf.length - (off + 1)) = .ok ())
    (hroom : integerWidth len c ≤ t.length + 1) :
    deserializeInteger audit buf off =
      .ok (integerValue len c t, BitVec.ofNat 32 (1 + integerWidth len c)) := by
  have hsize := toInt_charToInt_add_one len
  have hlen : buf.read off = .ok len := Buffer.read_of_drop h
  have hchar : buf.drop (off + 1) = (c :: t).map some ++ rest := Buffer.drop_succ h
  have hsign : buf.read (off + 1) = .ok c := Buffer.read_of_drop hchar
  rw [deserializeInteger, hlen, Checked.ok_bind, haudit, Checked.ok_bind]
  simp only [hsize, hsign, Checked.ok_bind]
  unfold integerWidth at hroom ⊢
  unfold integerValue
  by_cases hminus : c = charMinus
  · rw [if_pos hminus] at hroom ⊢
    -- after the sign, one character fewer than announced
    have hcount : (len.toInt + 1 - (2 : CInt).toInt).toNat = len.toInt.toNat - 1 := by
      show (len.toInt + 1 - 2).toNat = len.toInt.toNat - 1
      omega
    have hmoved : 1 + max 1 len.toInt.toNat = 2 + (len.toInt.toNat - 1) := by omega
    set n := len.toInt.toNat - 1
    have hsplit : buf.drop (off + 2) = (t.take n).map some ++ ((t.drop n).map some ++ rest) := by
      rw [← List.append_assoc, ← List.map_append, List.take_append_drop]
      exact Buffer.drop_succ hchar
    have hdigits := readDigits_of_drop (t.take n) 2 0 hsplit
    rw [List.length_take_of_le (by omega)] at hdigits
    have hcpt : off + (2 : CInt).toInt.toNat = off + 2 := rfl
    simp only [hminus, if_true, hcount, hcpt, hdigits, Checked.ok_bind, Checked.pure_eq, hmoved,
      BitVec.ofNat_add]
    rfl
  · rw [if_neg hminus] at hroom ⊢
    have hcount : (len.toInt + 1 - (1 : CInt).toInt).toNat = len.toInt.toNat := by
      show (len.toInt + 1 - 1).toNat = len.toInt.toNat
      omega
    set n := len.toInt.toNat
    have hsplit : buf.drop (off + 1) =
        ((c :: t).take n).map some ++ (((c :: t).drop n).map some ++ rest) := by
      rw [← List.append_assoc, ← List.map_append, List.take_append_drop]
      exact hchar
    have hdigits := readDigits_of_drop ((c :: t).take n) 1 0 hsplit
    rw [List.length_take_of_le (by simp only [List.length_cons]; omega)] at hdigits
    have hcpt : off + (1 : CInt).toInt.toNat = off + 1 := rfl
    simp only [hminus, if_false, hcount, hcpt, hdigits, Checked.ok_bind, Checked.pure_eq,
      BitVec.ofNat_add]
    rfl

/-- It ends without a fault, whatever the value. -/
theorem deserializeInteger_of_cells {audit : Bool} {buf rest : Buffer Byte} {off : ℕ}
    {len c : Byte} {t : List Byte} (h : buf.drop off = (len :: c :: t).map some ++ rest)
    (haudit : Buffer.auditLength audit len.toInt (buf.length - (off + 1)) = .ok ())
    (hroom : integerWidth len c ≤ t.length + 1) :
    ∃ v, deserializeInteger audit buf off =
      .ok (v, BitVec.ofNat 32 (1 + integerWidth len c)) :=
  ⟨_, deserializeInteger_eq_of_cells h haudit hroom⟩

/-- Is an integer as long as its length byte says, as far as `deserialize_integer`
moves over it. -/
def integerWhole : List Byte → Bool
  | len :: c :: t => decide (integerWidth len c ≤ t.length + 1)
  | _ => false

/-- Bytes that are a whole integer have its length byte and first character. -/
theorem cells_of_integerWhole {l : List Byte} (h : integerWhole l = true) :
    ∃ len c t, l = len :: c :: t ∧ integerWidth len c ≤ t.length + 1 := by
  rcases l with _ | ⟨len, _ | ⟨c, t⟩⟩
  · cases h
  · cases h
  · exact ⟨len, c, t, rfl, of_decide_eq_true h⟩

/-- **It does not get past the end of what can be read** on any other bytes. -/
theorem deserializeInteger_of_end {l : List Byte} (hl : integerWhole l = false)
    {buf rest : Buffer Byte} {off : ℕ} {e : Fault} (h : buf.drop off = l.map some ++ rest)
    (hend : Buffer.endFault rest = some e) : deserializeInteger false buf off = .error e := by
  rcases l with _ | ⟨len, _ | ⟨c, t⟩⟩
  · rw [deserializeInteger, Buffer.read_of_end h hend]
    rfl
  · rw [deserializeInteger, Buffer.read_of_drop h, Checked.ok_bind, Buffer.auditLength_false,
      Checked.ok_bind, Buffer.read_of_end (Buffer.drop_succ h) hend]
    rfl
  · have hshort : t.length + 1 < integerWidth len c := by
      simpa [integerWhole] using hl
    have hchar : buf.drop (off + 1) = (c :: t).map some ++ rest := Buffer.drop_succ h
    have hsize := toInt_charToInt_add_one len
    rw [deserializeInteger, Buffer.read_of_drop h, Checked.ok_bind, Buffer.auditLength_false,
      Checked.ok_bind]
    simp only [hsize, Buffer.read_of_drop hchar, Checked.ok_bind]
    unfold integerWidth at hshort
    by_cases hminus : c = charMinus
    · rw [if_pos hminus] at hshort
      simp only [hminus, if_true]
      have hcount : t.length < (len.toInt + 1 - (2 : CInt).toInt).toNat := by
        show t.length < (len.toInt + 1 - 2).toNat
        omega
      have hdrop : buf.drop (off + (2 : CInt).toInt.toNat) = t.map some ++ rest :=
        Buffer.drop_succ hchar
      rw [readDigits_of_end t 2 0 hcount hdrop hend]
      rfl
    · rw [if_neg hminus] at hshort
      simp only [hminus, if_false]
      have hcount : (c :: t).length < (len.toInt + 1 - (1 : CInt).toInt).toNat := by
        show (c :: t).length < (len.toInt + 1 - 1).toNat
        rw [List.length_cons]
        omega
      have hdrop : buf.drop (off + (1 : CInt).toInt.toNat) = (c :: t).map some ++ rest := hchar
      rw [readDigits_of_end (c :: t) 1 0 hcount hdrop hend]
      rfl

/-- **What it returns is positive**, whatever it read. -/
theorem pos_of_deserializeInteger {audit : Bool} {buf : Buffer Byte} {off : ℕ}
    {result cpt : CInt} (h : deserializeInteger audit buf off = .ok (result, cpt)) :
    1 ≤ cpt.toInt := by
  rw [deserializeInteger, Checked.bind_eq_ok] at h
  obtain ⟨len, -, h⟩ := h
  rw [Checked.bind_eq_ok] at h
  obtain ⟨-, -, h⟩ := h
  simp only [Checked.bind_eq_ok] at h
  obtain ⟨c, -, r, hr, h⟩ := h
  have hlen := toInt_byte_lt len
  have hcursor := readDigits_cursor hr
  obtain rfl : r.2 = cpt := congrArg Prod.snd (Except.ok.inj h)
  rw [toInt_charToInt_add_one] at hcursor
  rw [hcursor]
  by_cases hminus : c = charMinus
  · rw [if_pos hminus]
    show 1 ≤ (BitVec.ofNat 32 2 + BitVec.ofNat 32 (len.toInt + 1 - 2).toNat).toInt
    rw [← BitVec.ofNat_add, toInt_ofNat_of_lt (by omega)]
    omega
  · rw [if_neg hminus]
    show 1 ≤ (BitVec.ofNat 32 1 + BitVec.ofNat 32 (len.toInt + 1 - 1).toNat).toInt
    rw [← BitVec.ofNat_add, toInt_ofNat_of_lt (by omega)]
    omega

/-- The characters of a non-negative `int` have no sign and read back to it. -/
theorem integerChars_of_not_slt {i : CInt} (h : ¬ i.slt 0 = true) :
    charMinus ∉ integerChars i ∧ readDecimal 0 (integerChars i) = i := by
  have hnonneg : 0 ≤ i.toInt := by
    simpa [BitVec.slt] using h
  rw [integerChars, if_neg h]
  split_ifs with hzero
  · subst hzero
    exact ⟨by decide, by decide⟩
  · exact ⟨charMinus_notMem_decimalDigits hnonneg, readDecimal_decimalDigits i⟩

/-- **`deserialize_integer` inverts the encoding of every `int`**, and reads no
byte after it. -/
theorem deserializeInteger_of_drop (audit : Bool) (i : CInt) {buf rest : Buffer Byte} {off : ℕ}
    (h : buf.drop off = (encodeInteger i).map some ++ rest) :
    deserializeInteger audit buf off = .ok (i, BitVec.ofNat 32 (encodeInteger i).length) := by
  obtain ⟨hpos, hlen⟩ := length_integerChars i
  have hsize := toInt_charToInt_add_one (BitVec.ofNat 8 (integerChars i).length)
  rw [toInt_ofNat_byte (by omega)] at hsize
  have hread : buf.read off = .ok (BitVec.ofNat 8 (integerChars i).length) :=
    Buffer.read_of_drop h
  have htail : buf.drop (off + 1) = (integerChars i).map some ++ rest := Buffer.drop_succ h
  have haudit : Buffer.auditLength audit (BitVec.ofNat 8 (integerChars i).length).toInt
      (buf.length - (off + 1)) = .ok () := by
    have hroom := congrArg List.length htail
    simp only [List.length_drop, List.length_append, List.length_map] at hroom
    rw [toInt_ofNat_byte (by omega)]
    exact Buffer.auditLength_of_le audit (by omega) (by omega)
  rw [deserializeInteger, hread, Checked.ok_bind, haudit, Checked.ok_bind]
  simp only [hsize]
  by_cases hneg : i.slt 0 = true
  · -- the sign is skipped, and the digits of `-i` accumulate to `-i`
    have hchars : integerChars i = charMinus :: decimalDigits (-i) := by
      rw [integerChars, if_pos hneg]
    rw [hchars] at htail
    have hsign : buf.read (off + 1) = .ok charMinus := Buffer.read_of_drop htail
    have hdigits := readDigits_of_drop (decimalDigits (-i)) 2 0 (Buffer.drop_succ htail)
    have hcount : (((integerChars i).length : ℤ) + 1 - (2 : CInt).toInt).toNat =
        (decimalDigits (-i)).length := by
      show (((integerChars i).length : ℤ) + 1 - 2).toNat = (decimalDigits (-i)).length
      rw [hchars, List.length_cons]
      omega
    have hcpt : off + (2 : CInt).toInt.toNat = off + 2 := rfl
    rw [readDecimal_decimalDigits] at hdigits
    simp only [hsign, Checked.ok_bind, if_true, hcount, hcpt, hdigits, Checked.pure_eq]
    rw [length_encodeInteger, hchars, List.length_cons, Nat.add_assoc, Nat.add_comm,
      BitVec.ofNat_add]
    refine congrArg Except.ok (Prod.ext ?_ rfl)
    show -i * (-1) = i
    grind
  · -- the first character is not a sign, and all of them accumulate to `i`
    obtain ⟨hnotin, hvalue⟩ := integerChars_of_not_slt hneg
    obtain ⟨c, l, hchars⟩ := List.exists_cons_of_length_pos (by omega : 0 < (integerChars i).length)
    have hne : c ≠ charMinus := by
      intro hc
      apply hnotin
      rw [hchars, hc]
      exact List.mem_cons_self
    have hfirst : buf.read (off + 1) = .ok c := by
      rw [hchars] at htail
      exact Buffer.read_of_drop htail
    have hdigits := readDigits_of_drop (integerChars i) 1 0 htail
    have hcount : (((integerChars i).length : ℤ) + 1 - (1 : CInt).toInt).toNat =
        (integerChars i).length := by
      show (((integerChars i).length : ℤ) + 1 - 1).toNat = (integerChars i).length
      omega
    have hcpt : off + (1 : CInt).toInt.toNat = off + 1 := rfl
    rw [hvalue] at hdigits
    simp only [hfirst, Checked.ok_bind, if_neg hne, hcount, hcpt, hdigits, Checked.pure_eq]
    rw [length_encodeInteger, Nat.add_comm, BitVec.ofNat_add]
    rfl

end RemoteProcedure
