import RemoteProcedure.RequestScan

/-!
# Where the decoder stays inside the frame

`deserialize_message` takes the size of the frame and looks at it only at the
end.  Here the walk runs in its audited form on a buffer that ends with the
frame: a read beyond the last byte is a fault, and so is a length field that is
negative or exceeds the bytes left.

## Main definitions

* `StaysInFrame` — no outcome of the allocations lets the audited walk fault.
* `requestInFrame` — a check of the bytes alone.

## Main results

* `staysInFrame_iff` — **the walk stays inside exactly the frames that pass the
  check**.
-/

namespace RemoteProcedure

open Machine

/-- Do `n` arguments lie inside the bytes, with lengths that do too.  At an
undefined type the walk stops, so nothing behind it matters. -/
def argsInFrame : ℕ → List Byte → Bool
  | 0, _ => true
  | n + 1, t =>
    match scanArg t with
    | .short | .negative => false
    | .undefined => true
    | .field skip len width =>
      decide (0 ≤ len ∧ len ≤ (t.drop skip).length) && argsInFrame n (t.drop (skip + width))

/-- Do the fields of a request behind its command lie inside the bytes. -/
def tailInFrame : List Byte → Bool
  | _ :: b₀ :: b₁ :: b₂ :: b₃ :: t =>
    let argc := (intOfBytes b₀ b₁ b₂ b₃).toInt
    decide (0 ≤ argc ∧ argc ≤ t.length) && argsInFrame argc.toNat t
  | _ => false

/-- Do all the fields of a request lie inside the bytes. -/
def requestInFrame : List Byte → Bool
  | b₀ :: b₁ :: b₂ :: b₃ :: t =>
    let commandLength := (intOfBytes b₀ b₁ b₂ b₃).toInt
    decide (0 ≤ commandLength ∧ commandLength ≤ t.length) &&
      tailInFrame (t.drop commandLength.toNat)
  | _ => false

/-- Whatever the allocations do, the audited walk over these bytes ends without
a fault. -/
def StaysInFrame (raw : RawMessage) (size : CInt) (bytes : List Byte) : Prop :=
  ∀ alloc : MsgBlock → Bool,
    ∃ res, deserializeMessage true alloc (some raw) size (some (bytes.map some)) = .ok res

/-! ### The argument loop -/

theorem length_of_drop_map {buf : Buffer Byte} {t : List Byte} {off : ℕ}
    (h : buf.drop off = t.map some) (k : ℕ) : buf.length - (off + k) = (t.drop k).length := by
  have := congrArg List.length h
  rw [List.length_drop, List.length_map] at this
  rw [List.length_drop]
  omega

theorem drop_map {buf : Buffer Byte} {t : List Byte} {off : ℕ} (h : buf.drop off = t.map some)
    (k : ℕ) : buf.drop (off + k) = (t.drop k).map some := by
  rw [← List.drop_drop, h, List.map_drop]

/-- A field whose length lies inside the bytes lies inside them. -/
theorem width_le_of_len {t : List Byte} {skip width : ℕ} {len : ℤ}
    (hscan : scanArg t = .field skip len width) (h : 0 ≤ len ∧ len ≤ (t.drop skip).length) :
    skip + width ≤ t.length := by
  obtain ⟨hlo, hhi⟩ := h
  rcases scanArg_eq_field hscan with ⟨t', rfl, rfl, rfl, rfl⟩ | ⟨b, c, t', rfl, rfl, rfl, rfl⟩ |
    ⟨b, t', rfl, rfl, rfl, -, rfl⟩
  · simp
  · simp only [List.drop_succ_cons, List.drop_zero, List.length_cons] at hhi ⊢
    unfold integerWidth
    split_ifs <;> omega
  · simp only [List.drop_succ_cons, List.drop_zero, List.length_cons] at hhi ⊢
    omega

theorem decodeArgs_ok_of_argsInFrame (alloc : MsgBlock → Bool) {buf : Buffer Byte} (n : ℕ) :
    ∀ {t : List Byte} {i cpt : ℕ}, argsInFrame n t = true → buf.drop cpt = t.map some →
      ∃ args, decodeArgs true alloc buf n i cpt = .ok args := by
  induction n with
  | zero =>
    intro t i cpt _ _
    exact ⟨_, rfl⟩
  | succ n ih =>
    intro t i cpt hin h
    have hcells : buf.drop cpt = t.map some ++ [] := by rw [h, List.append_nil]
    rw [argsInFrame] at hin
    cases hscan : scanArg t with
    | short => rw [hscan] at hin; cases hin
    | negative => rw [hscan] at hin; cases hin
    | undefined => exact ⟨_, decodeArgs_of_undefined hcells hscan⟩
    | field skip len width =>
      rw [hscan, Bool.and_eq_true, decide_eq_true_eq] at hin
      obtain ⟨hlen, hrest⟩ := hin
      have haudit : Buffer.auditLength true len (buf.length - (cpt + skip)) = .ok () := by
        rw [length_of_drop_map h]
        exact Buffer.auditLength_of_le true hlen.1 hlen.2
      rcases decodeArgs_of_field alloc n i hcells hscan
        (width_le_of_len hscan hlen) haudit with ⟨hfail, -⟩ | ⟨p, a, -, -, hnext⟩
      · exact ⟨_, hfail⟩
      · obtain ⟨args, hargs⟩ := ih (i := i + 1) hrest (drop_map h (skip + width))
        rw [hnext, hargs]
        exact ⟨_, rfl⟩

/-- A round on bytes that end inside the field's head reads beyond them. -/
theorem decodeArgs_of_short {buf : Buffer Byte} {n i cpt : ℕ} {t : List Byte}
    (h : buf.drop cpt = t.map some) (hscan : scanArg t = .short) :
    ∃ e, decodeArgs true allGranted buf (n + 1) i cpt = .error e := by
  rcases scanArg_eq_short hscan with rfl | rfl | ⟨len, rfl⟩ | rfl
  · rw [decodeArgs, Buffer.read_of_end h rfl]
    exact ⟨_, rfl⟩
  · rw [decodeArgs_int h, allGranted_eq, if_pos rfl, deserializeInteger,
      Buffer.read_of_end (Buffer.drop_succ h) rfl]
    exact ⟨_, rfl⟩
  · have hnext := Buffer.drop_succ h
    rw [decodeArgs_int h, allGranted_eq, if_pos rfl, deserializeInteger,
      Buffer.read_of_drop hnext, Checked.ok_bind]
    -- the audit may object first; if not, the first character is missing
    cases Buffer.auditLength true len.toInt (buf.length - (cpt + 1 + 1)) with
    | error e => exact ⟨_, rfl⟩
    | ok _ =>
      rw [Checked.ok_bind, Buffer.read_of_end (Buffer.drop_succ hnext) rfl]
      exact ⟨_, rfl⟩
  · rw [decodeArgs, Buffer.read_of_drop h, Checked.ok_bind, if_neg (by decide),
      if_neg (by decide), if_pos rfl, Buffer.read_of_end (Buffer.drop_succ h) rfl]
    exact ⟨_, rfl⟩

/-- A round on a length outside the bytes is objected to. -/
theorem decodeArgs_of_not_len {buf : Buffer Byte} {n i cpt skip width : ℕ} {len : ℤ}
    {t : List Byte} (h : buf.drop cpt = t.map some) (hscan : scanArg t = .field skip len width)
    (hlen : ¬ (0 ≤ len ∧ len ≤ (t.drop skip).length)) :
    decodeArgs true allGranted buf (n + 1) i cpt = .error .badLength := by
  have haudit : Buffer.auditLength true len (buf.length - (cpt + skip)) = .error .badLength := by
    rw [length_of_drop_map h]
    exact Buffer.auditLength_of_not hlen
  rcases scanArg_eq_field hscan with ⟨t', rfl, rfl, rfl, rfl⟩ | ⟨b, c, t', rfl, rfl, rfl, rfl⟩ |
    ⟨b, t', rfl, rfl, rfl, -, rfl⟩
  · exact absurd ⟨Int.le_refl 0, Int.natCast_nonneg _⟩ hlen
  · rw [decodeArgs_int h, allGranted_eq, if_pos rfl, deserializeInteger,
      Buffer.read_of_drop (Buffer.drop_succ h), Checked.ok_bind, haudit]
    rfl
  · rw [decodeArgs_str h, haudit]
    rfl

theorem decodeArgs_error_of_not_argsInFrame {buf : Buffer Byte} (n : ℕ) :
    ∀ {t : List Byte} {i cpt : ℕ}, ¬ argsInFrame n t = true → buf.drop cpt = t.map some →
      ∃ e, decodeArgs true allGranted buf n i cpt = .error e := by
  induction n with
  | zero =>
    intro t i cpt hin _
    exact absurd rfl hin
  | succ n ih =>
    intro t i cpt hin h
    have hcells : buf.drop cpt = t.map some ++ [] := by rw [h, List.append_nil]
    rw [argsInFrame] at hin
    cases hscan : scanArg t with
    | short => exact decodeArgs_of_short h hscan
    | negative => exact ⟨_, (decodeArgs_of_negative hcells hscan).1⟩
    | undefined => rw [hscan] at hin; exact absurd rfl hin
    | field skip len width =>
      rw [hscan, Bool.and_eq_true, decide_eq_true_eq] at hin
      by_cases hlen : 0 ≤ len ∧ len ≤ (t.drop skip).length
      · have haudit : Buffer.auditLength true len (buf.length - (cpt + skip)) = .ok () := by
          rw [length_of_drop_map h]
          exact Buffer.auditLength_of_le true hlen.1 hlen.2
        rcases decodeArgs_of_field allGranted n i hcells hscan
          (width_le_of_len hscan hlen) haudit with ⟨-, hdenied⟩ | ⟨p, a, -, -, hnext⟩
        · cases hdenied
        · obtain ⟨e, he⟩ := ih (i := i + 1) (fun hrest => hin ⟨hlen, hrest⟩)
            (drop_map h (skip + width))
          rw [hnext, he]
          exact ⟨e, rfl⟩
      · exact ⟨_, decodeArgs_of_not_len h hscan hlen⟩

/-! ### The whole walk -/

theorem exists_cons_five {t : List Byte} (h : 5 ≤ t.length) :
    ∃ b b₀ b₁ b₂ b₃ t', t = b :: b₀ :: b₁ :: b₂ :: b₃ :: t' := by
  match t, h with
  | b :: b₀ :: b₁ :: b₂ :: b₃ :: t', _ => exact ⟨b, b₀, b₁, b₂, b₃, t', rfl⟩

theorem five_le_of_tailInFrame {t : List Byte} (h : tailInFrame t = true) : 5 ≤ t.length := by
  unfold tailInFrame at h
  split at h
  · simp
  · cases h

/-- Behind the command, the walk goes through when the bytes pass the check. -/
theorem tail_ok {buf : Buffer Byte} {t : List Byte} {cpt : ℕ} (h : buf.drop cpt = t.map some)
    (hin : tailInFrame t = true) :
    ∃ returnType argc, buf.read cpt = .ok returnType ∧ buf.readInt (cpt + 1) = .ok argc ∧
      Buffer.auditLength true argc.toInt (buf.length - (cpt + 5)) = .ok () ∧
      ∀ alloc, ∃ args, decodeArgs true alloc buf argc.toInt.toNat 0 (cpt + 5) = .ok args := by
  obtain ⟨b, b₀, b₁, b₂, b₃, t', rfl⟩ := exists_cons_five (five_le_of_tailInFrame hin)
  have hremaining := length_of_drop_map h 5
  rw [tailInFrame, Bool.and_eq_true, decide_eq_true_eq] at hin
  obtain ⟨⟨hlo, hhi⟩, hargs⟩ := hin
  refine ⟨b, intOfBytes b₀ b₁ b₂ b₃, Buffer.read_of_drop h,
    Buffer.readInt_of_cells (Buffer.drop_succ h), ?_, ?_⟩
  · rw [hremaining]
    exact Buffer.auditLength_of_le true hlo hhi
  · intro alloc
    exact decodeArgs_ok_of_argsInFrame alloc _ hargs (drop_map h 5)

/-- Behind the command, the walk faults when the bytes do not pass the check. -/
theorem tail_error {buf : Buffer Byte} {t : List Byte} {cpt : ℕ} (h : buf.drop cpt = t.map some)
    (hin : ¬ tailInFrame t = true) :
    (∃ e, buf.read cpt = .error e) ∨ ∃ returnType, buf.read cpt = .ok returnType ∧
      ((∃ e, buf.readInt (cpt + 1) = .error e) ∨ ∃ argc, buf.readInt (cpt + 1) = .ok argc ∧
        (Buffer.auditLength true argc.toInt (buf.length - (cpt + 5)) = .error .badLength ∨
          Buffer.auditLength true argc.toInt (buf.length - (cpt + 5)) = .ok () ∧
          ∃ e, decodeArgs true allGranted buf argc.toInt.toNat 0 (cpt + 5) = .error e)) := by
  rcases Nat.lt_or_ge t.length 5 with hshort | hlong
  · cases t with
    | nil => exact .inl ⟨_, Buffer.read_of_end h rfl⟩
    | cons b t =>
      rw [List.length_cons] at hshort
      exact .inr ⟨b, Buffer.read_of_drop h,
        .inl ⟨_, Buffer.readInt_of_end (by omega)
          ((Buffer.drop_succ h).trans (List.append_nil _).symm) rfl⟩⟩
  · obtain ⟨b, b₀, b₁, b₂, b₃, t', rfl⟩ := exists_cons_five hlong
    rw [tailInFrame, Bool.and_eq_true, decide_eq_true_eq] at hin
    refine .inr ⟨b, Buffer.read_of_drop h,
      .inr ⟨intOfBytes b₀ b₁ b₂ b₃, Buffer.readInt_of_cells (Buffer.drop_succ h), ?_⟩⟩
    rw [length_of_drop_map h 5]
    by_cases hargc : 0 ≤ (intOfBytes b₀ b₁ b₂ b₃).toInt ∧
        (intOfBytes b₀ b₁ b₂ b₃).toInt ≤ t'.length
    · exact .inr ⟨Buffer.auditLength_of_le true hargc.1 hargc.2,
        decodeArgs_error_of_not_argsInFrame _ (fun hargs => hin ⟨hargc, hargs⟩) (drop_map h 5)⟩
    · exact .inl (Buffer.auditLength_of_not hargc)

/-- The walk up to the command, when the length of the command lies inside. -/
theorem header_of_commandLength {t : List Byte} {b₀ b₁ b₂ b₃ : Byte}
    (hsize : t.length + 4 < 2 ^ 31) (hlo : 0 ≤ (intOfBytes b₀ b₁ b₂ b₃).toInt)
    (hhi : (intOfBytes b₀ b₁ b₂ b₃).toInt ≤ t.length) :
    ∃ command : { l : List Byte // (l.length : ℤ) = (intOfBytes b₀ b₁ b₂ b₃).toInt },
      Buffer.copy ((b₀ :: b₁ :: b₂ :: b₃ :: t).map some) 4 (intOfBytes b₀ b₁ b₂ b₃).toInt =
        .ok command ∧
      ((b₀ :: b₁ :: b₂ :: b₃ :: t).map some).drop (4 + command.1.length) =
        (t.drop (intOfBytes b₀ b₁ b₂ b₃).toInt.toNat).map some ∧
      (intOfBytes b₀ b₁ b₂ b₃ + 1).toInt = (intOfBytes b₀ b₁ b₂ b₃).toInt + 1 := by
  have hcells : ((b₀ :: b₁ :: b₂ :: b₃ :: t).map some).drop 4 = t.map some ++ [] :=
    (List.append_nil _).symm
  obtain ⟨command, hcopy⟩ := Buffer.copy_of_le hcells hlo hhi
  have hlen : command.1.length = (intOfBytes b₀ b₁ b₂ b₃).toInt.toNat := by
    have := command.2
    omega
  refine ⟨command, hcopy, ?_, toInt_add_one (by omega)⟩
  rw [Buffer.drop_cells hcells (by omega), List.append_nil, hlen]

/-- Without the four bytes of the first field nothing is read. -/
theorem deserializeMessage_of_short {bytes : List Byte} (h : bytes.length < 4) (raw : RawMessage)
    (size : CInt) :
    requestInFrame bytes = false ∧
      ∃ e, deserializeMessage true allGranted (some raw) size (some (bytes.map some)) =
        .error e := by
  have hread : Buffer.readInt (bytes.map some) 0 = .error .outOfRange :=
    Buffer.readInt_of_end h (List.append_nil _).symm rfl
  refine ⟨?_, .outOfRange, by rw [deserializeMessage, hread]; rfl⟩
  rcases bytes with _ | ⟨b₀, _ | ⟨b₁, _ | ⟨b₂, _ | ⟨b₃, t⟩⟩⟩⟩
  · rfl
  · rfl
  · rfl
  · rfl
  · simp only [List.length_cons] at h
    omega

section

variable {b₀ b₁ b₂ b₃ : Byte} {t : List Byte}

theorem readInt_front : Buffer.readInt ((b₀ :: b₁ :: b₂ :: b₃ :: t).map some) 0 =
    .ok (intOfBytes b₀ b₁ b₂ b₃) :=
  Buffer.readInt_of_cells List.drop_zero

theorem length_front : ((b₀ :: b₁ :: b₂ :: b₃ :: t).map some).length - 4 = t.length := by
  simp

/-- A length of the command outside the bytes is objected to. -/
theorem deserializeMessage_of_not_commandLength
    (hcommand : ¬ (0 ≤ (intOfBytes b₀ b₁ b₂ b₃).toInt ∧ (intOfBytes b₀ b₁ b₂ b₃).toInt ≤ t.length))
    (raw : RawMessage) (size : CInt) :
    deserializeMessage true allGranted (some raw) size
      (some ((b₀ :: b₁ :: b₂ :: b₃ :: t).map some)) = .error .badLength := by
  have haudit := Buffer.auditLength_of_not hcommand
  rw [deserializeMessage]
  simp only [readInt_front, length_front, haudit, Checked.ok_bind, Checked.error_bind]

/-- Were the bytes behind the command to fail the check, the walk would fault. -/
theorem tailInFrame_of_ok (hsize : t.length + 4 < 2 ^ 31)
    (hlo : 0 ≤ (intOfBytes b₀ b₁ b₂ b₃).toInt) (hhi : (intOfBytes b₀ b₁ b₂ b₃).toInt ≤ t.length)
    {raw : RawMessage} {size : CInt} {res : Decoded}
    (hres : deserializeMessage true allGranted (some raw) size
      (some ((b₀ :: b₁ :: b₂ :: b₃ :: t).map some)) = .ok res) :
    tailInFrame (t.drop (intOfBytes b₀ b₁ b₂ b₃).toInt.toNat) = true := by
  by_contra hin
  obtain ⟨command, hcopy, hdrop, hblock⟩ := header_of_commandLength hsize hlo hhi
  have haudit := Buffer.auditLength_of_le true hlo hhi
  have hgranted : mallocSucceeds true ((intOfBytes b₀ b₁ b₂ b₃).toInt + 1) = true :=
    mallocSucceeds_of_nonneg (by omega)
  rw [deserializeMessage] at hres
  simp only [readInt_front, Checked.ok_bind, length_front, haudit, hblock, allGranted_eq, hgranted,
    if_true, hcopy, Bool.true_eq_false, and_false, if_false] at hres
  rcases tail_error hdrop hin with ⟨e, he⟩ |
    ⟨returnType, hret, ⟨e, he⟩ | ⟨argc, hargc, hargs | ⟨hargs, e, he⟩⟩⟩
  · simp only [he, Checked.error_bind] at hres
    cases hres
  · simp only [hret, he, Checked.ok_bind, Checked.error_bind] at hres
    cases hres
  · simp only [hret, hargc, hargs, Checked.ok_bind, Checked.error_bind] at hres
    cases hres
  · simp only [hret, hargc, hargs, he, Checked.ok_bind, Checked.error_bind] at hres
    cases hres

/-- When they pass it, no allocation makes the walk fault. -/
theorem deserializeMessage_ok_of_tailInFrame (hsize : t.length + 4 < 2 ^ 31)
    (hlo : 0 ≤ (intOfBytes b₀ b₁ b₂ b₃).toInt) (hhi : (intOfBytes b₀ b₁ b₂ b₃).toInt ≤ t.length)
    (hin : tailInFrame (t.drop (intOfBytes b₀ b₁ b₂ b₃).toInt.toNat) = true) (raw : RawMessage)
    (size : CInt) (alloc : MsgBlock → Bool) :
    ∃ res, deserializeMessage true alloc (some raw) size
      (some ((b₀ :: b₁ :: b₂ :: b₃ :: t).map some)) = .ok res := by
  obtain ⟨command, hcopy, hdrop, hblock⟩ := header_of_commandLength hsize hlo hhi
  have haudit := Buffer.auditLength_of_le true hlo hhi
  obtain ⟨returnType, argc, hret, hargc, hargs, hdecode⟩ := tail_ok hdrop hin
  obtain ⟨args, he⟩ := hdecode alloc
  rw [deserializeMessage]
  simp only [readInt_front, Checked.ok_bind, length_front, haudit, hblock, hcopy, hret, hargc,
    hargs, he, Checked.pure_eq]
  split_ifs
  · exact ⟨_, rfl⟩
  · cases args with
    | done args cpt => exact ⟨_, rfl⟩
    | fail slots => exact ⟨_, rfl⟩
  · exact ⟨_, rfl⟩

end

/-- **The decoder stays inside exactly the frames that pass `requestInFrame`.** -/
theorem staysInFrame_iff (raw : RawMessage) {size : CInt} {bytes : List Byte}
    (hsize : bytes.length = size.toInt) :
    StaysInFrame raw size bytes ↔ requestInFrame bytes = true := by
  have hlt := toInt_lt_two_pow size
  rcases Nat.lt_or_ge bytes.length 4 with hshort | hlong
  · obtain ⟨hin, e, he⟩ := deserializeMessage_of_short hshort raw size
    rw [hin]
    constructor
    · intro h
      obtain ⟨res, hres⟩ := h allGranted
      rw [he] at hres
      cases hres
    · intro hpassed
      cases hpassed
  · obtain ⟨b₀, b₁, b₂, b₃, t, rfl⟩ : ∃ b₀ b₁ b₂ b₃ t, bytes = b₀ :: b₁ :: b₂ :: b₃ :: t := by
      match bytes, hlong with
      | b₀ :: b₁ :: b₂ :: b₃ :: t, _ => exact ⟨b₀, b₁, b₂, b₃, t, rfl⟩
    simp only [List.length_cons] at hsize
    rw [requestInFrame, Bool.and_eq_true, decide_eq_true_eq]
    constructor
    · intro h
      obtain ⟨res, hres⟩ := h allGranted
      by_cases hcommand : 0 ≤ (intOfBytes b₀ b₁ b₂ b₃).toInt ∧
          (intOfBytes b₀ b₁ b₂ b₃).toInt ≤ t.length
      · exact ⟨hcommand, tailInFrame_of_ok (by omega) hcommand.1 hcommand.2 hres⟩
      · rw [deserializeMessage_of_not_commandLength hcommand] at hres
        cases hres
    · rintro ⟨⟨hlo, hhi⟩, hin⟩ alloc
      exact deserializeMessage_ok_of_tailInFrame (by omega) hlo hhi hin raw size alloc

/-- A request without arguments, of ten bytes. -/
theorem staysInFrame_iff_ten :
    StaysInFrame .unset 10 [1, 0, 0, 0, 0x61, 0, 0, 0, 0, 0] ↔
      requestInFrame [1, 0, 0, 0, 0x61, 0, 0, 0, 0, 0] = true :=
  staysInFrame_iff .unset (by decide)

/-- Nine bytes that announce a command of a hundred: the copy leaves the frame. -/
theorem not_staysInFrame_nine :
    ¬ StaysInFrame .unset 9 [100, 0, 0, 0, 0, 0, 0, 0, 0] ∧
      deserializeMessage false allGranted (some .unset) 9
        (some ([100, 0, 0, 0, 0, 0, 0, 0, 0].map some)) = .error .outOfRange := by
  refine ⟨?_, by decide⟩
  intro h
  obtain ⟨res, hres⟩ := h allGranted
  have hfault : deserializeMessage true allGranted (some .unset) 9
      (some ([100, 0, 0, 0, 0, 0, 0, 0, 0].map some)) = .error .badLength := by decide
  rw [hfault] at hres
  cases hres

end RemoteProcedure
