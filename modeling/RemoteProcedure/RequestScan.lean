import RemoteProcedure.RequestDecode

/-!
# One argument of a frame

What the argument loop of `deserialize_message` does with the bytes a peer sent
depends on little: the type byte, the length byte, and for an integer the first
character.  `scanArg` reads these off, and the lemmas say how one round of the
loop goes in each case.  The analyses of the decoder are built on them and do
not look into the loop again.

## Main definitions

* `Scan`, `scanArg` — the shape of the argument at the start of a byte list.

## Main results

* `decodeArgs_of_field` — a round on a field moves the cursor behind it.
* `round_cases` — **what one round can do**, when it stays inside the bytes.
* `decodeArgs_of_undefined`, `decodeArgs_of_negative` — a round that cannot
  build an argument.
-/

namespace RemoteProcedure

open Machine

/-- The argument at the start of a byte list. -/
inductive Scan where
  /-- The bytes end before its width is known. -/
  | short : Scan
  /-- Its type is not one of the protocol. -/
  | undefined : Scan
  /-- It is a string of negative length. -/
  | negative : Scan
  /-- After `skip` bytes it announces the length `len`, and the walk moves over
  `width` bytes more. -/
  | field (skip : ℕ) (len : ℤ) (width : ℕ) : Scan
  deriving DecidableEq, Repr

/-- Read off the argument at the start of a byte list. -/
def scanArg : List Byte → Scan
  | [] => .short
  | typ :: t =>
    if typ = rpcTyVoid then .field 1 0 0
    else if typ = rpcTyInt then
      match t with
      | len :: c :: _ => .field 2 len.toInt (integerWidth len c)
      | _ => .short
    else if typ = rpcTyStr then
      match t with
      | len :: _ => if len.toInt < 0 then .negative else .field 2 len.toInt len.toInt.toNat
      | [] => .short
    else .undefined

/-- The shapes a field can have, by its type. -/
theorem scanArg_eq_field {t : List Byte} {skip width : ℕ} {len : ℤ}
    (h : scanArg t = .field skip len width) :
    (∃ t', t = rpcTyVoid :: t' ∧ skip = 1 ∧ len = 0 ∧ width = 0) ∨
    (∃ b c t', t = rpcTyInt :: b :: c :: t' ∧ skip = 2 ∧ len = b.toInt ∧
      width = integerWidth b c) ∨
    (∃ b t', t = rpcTyStr :: b :: t' ∧ skip = 2 ∧ len = b.toInt ∧ 0 ≤ b.toInt ∧
      width = b.toInt.toNat) := by
  cases t with
  | nil => cases h
  | cons typ t =>
    unfold scanArg at h
    simp only at h
    split_ifs at h with hvoid hint hstr
    · cases h
      exact .inl ⟨t, by rw [hvoid], rfl, rfl, rfl⟩
    · match t, h with
      | b :: c :: t', h =>
        cases h
        exact .inr (.inl ⟨b, c, t', by rw [hint], rfl, rfl, rfl⟩)
    · match t, h with
      | b :: t', h =>
        simp only at h
        split_ifs at h with hneg
        cases h
        exact .inr (.inr ⟨b, t', by rw [hstr], rfl, rfl, by omega, rfl⟩)

theorem scanArg_eq_undefined {t : List Byte} (h : scanArg t = .undefined) :
    ∃ typ t', t = typ :: t' ∧ typ ≠ rpcTyVoid ∧ typ ≠ rpcTyInt ∧ typ ≠ rpcTyStr := by
  cases t with
  | nil => cases h
  | cons typ t =>
    unfold scanArg at h
    simp only at h
    split_ifs at h with hvoid hint hstr
    · split at h <;> cases h
    · split at h
      · split_ifs at h
      · cases h
    · exact ⟨typ, t, rfl, hvoid, hint, hstr⟩

theorem scanArg_eq_negative {t : List Byte} (h : scanArg t = .negative) :
    ∃ b t', t = rpcTyStr :: b :: t' ∧ b.toInt < 0 := by
  cases t with
  | nil => cases h
  | cons typ t =>
    unfold scanArg at h
    simp only at h
    split_ifs at h with hvoid hint hstr
    · split at h <;> cases h
    · match t, h with
      | b :: t, h =>
        simp only at h
        split_ifs at h with hneg
        exact ⟨b, t, by rw [hstr], hneg⟩

/-- The heads that end too early. -/
theorem scanArg_eq_short {t : List Byte} (h : scanArg t = .short) :
    t = [] ∨ t = [rpcTyInt] ∨ (∃ len, t = [rpcTyInt, len]) ∨ t = [rpcTyStr] := by
  cases t with
  | nil => exact .inl rfl
  | cons typ t =>
    unfold scanArg at h
    simp only at h
    split_ifs at h with hvoid hint hstr
    · subst hint
      match t, h with
      | [], _ => exact .inr (.inl rfl)
      | [len], _ => exact .inr (.inr (.inl ⟨len, rfl⟩))
    · subst hstr
      match t, h with
      | [], _ => exact .inr (.inr (.inr rfl))
      | len :: _, h =>
        simp only at h
        split_ifs at h

/-- **A round on a field** either fails to allocate, or builds an argument and
moves the cursor behind the field; the pointer of its slot is assigned.  A string
it builds has at most `width` bytes. -/
theorem decodeArgs_of_field {audit : Bool} (alloc : MsgBlock → Bool) (n i : ℕ)
    {buf rest : Buffer Byte} {cpt skip width : ℕ} {len : ℤ} {t : List Byte}
    (h : buf.drop cpt = t.map some ++ rest) (hscan : scanArg t = .field skip len width)
    (hroom : skip + width ≤ t.length)
    (haudit : Buffer.auditLength audit len (buf.length - (cpt + skip)) = .ok ()) :
    decodeArgs audit alloc buf (n + 1) i cpt = .ok (.fail (nullSlot n)) ∧ alloc (.data i) = false ∨
    ∃ p a, p ≠ .junk ∧ (∀ s, a = .str s → s.length ≤ width) ∧
      decodeArgs audit alloc buf (n + 1) i cpt =
        (do let args ← decodeArgs audit alloc buf n (i + 1) (cpt + (skip + width))
            return args.cons p a) := by
  rcases scanArg_eq_field hscan with ⟨t', rfl, rfl, rfl, rfl⟩ | ⟨b, c, t', rfl, rfl, rfl, rfl⟩ |
    ⟨b, t', rfl, rfl, rfl, hnonneg, rfl⟩
  · exact .inr ⟨_, _, by decide, (fun s hs => by cases hs), decodeArgs_void h⟩
  · rw [decodeArgs_int h]
    cases alloc (.data i) with
    | false => exact .inl ⟨rfl, rfl⟩
    | true =>
      simp only [List.length_cons] at hroom
      have hcells : buf.drop (cpt + 1) = (b :: c :: t').map some ++ rest := Buffer.drop_succ h
      have hcursor : cpt + 1 + (1 + integerWidth b c) = cpt + (2 + integerWidth b c) := by omega
      obtain ⟨v, hv⟩ := deserializeInteger_of_cells hcells haudit (by omega)
      rw [if_pos rfl, hv, Checked.ok_bind]
      simp only [toNat_returned, hcursor]
      exact .inr ⟨_, _, by decide, (fun s hs => by cases hs), rfl⟩
  · simp only [List.length_cons] at hroom
    rw [decodeArgs_str h, haudit, Checked.ok_bind]
    cases alloc (.data i) with
    | false => exact .inl ⟨rfl, rfl⟩
    | true =>
      have hdata : buf.drop (cpt + 2) = (t'.take b.toInt.toNat).map some ++
          ((t'.drop b.toInt.toNat).map some ++ rest) := by
        rw [← List.append_assoc, ← List.map_append, List.take_append_drop]
        exact Buffer.drop_succ (Buffer.drop_succ h)
      have hlen : (t'.take b.toInt.toNat).length = b.toInt.toNat :=
        List.length_take_of_le (by omega)
      rw [if_pos (mallocSucceeds_of_nonneg (by omega)),
        Buffer.copy_of_drop (by rw [hlen]; omega) hdata, Checked.ok_bind]
      simp only [hlen, Nat.add_assoc]
      refine .inr ⟨_, _, by decide, ?_, rfl⟩
      intro s hs
      cases hs
      exact (CString.length_ofBytes_le _).trans (Nat.le_of_eq hlen)

/-- A round on an undefined type ends the loop. -/
theorem decodeArgs_of_undefined {audit : Bool} {alloc : MsgBlock → Bool} {buf rest : Buffer Byte}
    {n i cpt : ℕ} {t : List Byte} (h : buf.drop cpt = t.map some ++ rest)
    (hscan : scanArg t = .undefined) :
    decodeArgs audit alloc buf (n + 1) i cpt = .ok (.fail (List.replicate (n + 1) .junk)) := by
  obtain ⟨typ, t', rfl, hvoid, hint, hstr⟩ := scanArg_eq_undefined hscan
  rw [decodeArgs, Buffer.read_of_drop h, Checked.ok_bind, if_neg hvoid, if_neg hint, if_neg hstr]
  rfl

/-- A round on a string of negative length does not go on with the loop. -/
theorem decodeArgs_of_negative {alloc : MsgBlock → Bool} {buf rest : Buffer Byte}
    {n i cpt : ℕ} {t : List Byte} (h : buf.drop cpt = t.map some ++ rest)
    (hscan : scanArg t = .negative) :
    decodeArgs true alloc buf (n + 1) i cpt = .error .badLength ∧
    (decodeArgs false alloc buf (n + 1) i cpt = .error .outOfRange ∨
      decodeArgs false alloc buf (n + 1) i cpt = .ok (.fail (nullSlot n))) := by
  obtain ⟨b, t', rfl, hneg⟩ := scanArg_eq_negative hscan
  constructor
  · rw [decodeArgs_str h, Buffer.auditLength_of_not (by omega)]
    rfl
  · rw [decodeArgs_str h, Buffer.auditLength_false, Checked.ok_bind]
    -- the length -1 asks for an empty block, any other for too large a one
    split_ifs
    · rw [Buffer.copy, dif_neg (by omega)]
      exact .inl rfl
    · exact .inr rfl

/-- A round that goes on ends where the rest of the loop does. -/
theorem exists_done_of_bind {n cpt : ℕ} {x : Checked (DecodedArgs n)} {p : Ptr Unit} {a : RpcArg}
    {args : { l : List RpcArg // l.length = n + 1 }}
    (h : (do let r ← x; return r.cons p a : Checked (DecodedArgs (n + 1))) = .ok (.done args cpt)) :
    ∃ as, x = .ok (.done as cpt) ∧ args.1 = a :: as.1 := by
  rw [Checked.bind_eq_ok] at h
  obtain ⟨r, hx, hr⟩ := h
  cases r with
  | fail slots => cases hr
  | done as cpt' =>
    cases hr
    exact ⟨as, hx, rfl⟩

/-- The argument at the start of some bytes needs no block, or gets one. -/
def SlotGranted (alloc : MsgBlock → Bool) (i : ℕ) (t : List Byte) : Prop :=
  t.head? = some rpcTyVoid ∨ alloc (.data i) = true

instance (alloc : MsgBlock → Bool) (i : ℕ) (t : List Byte) : Decidable (SlotGranted alloc i t) :=
  inferInstanceAs (Decidable (_ ∨ _))

section

variable {alloc : MsgBlock → Bool} {buf rest : Buffer Byte} {n i cpt cpt' : ℕ} {t : List Byte}
  {e : Fault}

/-- A loop that ends has gone on behind its first field. -/
theorem done_of_field {skip width : ℕ} {len : ℤ}
    {args : { l : List RpcArg // l.length = n + 1 }} (h : buf.drop cpt = t.map some ++ rest)
    (hscan : scanArg t = .field skip len width) (hroom : skip + width ≤ t.length)
    (hdone : decodeArgs false alloc buf (n + 1) i cpt = .ok (.done args cpt')) :
    ∃ as, decodeArgs false alloc buf n (i + 1) (cpt + (skip + width)) = .ok (.done as cpt') := by
  rcases decodeArgs_of_field alloc n i h hscan hroom (Buffer.auditLength_false _ _) with
    ⟨hfail, -⟩ | ⟨p, a, -, -, hnext⟩
  · rw [hfail] at hdone
    cases hdone
  · rw [hnext] at hdone
    obtain ⟨as, has, -⟩ := exists_done_of_bind hdone
    exact ⟨as, has⟩

/-- Without a failed allocation a loop ends where it does behind its first field. -/
theorem exists_done_of_field {skip width : ℕ} {len : ℤ} {as : { l : List RpcArg // l.length = n }}
    (h : buf.drop cpt = t.map some ++ rest) (hscan : scanArg t = .field skip len width)
    (hroom : skip + width ≤ t.length)
    (hdone : decodeArgs false allGranted buf n (i + 1) (cpt + (skip + width)) =
      .ok (.done as cpt')) :
    ∃ args a, decodeArgs false allGranted buf (n + 1) i cpt = .ok (.done args cpt') ∧
      args.1 = a :: as.1 ∧ ∀ s, a = .str s → s.length ≤ width := by
  rcases decodeArgs_of_field allGranted n i h hscan hroom (Buffer.auditLength_false _ _) with
    ⟨-, hdenied⟩ | ⟨p, a, -, hshort, hnext⟩
  · cases hdenied
  · rw [hnext, hdone]
    exact ⟨_, a, rfl, rfl, hshort⟩

/-- A loop that ends has met no string of negative length. -/
theorem not_done_of_negative {args : { l : List RpcArg // l.length = n + 1 }}
    (h : buf.drop cpt = t.map some ++ rest) (hscan : scanArg t = .negative) :
    decodeArgs false alloc buf (n + 1) i cpt ≠ .ok (.done args cpt') := by
  intro hdone
  rcases (decodeArgs_of_negative h hscan).2 with hfault | hfail
  · rw [hfault] at hdone
    cases hdone
  · rw [hfail] at hdone
    cases hdone

/-- The ways a round can go that reads nothing it may not read. -/
inductive Round (alloc : MsgBlock → Bool) (buf : Buffer Byte) (n i cpt : ℕ) (t : List Byte) :
    DecodedArgs (n + 1) → Prop where
  /-- It builds an argument, and the loop goes on behind the field. -/
  | built {skip width : ℕ} {len : ℤ} (hscan : scanArg t = .field skip len width)
      (hroom : skip + width ≤ t.length) (hgranted : SlotGranted alloc i t) {p : Ptr Unit}
      (hp : p ≠ .junk) (a : RpcArg) {r : DecodedArgs n}
      (hr : decodeArgs false alloc buf n (i + 1) (cpt + (skip + width)) = .ok r) :
      Round alloc buf n i cpt t (r.cons p a)
  /-- There is no block for the argument, whose type is defined. -/
  | denied (hdefined : ∃ typ t', t = typ :: t' ∧ typeExists typ = true)
      (hdenied : ¬ SlotGranted alloc i t ∨ scanArg t = .negative) :
      Round alloc buf n i cpt t (.fail (nullSlot n))
  /-- The type is not defined. -/
  | undefined (hscan : scanArg t = .undefined) :
      Round alloc buf n i cpt t (.fail (List.replicate (n + 1) .junk))

/-- A field that lies inside the bytes is built, unless there is no block for it. -/
theorem round_of_field {skip width : ℕ} {len : ℤ} (h : buf.drop cpt = t.map some ++ rest)
    (hscan : scanArg t = .field skip len width) (hroom : skip + width ≤ t.length)
    (hgranted : alloc (.data i) = true) {r : DecodedArgs (n + 1)}
    (hr : decodeArgs false alloc buf (n + 1) i cpt = .ok r) : Round alloc buf n i cpt t r := by
  rcases decodeArgs_of_field alloc n i h hscan hroom (Buffer.auditLength_false _ _) with
    ⟨-, hdenied⟩ | ⟨p, a, hp, -, hnext⟩
  · rw [hgranted] at hdenied
    cases hdenied
  · rw [hnext, Checked.bind_eq_ok] at hr
    obtain ⟨r', hr', hcons⟩ := hr
    cases hcons
    exact .built hscan hroom (.inr hgranted) hp a hr'

theorem round_int (h : buf.drop cpt = (rpcTyInt :: t).map some ++ rest)
    (hend : Buffer.endFault rest = some e) {r : DecodedArgs (n + 1)}
    (hr : decodeArgs false alloc buf (n + 1) i cpt = .ok r) :
    Round alloc buf n i cpt (rpcTyInt :: t) r := by
  by_cases hgranted : alloc (.data i) = true
  · cases hwhole : integerWhole t with
    | true =>
      obtain ⟨len, c, t, rfl, hroom⟩ := cells_of_integerWhole hwhole
      have hscan : scanArg (rpcTyInt :: len :: c :: t) = .field 2 len.toInt (integerWidth len c) :=
        rfl
      refine round_of_field h hscan ?_ hgranted hr
      simp only [List.length_cons]
      omega
    | false =>
      rw [decodeArgs_int h, if_pos hgranted,
        deserializeInteger_of_end hwhole (Buffer.drop_succ h) hend] at hr
      cases hr
  · rw [decodeArgs_int h, if_neg hgranted] at hr
    cases hr
    refine .denied ⟨rpcTyInt, t, rfl, rfl⟩ (.inl ?_)
    rintro (hvoid | hgranted')
    · cases hvoid
    · exact hgranted hgranted'

theorem round_str (h : buf.drop cpt = (rpcTyStr :: t).map some ++ rest)
    (hend : Buffer.endFault rest = some e) {r : DecodedArgs (n + 1)}
    (hr : decodeArgs false alloc buf (n + 1) i cpt = .ok r) :
    Round alloc buf n i cpt (rpcTyStr :: t) r := by
  rcases t with _ | ⟨len, t⟩
  · rw [decodeArgs, Buffer.read_of_drop h, Checked.ok_bind, if_neg (by decide),
      if_neg (by decide), if_pos rfl, Buffer.read_of_end (Buffer.drop_succ h) hend] at hr
    cases hr
  · have hdata : buf.drop (cpt + 2) = t.map some ++ rest := Buffer.drop_succ (Buffer.drop_succ h)
    by_cases hgranted : alloc (.data i) = true
    · by_cases hneg : len.toInt < 0
      · have hscan : scanArg (rpcTyStr :: len :: t) = .negative := if_pos hneg
        rcases (decodeArgs_of_negative h hscan).2 with hfault | hfail
        · rw [hfault] at hr
          cases hr
        · rw [hfail] at hr
          cases hr
          exact .denied ⟨rpcTyStr, len :: t, rfl, rfl⟩ (.inr hscan)
      · have hscan : scanArg (rpcTyStr :: len :: t) = .field 2 len.toInt len.toInt.toNat :=
          if_neg hneg
        by_cases hroom : 2 + len.toInt.toNat ≤ (rpcTyStr :: len :: t).length
        · exact round_of_field h hscan hroom hgranted hr
        · simp only [List.length_cons] at hroom
          rw [decodeArgs_str h, Buffer.auditLength_false, Checked.ok_bind, hgranted,
            if_pos (mallocSucceeds_of_nonneg (by omega)),
            Buffer.copy_of_end (by omega) hdata hend] at hr
          cases hr
    · rw [Bool.not_eq_true] at hgranted
      rw [decodeArgs_str h, Buffer.auditLength_false, Checked.ok_bind, hgranted] at hr
      cases hr
      refine .denied ⟨rpcTyStr, len :: t, rfl, rfl⟩ (.inl ?_)
      rintro (hvoid | hgranted')
      · cases hvoid
      · rw [hgranted] at hgranted'
        cases hgranted'

/-- **What one round can do**, when nothing can be read behind the bytes. -/
theorem round_cases (h : buf.drop cpt = t.map some ++ rest) (hend : Buffer.endFault rest = some e)
    {r : DecodedArgs (n + 1)} (hr : decodeArgs false alloc buf (n + 1) i cpt = .ok r) :
    Round alloc buf n i cpt t r := by
  cases t with
  | nil =>
    rw [decodeArgs, Buffer.read_of_end h hend] at hr
    cases hr
  | cons typ t =>
    by_cases hvoid : typ = rpcTyVoid
    · subst hvoid
      rw [decodeArgs_void h, Checked.bind_eq_ok] at hr
      obtain ⟨r', hr', hcons⟩ := hr
      cases hcons
      have hscan : scanArg (rpcTyVoid :: t) = .field 1 0 0 := rfl
      exact .built hscan (Nat.succ_pos _) (.inl rfl) (by decide) .void hr'
    by_cases hint : typ = rpcTyInt
    · subst hint
      exact round_int h hend hr
    by_cases hstr : typ = rpcTyStr
    · subst hstr
      exact round_str h hend hr
    · have hscan : scanArg (typ :: t) = .undefined := by
        simp only [scanArg, if_neg hvoid, if_neg hint, if_neg hstr]
      rw [decodeArgs_of_undefined h hscan] at hr
      cases hr
      exact .undefined hscan

/-- **A round that goes on has read a field**, when nothing can be read behind the
bytes. -/
theorem field_of_done {args : { l : List RpcArg // l.length = n + 1 }}
    (h : buf.drop cpt = t.map some ++ rest) (hend : Buffer.endFault rest = some e)
    (hdone : decodeArgs false alloc buf (n + 1) i cpt = .ok (.done args cpt')) :
    ∃ skip len width, scanArg t = .field skip len width ∧ skip + width ≤ t.length ∧
      ∃ as, decodeArgs false alloc buf n (i + 1) (cpt + (skip + width)) = .ok (.done as cpt') := by
  generalize hr : DecodedArgs.done args cpt' = r at hdone
  cases round_cases h hend hdone with
  | built hscan hroom _ _ a hrest =>
    refine ⟨_, _, _, hscan, hroom, ?_⟩
    rename_i r'
    cases r' with
    | fail slots => cases hr
    | done as cpt₁ =>
      cases hr
      exact ⟨as, hrest⟩
  | denied _ _ => cases hr
  | undefined _ => cases hr

end

end RemoteProcedure
