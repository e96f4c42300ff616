import RemoteProcedure.Request

/-!
# Decoding a request

The receiver's half of the request protocol: `deserialize_message` walks the
bytes after the length field of a frame and rebuilds the message.  Nothing in
the walk looks at the size of the frame; the size is subtracted from the cursor
at the end.  The model reads from a buffer whose end is where the memory that
may be read ends, so the bytes after a frame can be given or withheld.

## Main definitions

* `decodeArgs`, `deserializeMessage` — the function of the source and its loop.
* `Decoded.dispatched` — the message `read_msg` goes on with.
* `RpcArg.Transmissible` — the arguments the one-byte length field can carry.

## Main results

* `deserializeMessage_of_transmissible` — the walk inverts `encodeRequest`,
  whatever follows in memory.
* `deserializeMessage_serializeMessage` — **a request survives the wire**.
-/

namespace RemoteProcedure

open Machine

/-! ### `deserialize_message` -/

/-- How the argument loop ends, for a message with `n` arguments left. -/
inductive DecodedArgs (n : ℕ) where
  | done (args : { l : List RpcArg // l.length = n }) (cpt : ℕ) : DecodedArgs n
  /-- The loop jumps to `fail`; the data pointers of the slots are given. -/
  | fail (slots : List (Ptr Unit)) : DecodedArgs n
  deriving DecidableEq

/-- Prepend a decoded slot. -/
def DecodedArgs.cons {n : ℕ} (p : Ptr Unit) (a : RpcArg) : DecodedArgs n → DecodedArgs (n + 1)
  | .done args cpt => .done ⟨a :: args.1, length_cons_eq a args⟩ cpt
  | .fail slots => .fail (p :: slots)

/-- The slots when the first allocation of a slot fails. -/
def nullSlot (n : ℕ) : List (Ptr Unit) := .null :: List.replicate n .junk

/-- The argument loop of `deserialize_message`, from slot `i` and offset `cpt`
on, with `n` slots left. -/
def decodeArgs (audit : Bool) (alloc : MsgBlock → Bool) (buf : Buffer Byte) :
    (n i cpt : ℕ) → Checked (DecodedArgs n)
  | 0, _, cpt => .ok (.done ⟨[], List.length_nil⟩ cpt)
  | n + 1, i, cpt => do
    let typ ← buf.read cpt
    if typ = rpcTyVoid then
      let args ← decodeArgs audit alloc buf n (i + 1) (cpt + 1)
      return args.cons .null .void
    else if typ = rpcTyInt then
      if alloc (.data i) then
        let (res, tmp) ← deserializeInteger audit buf (cpt + 1)
        let args ← decodeArgs audit alloc buf n (i + 1) (cpt + 1 + tmp.toInt.toNat)
        return args.cons (.own ()) (.int res)
      else return .fail (nullSlot n)
    else if typ = rpcTyStr then
      -- the length byte is a `char`, so it may be negative
      let tmp ← buf.read (cpt + 1)
      Buffer.auditLength audit tmp.toInt (buf.length - (cpt + 2))
      if mallocSucceeds (alloc (.data i)) (tmp.toInt + 1) then
        let data ← buf.copy (cpt + 2) tmp.toInt
        let args ← decodeArgs audit alloc buf n (i + 1) (cpt + 2 + data.1.length)
        return args.cons (.own ()) (.str (CString.ofBytes data.1))
      else return .fail (nullSlot n)
    else return .fail (List.replicate (n + 1) .junk)

/-- How a call of `deserialize_message` ends. -/
inductive Decoded where
  /-- It returns -1 before touching the message. -/
  | rejected : Decoded
  /-- It jumps to `fail` with the message in this state, to return -1. -/
  | failed (raw : RawMessage) : Decoded
  /-- It fills in the message and returns `cpt - size`. -/
  | done (ret : CInt) (m : Message) : Decoded
  deriving DecidableEq

/-- `deserialize_message`. -/
def deserializeMessage (audit : Bool) (alloc : MsgBlock → Bool) (msg : Option RawMessage)
    (size : CInt) (serialized : Option (Buffer Byte)) : Checked Decoded :=
  match msg, serialized with
  | some raw, some buf => do
    let commandLength ← buf.readInt 0
    Buffer.auditLength audit commandLength.toInt (buf.length - 4)
    if mallocSucceeds (alloc .command) (commandLength + 1).toInt then
      let command ← buf.copy 4 commandLength.toInt
      let cpt := 4 + command.1.length
      let returnType ← buf.read cpt
      let argc ← buf.readInt (cpt + 1)
      Buffer.auditLength audit argc.toInt (buf.length - (cpt + 5))
      if 0 < argc.toInt ∧ alloc .argv = false then
        return .failed { command := .own (), argc := some argc, argv := .null }
      else
        let args ← decodeArgs audit alloc buf argc.toInt.toNat 0 (cpt + 5)
        match args with
        | .fail slots =>
          return .failed { command := .own (), argc := some argc, argv := .own slots }
        | .done args cpt =>
          return .done (BitVec.ofNat 32 cpt - size)
            { commandLength, command := command.1, returnType, argc, argv := args.1
              command_length := command.2, argv_length := args.2 }
    else return .failed { raw with command := .null }
  | _, _ => .ok .rejected

/-- The message `read_msg` goes on with: any but one for which -1 is returned.
Every other number of bytes left over, or read too many, is ignored. -/
def Decoded.dispatched : Decoded → Option Message
  | .done ret m => if ret = -1 then none else some m
  | _ => none

/-! ### The loop inverts the encoding -/

/-- The arguments whose encoding can be read back: the length byte of a string
is a signed `char`. -/
def RpcArg.Transmissible : RpcArg → Prop
  | .void => True
  | .int _ => True
  | .str s => s.length ≤ 127
  | .other _ _ => False

instance : DecidablePred RpcArg.Transmissible := fun a => by
  cases a <;> unfold RpcArg.Transmissible <;> infer_instance

theorem RpcArg.Transmissible.storable {a : RpcArg} (h : a.Transmissible) : a.Storable := by
  cases a with
  | void => trivial
  | int i => trivial
  | str s =>
    have : s.length ≤ 127 := h
    show s.length % 2 ^ 32 < 2 ^ 31
    omega
  | other typ h' => exact h

/-- One round of the loop on a void argument. -/
theorem decodeArgs_void {audit : Bool} {alloc : MsgBlock → Bool} {buf rest : Buffer Byte}
    {n i cpt : ℕ} (h : buf.drop cpt = some rpcTyVoid :: rest) :
    decodeArgs audit alloc buf (n + 1) i cpt =
      (do let args ← decodeArgs audit alloc buf n (i + 1) (cpt + 1)
          return args.cons .null .void) := by
  rw [decodeArgs, Buffer.read_of_drop h]
  rfl

/-- One round of the loop on an integer argument. -/
theorem decodeArgs_int {audit : Bool} {alloc : MsgBlock → Bool} {buf rest : Buffer Byte}
    {n i cpt : ℕ} (h : buf.drop cpt = some rpcTyInt :: rest) :
    decodeArgs audit alloc buf (n + 1) i cpt =
      (if alloc (.data i) then do
        let (res, tmp) ← deserializeInteger audit buf (cpt + 1)
        let args ← decodeArgs audit alloc buf n (i + 1) (cpt + 1 + tmp.toInt.toNat)
        return args.cons (.own ()) (.int res)
      else return .fail (nullSlot n)) := by
  rw [decodeArgs, Buffer.read_of_drop h]
  rfl

/-- One round of the loop on a string argument, from its length byte on. -/
theorem decodeArgs_str {audit : Bool} {alloc : MsgBlock → Bool} {buf rest : Buffer Byte}
    {n i cpt : ℕ} {tmp : Byte} (h : buf.drop cpt = some rpcTyStr :: some tmp :: rest) :
    decodeArgs audit alloc buf (n + 1) i cpt =
      (do Buffer.auditLength audit tmp.toInt (buf.length - (cpt + 2))
          if mallocSucceeds (alloc (.data i)) (tmp.toInt + 1) then
            let data ← buf.copy (cpt + 2) tmp.toInt
            let args ← decodeArgs audit alloc buf n (i + 1) (cpt + 2 + data.1.length)
            return args.cons (.own ()) (.str (CString.ofBytes data.1))
          else return .fail (nullSlot n)) := by
  rw [decodeArgs, Buffer.read_of_drop h, Checked.ok_bind, if_neg (by decide), if_neg (by decide),
    if_pos rfl, Buffer.read_of_drop (Buffer.drop_succ h)]
  rfl

/-- **One round reads one encoded argument back**, unless its allocation fails. -/
theorem decodeArgs_of_encodeArg {audit : Bool} (alloc : MsgBlock → Bool) (n i : ℕ) {a : RpcArg}
    (ha : a.Transmissible) {buf rest : Buffer Byte} {cpt : ℕ}
    (h : buf.drop cpt = (encodeArg a).map some ++ rest) :
    decodeArgs audit alloc buf (n + 1) i cpt = .ok (.fail (nullSlot n)) ∧ alloc (.data i) = false ∨
    ∃ p, decodeArgs audit alloc buf (n + 1) i cpt =
      (do let args ← decodeArgs audit alloc buf n (i + 1) (cpt + (encodeArg a).length)
          return args.cons p a) := by
  cases a with
  | other typ h' => exact absurd ha id
  | void => exact .inr ⟨_, decodeArgs_void h⟩
  | int v =>
    rw [decodeArgs_int h]
    cases alloc (.data i) with
    | false => exact .inl ⟨rfl, rfl⟩
    | true =>
      have hint : buf.drop (cpt + 1) = (encodeInteger v).map some ++ rest := Buffer.drop_succ h
      have hcursor : cpt + (encodeArg (.int v)).length = cpt + 1 + (encodeInteger v).length := by
        simp only [encodeArg, List.length_cons]
        omega
      have hreturned : (BitVec.ofNat 32 (encodeInteger v).length).toInt.toNat =
          (encodeInteger v).length := by
        have hlen := length_integerChars v
        rw [length_encodeInteger, toInt_ofNat_of_lt (by omega), Int.toNat_natCast]
      rw [hcursor, if_pos rfl, deserializeInteger_of_drop audit v hint, Checked.ok_bind]
      simp only [hreturned]
      exact .inr ⟨_, rfl⟩
  | str s =>
    have hlen : s.length ≤ 127 := ha
    have hwire : wire s = s.bytes := wire_of_lt (by omega)
    have hsigned : (BitVec.ofNat 8 s.length).toInt = s.length := toInt_ofNat_byte (by omega)
    have hdata : buf.drop (cpt + 2) = s.bytes.map some ++ rest := by
      rw [← hwire]
      exact Buffer.drop_succ (Buffer.drop_succ h)
    have hroom := congrArg List.length hdata
    have hbytes : s.bytes.length = s.length := rfl
    simp only [List.length_drop, List.length_append, List.length_map, hbytes] at hroom
    have hcopy : buf.copy (cpt + 2) (s.length : ℤ) = .ok ⟨s.bytes, rfl⟩ :=
      Buffer.copy_of_drop rfl hdata
    have haudit : Buffer.auditLength audit (s.length : ℤ) (buf.length - (cpt + 2)) = .ok () :=
      Buffer.auditLength_of_le audit (by omega) (by omega)
    have hcursor : cpt + (encodeArg (.str s)).length = cpt + 2 + s.bytes.length := by
      simp only [encodeArg, hwire, List.length_cons]
      omega
    rw [decodeArgs_str h, hsigned, haudit, Checked.ok_bind, hcursor]
    cases alloc (.data i) with
    | false => exact .inl ⟨rfl, rfl⟩
    | true =>
      rw [if_pos (mallocSucceeds_of_nonneg (by omega)), hcopy, Checked.ok_bind]
      exact .inr ⟨_, by rw [CString.ofBytes_bytes]⟩

/-- **The loop reads the encoded arguments back**, and stops right after them. -/
theorem decodeArgs_of_transmissible (audit : Bool) {args : List RpcArg} :
    (∀ a ∈ args, a.Transmissible) → ∀ {n : ℕ} (hn : args.length = n) {buf rest : Buffer Byte}
      {i cpt : ℕ}, buf.drop cpt = (encodeArgs args).map some ++ rest →
        decodeArgs audit allGranted buf n i cpt =
          .ok (.done ⟨args, hn⟩ (cpt + (encodeArgs args).length)) := by
  induction args with
  | nil =>
    intro _ n hn buf rest i cpt _
    obtain rfl := hn
    rfl
  | cons a as ih =>
    intro htr n hn buf rest i cpt h
    obtain ⟨n, rfl⟩ : ∃ n', n = n' + 1 := ⟨as.length, hn.symm⟩
    rw [encodeArgs_cons, List.map_append, List.append_assoc] at h
    have hnext := Buffer.drop_add h (List.length_map _)
    have hrest := ih (fun b hb => htr b (List.mem_cons_of_mem a hb)) (Nat.succ.inj hn)
      (i := i + 1) hnext
    rcases decodeArgs_of_encodeArg allGranted n i (htr a List.mem_cons_self) h with
      ⟨-, hdenied⟩ | ⟨p, hround⟩
    · cases hdenied
    · rw [hround, hrest, encodeArgs_cons, List.length_append, ← Nat.add_assoc]
      rfl

/-- The loop over the encoded arguments reads them back, or an allocation fails. -/
theorem args_of_decodeArgs {audit : Bool} {alloc : MsgBlock → Bool} {args : List RpcArg} :
    (∀ a ∈ args, a.Transmissible) → ∀ {n i cpt stop : ℕ} {buf rest : Buffer Byte}
      {l : { l : List RpcArg // l.length = n }}, args.length = n →
      buf.drop cpt = (encodeArgs args).map some ++ rest →
        decodeArgs audit alloc buf n i cpt = .ok (.done l stop) → l.1 = args := by
  induction args with
  | nil =>
    intro _ n i cpt stop buf rest l hn _ h
    subst hn
    cases h
    rfl
  | cons a as ih =>
    intro htr n i cpt stop buf rest l hn hbuf h
    subst hn
    rw [encodeArgs_cons, List.map_append, List.append_assoc] at hbuf
    have hnext := Buffer.drop_add hbuf (List.length_map _)
    have hone : _ ∨ ∃ p, decodeArgs audit alloc buf (as.length + 1) i cpt = _ :=
      decodeArgs_of_encodeArg alloc as.length i (htr a List.mem_cons_self) hbuf
    rcases hone with ⟨hdenied, -⟩ | ⟨p, hround⟩
    · cases hdenied.symm.trans h
    · have hrest := hround.symm.trans h
      rw [Checked.bind_eq_ok] at hrest
      obtain ⟨r, hr, hrest⟩ := hrest
      cases r with
      | fail slots => cases hrest
      | done l' stop' =>
        cases hrest
        have htail := ih (fun b hb => htr b (List.mem_cons_of_mem a hb)) rfl hnext hr
        exact congrArg (a :: ·) htail

/-! ### The walk as a whole -/

/-- The message with other arguments, as many as it had. -/
def Message.withArgv (m : Message) (argv : ArgArray m.argc) : Message :=
  { m with argv := argv.1, argv_length := argv.2 }

/-- What `deserialize_message` returns once its loop has ended. -/
def DecodedArgs.finish (m : Message) (size : CInt) : DecodedArgs m.argc.toInt.toNat → Decoded
  | .fail slots => .failed { command := .own (), argc := some m.argc, argv := .own slots }
  | .done args cpt => .done (BitVec.ofNat 32 cpt - size) (m.withArgv args)

/-- The fields of a request before its arguments. -/
def encodeHeader (m : Message) : List Byte :=
  intBytes m.commandLength ++ m.command ++ [m.returnType] ++ intBytes m.argc

theorem length_encodeHeader (m : Message) : (encodeHeader m).length = m.command.length + 9 := by
  simp only [encodeHeader, List.length_append, length_intBytes, List.length_singleton]
  omega

/-- Behind the fields of `m`, the walk is the loop. -/
theorem deserializeMessage_of_header {m : Message} (hm : m.command.length + 1 < 2 ^ 31)
    (alloc : MsgBlock → Bool) (raw : RawMessage) (size : CInt) (rest : Buffer Byte) :
    deserializeMessage false alloc (some raw) size (some ((encodeHeader m).map some ++ rest)) =
      if alloc .command = false then .ok (.failed { raw with command := .null })
      else if 0 < m.argc.toInt ∧ alloc .argv = false then
        .ok (.failed { command := .own (), argc := some m.argc, argv := .null })
      else do
        let args ← decodeArgs false alloc ((encodeHeader m).map some ++ rest) m.argc.toInt.toNat 0
          (m.command.length + 9)
        return args.finish m size := by
  set buf : Buffer Byte := (encodeHeader m).map some ++ rest with hbuf
  have hcommand := m.command_length
  -- where each field starts
  have h₀ : buf.drop 0 = (intBytes m.commandLength).map some ++ (m.command.map some ++
      (some m.returnType :: ((intBytes m.argc).map some ++ rest))) := by
    simp [hbuf, encodeHeader]
  have h₁ := Buffer.drop_add h₀ (List.length_map _)
  have h₂ := Buffer.drop_add h₁ (List.length_map _)
  have h₃ := Buffer.drop_succ h₂
  simp only [length_intBytes, Nat.zero_add] at h₁ h₂ h₃
  have hblock : (m.commandLength + 1 : CInt).toInt = m.commandLength.toInt + 1 :=
    toInt_add_one (by omega)
  have hcursor : 4 + m.command.length + 5 = m.command.length + 9 := by omega
  rw [deserializeMessage]
  simp only
  rw [Buffer.readInt_of_drop h₀, Checked.ok_bind, Buffer.auditLength_false, Checked.ok_bind, hblock]
  cases hgranted : alloc .command with
  | false => rfl
  | true =>
    rw [if_pos (mallocSucceeds_of_nonneg (by omega)), if_neg (by decide),
      Buffer.copy_of_drop hcommand h₁, Checked.ok_bind, Buffer.read_of_drop h₂, Checked.ok_bind,
      Buffer.readInt_of_drop h₃, Checked.ok_bind, Buffer.auditLength_false, Checked.ok_bind]
    simp only [hcursor]
    split_ifs
    · rfl
    · refine congrArg (_ >>= ·) (funext ?_)
      intro args
      cases args with
      | done args cpt => rfl
      | fail slots => rfl

theorem encodeRequest_eq (m : Message) :
    encodeRequest m = encodeHeader m ++ encodeArgs m.argv := rfl

/-- **`deserialize_message` inverts the encoding**, whatever follows the bytes of
the request in memory, and leaves nothing over. -/
theorem deserializeMessage_of_transmissible {m : Message}
    (htr : ∀ a ∈ m.argv, a.Transmissible) (hsize : (encodeRequest m).length < 2 ^ 31)
    (raw : RawMessage) (rest : Buffer Byte) :
    deserializeMessage false allGranted (some raw) (BitVec.ofNat 32 (encodeRequest m).length)
      (some ((encodeRequest m).map some ++ rest)) = .ok (.done 0 m) := by
  have hlen := length_encodeRequest m
  have htail : ((encodeHeader m).map some ++ ((encodeArgs m.argv).map some ++ rest)).drop
      (m.command.length + 9) = (encodeArgs m.argv).map some ++ rest := by
    rw [List.drop_left' (by rw [List.length_map, length_encodeHeader])]
  have hargs := decodeArgs_of_transmissible false htr m.argv_length (i := 0) htail
  have hcursor : m.command.length + 9 + (encodeArgs m.argv).length = (encodeRequest m).length := by
    omega
  rw [encodeRequest_eq, List.map_append, List.append_assoc,
    deserializeMessage_of_header (by omega), ← encodeRequest_eq, hargs, hcursor]
  simp [DecodedArgs.finish, Message.withArgv]

/-- **Request round trip.**  A request whose frame an `int` can measure is framed
by its length, and decodes to itself with nothing left over, whatever follows. -/
theorem deserializeMessage_serializeMessage (raw raw' : RawMessage) {command : CString}
    {returnType : Byte} (htype : typeExists returnType = true) {argc : CInt} (argv : ArgArray argc)
    (htr : ∀ a ∈ argv.1, a.Transmissible)
    (hsize : command.length + (encodeArgs argv.1).length + 13 < 2 ^ 31) :
    ∃ (m : Message) (blk : Block Byte) (msgSize size : CInt) (body : List Byte),
      createMessage allGranted (some raw) (some command) returnType argc (some argv) =
        .ok (.created m) ∧
      serializeMessage true (some m) = .ok (some (blk, msgSize)) ∧
      blk.contents = some (intBytes size ++ body) ∧
      size.toInt = body.length ∧ msgSize.toInt = body.length + 4 ∧
      (∀ appended : List Byte,
        deserializeMessage false allGranted (some raw') size
          (some ((body ++ appended).map some)) = .ok (.done 0 m)) ∧
      m.commandString = command ∧ m.returnType = returnType ∧ m.argc = argc ∧ m.argv = argv.1 := by
  have hcommand : command.length < 2 ^ 31 := by omega
  set m := newMessage command returnType argv hcommand with hm
  have hbytes : m.command.length = command.length := rfl
  have hargs : m.argv = argv.1 := rfl
  have hlen := length_encodeRequest m
  rw [hbytes, hargs] at hlen
  have hfits : m.Fits := fits_of_short (fun a ha => (htr a ha).storable) (by omega)
  refine ⟨m, _, _, _, encodeRequest m, createMessage_allGranted raw htype argv (by omega),
    serializeMessage_of_fits hfits, Block.contents_filled _, toInt_ofNat_of_lt hfits.short, ?_, ?_,
    CString.ofBytes_bytes command, rfl, rfl, rfl⟩
  · rw [length_requestFrame, toInt_ofNat_of_lt (by omega)]
    rfl
  · intro appended
    rw [List.map_append]
    exact deserializeMessage_of_transmissible htr hfits.short raw' (appended.map some)

/-- A call with `INT_MIN`, an empty string and a void argument. -/
theorem deserializeMessage_serializeMessage_intMin :
    ∃ (m : Message) (blk : Block Byte) (msgSize size : CInt) (body : List Byte),
      createMessage allGranted (some .unset) (some (CString.ofBytes [0x69, 0x64])) rpcTyInt 3
        (some ⟨[.int 0x80000000, .str (CString.ofBytes []), .void], by decide⟩) =
          .ok (.created m) ∧
      serializeMessage true (some m) = .ok (some (blk, msgSize)) ∧
      blk.contents = some (intBytes size ++ body) ∧
      size.toInt = body.length ∧ msgSize.toInt = body.length + 4 ∧
      (∀ appended : List Byte,
        deserializeMessage false allGranted (some .unset) size
          (some ((body ++ appended).map some)) = .ok (.done 0 m)) ∧
      m.commandString = CString.ofBytes [0x69, 0x64] ∧ m.returnType = rpcTyInt ∧ m.argc = 3 ∧
      m.argv = [.int 0x80000000, .str (CString.ofBytes []), .void] :=
  deserializeMessage_serializeMessage .unset .unset (by decide)
    ⟨[.int 0x80000000, .str (CString.ofBytes []), .void], by decide⟩ (by decide) (by decide +kernel)

end RemoteProcedure
