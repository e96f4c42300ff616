import RemoteProcedure.Machine.Stream
import RemoteProcedure.RequestDecode
import RemoteProcedure.Answer

/-!
# Receiving a frame

`read_msg` of the server and `getAnswer` of the client.  Both ask `recv` for the
four bytes of the length, then for as many bytes as it says, and look only at
whether `recv` failed, never at how many bytes it returned.

`deserialize_answer` leaves `ret_arg` alone, or sets its type, or its type and its
data.  `getAnswer` looks at the status it returned and at these two fields, and
jumps to one of two labels.  It is written out with the two fields, so that a field
that was not set cannot be read.

## Main definitions

* `RetArg` — `ret_arg`, as `deserialize_answer` leaves it.
* `readMsg`, `getAnswerCall` — the functions of the source; `getAnswer` leaves out what
  becomes of the block of the value.

## Main results

* `recvFrame_cases` — **what they do with any cut of a frame**, in terms of what
  the two reads return.
* `readMsg_uncut`, `getAnswer_value`, `getAnswer_status` — what they read in one
  piece.
-/

namespace RemoteProcedure

open Machine

/-- What both ends do: read a length, allocate, read as many bytes, and go on with
`next`.  The two differ in the size of the block.  A null block is handed to
`recv`, or tested before; nothing is decoded then. -/
def recvFrame {β : Type} (granted : Bool) (block : CInt → CInt) (failure : β)
    (next : CInt → Buffer Byte → Checked β) (sock : Socket Byte) : Checked β := do
  let (received, sock) ← sock.recvInto 4 4
  match received with
  | none => return failure
  | some buf =>
    let size ← buf.readInt 0
    if mallocSucceeds granted (block size).toInt then
      let (received, _) ← sock.recvInto (sizeT size.toInt) (block size).toInt.toNat
      match received with
      | none => return failure
      | some body => next size body
    else return failure

/-- `read_msg`: the message it fills in, or nothing when it calls
`_exit(EXIT_FAILURE)`. -/
def readMsg (granted : Bool) (alloc : MsgBlock → Bool) (msg : RawMessage) :
    (client : Socket Byte) → Checked (Option Message) :=
  recvFrame granted (fun size => size + 1) none fun size from' => do
    let d ← deserializeMessage false alloc (some msg) size (some from')
    return d.dispatched

/-- `printErrorStatus`, which asserts that there is an error. -/
def printErrorStatus (status : CInt) : Checked Unit :=
  if status = charToInt rpcRetOk then .error .assertion else .ok ()

/-! ### The variable `ret_arg` -/

/-- The structure `ret_arg` on the stack. -/
structure RetArg where
  /-- The field `typ`, once assigned. -/
  typ : Option Byte
  /-- The field `data`, and what is in the block it points to. -/
  data : Ptr Data
  deriving DecidableEq

/-- The pointer to a decoded value; there is no block but for integers and strings. -/
def RpcArg.block : RpcArg → Ptr Data
  | .void => .null
  | .int i => .own (.int i)
  | .str s => .own (.str s)
  | .other _ _ => .null

/-- The structure after a call of `deserialize_answer`. -/
def Answered.retArg : Answered → RetArg
  | .untouched _ => ⟨none, .junk⟩
  -- the allocation failed
  | .typed typ => ⟨some typ, .null⟩
  | .value a => ⟨some a.typ, a.block⟩

/-- Was a block allocated for the data. -/
def RetArg.allocated (retArg : RetArg) : Bool :=
  match retArg.data with
  | .own _ => true
  | _ => false

/-- The label `desalocateRetArg`: how often it frees the block of the data. -/
def desalocateRetArg (typ : Byte) (data : Ptr Data) : Checked ℕ :=
  if typ = rpcTyInt ∨ typ = rpcTyStr then
    match data with
    | .junk => .error .uninitialised
    | .null => .ok 0
    | .own _ => .ok 1
  else .ok 0

/-- The `switch` on the type: what the caller's pointer points to then, if it is not
null. -/
def storeData (ret : Option Data) (typ : Byte) (data : Ptr Data) : Checked (Option Data) :=
  if typ = rpcTyVoid then .ok ret
  else if typ = rpcTyStr ∨ typ = rpcTyInt then
    match ret, data with
    | none, _ => .ok none
    | some _, .junk => .error .uninitialised
    | some cell, .null => .ok (some cell)
    | some _, .own d => .ok (some d)
  else .error .assertion

/-- What a call of `getAnswer` returns, what the caller's pointer points to
afterwards, whether a block was allocated for the decoded value, and how often that
block was freed. -/
structure AnswerCall where
  succes : CInt
  ret : Option Data
  allocated : Bool
  freed : ℕ
  deriving DecidableEq

/-- What the caller is told. -/
def AnswerCall.told (c : AnswerCall) : CInt × Option Data := (c.succes, c.ret)

/-- `getAnswer` from `deserialize_answer` on. -/
def useRetArg (type : CInt) (ret : Option Data) (status : CInt) (retArg : RetArg) :
    Checked AnswerCall :=
  if status ≠ charToInt rpcRetOk then do
    printErrorStatus status
    -- `goto endGetAnswer`
    return ⟨-1, ret, retArg.allocated, 0⟩
  else
    match retArg.typ with
    | none => .error .uninitialised
    | some typ =>
      if charToInt typ ≠ type then do
        printErrorStatus (charToInt rpcRetWrongTyp)
        let freed ← desalocateRetArg typ retArg.data
        return ⟨-1, ret, retArg.allocated, freed⟩
      else do
        let ret ← storeData ret typ retArg.data
        let freed ← desalocateRetArg typ retArg.data
        return ⟨0, ret, retArg.allocated, freed⟩

/-- `getAnswer`, with what becomes of the block. -/
def getAnswerCall (granted grantedData : Bool) (type : CInt) (ret : Option Data) :
    (clt : Socket Byte) → Checked AnswerCall :=
  recvFrame granted (fun msgSize => msgSize) ⟨-1, ret, false, 0⟩ fun msgSize msg => do
    let answered ← deserializeAnswer grantedData (some ()) msgSize (some msg)
    useRetArg type ret answered.status answered.retArg

/-- `getAnswer`: what it returns, and what `ret` points to afterwards. -/
def getAnswer (granted grantedData : Bool) (type : CInt) (ret : Option Data)
    (clt : Socket Byte) : Checked (CInt × Option Data) :=
  (getAnswerCall granted grantedData type ret clt).map AnswerCall.told

/-- What a frame is received for may be looked at afterwards. -/
theorem recvFrame_map {β γ : Type} (f : β → γ) (granted : Bool) (block : CInt → CInt)
    (failure : β) (next : CInt → Buffer Byte → Checked β) (sock : Socket Byte) :
    (recvFrame granted block failure next sock).map f =
      recvFrame granted block (f failure) (fun size buf => (next size buf).map f) sock := by
  unfold recvFrame
  cases sock.recvInto 4 4 with
  | error e => rfl
  | ok first =>
    obtain ⟨received, sock⟩ := first
    cases received with
    | none => rfl
    | some buf =>
      simp only [Checked.ok_bind]
      cases buf.readInt 0 with
      | error e => rfl
      | ok size =>
        simp only [Checked.ok_bind]
        split_ifs with hmalloc
        · cases sock.recvInto (sizeT size.toInt) (block size).toInt.toNat with
          | error e => rfl
          | ok second =>
            obtain ⟨received, sock⟩ := second
            cases received <;> rfl
        · rfl

/-- `getAnswer` receives a frame, too. -/
theorem getAnswer_eq (granted grantedData : Bool) (type : CInt) (ret : Option Data) :
    getAnswer granted grantedData type ret =
      recvFrame granted (fun msgSize => msgSize) (-1, ret) fun msgSize msg =>
        (do let answered ← deserializeAnswer grantedData (some ()) msgSize (some msg)
            useRetArg type ret answered.status answered.retArg).map AnswerCall.told := by
  funext clt
  rw [getAnswer, getAnswerCall, recvFrame_map]
  rfl

theorem charToInt_eq_ok_iff (status : Byte) :
    charToInt status = charToInt rpcRetOk ↔ status = rpcRetOk := by
  revert status
  decide

/-! ### What is done with an answer -/

/-- An undefined type is none of the three. -/
theorem ne_of_not_typeExists {typ : Byte} (h : typeExists typ = false) :
    typ ≠ rpcTyVoid ∧ typ ≠ rpcTyInt ∧ typ ≠ rpcTyStr := by
  rw [← Bool.not_eq_true, typeExists_iff] at h
  simpa only [not_or] using h

/-- The value in the caller's cell, if there is a cell. -/
def RpcArg.assign (cell : Option Data) : RpcArg → Option Data
  | .void => cell
  | .int i => cell.map fun _ => .int i
  | .str s => cell.map fun _ => .str s
  | .other _ _ => cell

/-- A value of a type of the protocol is stored without an assertion. -/
theorem storeData_of_defined {a : RpcArg} (ha : a.Defined) (ret : Option Data) :
    storeData ret a.typ a.block = .ok (a.assign ret) := by
  cases a with
  | void => rfl
  | int i => cases ret <;> rfl
  | str s => cases ret <;> rfl
  | other typ h => exact absurd ha (RpcArg.not_defined_other typ h)

/-- **The label frees the block of a value, if there is one.** -/
theorem desalocateRetArg_value (a : RpcArg) :
    desalocateRetArg a.typ a.block =
      .ok (if (Answered.value a).retArg.allocated then 1 else 0) := by
  cases a with
  | void => rfl
  | int i => rfl
  | str s => rfl
  | other typ h =>
    obtain ⟨-, hint, hstr⟩ := ne_of_not_typeExists h
    show desalocateRetArg typ .null = .ok 0
    unfold desalocateRetArg
    rw [if_neg (not_or_intro hint hstr)]

/-- What is done with a value. -/
theorem useRetArg_value (type : CInt) (ret : Option Data) (a : RpcArg) :
    useRetArg type ret (Answered.value a).status (Answered.value a).retArg =
      (let allocated := (Answered.value a).retArg.allocated
      if charToInt a.typ ≠ type then .ok ⟨-1, ret, allocated, if allocated then 1 else 0⟩
      else (storeData ret a.typ a.block).map fun ret =>
        ⟨0, ret, allocated, if allocated then 1 else 0⟩) := by
  have hok : ¬ (Answered.value a).status ≠ charToInt rpcRetOk := fun hne => hne rfl
  rw [useRetArg, if_neg hok]
  simp only [Answered.retArg, desalocateRetArg_value]
  split_ifs
  · rfl
  · rfl
  · cases storeData ret a.typ a.block <;> rfl
  · cases storeData ret a.typ a.block <;> rfl

/-! ### The reads -/

/-- **What is done with a cut frame.**  A read failed; or the length did not
arrive whole, and is used; or the second read returned a piece `l` of the body,
and that is what is decoded. -/
theorem recvFrame_cases (β : Type) (block : CInt → CInt) {body delivered : List Byte}
    {size : CInt} (hsize : size.toInt = body.length) (hblock : body.length ≤ (block size).toInt)
    (hd : delivered <+: intBytes size ++ body) (cuts : List Cut) :
    (.error ∈ cuts ∧ Socket.ReadsWhole ⟨delivered, cuts⟩ [4, body.length] ∧
      ∀ granted (failure : β) next,
        recvFrame granted block failure next ⟨delivered, cuts⟩ = .ok failure) ∨
    (¬ Socket.ReadsWhole ⟨delivered, cuts⟩ [4, body.length] ∧
      (∀ k, Socket.readLengths ⟨delivered, cuts⟩ [4, body.length] ≠ [some 4, k]) ∧
      ∀ granted (failure : β) next,
        recvFrame granted block failure next ⟨delivered, cuts⟩ = .error .uninitialised) ∨
    ∃ l, l <+: body ∧ 4 + l.length ≤ delivered.length ∧
      Socket.readLengths ⟨delivered, cuts⟩ [4, body.length] = [some 4, some l.length] ∧
      (Socket.ReadsWhole ⟨delivered, cuts⟩ [4, body.length] ↔ l = body) ∧
      ∀ granted (failure : β) next,
        recvFrame granted block failure next ⟨delivered, cuts⟩ =
          if mallocSucceeds granted (block size).toInt then
            next size (Buffer.received l (block size).toInt.toNat)
          else .ok failure := by
  have hlt := toInt_lt_two_pow size
  have hasked : sizeT size.toInt = body.length := by
    rw [hsize, sizeT_of_nonneg (by omega) (by omega)]
    omega
  rcases Socket.recv_cases ⟨delivered, cuts⟩ 4 with ⟨sock, hrecv, herror⟩ |
    ⟨l₁, sock, hrecv, hpending, hle, hcuts⟩
  · -- the first read fails
    refine .inl ⟨herror, by rw [Socket.ReadsWhole, hrecv]; trivial, ?_⟩
    intro granted failure next
    rw [recvFrame, Socket.recvInto_of_recv_none hrecv]
    rfl
  have hfirst := Socket.recvInto_of_recv hrecv hle
  rcases Nat.lt_or_ge l₁.length 4 with hshort | hfour
  · -- part of the length is used without having been received
    refine .inr (.inl ⟨?_, ?_, ?_⟩)
    · rw [Socket.ReadsWhole, hrecv]
      exact fun h => absurd h.1 (Nat.ne_of_lt hshort)
    · intro k h
      rw [Socket.readLengths, hrecv] at h
      simp only [List.cons.injEq, Option.some.injEq] at h
      exact Nat.ne_of_lt hshort h.1
    · intro granted failure next
      rw [recvFrame, hfirst, Checked.ok_bind]
      simp only
      rw [Buffer.readInt_of_end hshort (Buffer.drop_received hshort) rfl]
      rfl
  have hlen₁ : l₁.length = 4 := Nat.le_antisymm hle hfour
  obtain ⟨t, ht⟩ := hd
  simp only at hpending
  rw [hpending, List.append_assoc] at ht
  obtain ⟨rfl, hbody⟩ := List.append_inj ht (by rw [hlen₁]; rfl)
  have hread : Buffer.readInt (Buffer.received (intBytes size) 4) 0 = .ok size :=
    Buffer.readInt_of_drop (List.append_nil _).symm
  rcases Socket.recv_cases sock body.length with ⟨sock', hrecv', herror⟩ |
    ⟨l₂, sock', hrecv', hpending', hle', -⟩
  · -- the second read fails
    refine .inl ⟨hcuts _ herror, ?_, ?_⟩
    · rw [Socket.ReadsWhole, hrecv]
      simp only
      rw [Socket.ReadsWhole, hrecv']
      exact ⟨hlen₁, trivial⟩
    · intro granted failure next
      rw [recvFrame, hfirst, Checked.ok_bind]
      simp only
      rw [hread, Checked.ok_bind, hasked, Socket.recvInto_of_recv_none hrecv']
      split_ifs <;> rfl
  · rw [hpending', List.append_assoc] at hbody
    refine .inr (.inr ⟨l₂, ⟨_, hbody⟩, ?_, ?_, ?_, ?_⟩)
    · rw [hpending, hpending', List.length_append, List.length_append, hlen₁]
      omega
    · rw [Socket.readLengths, hrecv]
      simp only
      rw [Socket.readLengths, hrecv', hlen₁]
      rfl
    · rw [Socket.ReadsWhole, hrecv]
      simp only
      rw [Socket.ReadsWhole, hrecv']
      constructor
      · rintro ⟨-, hlen₂, -⟩
        exact (List.IsPrefix.eq_of_length ⟨_, hbody⟩ hlen₂)
      · rintro rfl
        exact ⟨hlen₁, rfl, trivial⟩
    · intro granted failure next
      rw [recvFrame, hfirst, Checked.ok_bind]
      simp only
      rw [hread, Checked.ok_bind, hasked, Socket.recvInto_of_recv hrecv' (by omega)]
      rfl

/-- A frame that is not cut is decoded from its whole body. -/
theorem recvFrame_uncut {β : Type} {block : CInt → CInt} {body : List Byte} {size : CInt}
    (hsize : size.toInt = body.length) (hblock : body.length ≤ (block size).toInt)
    (granted : Bool) (failure : β) (next : CInt → Buffer Byte → Checked β) :
    recvFrame granted block failure next ⟨intBytes size ++ body, []⟩ =
      if mallocSucceeds granted (block size).toInt then
        next size (Buffer.received body (block size).toInt.toNat)
      else .ok failure := by
  have hreads : Socket.ReadsWhole ⟨intBytes size ++ body, []⟩ [4, body.length] := by
    have h₁ : (⟨intBytes size ++ body, []⟩ : Socket Byte).recv 4 =
        (some (intBytes size), ⟨body, []⟩) := Socket.recv_uncut (intBytes size) body
    have h₂ := Socket.recv_uncut body []
    rw [List.append_nil] at h₂
    rw [Socket.ReadsWhole, h₁]
    simp only
    rw [Socket.ReadsWhole, h₂]
    exact ⟨rfl, rfl, trivial⟩
  rcases recvFrame_cases β block hsize hblock (List.prefix_refl _) [] with ⟨herror, -⟩ |
    ⟨hshort, -⟩ | ⟨l, -, -, -, hwhole, hrun⟩
  · exact absurd herror List.not_mem_nil
  · exact absurd hreads hshort
  · obtain rfl := hwhole.mp hreads
    exact hrun granted failure next

/-- **Of several frames the first is read.** -/
theorem recvFrame_append {β : Type} {block : CInt → CInt} {body : List Byte} {size : CInt}
    (hsize : size.toInt = body.length) (hblock : body.length ≤ (block size).toInt)
    (granted : Bool) (failure : β) (next : CInt → Buffer Byte → Checked β) (rest : List Byte) :
    recvFrame granted block failure next ⟨intBytes size ++ body ++ rest, []⟩ =
      recvFrame granted block failure next ⟨intBytes size ++ body, []⟩ := by
  have hlt := toInt_lt_two_pow size
  have hasked : sizeT size.toInt = body.length := by
    rw [hsize, sizeT_of_nonneg (by omega) (by omega)]
    omega
  have hread : Buffer.readInt (Buffer.received (intBytes size) 4) 0 = .ok size :=
    Buffer.readInt_of_drop (List.append_nil _).symm
  have hfirst : (⟨intBytes size ++ body ++ rest, []⟩ : Socket Byte).recv 4 =
      (some (intBytes size), ⟨body ++ rest, []⟩) := by
    rw [List.append_assoc]
    exact Socket.recv_uncut (intBytes size) (body ++ rest)
  rw [recvFrame_uncut hsize hblock, recvFrame,
    Socket.recvInto_of_recv hfirst (by rw [length_intBytes]), Checked.ok_bind]
  simp only
  rw [hread, Checked.ok_bind, hasked,
    Socket.recvInto_of_recv (Socket.recv_uncut body rest) (by omega)]
  rfl

/-! ### Whole frames -/

/-- The server decodes a whole frame. -/
theorem readMsg_uncut {m : Message} (htr : ∀ a ∈ m.argv, a.Transmissible)
    (hsize : (encodeRequest m).length + 4 < 2 ^ 31) (msg : RawMessage) :
    readMsg true allGranted msg ⟨requestFrame m, []⟩ = .ok (some m) := by
  have hlen : (BitVec.ofNat 32 (encodeRequest m).length).toInt = (encodeRequest m).length :=
    toInt_ofNat_of_lt (by omega)
  have hblock : (BitVec.ofNat 32 (encodeRequest m).length + 1 : CInt).toInt =
      (encodeRequest m).length + 1 := toInt_ofNat_add_one (by omega)
  rw [readMsg, requestFrame, recvFrame_uncut hlen (by rw [hblock]; omega), hblock,
    if_pos (mallocSucceeds_of_nonneg (by omega)), Buffer.received,
    deserializeMessage_of_transmissible htr (by omega) msg]
  rfl

/-- **A whole frame is decoded to the message it was made of, or not at all**, whatever
is allocated. -/
theorem eq_of_readMsg {m m' : Message} (htr : ∀ a ∈ m.argv, a.Transmissible)
    (hsize : (encodeRequest m).length + 4 < 2 ^ 31) {granted : Bool} {alloc : MsgBlock → Bool}
    {msg : RawMessage} (h : readMsg granted alloc msg ⟨requestFrame m, []⟩ = .ok (some m')) :
    m' = m := by
  have hlen : (BitVec.ofNat 32 (encodeRequest m).length).toInt = (encodeRequest m).length :=
    toInt_ofNat_of_lt (by omega)
  have hblock : (BitVec.ofNat 32 (encodeRequest m).length + 1 : CInt).toInt =
      (encodeRequest m).length + 1 := toInt_ofNat_add_one (by omega)
  have hrequest := length_encodeRequest m
  rw [readMsg, requestFrame, recvFrame_uncut hlen (by rw [hblock]; omega)] at h
  split_ifs at h
  · rw [Checked.bind_eq_ok] at h
    obtain ⟨d, hd, h⟩ := h
    rw [Buffer.received, encodeRequest_eq, List.map_append, List.append_assoc,
      deserializeMessage_of_header (by omega)] at hd
    split_ifs at hd
    · cases hd
      cases h
    · cases hd
      cases h
    · rw [Checked.bind_eq_ok] at hd
      obtain ⟨args, hargs, hd⟩ := hd
      cases args with
      | fail slots =>
        cases hd
        cases h
      | done l stop =>
        have htail : ∀ rest : Buffer Byte,
            ((encodeHeader m).map some ++ ((encodeArgs m.argv).map some ++ rest)).drop
              (m.command.length + 9) = (encodeArgs m.argv).map some ++ rest :=
          fun rest => List.drop_left' (by rw [List.length_map, length_encodeHeader])
        have hl : l.1 = m.argv := args_of_decodeArgs htr m.argv_length (htail _) hargs
        cases hd
        have hm := Except.ok.inj h
        change (if _ then none else some _) = some m' at hm
        split_ifs at hm
        cases hm
        simp only [Message.withArgv, hl]
  · cases h

/-- The client stores a value of the type it expects. -/
theorem getAnswer_value {a : RpcArg} (ha : a.Defined)
    (hsize : (encodeAnswer rpcRetOk (some a)).length + 4 < 2 ^ 31)
    (hstr : ∀ s, a = .str s → s.length < 2 ^ 32) (cell : Option Data) :
    getAnswer true true (charToInt a.typ) cell ⟨answerFrame rpcRetOk (some a), []⟩ =
      .ok (0, a.assign cell) := by
  have hlen : (BitVec.ofNat 32 (encodeAnswer rpcRetOk (some a)).length).toInt =
      (encodeAnswer rpcRetOk (some a)).length := toInt_ofNat_of_lt (by omega)
  rw [getAnswer_eq, answerFrame, recvFrame_uncut hlen (by rw [hlen]), hlen,
    if_pos (mallocSucceeds_of_nonneg (by omega)), Int.toNat_natCast, Buffer.received,
    deserializeAnswer_value ha (by omega) hstr, Checked.ok_bind, useRetArg_value]
  simp only
  rw [if_neg (fun hne => hne rfl), storeData_of_defined ha]
  rfl

/-- The client reports an error status, and stores nothing. -/
theorem getAnswer_status {status : Byte} (h : status ≠ rpcRetOk) (type : CInt)
    (cell : Option Data) :
    getAnswer true true type cell ⟨answerFrame status none, []⟩ = .ok (-1, cell) := by
  have hlen : (BitVec.ofNat 32 (encodeAnswer status none).length).toInt =
      (encodeAnswer status none).length := toInt_ofNat_of_lt (show 1 < 2 ^ 31 by decide)
  have hstatus : ¬ charToInt status = charToInt rpcRetOk := by
    intro hok
    exact h ((charToInt_eq_ok_iff status).mp hok)
  have hdecode : ∀ buf : Buffer Byte, deserializeAnswer true (some ())
      (BitVec.ofNat 32 [status].length) (some (some status :: buf)) =
        .ok (.untouched (charToInt status)) := by
    intro buf
    have hsize : ¬ (BitVec.ofNat 32 [status].length).toInt < 1 :=
      show ¬ (1 : CInt).toInt < 1 by decide
    rw [deserializeAnswer, if_neg hsize]
    exact if_neg h
  rw [getAnswer_eq, answerFrame, recvFrame_uncut hlen (by rw [hlen]), hlen,
    if_pos (mallocSucceeds_of_nonneg (by omega)), Buffer.received]
  simp only [encodeAnswer, Option.elim_none, List.map_cons, List.cons_append]
  rw [hdecode, Checked.ok_bind, useRetArg, Answered.status, if_pos hstatus, printErrorStatus,
    if_neg hstatus]
  rfl

end RemoteProcedure
