import RemoteProcedure.MessageCleanup
import RemoteProcedure.Receive

/-!
# The client

`external_call` builds a message on its stack, has it sent, receives the answer, and
frees the message.  What `create_message` returned is not looked at, nor what
`serialize_message` did: a message that was not built is serialised, a frame that there
is none of is sent, and a message that was freed is freed again.

The peer is a parameter: for a request, what is to be received on the connection, and
what else came of it.

## Main definitions

* `StackMessage` — the message on the stack.
* `sendCmd`, `transmition`, `externalCall` — the functions of the source.

## Main results

* `sendCmd_of_fits`, `filled_of_sendCmd` — **a request that can be measured is sent
  whole, and no other**.
* `isSome_externalCall` — a call for which everything is granted comes to an end.
-/

namespace RemoteProcedure

open Machine

/-! ### Steps that take fuel -/

/-- A step that may run out of fuel, and what comes after it. -/
def andThen {α β : Type} (r : Option (Checked α)) (next : α → Option (Checked β)) :
    Option (Checked β) :=
  match r with
  | none => none
  | some (.error e) => some (.error e)
  | some (.ok a) => next a

@[simp] theorem andThen_ok {α β : Type} (a : α) (next : α → Option (Checked β)) :
    andThen (some (.ok a)) next = next a := rfl

theorem andThen_eq_ok {α β : Type} {r : Option (Checked α)} {next : α → Option (Checked β)} {b : β}
    (h : andThen r next = some (.ok b)) : ∃ a, r = some (.ok a) ∧ next a = some (.ok b) := by
  rcases r with _ | ⟨e | a⟩
  · cases h
  · cases h
  · exact ⟨a, rfl, h⟩

theorem isSome_andThen {α β : Type} {r : Option (Checked α)} {next : α → Option (Checked β)}
    (hr : r.isSome) (hnext : ∀ a, r = some (.ok a) → (next a).isSome) :
    (andThen r next).isSome := by
  rcases r with _ | ⟨e | a⟩
  · cases hr
  · rfl
  · exact hnext a rfl

/-! ### The message on the stack -/

/-- The blocks of a call. -/
inductive ClientBlock where
  /-- The array of the arguments. -/
  | args : ClientBlock
  /-- A block of the message. -/
  | msg (b : MsgBlock) : ClientBlock
  /-- The serialised message. -/
  | serial : ClientBlock
  /-- The answer. -/
  | answer : ClientBlock
  /-- The value in the answer. -/
  | data : ClientBlock
  deriving DecidableEq

/-- The variable `msg` of `external_call` behind `create_message`. -/
inductive StackMessage where
  /-- No field was assigned. -/
  | unset : StackMessage
  /-- The fields are as at `goto fail`, and the blocks were freed. -/
  | freed (commandLength : CInt) (returnType : Byte) (raw : RawMessage) : StackMessage
  | filled (m : Message) : StackMessage

/-- `create_message(&msg, ...)`, with its clean-up. -/
def createStackMessage (fuel : ℕ) (alloc : ClientBlock → Bool) (command : Option CString)
    (returnType : Byte) {argc : CInt} (args : ArgArray argc) : Option (Checked StackMessage) :=
  match createMessage (fun b => alloc (.msg b)) (some .unset) command returnType argc
      (some args) with
  | .error e => some (.error e)
  | .ok .rejected => some (.ok .unset)
  | .ok (.failed raw) => andThen (createFail fuel argc raw) fun _ =>
    some (.ok (.freed (command.elim 0 fun c => BitVec.ofNat 32 c.length) returnType raw))
  | .ok (.created m) => some (.ok (.filled m))

namespace StackMessage

/-- The field `return_type`. -/
def returnType : StackMessage → Checked Byte
  | unset => .error .uninitialised
  | freed _ returnType _ => .ok returnType
  | filled m => .ok m.returnType

/-- `serialize_message(&size, msg)`. -/
def serialize (granted : Bool) : StackMessage → Checked (Option (Block Byte × CInt))
  | unset => .error .uninitialised
  | freed commandLength _ raw =>
    match raw.argc, raw.argv with
    | none, _ => .error .uninitialised
    | some _, .junk => .error .uninitialised
    | some _, .own _ => .error .freed
    | some _, .null =>
      -- `arg_size` returns 0; then the command is copied
      if mallocSucceeds granted ((8 + commandLength + 1 : CInt).toInt + 4) then .error .freed
      else .ok none
  | filled m => serializeMessage granted (some m)

/-- `free_message(&msg)`. -/
def free (fuel : ℕ) : StackMessage → Option (Checked Unit)
  | unset => some (.error .uninitialised)
  | freed _ _ raw =>
    match raw.command, raw.argv with
    | .own _, _ => some (.error .freed)
    | _, .own _ => some (.error .freed)
    | _, _ => (freeMessage fuel raw).map (·.map fun _ => ())
  | filled m => (freeMessage fuel m.raw).map (·.map fun _ => ())

end StackMessage

/-! ### The call -/

/-- `sendCmd`: the bytes that were sent on the new connection, if it returns one. -/
def sendCmd (granted connected accepted : Bool) (msg : StackMessage) :
    Checked (Option (List Byte)) := do
  let serial ← msg.serialize granted
  -- the result of `serialize_message` is not tested, nor was `size` set
  if connected then send accepted (serial.map Prod.fst) (serial.map Prod.snd)
  else return none

/-- What a call returns, what the caller's pointer then points to, and what came of the
request at the peer. -/
structure Returned (τ : Type) where
  ret : CInt
  cell : Option Data
  effects : List τ

section

variable {τ : Type} (alloc : ClientBlock → Bool) (connected accepted : Bool)
  (serve : List Byte → Checked (Socket Byte × List τ))

/-- `transmition`. -/
def transmition (ret : Option Data) (msg : StackMessage) : Checked (Returned τ) := do
  match ← sendCmd (alloc .serial) connected accepted msg with
  | none => return ⟨-1, ret, []⟩
  | some request =>
    let (clt, effects) ← serve request
    let returnType ← msg.returnType
    let (answer, ret) ← getAnswer (alloc .answer) (alloc .data) (charToInt returnType) ret clt
    return ⟨if answer.toInt < 0 then -1 else 0, ret, effects⟩

/-- `external_call` from the array of its arguments on. -/
def externalCall (fuel : ℕ) (command : Option CString) (returnType : Byte) (ret : Option Data)
    {argc : CInt} (args : ArgArray argc) : Option (Checked (Returned τ)) :=
  andThen (createStackMessage fuel alloc command returnType args) fun msg =>
  andThen (some (transmition alloc connected accepted serve ret msg)) fun out =>
  andThen (msg.free fuel) fun _ => some (.ok out)

end

/-! ### What is sent -/

theorem sizeT_of_wrapped {n : ℕ} (h : 2 ^ 31 ≤ n) (hlt : n < 2 ^ 32) :
    n < sizeT (BitVec.ofNat 32 n).toInt := by
  rw [BitVec.toInt_eq_toNat_cond, BitVec.toNat_ofNat, Nat.mod_eq_of_lt hlt, if_neg (by omega)]
  unfold sizeT
  omega

/-- A request is sent whole, or not at all, if its frame can be measured. -/
theorem sendCmd_of_fits {m : Message} (hst : ∀ a ∈ m.argv, a.Storable)
    (hsize : (encodeRequest m).length + 4 < 2 ^ 31) (connected accepted : Bool) :
    sendCmd true connected accepted (.filled m) =
      .ok (if connected && accepted then some (requestFrame m) else none) := by
  have hframe := length_requestFrame m
  rw [sendCmd, StackMessage.serialize, serializeMessage_of_fits (fits_of_short hst hsize),
    Checked.ok_bind]
  cases connected with
  | false => rfl
  | true =>
    cases accepted with
    | false => rfl
    | true =>
      apply send_of_contents (Block.contents_filled _)
      rw [toInt_ofNat_of_lt (by omega), Block.length_filled]
      rfl

/-- A message is filled in by `create_message` alone. -/
theorem created_of_stackMessage {alloc : ClientBlock → Bool} {command : Option CString}
    {fuel : ℕ} {returnType : Byte} {argc : CInt} {args : ArgArray argc} {m : Message}
    (h : createStackMessage fuel alloc command returnType args = some (.ok (.filled m))) :
    createMessage (fun b => alloc (.msg b)) (some .unset) command returnType argc (some args) =
      .ok (.created m) := by
  rw [createStackMessage] at h
  split at h
  · cases h
  · cases h
  · obtain ⟨freed, -, h⟩ := andThen_eq_ok h
    cases h
  · next hm =>
    cases h
    exact hm

/-- **What is sent was serialised**, from a message that was created and that can be
measured. -/
theorem filled_of_sendCmd {granted : Bool} {msg : StackMessage} {sent : Option (List Byte)}
    (h : sendCmd granted true true msg = .ok sent) :
    granted = true ∧ ∃ m, msg = .filled m ∧ (∀ a ∈ m.argv, a.Storable) ∧
      (encodeRequest m).length + 4 < 2 ^ 31 := by
  rw [sendCmd, Checked.bind_eq_ok] at h
  obtain ⟨serial, hserial, hsend⟩ := h
  rw [if_pos rfl] at hsend
  -- without a block the size is not set
  have hsome : serial ≠ none := by
    rintro rfl
    cases hsend
  obtain ⟨serial, rfl⟩ := Option.ne_none_iff_exists'.mp hsome
  cases msg with
  | unset => cases hserial
  | freed commandLength returnType raw =>
    rw [StackMessage.serialize] at hserial
    split at hserial
    · cases hserial
    · cases hserial
    · cases hserial
    · split_ifs at hserial
      cases hserial
  | filled m =>
    cases granted with
    | false => cases hserial
    | true =>
      have hfits := fits_of_serializeMessage hserial
      rw [StackMessage.serialize, serializeMessage_of_fits hfits] at hserial
      cases hserial
      refine ⟨rfl, m, rfl, hfits.storable, ?_⟩
      by_contra hlong
      have hshort := hfits.short
      have hframe := length_requestFrame m
      have hroom := sizeT_of_wrapped (n := (requestFrame m).length) (by omega) (by omega)
      -- the size is negative, and converts to more than the block
      rw [Option.map_some, Option.map_some, send, if_neg (by decide),
        if_neg (by rw [Block.length_filled]; exact Nat.not_le_of_lt hroom)] at hsend
      cases hsend

/-! ### The end of a call -/

/-- A message of defined types is freed, with the fuel that its arguments take. -/
theorem free_of_defined {m : Message} (h : ∀ a ∈ m.argv, a.Defined) :
    (StackMessage.filled m).free (m.argv.length + 1) = some (.ok ()) := by
  have hlength := m.argv_length
  rw [StackMessage.free]
  unfold Message.raw
  split_ifs with hargv
  · rw [hargv, List.length_nil] at hlength
    simp only [freeMessage, if_neg (show ¬ 0 < m.argc.toInt by omega)]
    rfl
  · have hslots : (m.argv.map RpcArg.slot).length = m.argc.toInt.toNat := by
      rw [List.length_map, hlength]
    have hloop := freeSlots_eq_owned hslots ((junk_notMem_slots_iff m.argv).mpr h)
    rw [List.length_map] at hloop
    exact congrArg (Option.map (·.map fun _ => ())) hloop

/-- `free_message` comes to an end, with the fuel that the arguments take. -/
theorem isSome_free {msg : StackMessage} {fuel : ℕ}
    (h : ∀ m, msg = .filled m → m.argv.length ≤ fuel) : (msg.free (fuel + 1)).isSome := by
  cases msg with
  | unset => rfl
  | freed commandLength returnType raw =>
    rw [StackMessage.free]
    split
    · rfl
    · rfl
    · next hargv =>
      rw [Option.isSome_map]
      exact isSome_freeMessage fun argc slots _ hown => absurd hown (hargv slots)
  | filled m =>
    have hfuel := h m rfl
    have hlength := m.argv_length
    rw [StackMessage.free, Option.isSome_map]
    refine isSome_freeMessage ?_
    rintro argc slots ⟨⟩ -
    show m.argc.toInt ≤ fuel
    omega

/-- With everything granted the message is a copy of what the call was given. -/
theorem eq_newMessage_of_created {raw : RawMessage} {command : CString} {returnType : Byte}
    {argc : CInt} {args : ArgArray argc} {m : Message}
    (h : createMessage allGranted (some raw) (some command) returnType argc (some args) =
      .ok (.created m)) :
    typeExists returnType = true ∧
      ∃ hcommand : command.length < 2 ^ 31, m = newMessage command returnType args hcommand := by
  have hboth : typeExists returnType = true ∧ command.length + 1 < 2 ^ 31 := by
    unfold createMessage at h
    simp only at h
    split_ifs at h with htype hmalloc hfit hargc
    · cases h
    · cases h
    all_goals
      have := toInt_lt_two_pow (BitVec.ofNat 32 command.length + 1)
      exact ⟨by simpa using htype, by omega⟩
  obtain ⟨htype, hlen⟩ := hboth
  rw [createMessage_allGranted raw htype args hlen] at h
  cases h
  exact ⟨htype, by omega, rfl⟩

/-- When everything is granted the clean-up of `create_message` comes to no loop. -/
theorem isSome_createStackMessage (fuel : ℕ) (command : CString) (returnType : Byte) {argc : CInt}
    (args : ArgArray argc) :
    (createStackMessage fuel (fun _ => true) (some command) returnType args).isSome := by
  have halloc : (fun b => (fun _ : ClientBlock => true) (.msg b)) = allGranted := rfl
  rw [createStackMessage, halloc]
  cases htype : typeExists returnType with
  | false =>
    have hrefused : createMessage allGranted (some .unset) (some command) returnType argc
        (some args) = .ok .rejected := by
      simp [createMessage, htype]
    rw [hrefused]
    rfl
  | true =>
    by_cases hlen : command.length + 1 < 2 ^ 31
    · rw [createMessage_allGranted .unset htype args hlen]
      rfl
    · rcases createMessage_of_noCommand htype (fun h => hlen h.2) (some args) with h | h <;>
      · rw [h]
        rfl

/-- **A call for which everything is granted comes to an end**, with the fuel that its
arguments take. -/
theorem isSome_externalCall {τ : Type} (connected accepted : Bool)
    (serve : List Byte → Checked (Socket Byte × List τ)) (command : CString) (returnType : Byte)
    (ret : Option Data) {argc : CInt} (args : ArgArray argc) :
    (externalCall (fun _ => true) connected accepted serve (args.1.length + 1) (some command)
      returnType ret args).isSome := by
  refine isSome_andThen (isSome_createStackMessage _ command returnType args) ?_
  intro msg hcreate
  refine isSome_andThen rfl fun out _ => isSome_andThen (isSome_free ?_) fun _ _ => rfl
  rintro m rfl
  obtain ⟨-, -, rfl⟩ := eq_newMessage_of_created (created_of_stackMessage hcreate)
  exact Nat.le_refl _

end RemoteProcedure
