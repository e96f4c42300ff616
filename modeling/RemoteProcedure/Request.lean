import RemoteProcedure.Integer

/-!
# Building and sending a request

The sender's half of the request protocol: `create_message` copies a call into a
message, and `serialize_message` lays the message out in a block whose size
`arg_size` computed beforehand.  The layout is described a second time by
`encodeRequest`, as the bytes the header of `u_rpc_data.h` prescribes; the two
walks of the source are compared with it, not with each other.

## Main definitions

* `createMessage`, `argSize`, `serializeMessage` — the functions of the source.
* `encodeArg`, `encodeRequest`, `requestFrame` — the bytes of a request.
* `Message.Fits` — the messages whose frame an `int` can measure, with the offsets of
  the stores into it.

## Main results

* `createMessage_allGranted` — without a failed allocation a message is a copy
  of its inputs.
* `serializeMessage_of_fits` — the frame is `requestFrame`, each byte stored once.
* `fits_of_serializeMessage` — no other message is given a frame.
-/

namespace RemoteProcedure

open Machine

/-! ### `create_message` -/

/-- Every allocation succeeds. -/
def allGranted : MsgBlock → Bool := fun _ => true

@[simp] theorem allGranted_eq (b : MsgBlock) : allGranted b = true := rfl

/-- Prepend a finished slot: its pointer if a later slot fails, its argument if
none does. -/
def consSlot {n : ℕ} (p : Ptr Unit) (a : RpcArg) :
    Except (List (Ptr Unit)) { l : List RpcArg // l.length = n } →
      Except (List (Ptr Unit)) { l : List RpcArg // l.length = n + 1 }
  | .error ps => .error (p :: ps)
  | .ok as => .ok ⟨a :: as.1, length_cons_eq a as⟩

/-- The loop of `create_message`, from slot `i` on.  When an allocation fails the
result is what the data pointers of the slots are at the `goto fail`. -/
def copyArgs (alloc : MsgBlock → Bool) : (i : ℕ) → (args : List RpcArg) →
    Except (List (Ptr Unit)) { l : List RpcArg // l.length = args.length }
  | _, [] => .ok ⟨[], List.length_nil⟩
  | i, .void :: as => consSlot .null .void (copyArgs alloc (i + 1) as)
  | i, .int v :: as =>
    if alloc (.data i) then consSlot (.own ()) (.int v) (copyArgs alloc (i + 1) as)
    else .error (.null :: as.map fun _ => .junk)
  | i, .str s :: as =>
    if alloc (.data i) then consSlot (.own ()) (.str s) (copyArgs alloc (i + 1) as)
    else .error (.null :: as.map fun _ => .junk)
  -- an undefined type is not refused: the slot keeps whatever pointer it had
  | i, .other typ h :: as => consSlot .junk (.other typ h) (copyArgs alloc (i + 1) as)

/-- How a call of `create_message` ends. -/
inductive Created where
  /-- It returns -1 before touching the message. -/
  | rejected : Created
  /-- It jumps to `fail` with the message in this state, to return -1. -/
  | failed (raw : RawMessage) : Created
  /-- It returns 0. -/
  | created (m : Message) : Created
  deriving DecidableEq

/-- A string that fits the block `create_message` allocates for it has a length
that an `int` holds. -/
theorem length_bytes_eq_toInt {s : CString}
    (h : ¬ (BitVec.ofNat 32 s.length + 1).toInt < (s.length : ℤ) + 1) :
    (s.bytes.length : ℤ) = (BitVec.ofNat 32 s.length).toInt := by
  have := toInt_lt_two_pow (BitVec.ofNat 32 s.length + 1)
  rw [toInt_ofNat_of_lt (by omega)]
  rfl

/-- `create_message`. -/
def createMessage (alloc : MsgBlock → Bool) (msg : Option RawMessage) (command : Option CString)
    (returnType : Byte) (argc : CInt) (argv : Option (ArgArray argc)) : Checked Created :=
  match msg, command with
  | some raw, some command =>
    if typeExists returnType = false then .ok .rejected
    else
      let commandLength : CInt := BitVec.ofNat 32 command.length
      if mallocSucceeds (alloc .command) (commandLength + 1).toInt = false then
        .ok (.failed { raw with command := .null })
      -- `strcpy` into a block that a truncated length may have made too small
      else if hfit : (commandLength + 1).toInt < (command.length : ℤ) + 1 then .error .outOfRange
      else
        let raw := { raw with command := .own (), argc := some argc }
        if hargc : 0 < argc.toInt then
          match argv with
          | none => .ok (.failed raw)
          | some args =>
            if alloc .argv = false then .ok (.failed { raw with argv := .null })
            else match copyArgs alloc 0 args.1 with
              | .error slots => .ok (.failed { raw with argv := .own slots })
              | .ok copy => .ok (.created
                  { commandLength, command := command.bytes, returnType, argc, argv := copy.1
                    command_length := length_bytes_eq_toInt hfit
                    argv_length := copy.2.trans args.2 })
        else .ok (.created
          { commandLength, command := command.bytes, returnType, argc, argv := []
            command_length := length_bytes_eq_toInt hfit
            argv_length := by simp only [List.length_nil]; omega })
  | _, _ => .ok .rejected

theorem copyArgs_allGranted (args : List RpcArg) : ∀ i : ℕ,
    copyArgs allGranted i args = .ok ⟨args, rfl⟩ := by
  induction args with
  | nil => intro i; rfl
  | cons a as ih =>
    intro i
    cases a <;> simp [copyArgs, allGranted, consSlot, ih (i + 1)]

/-- The message that a successful `create_message` fills in. -/
def newMessage (command : CString) (returnType : Byte) {argc : CInt} (argv : ArgArray argc)
    (hcommand : command.length < 2 ^ 31) : Message where
  commandLength := BitVec.ofNat 32 command.length
  command := command.bytes
  returnType := returnType
  argc := argc
  argv := argv.1
  command_length := by rw [toInt_ofNat_of_lt hcommand]; rfl
  argv_length := argv.2

/-- **Without a failed allocation, `create_message` copies its inputs.** -/
theorem createMessage_allGranted (raw : RawMessage) {command : CString} {returnType : Byte}
    (htype : typeExists returnType = true) {argc : CInt} (argv : ArgArray argc)
    (hcommand : command.length + 1 < 2 ^ 31) :
    createMessage allGranted (some raw) (some command) returnType argc (some argv) =
      .ok (.created (newMessage command returnType argv (by omega))) := by
  have hblock : (BitVec.ofNat 32 command.length + 1 : CInt).toInt = command.length + 1 :=
    toInt_ofNat_add_one hcommand
  have hmalloc : mallocSucceeds (allGranted .command)
      (BitVec.ofNat 32 command.length + 1 : CInt).toInt = true := by
    rw [hblock]
    exact mallocSucceeds_of_nonneg (by omega)
  have hfit : ¬ (BitVec.ofNat 32 command.length + 1 : CInt).toInt < (command.length : ℤ) + 1 := by
    omega
  obtain ⟨args, hargs⟩ := argv
  rw [createMessage]
  simp only [htype, Bool.true_eq_false, if_false, hmalloc, dif_neg hfit]
  split
  · simp only [allGranted, Bool.true_eq_false, if_false]
    rw [copyArgs_allGranted]
    rfl
  · next hargc =>
    -- no argument is copied, and there is none
    have hnil : args = [] := List.length_eq_zero_iff.mp (by omega)
    subst hnil
    rfl

/-! ### The bytes of a request -/

/-- The bytes of a string that `memcpy` is told to copy: all of them, up to the
length an `int` truncates to. -/
def wire (s : CString) : List Byte := s.bytes.take (s.length % 2 ^ 32)

/-- The bytes of an argument: its type, then the integer, or the low byte of the
string's length and the string. -/
def encodeArg : RpcArg → List Byte
  | .void => [rpcTyVoid]
  | .int i => rpcTyInt :: encodeInteger i
  | .str s => rpcTyStr :: BitVec.ofNat 8 s.length :: wire s
  | .other typ _ => [typ]

/-- The bytes of an argument list. -/
def encodeArgs (args : List RpcArg) : List Byte := args.flatMap encodeArg

/-- The bytes of a request after its length field. -/
def encodeRequest (m : Message) : List Byte :=
  intBytes m.commandLength ++ m.command ++ [m.returnType] ++ intBytes m.argc ++ encodeArgs m.argv

/-- A request as it is sent: the number of bytes that follow, and those bytes. -/
def requestFrame (m : Message) : List Byte :=
  intBytes (BitVec.ofNat 32 (encodeRequest m).length) ++ encodeRequest m

/-! ### `arg_size` -/

/-- The loop of `arg_size`; an undefined type makes the whole call return -1. -/
def argSizeLoop (size : CInt) : List RpcArg → CInt
  | [] => size
  | .void :: as => argSizeLoop (size + 1) as
  | .str s :: as => argSizeLoop (size + 1 + BitVec.ofNat 32 (1 + s.length)) as
  | .int tmp :: as =>
    let size := size + 1
    let neg := tmp.slt 0
    let size := if neg then size + 1 else size
    let tmp := if neg then -tmp else tmp
    let size := if tmp = 0 then size + 1 else size
    let size := size + BitVec.ofNat 32 (decimalLength tmp)
    argSizeLoop (size + 1) as
  | .other _ _ :: _ => -1

/-- `arg_size`, of a null pointer or of an array. -/
def argSize : Option (List RpcArg) → CInt
  | none => 0
  | some args => argSizeLoop 0 args

@[simp] theorem encodeArgs_nil : encodeArgs [] = [] := rfl

@[simp] theorem encodeArgs_cons (a : RpcArg) (as : List RpcArg) :
    encodeArgs (a :: as) = encodeArg a ++ encodeArgs as := List.flatMap_cons

theorem length_wire (s : CString) : (wire s).length = s.length % 2 ^ 32 := by
  rw [wire, List.length_take]
  exact Nat.min_eq_left (Nat.mod_le _ _)

theorem wire_of_lt {s : CString} (h : s.length < 2 ^ 32) : wire s = s.bytes := by
  rw [wire, Nat.mod_eq_of_lt h]
  exact List.take_length

/-- One round of the loop adds the size of one encoded argument. -/
theorem argSizeLoop_cons {a : RpcArg} (ha : a.Defined) (size : CInt) (as : List RpcArg) :
    argSizeLoop size (a :: as) =
      argSizeLoop (size + BitVec.ofNat 32 (encodeArg a).length) as := by
  cases a with
  | other typ h => exact absurd ha (RpcArg.not_defined_other typ h)
  | void => rfl
  | str s =>
    have hlen : BitVec.ofNat 32 (encodeArg (.str s)).length = BitVec.ofNat 32 (2 + s.length) := by
      apply BitVec.eq_of_toNat_eq
      simp only [encodeArg, List.length_cons, length_wire, BitVec.toNat_ofNat]
      omega
    rw [hlen, argSizeLoop]
    congr 1
    simp only [BitVec.ofNat_add]
    grind
  | int i =>
    have hlen : (encodeArg (.int i)).length = (integerChars i).length + 2 := rfl
    rw [hlen, argSizeLoop]
    congr 1
    unfold integerChars
    by_cases hneg : i.slt 0 = true
    · have hne := neg_ne_zero_of_slt hneg
      simp only [hneg, if_true, if_neg hne, List.length_cons, length_decimalDigits,
        BitVec.ofNat_add]
      grind
    · by_cases hzero : i = 0
      · subst hzero
        simp
        grind
      · simp only [hneg, Bool.false_eq_true, if_false, if_neg hzero, length_decimalDigits,
          BitVec.ofNat_add]
        grind

/-- **`arg_size` counts the bytes of the encoding**, modulo the width of an
`int`. -/
theorem argSizeLoop_eq {args : List RpcArg} : (∀ a ∈ args, a.Defined) → ∀ size : CInt,
    argSizeLoop size args = size + BitVec.ofNat 32 (encodeArgs args).length := by
  induction args with
  | nil => intro _ size; simp [argSizeLoop]
  | cons a as ih =>
    intro hdef size
    rw [argSizeLoop_cons (hdef a List.mem_cons_self),
      ih fun b hb => hdef b (List.mem_cons_of_mem a hb), encodeArgs_cons,
      List.length_append, BitVec.ofNat_add, BitVec.add_assoc]

/-! ### `serialize_message` -/

/-- The loop of `serialize_message`, storing from offset `cpt` on; no block when
an undefined type makes it jump to `fail`. -/
def serializeArgs : List RpcArg → (blk : Block Byte) → (cpt : CInt) → Checked (Option (Block Byte))
  | [], blk, _ => .ok (some blk)
  | .void :: as, blk, cpt => do
    let blk ← blk.storeAt cpt [rpcTyVoid]
    serializeArgs as blk (cpt + 1)
  | .int i :: as, blk, cpt => do
    let blk ← blk.storeAt cpt [rpcTyInt]
    let (blk, tmp) ← serializeInteger i blk (← Block.place (cpt + 1))
    serializeArgs as blk (cpt + 1 + BitVec.ofNat 32 tmp)
  | .str s :: as, blk, cpt => do
    let blk ← blk.storeAt cpt [rpcTyStr]
    let tmp : CInt := BitVec.ofNat 32 s.length
    let blk ← blk.storeAt (cpt + 1) [intToChar tmp]
    -- `memcpy` of a negative length leaves every object
    if tmp.toInt < 0 then .error .outOfRange
    else do
      let blk ← blk.storeAt (cpt + 1 + 1) (s.bytes.take tmp.toNat)
      serializeArgs as blk (cpt + 1 + 1 + tmp)
  | .other typ _ :: _, blk, cpt => do
    let _ ← blk.storeAt cpt [typ]
    return none

/-- The pointer `argv` of a message: null when there is no argument. -/
def Message.argvPtr (m : Message) : Option (List RpcArg) :=
  if m.argv = [] then none else some m.argv

/-- `serialize_message`: a null pointer, or the block and `*msg_size`. -/
def serializeMessage (granted : Bool) : Option Message → Checked (Option (Block Byte × CInt))
  | none => .ok none
  | some msg =>
    let size : CInt := 8 + msg.commandLength + 1 + argSize msg.argvPtr
    match malloc granted (size.toInt + 4) with
    | none => .ok none
    | some blk => do
      let blk ← blk.store 0 (intBytes size)
      let blk ← blk.store 4 (intBytes msg.commandLength)
      let blk ← blk.store 8 msg.command
      let cpt : CInt := 8 + msg.commandLength
      let blk ← blk.storeAt cpt [msg.returnType]
      let blk ← blk.storeAt (cpt + 1) (intBytes msg.argc)
      let filled ← serializeArgs msg.argv blk (cpt + 1 + 4)
      return filled.map fun blk => (blk, size + 4)

/-- An argument the loop of `serialize_message` stores: of a type of the
protocol, and if it is a string, with a length that truncates to a non-negative
`int`. -/
def RpcArg.Storable : RpcArg → Prop
  | .void => True
  | .int _ => True
  | .str s => s.length % 2 ^ 32 < 2 ^ 31
  | .other _ _ => False

/-- How far behind the start of an argument the last of its stores begins: its type, the
integer, the length byte of a string, its characters. -/
def RpcArg.lastStore : RpcArg → ℕ
  | .int _ => 1
  | .str s => if wire s = [] then 1 else 2
  | _ => 0

/-- Every store of these arguments begins at an offset that an `int` holds. -/
def Placed : (off : ℕ) → List RpcArg → Prop
  | _, [] => True
  | off, a :: as => off + a.lastStore < 2 ^ 31 ∧ Placed (off + (encodeArg a).length) as

/-- The messages whose frame an `int` can measure. -/
structure Message.Fits (m : Message) : Prop where
  /-- Every argument can be stored. -/
  storable : ∀ a ∈ m.argv, a.Storable
  /-- The bytes after the length field are fewer than `2 ^ 31`. -/
  short : (encodeRequest m).length < 2 ^ 31
  /-- So are the bytes before each store of an argument. -/
  placed : Placed (m.command.length + 13) m.argv

theorem RpcArg.Storable.defined {a : RpcArg} (h : a.Storable) : a.Defined := by
  cases a with
  | other typ h' => exact absurd h id
  | _ => rfl

/-- The length `memcpy` is given for a storable string, as the code computes it. -/
theorem take_toNat_eq_wire {s : CString} :
    s.bytes.take (BitVec.ofNat 32 s.length).toNat = wire s := by
  rw [BitVec.toNat_ofNat, wire]

theorem not_toInt_ofNat_neg_iff {n : ℕ} :
    ¬ (BitVec.ofNat 32 n).toInt < 0 ↔ n % 2 ^ 32 < 2 ^ 31 := by
  rw [BitVec.toInt_eq_toNat_cond, BitVec.toNat_ofNat]
  split <;> omega

theorem lastStore_lt (a : RpcArg) : a.lastStore < (encodeArg a).length := by
  cases a with
  | int i => simp [RpcArg.lastStore, encodeArg, length_encodeInteger]
  | str s =>
    rw [RpcArg.lastStore, encodeArg, List.length_cons, List.length_cons]
    split_ifs with hnil
    · omega
    · have := List.length_pos_iff.mpr hnil
      omega
  | _ => exact Nat.zero_lt_one

/-- A frame that an `int` can measure has all its stores in its reach. -/
theorem placed_of_le {args : List RpcArg} : ∀ {off : ℕ}, off + (encodeArgs args).length < 2 ^ 31 →
    Placed off args := by
  induction args with
  | nil => exact fun _ => trivial
  | cons a as ih =>
    intro off h
    have hlast := lastStore_lt a
    rw [encodeArgs_cons, List.length_append] at h
    exact ⟨by omega, ih (by omega)⟩

/-- The cursor moves on by a number of bytes. -/
theorem cursor_add (off n : ℕ) :
    (BitVec.ofNat 32 off + BitVec.ofNat 32 n : CInt) = BitVec.ofNat 32 (off + n) :=
  (BitVec.ofNat_add ..).symm

theorem cursor_succ (off : ℕ) : (BitVec.ofNat 32 off + 1 : CInt) = BitVec.ofNat 32 (off + 1) :=
  cursor_add off 1

/-- The length of a string, as an `int`, is the number of its bytes that are copied. -/
theorem cursor_wire (s : CString) :
    (BitVec.ofNat 32 s.length : CInt) = BitVec.ofNat 32 (wire s).length := by
  apply BitVec.eq_of_toNat_eq
  rw [BitVec.toNat_ofNat, BitVec.toNat_ofNat, length_wire, Nat.mod_mod]

/-- **The loop stores exactly the encoded arguments**, each byte once. -/
theorem serializeArgs_filled {args : List RpcArg} : (∀ a ∈ args, a.Storable) →
    ∀ {l : List Byte} {off n : ℕ}, l.length = off → Placed off args →
      (encodeArgs args).length ≤ n →
      serializeArgs args (Block.filled l n) (BitVec.ofNat 32 off) =
        .ok (some (Block.filled (l ++ encodeArgs args) (n - (encodeArgs args).length))) := by
  induction args with
  | nil => intro _ l off n _ _ _; simp [serializeArgs]
  | cons a as ih =>
    intro hst l off n hoff hplaced hn
    have hrest : ∀ {l' : List Byte} {off' n' : ℕ}, l'.length = off' → Placed off' as →
        (encodeArgs as).length ≤ n' →
        serializeArgs as (Block.filled l' n') (BitVec.ofNat 32 off') = _ :=
      ih fun b hb => hst b (List.mem_cons_of_mem a hb)
    have ha := hst a List.mem_cons_self
    obtain ⟨hlast, hbehind⟩ := hplaced
    rw [encodeArgs_cons, List.length_append] at hn
    rw [encodeArgs_cons, List.length_append, ← Nat.sub_sub, ← List.append_assoc]
    cases a with
    | other typ h => exact absurd ha id
    | void =>
      have hbehind' : Placed (off + 1) as := hbehind
      simp only [encodeArg, List.length_singleton] at hn
      rw [serializeArgs, Block.storeAt_filled_of_le hoff (fun _ => by omega) (by simp; omega),
        Checked.ok_bind, cursor_succ, hrest (by simp [hoff]) hbehind' (by simp; omega)]
      rfl
    | int i =>
      have hlen : (encodeArg (.int i)).length = (encodeInteger i).length + 1 := rfl
      have hint : off + 1 < 2 ^ 31 := hlast
      rw [hlen] at hn ⊢
      rw [serializeArgs, Block.storeAt_filled_of_le hoff (fun _ => by omega) (by simp; omega),
        Checked.ok_bind, cursor_succ, Block.place_ofNat hint, Checked.ok_bind,
        serializeInteger_filled_of_le i (by simp [hoff]) (by simp; omega), Checked.ok_bind]
      simp only
      rw [cursor_add, hrest (by simp [hoff]; omega) ?_ (by simp; omega)]
      · simp [encodeArg, Nat.sub_sub, Nat.add_comm]
      · rwa [hlen, Nat.add_comm _ 1, ← Nat.add_assoc] at hbehind
    | str s =>
      have hnonneg : ¬ (BitVec.ofNat 32 s.length).toInt < 0 := not_toInt_ofNat_neg_iff.mpr ha
      have hlen : (encodeArg (.str s)).length = (wire s).length + 2 := rfl
      have hchars : wire s ≠ [] → off + 1 + 1 < 2 ^ 31 := by
        intro hne
        rw [RpcArg.lastStore, if_neg hne] at hlast
        exact hlast
      have hbyte : off + 1 < 2 ^ 31 := by
        rw [RpcArg.lastStore] at hlast
        split_ifs at hlast <;> omega
      have hcursor : (BitVec.ofNat 32 (off + 1 + 1) + BitVec.ofNat 32 s.length : CInt) =
          BitVec.ofNat 32 (off + 1 + 1 + (wire s).length) := by
        rw [cursor_wire, cursor_add]
      rw [hlen] at hn ⊢
      rw [serializeArgs, Block.storeAt_filled_of_le hoff (fun _ => by omega) (by simp; omega),
        Checked.ok_bind]
      simp only
      rw [cursor_succ, Block.storeAt_filled_of_le (by simp [hoff]) (fun _ => hbyte)
          (by simp; omega), Checked.ok_bind, if_neg hnonneg, take_toNat_eq_wire, cursor_succ,
        Block.storeAt_filled_of_le (by simp [hoff]) hchars (by simp; omega), Checked.ok_bind,
        hcursor, hrest (by simp [hoff]; omega) ?_ (by simp; omega)]
      · simp [encodeArg, intToChar_ofNat, Nat.sub_sub, length_wire, Nat.add_comm]
      · rwa [hlen, Nat.add_comm _ 2, ← Nat.add_assoc] at hbehind

theorem argSize_argvPtr {m : Message} (h : ∀ a ∈ m.argv, a.Defined) :
    argSize m.argvPtr = BitVec.ofNat 32 (encodeArgs m.argv).length := by
  unfold Message.argvPtr
  split_ifs with hnil
  · rw [hnil]; rfl
  · rw [argSize, argSizeLoop_eq h]
    exact BitVec.zero_add _

theorem length_encodeRequest (m : Message) :
    (encodeRequest m).length = m.command.length + (encodeArgs m.argv).length + 9 := by
  simp only [encodeRequest, List.length_append, length_intBytes, List.length_singleton]
  omega

theorem commandLength_eq_ofNat (m : Message) :
    m.commandLength = BitVec.ofNat 32 m.command.length := by
  have hlt := toInt_lt_two_pow m.commandLength
  have hlen := m.command_length
  apply BitVec.eq_of_toInt_eq
  rw [toInt_ofNat_of_lt (by omega), hlen]

/-- The size `serialize_message` computes is that of the encoding, modulo the
width of an `int`. -/
theorem size_eq_ofNat {m : Message} (h : ∀ a ∈ m.argv, a.Defined) :
    8 + m.commandLength + 1 + argSize m.argvPtr = BitVec.ofNat 32 (encodeRequest m).length := by
  rw [argSize_argvPtr h, length_encodeRequest, commandLength_eq_ofNat, BitVec.ofNat_add,
    BitVec.ofNat_add]
  grind

theorem length_requestFrame (m : Message) :
    (requestFrame m).length = (encodeRequest m).length + 4 := by
  rw [requestFrame, List.length_append, length_intBytes]
  omega

/-- The cursor behind the command. -/
theorem cursor_command (m : Message) :
    (8 + m.commandLength : CInt) = BitVec.ofNat 32 (m.command.length + 8) := by
  rw [commandLength_eq_ofNat, Nat.add_comm]
  exact cursor_add 8 m.command.length

theorem cursor_int (off : ℕ) : (BitVec.ofNat 32 off + 4 : CInt) = BitVec.ofNat 32 (off + 4) :=
  cursor_add off 4

/-- A frame that an `int` can measure leaves room for all. -/
theorem fits_of_short {m : Message} (hst : ∀ a ∈ m.argv, a.Storable)
    (h : (encodeRequest m).length + 4 < 2 ^ 31) : m.Fits := by
  have hlength := length_encodeRequest m
  exact ⟨hst, by omega, placed_of_le (by omega)⟩

/-- **The frame is `requestFrame`**: every byte of the block stored exactly once,
and `*msg_size` its number of bytes. -/
theorem serializeMessage_of_fits {m : Message} (h : m.Fits) :
    serializeMessage true (some m) =
      .ok (some (Block.filled (requestFrame m) 0, BitVec.ofNat 32 (requestFrame m).length)) := by
  have hshort := h.short
  have hsize := size_eq_ofNat fun a ha => (h.storable a ha).defined
  have hint : (BitVec.ofNat 32 (encodeRequest m).length).toInt = (encodeRequest m).length :=
    toInt_ofNat_of_lt hshort
  have hroom : ((encodeRequest m).length + 4 : ℤ).toNat =
      m.command.length + (encodeArgs m.argv).length + 13 := by
    rw [length_encodeRequest]
    omega
  have hlength := length_encodeRequest m
  rw [serializeMessage, hsize, hint, malloc_of_nonneg (by omega), hroom]
  -- five fields and the arguments, each stored at the end of what is filled
  simp only [cursor_command, cursor_succ, cursor_int]
  rw [Block.store_filled_of_le (List.length_nil : ([] : List Byte).length = 0) (by simp),
    Checked.ok_bind, Block.store_filled_of_le (by simp) (by simp), Checked.ok_bind,
    Block.store_filled_of_le (by simp) (by simp; omega), Checked.ok_bind,
    Block.storeAt_filled_of_le (by simp; omega) (fun _ => by omega) (by simp; omega),
    Checked.ok_bind,
    Block.storeAt_filled_of_le (by simp; omega) (fun _ => by omega) (by simp; omega),
    Checked.ok_bind, serializeArgs_filled h.storable (by simp; omega) h.placed (by simp; omega),
    Checked.ok_bind]
  simp only [Nat.sub_sub]
  rw [Nat.sub_eq_zero_of_le (by simp; omega), length_requestFrame, BitVec.ofNat_add, requestFrame]
  simp only [encodeRequest, List.nil_append, List.append_assoc]
  rfl

/-- A loop that returned a block stored every argument inside it. -/
theorem storable_of_serializeArgs {args : List RpcArg} : ∀ {blk blk' : Block Byte} {off : ℕ},
    off ≤ blk.length → blk.length < 2 ^ 32 →
      serializeArgs args blk (BitVec.ofNat 32 off) = .ok (some blk') →
      (∀ a ∈ args, a.Storable) ∧ off + (encodeArgs args).length ≤ blk.length ∧
        Placed off args := by
  induction args with
  | nil =>
    intro blk blk' off hoff _ _
    exact ⟨fun a ha => absurd ha List.not_mem_nil, hoff, trivial⟩
  | cons a as ih =>
    intro blk blk' off hoff hblk h
    cases a with
    | void =>
      rw [serializeArgs, Checked.bind_eq_ok, cursor_succ] at h
      obtain ⟨blk₁, h₁, hrest⟩ := h
      obtain ⟨hlen₁, hroom, hlt⟩ := Block.length_storeAt_one (by omega) h₁
      obtain ⟨hst, hfit, hplaced⟩ := ih (by omega) (by omega) hrest
      refine ⟨List.forall_mem_cons.mpr ⟨trivial, hst⟩, ?_, hlt, hplaced⟩
      simp only [encodeArgs_cons, encodeArg, List.length_append, List.length_singleton]
      omega
    | int i =>
      rw [serializeArgs, Checked.bind_eq_ok, cursor_succ] at h
      obtain ⟨blk₁, h₁, h⟩ := h
      rw [Checked.bind_eq_ok] at h
      obtain ⟨k, hk, h⟩ := h
      rw [Checked.bind_eq_ok] at h
      obtain ⟨⟨blk₂, tmp⟩, h₂, hrest⟩ := h
      obtain ⟨hlen₁, hroom, -⟩ := Block.length_storeAt_one (by omega) h₁
      obtain ⟨hlt, rfl⟩ := Block.lt_of_place (by omega) hk
      obtain ⟨hlen₂, hfit₂, rfl⟩ := length_serializeInteger h₂
      simp only [cursor_add] at hrest
      obtain ⟨hst, hfit, hplaced⟩ := ih (by omega) (by omega) hrest
      have hlen : (encodeArg (.int i)).length = (encodeInteger i).length + 1 := rfl
      refine ⟨List.forall_mem_cons.mpr ⟨trivial, hst⟩, ?_, hlt, ?_⟩
      · rw [encodeArgs_cons, List.length_append, hlen]
        omega
      · rwa [hlen, Nat.add_comm _ 1, ← Nat.add_assoc]
    | str s =>
      rw [serializeArgs, Checked.bind_eq_ok] at h
      obtain ⟨blk₁, h₁, h⟩ := h
      rw [Checked.bind_eq_ok, cursor_succ] at h
      obtain ⟨blk₂, h₂, h⟩ := h
      split at h
      · cases h
      · next hnonneg =>
        rw [Checked.bind_eq_ok, cursor_succ, take_toNat_eq_wire] at h
        obtain ⟨blk₃, h₃, hrest⟩ := h
        obtain ⟨hlen₁, hroom₁, -⟩ := Block.length_storeAt_one (by omega) h₁
        obtain ⟨hlen₂, hroom₂, hbyte⟩ := Block.length_storeAt_one (by omega) h₂
        obtain ⟨hlen₃, hfit₃⟩ := Block.length_storeAt (by omega) h₃
        -- an empty string stores nothing, so its room is that of its length byte
        have hroom₃ : off + 1 + 1 + (wire s).length ≤ blk.length := by
          rcases eq_or_ne (wire s) [] with hnil | hne
          · rw [hnil, List.length_nil]
            omega
          · have := hfit₃ hne
            omega
        rw [cursor_wire, cursor_add] at hrest
        obtain ⟨hst, hfit, hplaced⟩ := ih (by omega) (by omega) hrest
        have hlen : (encodeArg (.str s)).length = (wire s).length + 2 := rfl
        refine ⟨List.forall_mem_cons.mpr ⟨not_toInt_ofNat_neg_iff.mp hnonneg, hst⟩, ?_, ?_, ?_⟩
        · rw [encodeArgs_cons, List.length_append, hlen]
          omega
        · rw [RpcArg.lastStore]
          split_ifs with hnil
          · exact hbyte
          · exact (hfit₃ hnil).2
        · rwa [hlen, Nat.add_comm _ 2, ← Nat.add_assoc]
    | other typ hother =>
      rw [serializeArgs, Checked.bind_eq_ok] at h
      obtain ⟨blk₁, -, h⟩ := h
      cases h

/-- **A call that ends without a fault** got no block, or one in which the fields
before the arguments, and then the arguments, were stored. -/
theorem serializeMessage_cases {granted : Bool} {m : Message} {res : Option (Block Byte × CInt)}
    (h : serializeMessage granted (some m) = .ok res) :
    malloc (α := Byte) granted ((8 + m.commandLength + 1 + argSize m.argvPtr).toInt + 4) = none ∨
    ∃ blk filled, (blk.length : ℤ) = (8 + m.commandLength + 1 + argSize m.argvPtr).toInt + 4 ∧
      m.command.length + 13 ≤ blk.length ∧
      serializeArgs m.argv blk (BitVec.ofNat 32 (m.command.length + 13)) = .ok filled ∧
      res = filled.map fun blk => (blk, 8 + m.commandLength + 1 + argSize m.argvPtr + 4) := by
  unfold serializeMessage at h
  simp only at h
  split at h
  · next hmalloc => exact .inl hmalloc
  · next blk₀ hmalloc =>
    simp only [Checked.bind_eq_ok, Checked.pure_eq] at h
    obtain ⟨blk₁, h₁, blk₂, h₂, blk₃, h₃, blk₄, h₄, blk₅, h₅, filled, hargs, hres⟩ := h
    rw [cursor_command] at h₄
    rw [cursor_command, cursor_succ] at h₅
    rw [cursor_command, cursor_succ, cursor_int] at hargs
    have hcommand := m.command_length
    have hlt := toInt_lt_two_pow m.commandLength
    have hlen₀ := length_of_malloc hmalloc
    obtain ⟨hlen₁, -⟩ := Block.length_store h₁
    obtain ⟨hlen₂, -⟩ := Block.length_store h₂
    obtain ⟨hlen₃, -⟩ := Block.length_store h₃
    obtain ⟨hlen₄, -⟩ := Block.length_storeAt (by omega) h₄
    obtain ⟨hlen₅, hfit₅⟩ := Block.length_storeAt (by omega) h₅
    obtain ⟨hroom, -⟩ := hfit₅ (List.cons_ne_nil _ _)
    rw [length_intBytes] at hroom
    exact .inr ⟨blk₅, filled, by omega, by omega, hargs, (Except.ok.inj hres).symm⟩

/-- A block the arguments fit into is one an `int` measures. -/
theorem fits_of_serializeArgs {m : Message} {blk blk' : Block Byte} {size : CInt}
    (hlen : (blk.length : ℤ) = size.toInt + 4) (hroom : m.command.length + 13 ≤ blk.length)
    (h : serializeArgs m.argv blk (BitVec.ofNat 32 (m.command.length + 13)) = .ok (some blk')) :
    m.Fits := by
  have hlt := toInt_lt_two_pow size
  obtain ⟨hst, hfit, hplaced⟩ := storable_of_serializeArgs hroom (by omega) h
  exact ⟨hst, by rw [length_encodeRequest]; omega, hplaced⟩

/-- **No other message is given a frame.** -/
theorem fits_of_serializeMessage {granted : Bool} {m : Message} {blk : Block Byte} {n : CInt}
    (h : serializeMessage granted (some m) = .ok (some (blk, n))) : m.Fits := by
  rcases serializeMessage_cases h with hmalloc | ⟨blk₀, filled, hlen, hroom, hargs, hres⟩
  · rw [serializeMessage] at h
    simp only [hmalloc] at h
    cases h
  · cases filled with
    | none => cases hres
    | some blk' => exact fits_of_serializeArgs hlen hroom hargs

end RemoteProcedure
