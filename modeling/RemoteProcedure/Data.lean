import RemoteProcedure.Machine.Memory

/-!
# The data of a remote call

The constants and structures of `u_rpc_data.h`: the type and status bytes, an
argument, and the message a client sends.

A `struct rpc_arg` is a type byte beside an untyped pointer.  Its callers always
hand over a pointer to what the type byte announces, so an argument here is one
of three typed values, or a type byte outside the protocol, whose pointer nobody
follows.

A `struct message` holds two arrays beside their lengths.  The structure carries
the two equations between them, so that a message whose `argc` does not count its
`argv` cannot be built.  While a message is under construction nothing of the
sort holds: that state is a `RawMessage`.

## Main definitions

* `typeExists` — is a byte one of the three types.
* `RpcArg`, `Message` — the structures of the same names.
* `RawMessage` — the pointers of a message under construction.
-/

namespace RemoteProcedure

open Machine

/-! ### Type and status bytes -/

def rpcTyVoid : Byte := 0x00
def rpcTyInt : Byte := 0x01
def rpcTyStr : Byte := 0x02

def rpcRetOk : Byte := 0x00
def rpcRetUnknownFunc : Byte := 0x01
def rpcRetWrongArg : Byte := 0x02
def rpcRetNoAnswer : Byte := 0x03
def rpcRetWrongTyp : Byte := 0x04
def rpcWrongNumberArgs : Byte := 0x05

/-- Is the byte a type of the protocol.  The comparison is between signed
`char`s, so the bytes from `0x80` on are below `RPC_TY_VOID`. -/
def typeExists (type : Byte) : Bool :=
  decide (rpcTyVoid.toInt ≤ type.toInt) && decide (type.toInt ≤ rpcTyStr.toInt)

/-- The three bytes `typeExists` accepts. -/
theorem typeExists_iff (type : Byte) :
    typeExists type = true ↔ type = rpcTyVoid ∨ type = rpcTyInt ∨ type = rpcTyStr := by
  revert type
  decide

/-! ### Arguments -/

/-- What a data pointer points to. -/
inductive Data where
  /-- The null pointer. -/
  | null : Data
  /-- An `int`. -/
  | int (i : CInt) : Data
  /-- A string. -/
  | str (s : CString) : Data
  deriving DecidableEq, Repr

/-- A `struct rpc_arg`. -/
inductive RpcArg where
  /-- A `RPC_TY_VOID` argument. -/
  | void : RpcArg
  /-- A `RPC_TY_INT` argument. -/
  | int (i : CInt) : RpcArg
  /-- A `RPC_TY_STR` argument. -/
  | str (s : CString) : RpcArg
  /-- A type byte outside the protocol. -/
  | other (typ : Byte) (h : typeExists typ = false) : RpcArg
  deriving DecidableEq

namespace RpcArg

/-- The field `typ`. -/
def typ : RpcArg → Byte
  | void => rpcTyVoid
  | int _ => rpcTyInt
  | str _ => rpcTyStr
  | other typ _ => typ

/-- The field `data`.  The pointer of an argument outside the protocol is never
followed; it stands here as null. -/
def data : RpcArg → Data
  | void => .null
  | int i => .int i
  | str s => .str s
  | other _ _ => .null

/-- The argument is of one of the three types of the protocol. -/
def Defined (a : RpcArg) : Prop := typeExists a.typ = true

instance (a : RpcArg) : Decidable a.Defined := inferInstanceAs (Decidable (_ = true))

@[simp] theorem not_defined_other (typ : Byte) (h : typeExists typ = false) :
    ¬ (other typ h).Defined := by
  simp [Defined, RpcArg.typ, h]

end RpcArg

/-! ### Messages -/

/-- A `struct message` whose fields are all set. -/
@[ext] structure Message where
  /-- The field `command_length`. -/
  commandLength : CInt
  /-- The bytes of the block `command`, before the NUL that ends the block. -/
  command : List Byte
  /-- The field `return_type`. -/
  returnType : Byte
  /-- The field `argc`. -/
  argc : CInt
  /-- The array `argv`; the pointer is null exactly when it is empty. -/
  argv : List RpcArg
  /-- The block `command` has the announced length. -/
  command_length : (command.length : ℤ) = commandLength.toInt
  /-- The array `argv` has `argc` entries, none when `argc` is negative. -/
  argv_length : argv.length = argc.toInt.toNat
  deriving DecidableEq

/-- One more entry makes an array of one more. -/
theorem length_cons_eq {α : Type} {n : ℕ} (a : α) (l : { l : List α // l.length = n }) :
    (a :: l.1).length = n + 1 :=
  congrArg Nat.succ l.2

/-- An empty array has no entries. -/
theorem length_nil_eq {α : Type} : ([] : List α).length = (0 : CInt).toInt.toNat := rfl

/-- The field `command` as a string. -/
def Message.commandString (m : Message) : CString := CString.ofBytes m.command

/-- An array of `argc` arguments, empty when `argc` is not positive. -/
abbrev ArgArray (argc : CInt) := { args : List RpcArg // args.length = argc.toInt.toNat }

/-! ### Messages under construction -/

/-- The blocks a message owns, one for each place that allocates. -/
inductive MsgBlock where
  /-- The block of `msg->command`. -/
  | command : MsgBlock
  /-- The block of `msg->argv`. -/
  | argv : MsgBlock
  /-- The block of `msg->argv[i].data`. -/
  | data (i : ℕ) : MsgBlock
  deriving DecidableEq, Repr

/-- A pointer field of a message under construction. -/
inductive Ptr (α : Type) where
  /-- Whatever the memory held: the field has not been assigned. -/
  | junk : Ptr α
  /-- The null pointer. -/
  | null : Ptr α
  /-- A block this call has allocated. -/
  | own (a : α) : Ptr α
  deriving DecidableEq, Repr

/-- The fields of a message that its cleaning up looks at. -/
structure RawMessage where
  /-- The pointer `command`. -/
  command : Ptr Unit
  /-- The field `argc`, once assigned. -/
  argc : Option CInt
  /-- The pointer `argv`, to slots of which the pointer `data` matters. -/
  argv : Ptr (List (Ptr Unit))
  deriving DecidableEq, Repr

/-- A message on the stack, before anything is assigned. -/
def RawMessage.unset : RawMessage := ⟨.junk, none, .junk⟩

end RemoteProcedure
