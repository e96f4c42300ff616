import RemoteProcedure.Client
import RemoteProcedure.Dispatch

/-!
# A remote call

`external_call` from the array of its arguments on: the message is built, sent,
served by a child of the server, its answer is read into the caller's cell, and the
message is freed.  Every allocation and call of the system succeeds here, and the
stream is not cut; what is left is whether the stages agree with each other.

## Main definitions

* `remoteCall` — `external_call` on a server with a registry.
* `Registered` — the mappers that `create_function` makes.
* `localCall` — the same call of the newest function of that name.

## Main results

* `externalCall_eq_localCall_iff` — **a remote call is the local call**, exactly
  for the calls whose request and answer can be framed.
-/

namespace RemoteProcedure

open Machine

/-! ### The call -/

/-- A server with this registry, which serves a request in a child. -/
def serving (memory : Memory FunPtr) (request : List Byte) :
    Checked (Socket Byte × List Call) := do
  let served ← executeClient .granted true (some memory) ⟨request, []⟩
  return (⟨served.sent.getD [], []⟩, served.calls)

/-- `external_call` of an array of arguments, for which everything is granted, on a server
with this registry, if the connection to it is made. -/
def remoteCall (connected : Bool) (memory : Memory FunPtr) (command : CString)
    (returnType : Byte) {argc : CInt} (args : ArgArray argc) (cell : Option Data) :
    Checked (Returned Call) :=
  (externalCall (fun _ => true) connected true (serving memory) (args.1.length + 1) (some command)
    returnType cell args).get (isSome_externalCall _ _ _ _ _ _ _)

/-! ### The local call -/

/-- A mapper as `create_function` makes it, of a function that returns the type
it is declared with. -/
def FunctionMapper.Registered (f : FunctionMapper FunPtr) : Prop :=
  ∃ (name : CString) (returnType : Byte) (description : Option CString) (funPtr : FunPtr)
    (argc : CInt) (ap : List CInt),
    createFunction (some ()) name returnType description funPtr argc ap = .ok (.ok f) ∧
      funPtr.returns = returnType

/-- A memory to which these functions were added in turn. -/
def registry (adds : List (FunctionMapper FunPtr)) : Memory FunPtr := Memory.run (adds.map .add)

/-- The newest function of a name, if it takes such arguments and returns such a
value. -/
def newest (adds : List (FunctionMapper FunPtr)) (command : CString) (returnType : Byte)
    {argc : CInt} (args : ArgArray argc) : Option (FunctionMapper FunPtr) :=
  (adds.reverse.find? fun f => f.name = command).filter fun f =>
    f.function.argc = argc ∧ f.function.argv = args.1.map RpcArg.typ ∧
      f.function.returnType = returnType

/-- What a call should do: call that function, or fail without calling any. -/
def localCall (adds : List (FunctionMapper FunPtr)) (command : CString) (returnType : Byte)
    {argc : CInt} (args : ArgArray argc) (cell : Option Data) : Returned Call :=
  match newest adds command returnType args with
  | none => ⟨-1, cell, []⟩
  | some f =>
    match f.function.funPtr.apply (args.1.map RpcArg.data) with
    | none => ⟨-1, cell, []⟩
    | some a => ⟨0, a.assign cell, [⟨f.function, args.1.map RpcArg.data⟩]⟩

theorem FunctionMapper.Registered.returns {f : FunctionMapper FunPtr} (h : f.Registered) :
    f.function.funPtr.returns = f.function.returnType := by
  obtain ⟨name, returnType, description, funPtr, argc, ap, hcreate, hreturns⟩ := h
  unfold createFunction at hcreate
  simp only at hcreate
  split_ifs at hcreate
  · cases hcreate
  · cases hcreate
  · rw [Checked.bind_eq_ok] at hcreate
    obtain ⟨argv, -, hcreate⟩ := hcreate
    split_ifs at hcreate
    cases hcreate
    exact hreturns

theorem fmap_registry (adds : List (FunctionMapper FunPtr)) :
    (registry adds).fmap = adds.reverse := by
  induction adds using List.reverseRecOn with
  | nil => rfl
  | append_singleton adds f ih =>
    have hrun : registry (adds ++ [f]) = (registry adds).step (.add f) := by
      rw [registry, List.map_append, Memory.run, List.foldl_append]
      rfl
    have hwf : (registry adds).Wf := (Memory.stacks_run _).1
    rw [hrun, Memory.step_add hwf, List.reverse_append, ← ih]
    rfl

/-- The registry shows the message the newest function. -/
theorem callee_registry (adds : List (FunctionMapper FunPtr)) (msg : Message)
    (command : CString) (returnType : Byte) {argc : CInt} (args : ArgArray argc)
    (hcommand : msg.commandString = command) (htype : msg.returnType = returnType)
    (hargc : msg.argc = argc) (hargv : msg.argv = args.1) :
    (registry adds).callee msg = newest adds command returnType args := by
  subst hcommand htype hargc
  rw [Memory.callee, newest, getFunction, getLoop_eq_find?, fmap_registry]
  refine congrArg (Option.filter · _) (funext fun f => decide_eq_decide.mpr ?_)
  rw [← hargv]
  exact ⟨fun h => ⟨h.argc, h.argv, h.returnType⟩, fun h => ⟨h.1, h.2.1, h.2.2⟩⟩

/-! ### Framing the request -/

/-- A request that is sent whole is served. -/
theorem transmition_eq {m : Message} (htr : ∀ a ∈ m.argv, a.Transmissible)
    (hsize : (encodeRequest m).length + 4 < 2 ^ 31) (memory : Memory FunPtr)
    (cell : Option Data) :
    transmition (fun _ => true) true true (serving memory) cell (.filled m) =
      (do let served ← serveMessage .granted true (some memory) m
          let (answer, ret) ← getAnswer true true (charToInt m.returnType) cell
            ⟨served.sent.getD [], []⟩
          return ⟨if answer.toInt < 0 then -1 else 0, ret, served.calls⟩) := by
  have hread : serving memory (requestFrame m) =
      (do let served ← serveMessage .granted true (some memory) m
          return (⟨served.sent.getD [], []⟩, served.calls)) := by
    rw [serving, executeClient]
    simp only [Allocator.granted]
    rw [readMsg_uncut htr hsize, Checked.ok_bind]
  rw [transmition, sendCmd_of_fits (fun a ha => (htr a ha).storable) hsize, Checked.ok_bind]
  simp only [Bool.and_self, if_true, hread]
  cases serveMessage .granted true (some memory) m <;> rfl

/-! ### Framing the answer -/

/-- A string that is too long for a frame is answered by nothing, or by the
frame of another string. -/
theorem serializeAnswer_long {s : CString} (h : 2 ^ 31 ≤ s.length + 7) :
    (∃ e, serializeAnswer true rpcRetOk (some (.str s)) = .error e) ∨
    (∃ size, serializeAnswer true rpcRetOk (some (.str s)) = .ok (none, size)) ∨
    ∃ t : CString, t ≠ s ∧ t.length + 7 < 2 ^ 31 ∧
      serializeAnswer true rpcRetOk (some (.str s)) =
        serializeAnswer true rpcRetOk (some (.str t)) := by
  have hwire := length_wire s
  have hdata : argSize (Option.map ([·]) (some (.str s))) =
      BitVec.ofNat 32 ((wire s).length + 2) := argSize_singleton rfl
  have hbound := Nat.mod_lt s.length (by decide : 0 < 2 ^ 32)
  rcases Nat.lt_or_ge ((wire s).length + 7) (2 ^ 31) with hshort | hlong
  · -- only the length modulo the width of an `int` counts
    obtain ⟨t, ht⟩ : ∃ t : CString, t.bytes = wire s :=
      ⟨.ofBytes (wire s), CString.ofBytes_of_nulFree fun h => s.nulFree (List.mem_of_mem_take h)⟩
    have hlength : t.length = s.length % 2 ^ 32 := by rw [← hwire, ← ht]; rfl
    have hencode : encodeArg (.str t) = encodeArg (.str s) := by
      have hbyte : BitVec.ofNat 8 t.length = BitVec.ofNat 8 s.length := by
        apply BitVec.eq_of_toNat_eq
        simp only [BitVec.toNat_ofNat]
        omega
      rw [encodeArg, encodeArg, hbyte, wire_of_lt (by omega), ht]
    have hframe : answerFrame rpcRetOk (some (.str t)) = answerFrame rpcRetOk (some (.str s)) := by
      simp only [answerFrame, encodeAnswer, Option.elim_some, hencode]
    refine .inr (.inr ⟨t, ?_, by omega, ?_⟩)
    · rintro rfl
      omega
    · rw [serializeAnswer_value (a := .str s) rfl (by rw [encodeArg]; simpa using hshort),
        serializeAnswer_value (a := .str t) rfl
          (by rw [hencode, encodeArg]; simpa using hshort), hframe]
  rw [serializeAnswer]
  simp only [hdata]
  by_cases hneg : (BitVec.ofNat 32 ((wire s).length + 2)).toInt < 0
  · rw [if_pos hneg]
    exact .inr (.inl ⟨_, rfl⟩)
  rw [if_neg hneg]
  rw [BitVec.toInt_eq_toNat_cond, BitVec.toNat_ofNat] at hneg
  rcases Nat.lt_or_ge ((wire s).length + 2) (2 ^ 31) with hlt | hge
  · -- the size of the block overflows
    have hsize : (4 + (1 + BitVec.ofNat 32 ((wire s).length + 2)) : CInt) =
        BitVec.ofNat 32 ((wire s).length + 7) := by
      rw [show (4 : CInt) = BitVec.ofNat 32 4 from rfl,
        show (1 : CInt) = BitVec.ofNat 32 1 from rfl, ← BitVec.ofNat_add, ← BitVec.ofNat_add]
      congr 1
      omega
    have hoverflow : (BitVec.ofNat 32 ((wire s).length + 7)).toInt < 0 := by
      rw [BitVec.toInt_eq_toNat_cond, BitVec.toNat_ofNat]
      split_ifs <;> omega
    rw [hsize, malloc, if_neg (by simp [mallocSucceeds]; omega)]
    exact .inr (.inl ⟨_, rfl⟩)
  · -- the length of the string comes out negative
    obtain hsize | hsize : (wire s).length + 2 = 2 ^ 32 ∨ (wire s).length + 2 = 2 ^ 32 + 1 := by
      split_ifs at hneg <;> omega
    all_goals
      rw [hsize]
      exact .inl ⟨.outOfRange, rfl⟩

/-! ### Remote and local calls -/

/-- The calls whose request can be framed: types of the protocol, and fewer than
`2 ^ 31` bytes. -/
structure Sendable (command : CString) (returnType : Byte) (args : List RpcArg) : Prop where
  type_exists : typeExists returnType = true
  defined : ∀ a ∈ args, a.Defined
  short : command.length + (encodeArgs args).length + 13 < 2 ^ 31

theorem RpcArg.transmissible_of_le {a : RpcArg} (ha : a.Defined)
    (hstr : ∀ s, a = .str s → s.length ≤ 127) : a.Transmissible := by
  cases a with
  | void => trivial
  | int i => trivial
  | str s => exact hstr s rfl
  | other typ h => exact absurd ha (RpcArg.not_defined_other typ h)

theorem mem_of_newest {adds : List (FunctionMapper FunPtr)} {command : CString}
    {returnType : Byte} {argc : CInt} {args : ArgArray argc} {f : FunctionMapper FunPtr}
    (h : newest adds command returnType args = some f) : f ∈ adds := by
  rw [newest, Option.filter_eq_some_iff] at h
  exact List.mem_reverse.mp (List.mem_of_find?_eq_some h.1)

section

variable {adds : List (FunctionMapper FunPtr)} {command : CString} {returnType : Byte}
  {argc : CInt} {args : ArgArray argc}

/-- What the call comes to, before its proof is taken off. -/
theorem some_remoteCall (connected : Bool) (memory : Memory FunPtr) (cell : Option Data) :
    some (remoteCall connected memory command returnType args cell) =
      externalCall (fun _ => true) connected true (serving memory) (args.1.length + 1)
        (some command) returnType cell args :=
  Option.some_get _

/-- The message of a call that can be sent is transmitted, and freed. -/
theorem remoteCall_of_sendable (h : Sendable command returnType args.1)
    (hcommand : command.length < 2 ^ 31) (connected : Bool) (memory : Memory FunPtr)
    (cell : Option Data) :
    remoteCall connected memory command returnType args cell =
      transmition (fun _ => true) connected true (serving memory) cell
        (.filled (newMessage command returnType args hcommand)) := by
  have hlt := h.short
  set m := newMessage command returnType args hcommand with hm
  have hcreate : createStackMessage (args.1.length + 1) (fun _ => true) (some command) returnType
      args = some (.ok (.filled m)) := by
    rw [createStackMessage]
    have halloc : (fun b => (fun _ : ClientBlock => true) (.msg b)) = allGranted := rfl
    rw [halloc, createMessage_allGranted .unset h.type_exists args
      (show command.length + 1 < 2 ^ 31 by omega)]
  have hfree : (StackMessage.filled m).free (args.1.length + 1) = some (.ok ()) :=
    free_of_defined h.defined
  apply Option.some.inj
  rw [some_remoteCall, externalCall, hcreate, andThen_ok]
  cases transmition (fun _ => true) connected true (serving memory) cell (.filled m) with
  | error e => rfl
  | ok out =>
    rw [andThen_ok, hfree]
    rfl

variable (adds) in
/-- A call that can be sent is served and answered. -/
theorem externalCall_of_sendable (h : Sendable command returnType args.1)
    (hstr : ∀ s, .str s ∈ args.1 → s.length ≤ 127) (cell : Option Data) :
    ∃ m : Message, m.argv = args.1 ∧ m.argc = argc ∧ m.returnType = returnType ∧
      (registry adds).callee m = newest adds command returnType args ∧
      remoteCall true (registry adds) command returnType args cell =
        (do let served ← serveMessage .granted true (some (registry adds)) m
            let (answer, ret) ← getAnswer true true (charToInt returnType) cell
              ⟨served.sent.getD [], []⟩
            return ⟨if answer.toInt < 0 then -1 else 0, ret, served.calls⟩) := by
  have hlt := h.short
  have hcommand : command.length < 2 ^ 31 := by omega
  set m := newMessage command returnType args hcommand with hm
  have hlength : (encodeRequest m).length = command.length + (encodeArgs args.1).length + 9 :=
    length_encodeRequest m
  have htr : ∀ a ∈ m.argv, a.Transmissible := by
    intro a ha
    apply RpcArg.transmissible_of_le (h.defined a ha)
    rintro s rfl
    exact hstr s ha
  refine ⟨m, rfl, rfl, rfl, ?_, ?_⟩
  · exact callee_registry adds m command returnType args (CString.ofBytes_bytes command) rfl rfl rfl
  · rw [remoteCall_of_sendable h hcommand]
    exact transmition_eq htr (by omega) (registry adds) cell

/-- **A call that can be sent, and whose answer can, is the local call.** -/
theorem externalCall_eq_localCall (hadds : ∀ f ∈ adds, f.Registered) (hargc : 0 ≤ argc.toInt)
    (hstr : ∀ s, .str s ∈ args.1 → s.length ≤ 127) (h : Sendable command returnType args.1)
    (hvalue : ∀ f, newest adds command returnType args = some f →
      (f.function.funPtr.apply (args.1.map RpcArg.data)).isSome)
    (hanswer : ∀ f s, newest adds command returnType args = some f →
      f.function.funPtr.apply (args.1.map RpcArg.data) = some (.str s) → s.length + 7 < 2 ^ 31)
    (cell : Option Data) :
    remoteCall true (registry adds) command returnType args cell =
      .ok (localCall adds command returnType args cell) := by
  obtain ⟨m, hargv, hargc', htype, hcallee, hcall⟩ := externalCall_of_sendable adds h hstr cell
  rw [hcall, localCall]
  cases hnewest : newest adds command returnType args with
  | none =>
    obtain ⟨status, hstatus, hserve⟩ := serveMessage_of_none (hcallee.trans hnewest)
    rw [hserve, Checked.ok_bind]
    simp only [Option.getD_some]
    rw [getAnswer_status hstatus]
    rfl
  | some f =>
    have hreturns := (hadds f (mem_of_newest hnewest)).returns
    obtain ⟨a, ha⟩ := Option.isSome_iff_exists.mp (hvalue f hnewest)
    obtain ⟨hdefined, htyp⟩ := FunPtr.apply_typ ha
    have hshort := length_encodeArg_lt hdefined fun s hs => hanswer f s hnewest (by rw [ha, hs])
    have hlen : (encodeAnswer rpcRetOk (some a)).length = (encodeArg a).length + 1 := rfl
    have hexpected : returnType = a.typ := by
      have haccepts := hcallee.trans hnewest
      rw [Memory.callee, Option.filter_eq_some_iff, decide_eq_true_iff] at haccepts
      rw [htyp, hreturns, haccepts.2.returnType, htype]
    rw [serveMessage_of_some (hcallee.trans hnewest) hreturns (by rw [hargc']; exact hargc)
      (by rw [hargv]; exact ha), sendAnswer_value hdefined hshort, Checked.ok_bind]
    simp only [Option.getD_some]
    have hstring : ∀ s, a = .str s → s.length < 2 ^ 32 := by
      rintro s rfl
      have := hanswer f s hnewest ha
      omega
    rw [hexpected, getAnswer_value hdefined (by omega) hstring, Checked.ok_bind, ha, hargv]
    rfl

/-- **No other call returns**: what is read then was never stored, or lies
outside a block. -/
theorem sendable_of_externalCall {memory : Memory FunPtr} {cell : Option Data}
    {out : Returned Call}
    (h : remoteCall true memory command returnType args cell = .ok out) :
    Sendable command returnType args.1 := by
  have hcall := (some_remoteCall true memory cell).symm.trans (congrArg some h)
  obtain ⟨msg, hcreate, hcall⟩ := andThen_eq_ok hcall
  obtain ⟨out', htransmit, -⟩ := andThen_eq_ok hcall
  rw [Option.some.injEq, transmition, Checked.bind_eq_ok] at htransmit
  obtain ⟨sent, hsend, -⟩ := htransmit
  obtain ⟨-, m, rfl, hst, hsize⟩ := filled_of_sendCmd hsend
  obtain ⟨htype, hcommand, rfl⟩ := eq_newMessage_of_created (created_of_stackMessage hcreate)
  have hlength : (encodeRequest (newMessage command returnType args hcommand)).length =
      command.length + (encodeArgs args.1).length + 9 := length_encodeRequest _
  exact ⟨htype, fun a ha => (hst a ha).defined, by omega⟩

/-- A server that has nothing to answer leaves the client without a length. -/
theorem getAnswer_nothing (type : CInt) (cell : Option Data) :
    getAnswer true true type cell ⟨[], []⟩ = .error .uninitialised := rfl

/-- A string that is too long for a frame is not returned. -/
theorem length_lt_of_externalCall (hadds : ∀ f ∈ adds, f.Registered) (hargc : 0 ≤ argc.toInt)
    (hstr : ∀ s, .str s ∈ args.1 → s.length ≤ 127) {f : FunctionMapper FunPtr} {s : CString}
    (hf : newest adds command returnType args = some f)
    (hs : f.function.funPtr.apply (args.1.map RpcArg.data) = some (.str s))
    (h : remoteCall true (registry adds) command returnType args (some .null) =
      .ok (localCall adds command returnType args (some .null))) : s.length + 7 < 2 ^ 31 := by
  by_contra hlong
  obtain ⟨m, hargv, hargc', htype, hcallee, hcall⟩ := externalCall_of_sendable adds
    (sendable_of_externalCall h) hstr (some .null)
  have hreturns := (hadds f (mem_of_newest hf)).returns
  have hlocal : localCall adds command returnType args (some .null) =
      ⟨0, some (.str s), [⟨f.function, args.1.map RpcArg.data⟩]⟩ := by
    rw [localCall, hf]
    simp only [hs]
    rfl
  have hexpected : returnType = rpcTyStr := by
    have haccepts := hcallee.trans hf
    rw [Memory.callee, Option.filter_eq_some_iff, decide_eq_true_iff] at haccepts
    rw [← htype, ← haccepts.2.returnType, ← hreturns, ← (FunPtr.apply_typ hs).2]
    rfl
  rw [hcall, hlocal, serveMessage_of_some (hcallee.trans hf) hreturns (by rw [hargc']; exact hargc)
    (by rw [hargv]; exact hs), hargv] at h
  rcases serializeAnswer_long (s := s) (by omega) with ⟨e, herror⟩ | ⟨size, hnull⟩ |
    ⟨t, hne, ht, hother⟩
  · rw [herror] at h
    cases h
  · rw [hnull] at h
    cases size with
    | none => cases h
    | some size =>
      simp only [Checked.ok_bind, sendAnswer, send, Checked.pure_eq, Option.getD_none] at h
      rw [getAnswer_nothing] at h
      cases h
  · -- the caller is given the other string
    have hdefined : (RpcArg.str t).Defined := rfl
    have hshort : (encodeArg (.str t)).length + 5 < 2 ^ 31 := by
      apply length_encodeArg_lt hdefined
      intro u hu
      cases hu
      exact ht
    have hlen : (encodeAnswer rpcRetOk (some (.str t))).length =
        (encodeArg (.str t)).length + 1 := rfl
    rw [hother, sendAnswer_value hdefined hshort, Checked.ok_bind] at h
    simp only [Option.getD_some] at h
    rw [hexpected, show charToInt rpcTyStr = charToInt (RpcArg.str t).typ from rfl,
      getAnswer_value hdefined (by omega) (fun u hu => by cases hu; omega)] at h
    cases h
    exact hne rfl

/-- **A remote call is the local call**, exactly when its request can be framed,
and so can the string it returns, if it returns one.  The function that is called
has to have a value. -/
theorem externalCall_eq_localCall_iff (hadds : ∀ f ∈ adds, f.Registered) (hargc : 0 ≤ argc.toInt)
    (hstr : ∀ s, .str s ∈ args.1 → s.length ≤ 127)
    (hvalue : ∀ f, newest adds command returnType args = some f →
      (f.function.funPtr.apply (args.1.map RpcArg.data)).isSome) :
    (∀ cell, remoteCall true (registry adds) command returnType args cell =
      .ok (localCall adds command returnType args cell)) ↔
    Sendable command returnType args.1 ∧
      ∀ f s, newest adds command returnType args = some f →
        f.function.funPtr.apply (args.1.map RpcArg.data) = some (.str s) →
          s.length + 7 < 2 ^ 31 := by
  constructor
  · intro h
    refine ⟨sendable_of_externalCall (h none), ?_⟩
    intro f s hf hs
    exact length_lt_of_externalCall hadds hargc hstr hf hs (h (some .null))
  · rintro ⟨hsendable, hanswer⟩ cell
    exact externalCall_eq_localCall hadds hargc hstr hsendable hvalue hanswer cell

end

/-- A function `f` of no arguments that returns "hi". -/
def mapperF : FunctionMapper FunPtr where
  nameLength := 1
  name := CString.ofBytes [0x66]
  descriptionLength := 0
  description := none
  function :=
    { returnType := rpcTyStr
      argc := 0
      argv := []
      funPtr := .strFun fun _ => some (some (CString.ofBytes [0x68, 0x69]))
      argv_length := length_nil_eq
      argv_le := Nat.zero_le _ }
  nameLength_eq := rfl
  name_le := by decide
  descriptionLength_eq := rfl
  description_le := fun d hd => by cases hd

theorem registered_mapperF : mapperF.Registered :=
  ⟨mapperF.name, rpcTyStr, none, mapperF.function.funPtr, 0, [], rfl, rfl⟩

/-- A call of `f` with an argument of type 7: the frame is measured a byte too
short, and the number of arguments is stored across its end. -/
theorem not_externalCall_eq_localCall_type :
    remoteCall true (registry [mapperF]) mapperF.name rpcTyStr
      (⟨[.other 7 rfl], rfl⟩ : ArgArray 1) none = .error .outOfRange ∧
    ¬ ∀ cell, remoteCall true (registry [mapperF]) mapperF.name rpcTyStr
      (⟨[.other 7 rfl], rfl⟩ : ArgArray 1) cell =
        .ok (localCall [mapperF] mapperF.name rpcTyStr
          (⟨[.other 7 rfl], rfl⟩ : ArgArray 1) cell) := by
  have hfault : remoteCall true (registry [mapperF]) mapperF.name rpcTyStr
      (⟨[.other 7 rfl], rfl⟩ : ArgArray 1) none = .error .outOfRange := rfl
  refine ⟨hfault, ?_⟩
  intro h
  have hlocal := h none
  rw [hfault] at hlocal
  cases hlocal

/-- A call of `f` that is served. -/
theorem externalCall_eq_localCall_iff_f :
    remoteCall true (registry [mapperF]) mapperF.name rpcTyStr (⟨[], rfl⟩ : ArgArray 0)
        (some .null) =
      .ok (localCall [mapperF] mapperF.name rpcTyStr (⟨[], rfl⟩ : ArgArray 0) (some .null)) := by
  have hadds : ∀ f ∈ [mapperF], f.Registered := by
    intro f hf
    rw [List.mem_singleton.mp hf]
    exact registered_mapperF
  have hvalue : ∀ f, newest [mapperF] mapperF.name rpcTyStr (⟨[], rfl⟩ : ArgArray 0) = some f →
      (f.function.funPtr.apply []).isSome := by
    intro f hf
    obtain rfl := List.mem_singleton.mp (mem_of_newest hf)
    rfl
  refine (externalCall_eq_localCall_iff hadds (by decide) (fun s hs => by cases hs) hvalue).mpr
    ⟨?_, ?_⟩ _
  · exact ⟨rfl, fun a ha => absurd ha List.not_mem_nil, by decide⟩
  · intro f s hf hs
    obtain rfl := List.mem_singleton.mp (mem_of_newest hf)
    cases hs
    decide

end RemoteProcedure
