import RemoteProcedure.Mapper
import RemoteProcedure.Receive

/-!
# Serving a request

What a child of the server does with a message: it looks the function up, checks
the call against its type, calls it through a union of function pointers, and
sends the answer.  Each of these may instead send an error, which ends the
process; the functions here return the status then, in place of going on.

## Main definitions

* `FunPtr` — a function pointer, of one of the three types of the union; the function
  need not have a result for all that it is called with.
* `searchFunction`, `verificationFunction`, `executeFunction` — the functions of
  the source.
* `executeClient` — a child, from its first read to its end.

## Main results

* `verificationFunction_eq` — the check is an equality of types.
* `serveMessage_of_none`, `serveMessage_of_some` — **what a child does with any
  message**.
-/

namespace RemoteProcedure

open Machine

/-! ### Function pointers -/

/-- The union `fun_ptr_u`, as the function it was assigned.  A function gets the
data pointers of its arguments; what it computes may overflow or trap, and nothing
comes back then. -/
inductive FunPtr where
  | voidFun (f : List Data → Option Unit) : FunPtr
  | intFun (f : List Data → Option CInt) : FunPtr
  /-- The result may be the null pointer. -/
  | strFun (f : List Data → Option (Option CString)) : FunPtr

namespace FunPtr

/-- The result of a call, where C defines one. -/
def result {α : Type} : Option α → Checked α
  | some a => .ok a
  | none => .error .arithmetic

theorem result_eq_ok {α : Type} {o : Option α} {a : α} : result o = .ok a ↔ o = some a := by
  cases o <;> simp [result]

/-- A call through the member `void_fun`. -/
def callVoid : FunPtr → List Data → Checked Unit
  | voidFun f, args => result (f args)
  | _, _ => .error .wrongType

/-- A call through the member `int_fun`. -/
def callInt : FunPtr → List Data → Checked CInt
  | intFun f, args => result (f args)
  | _, _ => .error .wrongType

/-- A call through the member `str_fun`. -/
def callStr : FunPtr → List Data → Checked (Option CString)
  | strFun f, args => result (f args)
  | _, _ => .error .wrongType

/-- The type that a function returns. -/
def returns : FunPtr → Byte
  | voidFun _ => rpcTyVoid
  | intFun _ => rpcTyInt
  | strFun _ => rpcTyStr

/-- A call through the member that belongs to a type of the protocol. -/
def callMember (f : FunPtr) (type : Byte) (args : List Data) : Checked (Option RpcArg) :=
  if type = rpcTyVoid then do
    f.callVoid args
    return some .void
  else if type = rpcTyInt then do
    let i ← f.callInt args
    return some (.int i)
  else do
    let s ← f.callStr args
    return s.map .str

/-- The value of a call: one that comes back, and not with a null pointer. -/
def apply : FunPtr → List Data → Option RpcArg
  | voidFun f, args => (f args).map fun _ => .void
  | intFun f, args => (f args).map .int
  | strFun f, args => (f args).join.map .str

theorem apply_typ {f : FunPtr} {args : List Data} {a : RpcArg} (h : f.apply args = some a) :
    a.Defined ∧ a.typ = f.returns := by
  cases f with
  | voidFun g =>
    obtain ⟨u, -, rfl⟩ := Option.map_eq_some_iff.mp h
    exact ⟨rfl, rfl⟩
  | intFun g =>
    obtain ⟨i, -, rfl⟩ := Option.map_eq_some_iff.mp h
    exact ⟨rfl, rfl⟩
  | strFun g =>
    obtain ⟨s, -, rfl⟩ := Option.map_eq_some_iff.mp h
    exact ⟨rfl, rfl⟩

/-- Through the member of its own type a function gives its value, or its null
pointer, -/
theorem apply_of_callMember {f : FunPtr} {args : List Data} {r : Option RpcArg}
    (h : f.callMember f.returns args = .ok r) : f.apply args = r := by
  cases f with
  | voidFun g =>
    have hcall : (result (g args) >>= fun _ => .ok (some .void)) = .ok r := h
    obtain ⟨u, hu, hr⟩ := Checked.bind_eq_ok.mp hcall
    rw [apply, result_eq_ok.mp hu]
    exact Except.ok.inj hr
  | intFun g =>
    have hcall : (result (g args) >>= fun i => .ok (some (.int i))) = .ok r := h
    obtain ⟨i, hi, hr⟩ := Checked.bind_eq_ok.mp hcall
    rw [apply, result_eq_ok.mp hi]
    exact Except.ok.inj hr
  | strFun g =>
    have hcall : (result (g args) >>= fun s => .ok (s.map .str)) = .ok r := h
    obtain ⟨s, hs, hr⟩ := Checked.bind_eq_ok.mp hcall
    rw [apply, result_eq_ok.mp hs]
    exact Except.ok.inj hr

/-- and a value is what it gives. -/
theorem callMember_returns {f : FunPtr} {args : List Data} {a : RpcArg}
    (h : f.apply args = some a) : f.callMember f.returns args = .ok (some a) := by
  cases f with
  | voidFun g =>
    obtain ⟨u, hu, rfl⟩ := Option.map_eq_some_iff.mp h
    exact Checked.bind_eq_ok.mpr ⟨u, result_eq_ok.mpr hu, rfl⟩
  | intFun g =>
    obtain ⟨i, hi, rfl⟩ := Option.map_eq_some_iff.mp h
    exact Checked.bind_eq_ok.mpr ⟨i, result_eq_ok.mpr hi, rfl⟩
  | strFun g =>
    obtain ⟨s, hs, rfl⟩ := Option.map_eq_some_iff.mp h
    exact Checked.bind_eq_ok.mpr ⟨_, result_eq_ok.mpr (Option.join_eq_some_iff.mp hs), rfl⟩

end FunPtr

/-- A call that was made. -/
structure Call where
  function : FunctionT FunPtr
  args : List Data

/-- What `malloc` does for a child. -/
structure Allocator where
  /-- The block `from` of `read_msg`. -/
  request : Bool
  message : MsgBlock → Bool
  /-- The block of an `int` result. -/
  result : Bool
  answer : Bool

/-- Every allocation succeeds. -/
def Allocator.granted : Allocator := ⟨true, allGranted, true, true⟩

/-! ### The stages -/

/-- `search_function`: a status to send, or what `get_function` returns. -/
def searchFunction (memory : Option (Memory FunPtr)) (msg : Message) :
    Except Byte (Option (FunctionMapper FunPtr)) :=
  let ret := existFunction memory msg.commandString
  if ret = 0 then .error rpcRetUnknownFunc
  else if ret = -1 then .error rpcRetUnknownFunc
  else .ok (getFunction memory msg.commandString)

/-- The loop of `verification_function`. -/
def verificationLoop : (params : List Byte) → (argv : List RpcArg) → Checked (Except Byte Unit)
  | [], _ => .ok (.ok ())
  | _ :: _, [] => .error .outOfRange
  | p :: ps, a :: as =>
    if p ≠ a.typ then .ok (.error rpcRetWrongArg) else verificationLoop ps as

/-- `verification_function`. -/
def verificationFunction (f : Option (FunctionMapper FunPtr)) (msg : Message) :
    Checked (Except Byte Unit) :=
  match f with
  | none => .error .nullPointer
  | some f =>
    if f.function.argc ≠ msg.argc then .ok (.error rpcWrongNumberArgs)
    else do
      match ← verificationLoop f.function.argv msg.argv with
      | .error status => return .error status
      | .ok () =>
        if f.function.returnType ≠ msg.returnType then return .error rpcRetWrongTyp
        else return .ok ()

/-- What `execute_function` leaves in `*return_t` and `*size`, and the call it
made. -/
structure Executed where
  ret : Option (Block Byte)
  size : Option CInt
  call : Call

/-- `execute_function`: a status to send, or the answer. -/
def executeFunction (alloc : Allocator) (function : FunctionT FunPtr) (msg : Message) :
    Checked (Except Byte Executed) :=
  let args := msg.argv.map RpcArg.data
  -- the generated `switch` has one case for each number of arguments
  let inSwitch := decide (0 ≤ msg.argc.toInt) && decide (msg.argc.toInt ≤ 255)
  if msg.returnType = rpcTyVoid then
    if inSwitch then do
      function.funPtr.callVoid args
      let (ret, size) ← serializeAnswer alloc.answer rpcRetOk (some .void)
      return .ok ⟨ret, size, ⟨function, args⟩⟩
    else return .error rpcWrongNumberArgs
  else if msg.returnType = rpcTyInt then
    if inSwitch then do
      let res ← function.funPtr.callInt args
      -- the result is stored through an allocation that is not tested
      if alloc.result then
        let (ret, size) ← serializeAnswer alloc.answer rpcRetOk (some (.int res))
        return .ok ⟨ret, size, ⟨function, args⟩⟩
      else .error .nullPointer
    else return .error rpcWrongNumberArgs
  else if msg.returnType = rpcTyStr then
    if inSwitch then do
      match ← function.funPtr.callStr args with
      | some s =>
        let (ret, size) ← serializeAnswer alloc.answer rpcRetOk (some (.str s))
        return .ok ⟨ret, size, ⟨function, args⟩⟩
      -- neither `*return_t` nor `*size` is assigned
      | none => return .ok ⟨none, none, ⟨function, args⟩⟩
    else return .error rpcWrongNumberArgs
  else return .error rpcRetUnknownFunc

/-! ### A child -/

/-- How a child ends: its exit code, what it sent, and the calls it made. -/
structure Served where
  status : CInt
  /-- The bytes that the last `send` accepted. -/
  sent : Option (List Byte)
  calls : List Call

def exitSuccess : CInt := 0
def exitFailure : CInt := 1

/-- `send_error`, which ends the process. -/
def sendError (alloc : Allocator) (accepted : Bool) (c : Byte) : Checked Served := do
  let (msg, size) ← serializeAnswer alloc.answer c none
  match ← send accepted msg size with
  | none => return ⟨exitFailure, none, []⟩
  | some sent => return ⟨exitSuccess, some sent, []⟩

/-- `send_answer`, which ends the process. -/
def sendAnswer (accepted : Bool) (e : Executed) : Checked Served := do
  match ← send accepted e.ret e.size with
  | none => return ⟨exitFailure, none, [e.call]⟩
  | some sent => return ⟨exitSuccess, some sent, [e.call]⟩

/-- `execute_client` after `read_msg`. -/
def serveMessage (alloc : Allocator) (accepted : Bool) (memory : Option (Memory FunPtr))
    (msg : Message) : Checked Served :=
  match searchFunction memory msg with
  | .error status => sendError alloc accepted status
  | .ok function => do
    match ← verificationFunction function msg with
    | .error status => sendError alloc accepted status
    | .ok () =>
      match function with
      | none => .error .nullPointer
      | some f =>
        match ← executeFunction alloc f.function msg with
        | .error status => sendError alloc accepted status
        | .ok e => sendAnswer accepted e

/-- `execute_client`. -/
def executeClient (alloc : Allocator) (accepted : Bool) (memory : Option (Memory FunPtr))
    (client : Socket Byte) : Checked Served := do
  match ← readMsg alloc.request alloc.message .unset client with
  | none => return ⟨exitFailure, none, []⟩
  | some msg => serveMessage alloc accepted memory msg

/-! ### What the stages decide -/

/-- The function takes the arguments of the message and returns what it asks
for. -/
structure FunctionMapper.Accepts (f : FunctionMapper FunPtr) (msg : Message) : Prop where
  argc : f.function.argc = msg.argc
  argv : f.function.argv = msg.argv.map RpcArg.typ
  returnType : f.function.returnType = msg.returnType

instance (f : FunctionMapper FunPtr) (msg : Message) : Decidable (f.Accepts msg) :=
  decidable_of_iff (f.function.argc = msg.argc ∧ f.function.argv = msg.argv.map RpcArg.typ ∧
    f.function.returnType = msg.returnType) ⟨fun h => ⟨h.1, h.2.1, h.2.2⟩, fun h => ⟨h.1, h.2, h.3⟩⟩

theorem searchFunction_eq (memory : Memory FunPtr) (msg : Message) :
    searchFunction (some memory) msg =
      match getFunction (some memory) msg.commandString with
      | none => .error rpcRetUnknownFunc
      | some f => .ok (some f) := by
  rw [searchFunction, existFunction_eq]
  cases getFunction (some memory) msg.commandString with
  | none => rfl
  | some f => rfl

/-- The loop compares the types one by one. -/
theorem verificationLoop_eq {params : List Byte} : ∀ {argv : List RpcArg},
    params.length = argv.length →
      verificationLoop params argv =
        .ok (if params = argv.map RpcArg.typ then .ok () else .error rpcRetWrongArg) := by
  induction params with
  | nil =>
    intro argv h
    rw [List.length_eq_zero_iff.mp h.symm]
    rfl
  | cons p ps ih =>
    intro argv h
    cases argv with
    | nil => cases h
    | cons a as =>
      rw [verificationLoop, ih (Nat.succ.inj h), List.map_cons]
      by_cases hp : p = a.typ
      · simp [hp]
      · simp [hp]

/-- What the check finds first: a wrong number of arguments, an argument of a wrong
type, or a wrong return type. -/
def FunctionMapper.check (f : FunctionMapper FunPtr) (msg : Message) : Except Byte Unit :=
  if f.function.argc ≠ msg.argc then .error rpcWrongNumberArgs
  else if f.function.argv ≠ msg.argv.map RpcArg.typ then .error rpcRetWrongArg
  else if f.function.returnType ≠ msg.returnType then .error rpcRetWrongTyp
  else .ok ()

/-- **The loop of the check never reads beyond the arguments.** -/
theorem verificationFunction_check (f : FunctionMapper FunPtr) (msg : Message) :
    verificationFunction (some f) msg = .ok (f.check msg) := by
  rw [verificationFunction, FunctionMapper.check]
  by_cases hargc : f.function.argc = msg.argc
  · have hlength : f.function.argv.length = msg.argv.length := by
      rw [f.function.argv_length, msg.argv_length, hargc]
    rw [if_neg (not_not_intro hargc), if_neg (not_not_intro hargc), verificationLoop_eq hlength,
      Checked.ok_bind]
    by_cases hargv : f.function.argv = msg.argv.map RpcArg.typ
    · rw [if_pos hargv, if_neg (not_not_intro hargv)]
      by_cases htype : f.function.returnType = msg.returnType
      · simp only [htype, ne_eq, not_true_eq_false, if_false, Checked.pure_eq]
      · simp only [htype, ne_eq, not_false_eq_true, if_true, Checked.pure_eq]
    · rw [if_neg hargv, if_pos hargv]
      rfl
  · rw [if_pos hargc, if_pos hargc]

theorem check_eq_ok_iff (f : FunctionMapper FunPtr) (msg : Message) :
    f.check msg = .ok () ↔ f.Accepts msg := by
  rw [FunctionMapper.check]
  split_ifs with hargc hargv htype
  · exact iff_of_false (fun h => nomatch h) fun h => hargc h.argc
  · exact iff_of_false (fun h => nomatch h) fun h => hargv h.argv
  · exact iff_of_false (fun h => nomatch h) fun h => htype h.returnType
  · exact iff_of_true rfl ⟨not_not.mp hargc, not_not.mp hargv, not_not.mp htype⟩

theorem ne_ok_of_check {f : FunctionMapper FunPtr} {msg : Message} {status : Byte}
    (h : f.check msg = .error status) : status ≠ rpcRetOk := by
  rw [FunctionMapper.check] at h
  split_ifs at h
  all_goals
    cases h
    decide

/-- **The check is an equality of types.** -/
theorem verificationFunction_eq (f : FunctionMapper FunPtr) (msg : Message) :
    (f.Accepts msg ∧ verificationFunction (some f) msg = .ok (.ok ())) ∨
    ¬ f.Accepts msg ∧ ∃ status, status ≠ rpcRetOk ∧
      verificationFunction (some f) msg = .ok (.error status) := by
  rw [verificationFunction_check]
  cases hcheck : f.check msg with
  | ok u => exact .inl ⟨(check_eq_ok_iff f msg).mp hcheck, rfl⟩
  | error status =>
    refine .inr ⟨?_, status, ne_ok_of_check hcheck, rfl⟩
    rw [← check_eq_ok_iff, hcheck]
    exact fun h => nomatch h

/-- What `execute_function` makes of the value of a call; the result of an
`int_fun` is stored through an allocation that is not tested, and a null pointer
is not answered. -/
def answerCall (alloc : Allocator) (call : Call) : Option RpcArg → Checked Executed
  | none => .ok ⟨none, none, call⟩
  | some a =>
    if a.typ = rpcTyInt ∧ alloc.result = false then .error .nullPointer
    else do
      let (ret, size) ← serializeAnswer alloc.answer rpcRetOk (some a)
      return ⟨ret, size, call⟩

theorem answerCall_some (alloc : Allocator) (call : Call) {a : RpcArg}
    (h : ¬ (a.typ = rpcTyInt ∧ alloc.result = false)) :
    (do let e ← answerCall alloc call (some a); return .ok e : Checked (Except Byte Executed)) =
      (do let (ret, size) ← serializeAnswer alloc.answer rpcRetOk (some a)
          return .ok ⟨ret, size, call⟩) := by
  rw [answerCall, if_neg h, bind_assoc]
  rfl

/-- **The switch of `execute_function` makes one call**, through the member that
belongs to the type the message asks for. -/
theorem executeFunction_eq (alloc : Allocator) (function : FunctionT FunPtr) {msg : Message}
    (htype : typeExists msg.returnType = true) (hlo : 0 ≤ msg.argc.toInt)
    (hhi : msg.argc.toInt ≤ 255) :
    executeFunction alloc function msg = (do
      let r ← function.funPtr.callMember msg.returnType (msg.argv.map RpcArg.data)
      let e ← answerCall alloc ⟨function, msg.argv.map RpcArg.data⟩ r
      return .ok e) := by
  have hswitch : (decide (0 ≤ msg.argc.toInt) && decide (msg.argc.toInt ≤ 255)) = true := by
    rw [decide_eq_true hlo, decide_eq_true hhi]
    rfl
  rw [executeFunction]
  simp only [hswitch, if_true]
  rcases (typeExists_iff _).mp htype with hvoid | hint | hstr
  · rw [hvoid, if_pos rfl, FunPtr.callMember, if_pos rfl, bind_assoc]
    refine congrArg (_ >>= ·) (funext ?_)
    intro u
    refine (answerCall_some alloc _ ?_).symm
    exact fun h => absurd (show rpcTyVoid = rpcTyInt from h.1) (by decide)
  · rw [hint, if_neg (by decide), if_pos rfl, FunPtr.callMember, if_neg (by decide), if_pos rfl,
      bind_assoc]
    refine congrArg (_ >>= ·) (funext ?_)
    intro i
    cases hresult : alloc.result with
    | false =>
      rw [if_neg (by decide), Checked.pure_eq, Checked.ok_bind, answerCall, if_pos ⟨rfl, hresult⟩]
      rfl
    | true =>
      refine (answerCall_some alloc _ ?_).symm
      rw [hresult]
      exact fun h => nomatch h.2
  · rw [hstr, if_neg (by decide), if_neg (by decide), if_pos rfl, FunPtr.callMember,
      if_neg (by decide), if_neg (by decide), bind_assoc]
    refine congrArg (_ >>= ·) (funext ?_)
    intro s
    cases s with
    | none => rfl
    | some s =>
      refine (answerCall_some alloc _ ?_).symm
      exact fun h => absurd (show rpcTyStr = rpcTyInt from h.1) (by decide)

/-- **A call that passed the check is executed**, through the member that was
assigned; the answer is that of the value. -/
theorem executeFunction_of_accepts {f : FunctionMapper FunPtr} {msg : Message} (h : f.Accepts msg)
    (hfun : f.function.funPtr.returns = f.function.returnType) (hargc : 0 ≤ msg.argc.toInt)
    {a : RpcArg} (ha : f.function.funPtr.apply (msg.argv.map RpcArg.data) = some a) :
    executeFunction .granted f.function msg = (do
      let (ret, size) ← serializeAnswer true rpcRetOk (some a)
      return .ok ⟨ret, size, ⟨f.function, msg.argv.map RpcArg.data⟩⟩) := by
  have hle : f.function.argv.length ≤ 255 := f.function.argv_le
  rw [h.argv, List.length_map, msg.argv_length] at hle
  have hdefined := FunPtr.apply_typ ha
  have hcall := FunPtr.callMember_returns ha
  rw [hfun, h.returnType] at hcall hdefined
  have htype : typeExists msg.returnType = true := by
    rw [← hdefined.2]
    exact hdefined.1
  rw [executeFunction_eq .granted f.function htype hargc (by omega), hcall, Checked.ok_bind]
  exact answerCall_some .granted _ fun hdenied => nomatch hdenied.2

/-- The `switch` over the number of arguments refuses a negative one. -/
theorem executeFunction_of_negative (alloc : Allocator) (function : FunctionT FunPtr)
    {msg : Message} (hargc : msg.argc.toInt < 0) :
    ∃ status, status ≠ rpcRetOk ∧
      executeFunction alloc function msg = .ok (.error status) := by
  have hswitch : (decide (0 ≤ msg.argc.toInt) && decide (msg.argc.toInt ≤ 255)) = false := by
    rw [decide_eq_false (by omega), Bool.false_and]
  rw [executeFunction]
  simp only [hswitch, Bool.false_eq_true, if_false]
  split_ifs
  · exact ⟨_, by decide, rfl⟩
  · exact ⟨_, by decide, rfl⟩
  · exact ⟨_, by decide, rfl⟩
  · exact ⟨_, by decide, rfl⟩

/-- An error is sent whole. -/
theorem sendError_granted {c : Byte} (hc : c ≠ rpcRetOk) :
    sendError .granted true c = .ok ⟨exitSuccess, some (answerFrame c none), []⟩ := by
  have hsend : send true (some ((answerFrame c none).map ([·]))) (some 5) =
      .ok (some (answerFrame c none)) :=
    send_of_contents (Block.contents_map _) rfl
  rw [sendError]
  simp only [Allocator.granted]
  rw [serializeAnswer_status hc, Checked.ok_bind]
  simp only [hsend, Checked.ok_bind, Checked.pure_eq]

theorem send_answerFrame {a : RpcArg} (hsize : (encodeArg a).length + 5 < 2 ^ 31) :
    send true (some ((answerFrame rpcRetOk (some a)).map ([·])))
      (some (BitVec.ofNat 32 (answerFrame rpcRetOk (some a)).length)) =
        .ok (some (answerFrame rpcRetOk (some a))) := by
  have hframe := length_answerFrame rpcRetOk a
  apply send_of_contents (Block.contents_map _)
  rw [toInt_ofNat_of_lt (by omega), List.length_map]

/-- The answer of a value is sent whole. -/
theorem sendAnswer_value {a : RpcArg} (ha : a.Defined) (hsize : (encodeArg a).length + 5 < 2 ^ 31)
    (call : Call) :
    (do let (ret, size) ← serializeAnswer true rpcRetOk (some a)
        sendAnswer true ⟨ret, size, call⟩) =
      .ok ⟨exitSuccess, some (answerFrame rpcRetOk (some a)), [call]⟩ := by
  rw [serializeAnswer_value ha hsize, Checked.ok_bind]
  simp only [sendAnswer, send_answerFrame hsize, Checked.ok_bind, Checked.pure_eq]

/-- The function a message is for: the newest of its name, if it accepts the
message. -/
def Memory.callee (memory : Memory FunPtr) (msg : Message) : Option (FunctionMapper FunPtr) :=
  (getFunction (some memory) msg.commandString).filter fun f => decide (f.Accepts msg)

/-- **A message that is for no function is answered with an error**, and nothing
is called. -/
theorem serveMessage_of_none {memory : Memory FunPtr} {msg : Message}
    (h : memory.callee msg = none) :
    ∃ status, status ≠ rpcRetOk ∧ serveMessage .granted true (some memory) msg =
      .ok ⟨exitSuccess, some (answerFrame status none), []⟩ := by
  rw [Memory.callee] at h
  rw [serveMessage, searchFunction_eq]
  cases hget : getFunction (some memory) msg.commandString with
  | none =>
    exact ⟨rpcRetUnknownFunc, by decide, sendError_granted (by decide)⟩
  | some f =>
    simp only
    rcases verificationFunction_eq f msg with ⟨haccepts, -⟩ | ⟨-, status, hstatus, hverify⟩
    · rw [hget, Option.filter_some, if_pos (decide_eq_true haccepts)] at h
      cases h
    · rw [hverify, Checked.ok_bind]
      exact ⟨status, hstatus, sendError_granted hstatus⟩

/-- **A message that is for a function is executed.** -/
theorem serveMessage_of_some {memory : Memory FunPtr} {msg : Message}
    {f : FunctionMapper FunPtr} (h : memory.callee msg = some f)
    (hfun : f.function.funPtr.returns = f.function.returnType) (hargc : 0 ≤ msg.argc.toInt)
    {a : RpcArg} (ha : f.function.funPtr.apply (msg.argv.map RpcArg.data) = some a) :
    serveMessage .granted true (some memory) msg = (do
      let (ret, size) ← serializeAnswer true rpcRetOk (some a)
      sendAnswer true ⟨ret, size, ⟨f.function, msg.argv.map RpcArg.data⟩⟩) := by
  rw [Memory.callee, Option.filter_eq_some_iff, decide_eq_true_iff] at h
  obtain ⟨hget, haccepts⟩ := h
  rcases verificationFunction_eq f msg with ⟨-, hverify⟩ | ⟨hrefused, -⟩
  · rw [serveMessage, searchFunction_eq, hget]
    simp only
    rw [hverify, Checked.ok_bind]
    simp only
    rw [executeFunction_of_accepts haccepts hfun hargc ha, bind_assoc]
    rfl
  · exact absurd haccepts hrefused

end RemoteProcedure
