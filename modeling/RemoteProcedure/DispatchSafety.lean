import RemoteProcedure.RemoteCall

/-!
# Type safety of the dispatch

The call of a registered function goes through a union of function pointers and
hands over data pointers, neither of which knows its type.  What makes it safe is
that `search_function`, `verification_function` and `execute_function` fit
together: the second bounds its loop by one count and indexes an array of
another, the third looks at the message where the check looked at the function,
and an error stops the flow because `send_error` ends the process.

## Main definitions

* `Memory.resolve` — what a message is for: a function, or an error.
* `Memory.dispatch` — what the server is to do with it.

## Main results

* `serveMessage_eq_dispatch` — **the server does what `Memory.dispatch` says**,
  and the default branches of `execute_function` are not reached.
-/

namespace RemoteProcedure

open Machine

/-- A registry of functions of a type of the protocol, none of them with a negative
number of parameters; that there are at most 255 is part of a `FunctionT`. -/
structure Memory.Callable (memory : Memory FunPtr) : Prop where
  returnType : ∀ f ∈ memory.fmap, typeExists f.function.returnType = true
  argc : ∀ f ∈ memory.fmap, 0 ≤ f.function.argc.toInt

/-- What a message is for: the first function of its name, if the number and the
types of the arguments and the return type are those of the function; else the
error of the first of the three that is not. -/
def Memory.resolve (memory : Memory FunPtr) (msg : Message) :
    Except Byte (FunctionMapper FunPtr) :=
  match memory.fmap.find? fun f => f.name = msg.commandString with
  | none => .error rpcRetUnknownFunc
  | some f =>
    if f.function.argc ≠ msg.argc then .error rpcWrongNumberArgs
    else if f.function.argv ≠ msg.argv.map RpcArg.typ then .error rpcRetWrongArg
    else if f.function.returnType ≠ msg.returnType then .error rpcRetWrongTyp
    else .ok f

/-- What the server is to do with a message: send the one error, or make the one
call, through the member of the declared return type, and answer it. -/
def Memory.dispatch (memory : Memory FunPtr) (alloc : Allocator) (accepted : Bool)
    (msg : Message) : Checked Served :=
  match memory.resolve msg with
  | .error status => sendError alloc accepted status
  | .ok f => do
    let args := msg.argv.map RpcArg.data
    let r ← f.function.funPtr.callMember f.function.returnType args
    let e ← answerCall alloc ⟨f.function, args⟩ r
    sendAnswer accepted e

/-- The calls a message leads to. -/
def Memory.calls (memory : Memory FunPtr) (msg : Message) : List Call :=
  match memory.resolve msg with
  | .error _ => []
  | .ok f => [⟨f.function, msg.argv.map RpcArg.data⟩]

/-! ### What resolves -/

variable {memory : Memory FunPtr} {msg : Message}

theorem resolve_eq (memory : Memory FunPtr) (msg : Message) :
    memory.resolve msg =
      match getFunction (some memory) msg.commandString with
      | none => .error rpcRetUnknownFunc
      | some f => (f.check msg).map fun _ => f := by
  rw [Memory.resolve, getFunction, getLoop_eq_find?]
  cases memory.fmap.find? fun f => decide (f.name = msg.commandString) with
  | none => rfl
  | some f =>
    simp only [FunctionMapper.check]
    split_ifs <;> rfl

/-- A message resolves to a function of the registry that accepts it. -/
theorem accepts_of_resolve {f : FunctionMapper FunPtr} (h : memory.resolve msg = .ok f) :
    getFunction (some memory) msg.commandString = some f ∧ f ∈ memory.fmap ∧ f.Accepts msg := by
  rw [resolve_eq] at h
  cases hget : getFunction (some memory) msg.commandString with
  | none =>
    rw [hget] at h
    cases h
  | some g =>
    rw [hget] at h
    simp only at h
    cases hcheck : g.check msg with
    | error status =>
      rw [hcheck] at h
      cases h
    | ok u =>
      rw [hcheck] at h
      cases h
      exact ⟨rfl, mem_of_getFunction hget, (check_eq_ok_iff _ msg).mp hcheck⟩

/-- The number of arguments of a call is within the switch, and that of the
message. -/
theorem argc_of_accepts (hreg : memory.Callable) {f : FunctionMapper FunPtr}
    (hf : f ∈ memory.fmap) (h : f.Accepts msg) :
    0 ≤ msg.argc.toInt ∧ msg.argc.toInt ≤ 255 ∧ (msg.argv.length : ℤ) = msg.argc.toInt := by
  have hlo := hreg.argc f hf
  have hhi : f.function.argv.length ≤ 255 := f.function.argv_le
  have hlength := msg.argv_length
  rw [h.argc] at hlo
  rw [h.argv, List.length_map] at hhi
  omega

/-- **A function that accepts a message is called through its own member**, and no
default branch is reached. -/
theorem executeFunction_of_resolve (hreg : memory.Callable) (alloc : Allocator)
    {f : FunctionMapper FunPtr} (h : memory.resolve msg = .ok f) :
    executeFunction alloc f.function msg = (do
      let r ← f.function.funPtr.callMember f.function.returnType (msg.argv.map RpcArg.data)
      let e ← answerCall alloc ⟨f.function, msg.argv.map RpcArg.data⟩ r
      return .ok e) := by
  obtain ⟨-, hf, haccepts⟩ := accepts_of_resolve h
  obtain ⟨hlo, hhi, -⟩ := argc_of_accepts hreg hf haccepts
  have htype := hreg.returnType f hf
  rw [haccepts.returnType] at htype ⊢
  exact executeFunction_eq alloc f.function htype hlo hhi

theorem executeFunction_ne_error (hreg : memory.Callable) (alloc : Allocator)
    {f : FunctionMapper FunPtr} (h : memory.resolve msg = .ok f) (status : Byte) :
    executeFunction alloc f.function msg ≠ .ok (.error status) := by
  rw [executeFunction_of_resolve hreg alloc h]
  intro hdefault
  rw [Checked.bind_eq_ok] at hdefault
  obtain ⟨r, -, hdefault⟩ := hdefault
  rw [Checked.bind_eq_ok] at hdefault
  obtain ⟨e, -, hdefault⟩ := hdefault
  cases hdefault

/-! ### The calls -/

theorem calls_of_sendError {alloc : Allocator} {accepted : Bool} {c : Byte} {served : Served}
    (h : sendError alloc accepted c = .ok served) : served.calls = [] := by
  rw [sendError, Checked.bind_eq_ok] at h
  obtain ⟨⟨ret, size⟩, -, h⟩ := h
  rw [Checked.bind_eq_ok] at h
  obtain ⟨sent, -, h⟩ := h
  cases sent <;> cases h <;> rfl

theorem calls_of_sendAnswer {accepted : Bool} {e : Executed} {served : Served}
    (h : sendAnswer accepted e = .ok served) : served.calls = [e.call] := by
  rw [sendAnswer, Checked.bind_eq_ok] at h
  obtain ⟨sent, -, h⟩ := h
  cases sent <;> cases h <;> rfl

theorem call_of_answerCall {alloc : Allocator} {call : Call} {r : Option RpcArg} {e : Executed}
    (h : answerCall alloc call r = .ok e) : e.call = call := by
  cases r with
  | none => cases h; rfl
  | some a =>
    rw [answerCall] at h
    split_ifs at h
    rw [Checked.bind_eq_ok] at h
    obtain ⟨⟨ret, size⟩, -, h⟩ := h
    cases h
    rfl

/-- The calls a child reports are those the message leads to. -/
theorem calls_of_dispatch {alloc : Allocator} {accepted : Bool} {served : Served}
    (h : memory.dispatch alloc accepted msg = .ok served) : served.calls = memory.calls msg := by
  rw [Memory.dispatch] at h
  rw [Memory.calls]
  cases hresolve : memory.resolve msg with
  | error status =>
    rw [hresolve] at h
    exact calls_of_sendError h
  | ok f =>
    rw [hresolve] at h
    simp only [Checked.bind_eq_ok] at h
    obtain ⟨r, -, e, he, h⟩ := h
    rw [calls_of_sendAnswer h, call_of_answerCall he]

/-- An error is sent for a message that resolves to none. -/
theorem serveMessage_of_error {status : Byte} (h : memory.resolve msg = .error status)
    (alloc : Allocator) (accepted : Bool) :
    serveMessage alloc accepted (some memory) msg = sendError alloc accepted status := by
  rw [resolve_eq] at h
  rw [serveMessage, searchFunction_eq]
  cases hget : getFunction (some memory) msg.commandString with
  | none =>
    rw [hget] at h
    cases h
    rfl
  | some f =>
    rw [hget] at h
    simp only at h ⊢
    rw [verificationFunction_check, Checked.ok_bind]
    cases hcheck : f.check msg with
    | error status' =>
      rw [hcheck] at h
      cases h
      rfl
    | ok u =>
      rw [hcheck] at h
      cases h

/-- A message that resolves to a function is executed. -/
theorem serveMessage_of_ok (hreg : memory.Callable) {f : FunctionMapper FunPtr}
    (h : memory.resolve msg = .ok f) (alloc : Allocator) (accepted : Bool) :
    serveMessage alloc accepted (some memory) msg = memory.dispatch alloc accepted msg := by
  obtain ⟨hget, -, haccepts⟩ := accepts_of_resolve h
  rw [serveMessage, searchFunction_eq, Memory.dispatch, h, hget]
  simp only
  rw [verificationFunction_check, (check_eq_ok_iff f msg).mpr haccepts, Checked.ok_bind]
  simp only
  rw [executeFunction_of_resolve hreg alloc h]
  simp only [bind_assoc]
  rfl

/-- **Type safety of the dispatch.**  Whatever the message, the server does what
`Memory.dispatch` says; the calls it makes are those of `Memory.calls`, with as
many arguments as the message announces; and what passes the check does not reach
a default branch. -/
theorem serveMessage_eq_dispatch (hreg : memory.Callable) (alloc : Allocator) (accepted : Bool)
    (msg : Message) :
    serveMessage alloc accepted (some memory) msg = memory.dispatch alloc accepted msg ∧
    (∀ served, serveMessage alloc accepted (some memory) msg = .ok served →
      served.calls = memory.calls msg) ∧
    (∀ call ∈ memory.calls msg, (call.args.length : ℤ) = msg.argc.toInt) ∧
    ∀ f, getFunction (some memory) msg.commandString = some f →
      verificationFunction (some f) msg = .ok (.ok ()) →
        ∀ status, executeFunction alloc f.function msg ≠ .ok (.error status) := by
  have hserve : serveMessage alloc accepted (some memory) msg =
      memory.dispatch alloc accepted msg := by
    cases hresolve : memory.resolve msg with
    | error status =>
      rw [serveMessage_of_error hresolve, Memory.dispatch, hresolve]
    | ok f => exact serveMessage_of_ok hreg hresolve alloc accepted
  refine ⟨hserve, ?_, ?_, ?_⟩
  · intro served h
    rw [hserve] at h
    exact calls_of_dispatch h
  · intro call hcall
    rw [Memory.calls] at hcall
    cases hresolve : memory.resolve msg with
    | error status =>
      rw [hresolve] at hcall
      exact absurd hcall List.not_mem_nil
    | ok f =>
      rw [hresolve] at hcall
      obtain rfl := List.mem_singleton.mp hcall
      obtain ⟨-, hf, haccepts⟩ := accepts_of_resolve hresolve
      rw [List.length_map]
      exact (argc_of_accepts hreg hf haccepts).2.2
  · intro f hget hverify status
    refine executeFunction_ne_error hreg alloc ?_ status
    rw [verificationFunction_check] at hverify
    rw [resolve_eq, hget]
    simp only [Except.ok.inj hverify]
    rfl

/-- A registry with one function, and a call of it. -/
theorem serveMessage_eq_dispatch_f :
    ∃ m, createMessage allGranted (some .unset) (some mapperF.name) rpcTyStr 0
      (some ⟨[], rfl⟩) = .ok (.created m) ∧
    serveMessage .granted true (some (registry [mapperF])) m =
      (registry [mapperF]).dispatch .granted true m ∧
    (registry [mapperF]).calls m = [⟨mapperF.function, []⟩] := by
  refine ⟨_, rfl, (serveMessage_eq_dispatch ⟨?_, ?_⟩ .granted true _).1, rfl⟩
  · intro f hf
    obtain rfl := List.mem_singleton.mp hf
    rfl
  · intro f hf
    obtain rfl := List.mem_singleton.mp hf
    decide

end RemoteProcedure
