import RemoteProcedure.Framing
import RemoteProcedure.RemoteCall
import RemoteProcedure.Connection

/-!
# A request is executed at most once

A connection over any run: signals may come between any two steps of the child, its
allocations and sends may fail, and the tracker may sweep its entry with any result.
Only the request is taken to arrive whole.  Whatever happens, the function is called
once at most, and the first frame tells the client what it may conclude.

## Main definitions

* `Session`, `Session.step` — a connection beside the calls its child has begun.
* `Reply` — the frames that may be on a connection, by what was called.

## Main results

* `reply_of_run` — **every frame tells the truth about the calls**, in every run.
* `getAnswer_of_reply` — the client gets the value of the one call, or an error and no
  value.
-/

namespace RemoteProcedure

open Machine

/-! ### Frames -/

/-- Without a block there is no frame, -/
theorem fst_of_serializeAnswer {status : Byte} {ret : Option RpcArg}
    {r : Option (Block Byte) × Option CInt} (h : serializeAnswer false status ret = .ok r) :
    r.1 = none := by
  have hnone : ∀ size : ℤ, malloc false size = (none : Option (Block Byte)) := fun _ => rfl
  unfold serializeAnswer at h
  simp only [hnone] at h
  split_ifs at h
  · cases h
    rfl
  · cases h
    rfl

/-- and nothing is sent. -/
theorem send_none (accepted : Bool) (size : Option CInt) (frame : List Byte) :
    send accepted none size ≠ .ok (some frame) := by
  cases size with
  | none => exact fun h => nomatch h
  | some size => exact fun h => nomatch h

/-- `send_error` sends the error it is given, if anything. -/
theorem sent_of_sendError {alloc : Allocator} {accepted : Bool} {c : Byte} (hc : c ≠ rpcRetOk)
    {served : Served} (h : sendError alloc accepted c = .ok served) :
    ∀ frame ∈ served.sent, frame = answerFrame c none := by
  have hframe : Block.contents ((answerFrame c none).map ([·])) = some (answerFrame c none) :=
    Block.contents_map _
  rw [sendError, Checked.bind_eq_ok] at h
  obtain ⟨⟨msg, size⟩, hmsg, h⟩ := h
  rw [Checked.bind_eq_ok] at h
  obtain ⟨sent, hsend, h⟩ := h
  cases sent with
  | none =>
    cases h
    exact fun frame hmem => absurd hmem (Option.not_mem_none frame)
  | some sent =>
    cases h
    rintro frame ⟨⟩
    cases hgranted : alloc.answer with
    | false =>
      rw [hgranted] at hmsg
      obtain rfl : msg = none := fst_of_serializeAnswer hmsg
      exact absurd hsend (send_none accepted size sent)
    | true =>
      rw [hgranted, serializeAnswer_status hc] at hmsg
      cases hmsg
      cases accepted with
      | false => cases hsend
      | true =>
        have hwhole : send true _ (some 5) = _ := send_of_contents hframe rfl
        cases hwhole.symm.trans hsend
        rfl

/-! ### A call and its answer -/

/-- The call of a function with the arguments of a message. -/
def FunctionMapper.call (f : FunctionMapper FunPtr) (m : Message) : Call :=
  ⟨f.function, m.argv.map RpcArg.data⟩

/-- The value of that call. -/
def FunctionMapper.value (f : FunctionMapper FunPtr) (m : Message) : Option RpcArg :=
  f.function.funPtr.apply (m.argv.map RpcArg.data)

theorem FunPtr.typeExists_returns (f : FunPtr) : typeExists f.returns = true := by
  cases f with
  | voidFun g => rfl
  | intFun g => rfl
  | strFun g => rfl

theorem FunctionMapper.Accepts.argc_le {f : FunctionMapper FunPtr} {m : Message}
    (h : f.Accepts m) : m.argc.toInt ≤ 255 := by
  have hle : f.function.argv.length ≤ 255 := f.function.argv_le
  rw [h.argv, List.length_map, m.argv_length] at hle
  omega

/-- The `switch` of `execute_function` has a case for so many arguments. -/
def Message.InSwitch (m : Message) : Prop := 0 ≤ m.argc.toInt ∧ m.argc.toInt ≤ 255

instance (m : Message) : Decidable m.InSwitch := inferInstanceAs (Decidable (_ ∧ _))

/-- The answer that is sent after a call is the frame of its value. -/
theorem frame_of_executed {f : FunctionMapper FunPtr} {m : Message} (h : f.Accepts m)
    (hfun : f.function.funPtr.returns = f.function.returnType) (hswitch : m.InSwitch)
    (hfits : ∀ s, f.value m = some (.str s) → s.length + 7 < 2 ^ 31) {alloc : Allocator}
    {e : Executed} (he : executeFunction alloc f.function m = .ok (.ok e)) {accepted : Bool}
    {frame : List Byte} (hsend : send accepted e.ret e.size = .ok (some frame)) :
    ∃ a, f.value m = some a ∧ frame = answerFrame rpcRetOk (some a) := by
  have htype : typeExists m.returnType = true := by
    rw [← h.returnType, ← hfun]
    exact f.function.funPtr.typeExists_returns
  rw [executeFunction_eq alloc f.function htype hswitch.1 hswitch.2, Checked.bind_eq_ok] at he
  obtain ⟨r, hcall, he⟩ := he
  rw [← h.returnType, ← hfun] at hcall
  obtain rfl : f.value m = r := FunPtr.apply_of_callMember hcall
  rw [Checked.bind_eq_ok] at he
  obtain ⟨e', hanswer, he⟩ := he
  cases he
  cases ha : f.value m with
  | none =>
    -- neither the block nor its size was assigned
    rw [ha] at hanswer
    cases hanswer
    cases hsend
  | some a =>
    refine ⟨a, rfl, ?_⟩
    have hdefined := (FunPtr.apply_typ ha).1
    have hsize := length_encodeArg_lt hdefined fun s hs => hfits s (hs ▸ ha)
    rw [ha, answerCall] at hanswer
    split_ifs at hanswer
    rw [Checked.bind_eq_ok] at hanswer
    obtain ⟨⟨ret, size⟩, hserialize, hanswer⟩ := hanswer
    cases hanswer
    cases hgranted : alloc.answer with
    | false =>
      rw [hgranted] at hserialize
      obtain rfl : ret = none := fst_of_serializeAnswer hserialize
      exact absurd hsend (send_none accepted size frame)
    | true =>
      rw [hgranted, serializeAnswer_value hdefined hsize] at hserialize
      cases hserialize
      cases accepted with
      | false => cases hsend
      | true =>
        cases (send_answerFrame hsize).symm.trans hsend
        rfl

/-! ### A connection and its calls -/

/-- A connection, and the calls that its child has begun. -/
structure Session where
  conn : Connection
  calls : List Call

namespace Session

/-- A child that was just forked. -/
def init : Session := ⟨.init, []⟩

/-- The function that was verified is called if the `switch` has a case for it. -/
def made (f : FunctionMapper FunPtr) (msg : Message) : List Call :=
  if msg.InSwitch ∧ typeExists msg.returnType = true then [f.call msg] else []

/-- The calls of a step.  One that a signal interrupts counts as well: it may have been
begun. -/
def called (s : Session) (a : Connection.Act) : List Call :=
  match a, s.conn.pc with
  | .execute _, .executing f msg => made f msg
  | .alarm, .executing f msg => made f msg
  | .kill _, .executing f msg => made f msg
  | _, _ => []

theorem called_cases (s : Session) (a : Connection.Act) : s.called a = [] ∨
    ∃ f msg, s.conn.pc = .executing f msg ∧ s.called a = made f msg := by
  unfold called
  split
  · exact .inr ⟨_, _, ‹_›, rfl⟩
  · exact .inr ⟨_, _, ‹_›, rfl⟩
  · exact .inr ⟨_, _, ‹_›, rfl⟩
  · exact .inl rfl

/-- One step of a connection. -/
def step (memory : Memory FunPtr) (s : Session) (a : Connection.Act) : Option Session :=
  (s.conn.step memory a).map fun conn => ⟨conn, s.calls ++ s.called a⟩

end Session

/-- A request that can be sent, and read back. -/
def Message.Sent (m : Message) : Prop :=
  (∀ a ∈ m.argv, a.Transmissible) ∧ (encodeRequest m).length + 4 < 2 ^ 31

/-- The functions return what they are declared to, and a string that fits a frame; the
request can be sent, and read back. -/
structure Servable (memory : Memory FunPtr) (m : Message) : Prop where
  returns : ∀ f ∈ memory.fmap, f.function.funPtr.returns = f.function.returnType
  fits : ∀ f s, memory.callee m = some f → f.value m = some (.str s) → s.length + 7 < 2 ^ 31
  transmissible : ∀ a ∈ m.argv, a.Transmissible
  short : (encodeRequest m).length + 4 < 2 ^ 31

/-- What the child reads is what this client sends. -/
def Reads (client : Socket Byte) : Connection.Act → Prop
  | .read _ from' => from' = client
  | _ => True

/-- A client that sends its request, which arrives whole. -/
def Message.client (m : Message) : Socket Byte := ⟨requestFrame m, []⟩

/-- `read_msg` gets the request back. -/
theorem readMsg_client {m : Message} (hm : m.Sent) :
    readMsg Allocator.granted.request Allocator.granted.message .unset m.client = .ok (some m) :=
  readMsg_uncut hm.1 hm.2 .unset

/-- The request arrives whole. -/
def ReadsWhole (m : Message) : Connection.Act → Prop := Reads m.client

/-- A frame that may be on the connection of a request after these calls. -/
inductive Reply (memory : Memory FunPtr) (m : Message) (calls : List Call) : List Byte → Prop where
  /-- The value of the one call that was made. -/
  | value {f : FunctionMapper FunPtr} {a : RpcArg} (hf : memory.callee m = some f)
      (ha : f.value m = some a) (hcalls : calls = [f.call m]) :
      Reply memory m calls (answerFrame rpcRetOk (some a))
  /-- Nothing is said about a call. -/
  | noAnswer : Reply memory m calls (answerFrame rpcRetNoAnswer none)
  /-- Nothing was called. -/
  | refused {status : Byte} (hstatus : status ≠ rpcRetOk) (hcalls : calls = []) :
      Reply memory m calls (answerFrame status none)

/-- The function of the request was called once, or nothing was. -/
def CalledAtMostOnce (memory : Memory FunPtr) (m : Message) (calls : List Call) : Prop :=
  calls = [] ∨ ∃ f, memory.callee m = some f ∧ calls = [f.call m]

/-- The child has neither called nor sent anything. -/
def ChildPc.fresh : ChildPc → Bool
  | start => true
  | reading => true
  | searching _ => true
  | verifying _ _ => true
  | executing _ _ => true
  | _ => false

/-- What a child that serves a request has come to. -/
def ChildPc.Serving (memory : Memory FunPtr) (m : Message) (calls : List Call) : ChildPc → Prop
  | searching msg => msg = m
  | verifying f msg => msg = m ∧ f = getFunction (some memory) m.commandString
  | executing f msg => msg = m ∧ memory.callee m = some f
  | sending e => ∀ accepted frame, send accepted e.ret e.size = .ok (some frame) →
      Reply memory m calls frame
  | refusing c => c ≠ rpcRetOk ∧ (c = rpcRetNoAnswer ∨ calls = [])
  | _ => True

namespace Session

/-- What holds between any two steps of a connection with this request. -/
structure Inv (memory : Memory FunPtr) (m : Message) (s : Session) : Prop where
  serving : s.conn.pc.Serving memory m s.calls
  fresh : s.conn.pc.fresh = true →
    s.calls = [] ∧ ∀ frame ∈ s.conn.frames, frame = answerFrame rpcRetNoAnswer none
  frames : ∀ frame ∈ s.conn.frames, Reply memory m s.calls frame
  calls : CalledAtMostOnce memory m s.calls

variable {memory : Memory FunPtr} {m : Message} {s t : Session}

theorem inv_init : Inv memory m init :=
  ⟨trivial, fun _ => ⟨rfl, fun _ h => absurd h List.not_mem_nil⟩,
    fun _ h => absurd h List.not_mem_nil, .inl rfl⟩

/-- A step that calls nothing, with what is sent in it. -/
theorem Inv.next (h : s.Inv memory m) {conn : Connection} {sent : List (List Byte)}
    (hframes : conn.frames = s.conn.frames ++ sent)
    (hsent : ∀ frame ∈ sent, Reply memory m s.calls frame)
    (hserving : conn.pc.Serving memory m s.calls)
    (hfresh : conn.pc.fresh = true → s.conn.pc.fresh = true ∧
      ∀ frame ∈ sent, frame = answerFrame rpcRetNoAnswer none) :
    Inv memory m ⟨conn, s.calls ++ []⟩ := by
  rw [List.append_nil]
  refine ⟨hserving, ?_, ?_, h.calls⟩
  · intro hpc
    obtain ⟨hold, hnew⟩ := hfresh hpc
    obtain ⟨hcalls, hquiet⟩ := h.fresh hold
    refine ⟨hcalls, ?_⟩
    intro frame hmem
    simp only [hframes, List.mem_append] at hmem
    exact hmem.elim (hquiet frame) (hnew frame)
  · intro frame hmem
    simp only [hframes, List.mem_append] at hmem
    exact hmem.elim (h.frames frame) (hsent frame)

/-- One in which nothing is sent either. -/
theorem Inv.advance (h : s.Inv memory m) {conn : Connection}
    (hframes : conn.frames = s.conn.frames) (hserving : conn.pc.Serving memory m s.calls)
    (hfresh : conn.pc.fresh = true → s.conn.pc.fresh = true) :
    Inv memory m ⟨conn, s.calls ++ []⟩ :=
  h.next (hframes.trans (List.append_nil _).symm) (fun _ hmem => absurd hmem List.not_mem_nil)
    hserving fun hpc => ⟨hfresh hpc, fun _ hmem => absurd hmem List.not_mem_nil⟩

/-! ### The steps of the child -/

/-- Behind `read_msg` the message is the request. -/
theorem serving_read (hm : Servable memory m) (alloc : Allocator) (calls : List Call) :
    (ChildPc.read alloc ⟨requestFrame m, []⟩).Serving memory m calls := by
  rw [ChildPc.read]
  split
  · next msg hread => exact eq_of_readMsg hm.transmissible hm.short hread
  · trivial
  · trivial

theorem serving_search (memory : Memory FunPtr) (m : Message) :
    (ChildPc.search memory m).Serving memory m [] := by
  rw [ChildPc.search, searchFunction_eq]
  cases hget : getFunction (some memory) m.commandString with
  | none => exact ⟨by decide, .inr rfl⟩
  | some f => exact ⟨rfl, hget.symm⟩

theorem serving_verify (memory : Memory FunPtr) (m : Message) :
    (ChildPc.verify (getFunction (some memory) m.commandString) m).Serving memory m [] := by
  cases hget : getFunction (some memory) m.commandString with
  | none => trivial
  | some f =>
    rcases verificationFunction_eq f m with ⟨haccepts, hverify⟩ | ⟨-, status, hstatus, hverify⟩
    · simp only [ChildPc.verify, hverify]
      refine ⟨rfl, ?_⟩
      rw [Memory.callee, hget]
      exact Option.filter_eq_some_iff.mpr ⟨rfl, decide_eq_true haccepts⟩
    · simp only [ChildPc.verify, hverify]
      exact ⟨hstatus, .inr rfl⟩

theorem accepts_of_callee {f : FunctionMapper FunPtr} (h : memory.callee m = some f) :
    f ∈ memory.fmap ∧ f.Accepts m := by
  rw [Memory.callee, Option.filter_eq_some_iff] at h
  exact ⟨mem_of_getFunction h.1, of_decide_eq_true h.2⟩

/-- Before the call nothing has been called or answered, and the function is the one that
was asked for. -/
theorem Inv.executing (h : s.Inv memory m) {f : FunctionMapper FunPtr} {msg : Message}
    (hpc : s.conn.pc = .executing f msg) : msg = m ∧ memory.callee m = some f ∧ s.calls = [] ∧
      ∀ calls, ∀ frame ∈ s.conn.frames, Reply memory m calls frame := by
  have hserving := h.serving
  rw [hpc] at hserving
  obtain ⟨hmsg, hf⟩ := hserving
  obtain ⟨hcalls, hquiet⟩ := h.fresh (by rw [hpc]; rfl)
  refine ⟨hmsg, hf, hcalls, ?_⟩
  intro calls frame hframe
  rw [hquiet frame hframe]
  exact .noAnswer

/-- **The one call is that of the function of the request.** -/
theorem Inv.made (h : s.Inv memory m) {f : FunctionMapper FunPtr} {msg : Message}
    (hpc : s.conn.pc = .executing f msg) : CalledAtMostOnce memory m (s.calls ++ made f msg) := by
  obtain ⟨rfl, hf, hcalls, -⟩ := h.executing hpc
  rw [hcalls, Session.made]
  split_ifs
  · exact .inr ⟨f, hf, rfl⟩
  · exact .inl rfl

/-- A signal may interrupt the call. -/
theorem Inv.interrupted (h : s.Inv memory m) (a : Connection.Act) {conn : Connection}
    (hframes : conn.frames = s.conn.frames)
    (hserving : ∀ calls, conn.pc.Serving memory m calls) (hfresh : conn.pc.fresh = false) :
    Inv memory m ⟨conn, s.calls ++ s.called a⟩ := by
  have hstale : conn.pc.fresh ≠ true := by
    rw [hfresh]
    exact Bool.false_ne_true
  rcases called_cases s a with hcalled | ⟨f, msg, hpc, hcalled⟩
  · rw [hcalled]
    exact h.advance hframes (hserving _) fun hno => absurd hno hstale
  · obtain ⟨-, -, -, hkept⟩ := h.executing hpc
    rw [hcalled]
    refine ⟨hserving _, fun hno => absurd hno hstale, ?_, h.made hpc⟩
    rw [hframes]
    exact hkept _

/-- `execute_function` makes the call, and has its value to send. -/
theorem inv_execute (hm : Servable memory m) (h : s.Inv memory m) {f : FunctionMapper FunPtr}
    {msg : Message} (hpc : s.conn.pc = .executing f msg) (alloc : Allocator) :
    Inv memory m ⟨{ s.conn with pc := .execute alloc f msg },
      s.calls ++ s.called (.execute alloc)⟩ := by
  have hdone := h.made hpc
  obtain ⟨rfl, hf, hcalls, hkept⟩ := h.executing hpc
  obtain ⟨hmem, haccepts⟩ := accepts_of_callee hf
  have htype : typeExists msg.returnType = true := by
    rw [← haccepts.returnType, ← hm.returns f hmem]
    exact f.function.funPtr.typeExists_returns
  have hcalled : s.called (.execute alloc) = Session.made f msg := by
    simp only [called, hpc]
  have hmade : Session.made f msg = if msg.InSwitch then [f.call msg] else [] := by
    simp only [Session.made, htype, and_true]
  rw [hcalled]
  rw [hcalls, hmade, List.nil_append] at hdone ⊢
  by_cases hswitch : msg.InSwitch
  · rw [if_pos hswitch] at hdone ⊢
    rw [ChildPc.execute]
    split
    · next e he =>
      refine ⟨?_, fun hno => Bool.noConfusion hno, hkept _, hdone⟩
      intro accepted frame hsend
      obtain ⟨a, ha, rfl⟩ := frame_of_executed haccepts (hm.returns f hmem) hswitch
        (fun str => hm.fits f str hf) he hsend
      exact .value hf ha rfl
    · next status he =>
      -- the `switch` has a case, so there is an answer
      rw [executeFunction_eq alloc f.function htype hswitch.1 hswitch.2, Checked.bind_eq_ok] at he
      obtain ⟨r, -, he⟩ := he
      rw [Checked.bind_eq_ok] at he
      obtain ⟨e, -, he⟩ := he
      cases he
    · exact ⟨trivial, fun hno => Bool.noConfusion hno, hkept _, hdone⟩
  · rw [if_neg hswitch]
    have hargc : msg.argc.toInt < 0 := by
      by_contra hle
      exact hswitch ⟨by omega, haccepts.argc_le⟩
    obtain ⟨status, hstatus, hexecute⟩ := executeFunction_of_negative alloc f.function hargc
    rw [ChildPc.execute, hexecute]
    exact ⟨⟨hstatus, .inr rfl⟩, fun hno => Bool.noConfusion hno, hkept _, .inl rfl⟩

/-- Where nothing was sent the child ends. -/
theorem inv_unsent (h : s.Inv memory m) (r : SendResult) (status : CInt) :
    Inv memory m ⟨{ s.conn with pc := .unsent r status }, s.calls ++ []⟩ := by
  rw [ChildPc.unsent]
  split_ifs
  · exact h.advance rfl trivial fun hno => Bool.noConfusion hno
  · exact h.advance rfl trivial fun hno => Bool.noConfusion hno

theorem inv_sendAnswerStep (h : s.Inv memory m) {e : Executed} (hpc : s.conn.pc = .sending e)
    (r : SendResult) : Inv memory m ⟨s.conn.sendAnswerStep r e, s.calls ++ []⟩ := by
  have hserving := h.serving
  rw [hpc] at hserving
  rw [Connection.sendAnswerStep]
  split
  · next frame hsend =>
    have hframes : s.conn.frames ++ [frame] = s.conn.frames ++ [frame] := rfl
    refine h.next hframes ?_ trivial fun hno => Bool.noConfusion hno
    intro frame' hframe
    rw [List.mem_singleton.mp hframe]
    exact hserving _ frame hsend
  · exact inv_unsent h r exitFailure
  · exact h.advance rfl trivial fun hno => Bool.noConfusion hno

theorem inv_sendErrorStep (h : s.Inv memory m) {c : Byte} (hpc : s.conn.pc = .refusing c)
    (granted : Bool) (r : SendResult) :
    Inv memory m ⟨s.conn.sendErrorStep granted r c, s.calls ++ []⟩ := by
  have hserving := h.serving
  rw [hpc] at hserving
  obtain ⟨hc, hcalls⟩ := hserving
  rw [Connection.sendErrorStep]
  split
  · next served hsend =>
    have hsent := sent_of_sendError hc hsend
    split
    · next frame hframe =>
      have hframes : s.conn.frames ++ [frame] = s.conn.frames ++ [frame] := rfl
      refine h.next hframes ?_ trivial fun hno => Bool.noConfusion hno
      intro frame' hframe'
      rw [List.mem_singleton.mp hframe', hsent frame hframe]
      rcases hcalls with rfl | hcalls
      · exact .noAnswer
      · exact .refused hc hcalls
    · exact inv_unsent h _ _
  · exact h.advance rfl trivial fun hno => Bool.noConfusion hno

/-- The tracker says nothing about a call. -/
theorem inv_sweepStep (h : s.Inv memory m) (granted : Bool) (r : SendResult) {res : WaitResult}
    {swept : Swept} (hswept : sweepEntry res = .ok swept) :
    Inv memory m ⟨s.conn.sweepStep granted r swept, s.calls ++ []⟩ := by
  rcases Server.sweepEntry_cases res with ⟨e, -, herror⟩ | ⟨swept', hok, hanswer⟩
  · cases herror.symm.trans hswept
  · cases hok.symm.trans hswept
    rw [Connection.sweepStep]
    rcases hanswer with hnone | ⟨hsome, -⟩
    · rw [hnone]
      exact h.advance rfl h.serving id
    · rw [hsome]
      simp only
      split
      · next served hsend =>
        have hsent : ∀ frame ∈ served.sent.toList, frame = answerFrame rpcRetNoAnswer none := by
          intro frame hframe
          exact sent_of_sendError (by decide) hsend frame (Option.mem_toList.mp hframe)
        refine h.next rfl ?_ h.serving fun hpc => ⟨hpc, hsent⟩
        intro frame hframe
        rw [hsent frame hframe]
        exact .noAnswer
      · exact h.advance rfl h.serving id

/-- **One step keeps it**, whatever the step. -/
theorem inv_step (hm : Servable memory m) (h : s.Inv memory m) {a : Connection.Act}
    (hreads : ReadsWhole m a) (hstep : s.step memory a = some t) : Inv memory m t := by
  rw [step, Option.map_eq_some_iff] at hstep
  obtain ⟨conn, hconn, rfl⟩ := hstep
  have hserving := h.serving
  cases Connection.step_cases hconn with
  | setTimeout hpc => exact h.advance rfl trivial fun _ => by rw [hpc]; rfl
  | @read alloc client hpc =>
    obtain rfl : client = ⟨requestFrame m, []⟩ := hreads
    exact h.advance rfl (serving_read hm alloc _) fun _ => by rw [hpc]; rfl
  | @search msg hpc =>
    rw [hpc] at hserving
    obtain rfl : msg = m := hserving
    obtain ⟨hcalls, -⟩ := h.fresh (by rw [hpc]; rfl)
    refine h.advance rfl ?_ fun _ => by rw [hpc]; rfl
    rw [hcalls]
    exact serving_search memory msg
  | verify hpc =>
    rw [hpc] at hserving
    obtain ⟨rfl, rfl⟩ := hserving
    obtain ⟨hcalls, -⟩ := h.fresh (by rw [hpc]; rfl)
    refine h.advance rfl ?_ fun _ => by rw [hpc]; rfl
    rw [hcalls]
    exact serving_verify memory _
  | execute hpc => exact inv_execute hm h hpc _
  | sendAnswer hpc => exact inv_sendAnswerStep h hpc _
  | sendError hpc => exact inv_sendErrorStep h hpc _ _
  | close hpc => exact h.advance rfl trivial fun hno => Bool.noConfusion hno
  | exit hpc => exact h.advance rfl trivial fun hno => Bool.noConfusion hno
  | wreck hpc => exact h.advance rfl trivial fun hno => Bool.noConfusion hno
  | alarm halive htimer => exact h.interrupted .alarm rfl (fun _ => ⟨by decide, .inl rfl⟩) rfl
  | @kill sig halive hsig => exact h.interrupted (.kill sig) rfl (fun _ => trivial) rfl
  | swept htracked hanswers hswept => exact inv_sweepStep h _ _ hswept
  | crashed herror => exact h.advance rfl hserving id

theorem inv_of_run (hm : Servable memory m) {acts : List Connection.Act}
    (hreads : ∀ a ∈ acts, ReadsWhole m a) (h : runFrom (step memory) init acts = some t) :
    Inv memory m t := by
  have hstep : ∀ (s : Session) a t, Inv memory m s → ReadsWhole m a → s.step memory a = some t →
      Inv memory m t := by
    intro s a t hs hread hstep
    exact inv_step hm hs hread hstep
  exact invariant_of_along (Inv memory m) hstep inv_init
    (along_of_forall fun a ha _ => hreads a ha) h

/-- **Every frame tells the truth about the calls**, and there is one call at most, in
every run: the value is that of the one call, and an error other than
`RPC_RET_NO_ANSWER` means that none was begun. -/
theorem reply_of_run (hm : Servable memory m) {acts : List Connection.Act}
    (hreads : ∀ a ∈ acts, ReadsWhole m a) (h : runFrom (step memory) init acts = some t) :
    CalledAtMostOnce memory m t.calls ∧ ∀ frame ∈ t.conn.frames, Reply memory m t.calls frame :=
  ⟨(inv_of_run hm hreads h).calls, (inv_of_run hm hreads h).frames⟩

/-! ### The client -/

/-- What the client makes of the first frame it reads. -/
theorem getAnswer_of_reply (hm : Servable memory m) {calls : List Call} {frame : List Byte}
    (h : Reply memory m calls frame) (rest : List Byte) (cell : Option Data) :
    getAnswer true true (charToInt m.returnType) cell ⟨frame ++ rest, []⟩ = .ok (-1, cell) ∨
    ∃ f a, memory.callee m = some f ∧ f.value m = some a ∧ calls = [f.call m] ∧
      getAnswer true true (charToInt m.returnType) cell ⟨frame ++ rest, []⟩ =
        .ok (0, a.assign cell) := by
  have hstatus : ∀ status : Byte, status ≠ rpcRetOk →
      getAnswer true true (charToInt m.returnType) cell ⟨answerFrame status none ++ rest, []⟩ =
        .ok (-1, cell) := by
    intro status hne
    have hlen : (BitVec.ofNat 32 (encodeAnswer status none).length).toInt =
        (encodeAnswer status none).length := toInt_ofNat_of_lt (show 1 < 2 ^ 31 by decide)
    rw [getAnswer_eq, answerFrame, recvFrame_append hlen (by rw [hlen]), ← answerFrame,
      ← getAnswer_eq]
    exact getAnswer_status hne _ cell
  cases h with
  | noAnswer => exact .inl (hstatus rpcRetNoAnswer (by decide))
  | refused hne => exact .inl (hstatus _ hne)
  | @value f a hf ha hcalls =>
    refine .inr ⟨f, a, hf, ha, hcalls, ?_⟩
    obtain ⟨hmem, haccepts⟩ := accepts_of_callee hf
    obtain ⟨hdefined, htyp⟩ := FunPtr.apply_typ ha
    have hstr : ∀ s, a = .str s → s.length + 7 < 2 ^ 31 := fun s hs => hm.fits f s hf (hs ▸ ha)
    have hshort := length_encodeArg_lt hdefined hstr
    have hbody : (encodeAnswer rpcRetOk (some a)).length = (encodeArg a).length + 1 := rfl
    have hlen : (BitVec.ofNat 32 (encodeAnswer rpcRetOk (some a)).length).toInt =
        (encodeAnswer rpcRetOk (some a)).length := toInt_ofNat_of_lt (by omega)
    rw [← haccepts.returnType, ← hm.returns f hmem, ← htyp, getAnswer_eq, answerFrame,
      recvFrame_append hlen (by rw [hlen]), ← answerFrame, ← getAnswer_eq]
    refine getAnswer_value hdefined (by omega) ?_ cell
    intro s hs
    have := hstr s hs
    omega

/-- A call of `f`, and the timer just after the answer was sent. -/
def answeredCall : List Connection.Act :=
  [.setTimeout true, .read .granted ⟨requestFrame callF, []⟩, .search, .verify, .execute .granted,
    .send true .accepted, .alarm, .send true .accepted]

theorem servable_callF : Servable (registry [mapperF]) callF where
  returns f hf := by
    rw [fmap_registry] at hf
    obtain rfl := List.mem_singleton.mp hf
    rfl
  fits f s hf hs := by
    have hmem := (accepts_of_callee hf).1
    rw [fmap_registry] at hmem
    obtain rfl := List.mem_singleton.mp hmem
    cases hs
    decide
  transmissible a ha := absurd ha List.not_mem_nil
  short := by decide

theorem readsWhole_answeredCall : ∀ a ∈ answeredCall, ReadsWhole callF a := by
  intro a ha
  simp only [answeredCall, List.mem_cons, List.not_mem_nil, or_false] at ha
  rcases ha with rfl | rfl | rfl | rfl | rfl | rfl | rfl | rfl
  · trivial
  · rfl
  · trivial
  · trivial
  · trivial
  · trivial
  · trivial
  · trivial

/-- Two frames are on its connection, after one call. -/
theorem reply_of_run_answeredCall :
    ∃ t, runFrom (step (registry [mapperF])) init answeredCall = some t ∧
      t.conn.frames.length = 2 ∧ CalledAtMostOnce (registry [mapperF]) callF t.calls ∧
      ∀ frame ∈ t.conn.frames, Reply (registry [mapperF]) callF t.calls frame :=
  ⟨_, rfl, rfl, reply_of_run servable_callF readsWhole_answeredCall rfl⟩

end Session

end RemoteProcedure
