import RemoteProcedure.Server

/-!
# One connection

Three parties may send on a connection: the child that serves it, the handler of
its timer, and the tracker of the server once the child has ended.  The child is
taken apart here into the steps between which a signal can come.  To send to a client
that is gone kills the sender.

## Main definitions

* `ChildPc`, `Connection` — where the child is, and what has been sent.
* `Connection.step` — the steps of the child, of its timer, and of the tracker.

## Main results

* `step_cases` — **what a step can do.**
* `ends_of_executeClient` — an undisturbed child does what `executeClient` says.
-/

namespace RemoteProcedure

open Machine

/-- Where a child is. -/
inductive ChildPc where
  /-- Before `set_timeout`. -/
  | start : ChildPc
  | reading : ChildPc
  | searching (msg : Message) : ChildPc
  | verifying (f : Option (FunctionMapper FunPtr)) (msg : Message) : ChildPc
  | executing (f : FunctionMapper FunPtr) (msg : Message) : ChildPc
  /-- In `send_answer`, before `send`. -/
  | sending (e : Executed) : ChildPc
  /-- In `send_error`, before `send`. -/
  | refusing (c : Byte) : ChildPc
  /-- In `send_error`, after `send`. -/
  | refused : ChildPc
  /-- Before `_exit`. -/
  | leaving (status : CInt) : ChildPc
  | ended (e : Ended) : ChildPc
  /-- It did something undefined. -/
  | undefined : ChildPc

namespace ChildPc

/-- The process exists. -/
def alive : ChildPc → Bool
  | ended _ => false
  | _ => true

/-- After `read_msg`. -/
def read (alloc : Allocator) (client : Socket Byte) : ChildPc :=
  match readMsg alloc.request alloc.message .unset client with
  | .ok (some msg) => searching msg
  | .ok none => leaving exitFailure
  | .error _ => undefined

/-- After `search_function`. -/
def search (memory : Memory FunPtr) (msg : Message) : ChildPc :=
  match searchFunction (some memory) msg with
  | .ok f => verifying f msg
  | .error c => refusing c

/-- After `verification_function`. -/
def verify (f : Option (FunctionMapper FunPtr)) (msg : Message) : ChildPc :=
  match verificationFunction f msg, f with
  | .ok (.ok ()), some f => executing f msg
  | .ok (.error c), _ => refusing c
  | _, _ => undefined

/-- After `execute_function`. -/
def execute (alloc : Allocator) (f : FunctionMapper FunPtr) (msg : Message) : ChildPc :=
  match executeFunction alloc f.function msg with
  | .ok (.ok e) => sending e
  | .ok (.error c) => refusing c
  | .error _ => undefined

/-- After a `send` that was not accepted. -/
def unsent (r : SendResult) (status : CInt) : ChildPc :=
  if r = .broken then ended (.signaled sigpipe) else leaving status

theorem unsent_returned (b : Bool) (status : CInt) :
    unsent (.returned b) status = leaving status := if_neg (SendResult.returned_ne b)

end ChildPc

/-- The timer of a child fires once. -/
inductive Timer where
  | off : Timer
  | armed : Timer
  | spent : Timer
  deriving DecidableEq, Repr

/-- A connection, and the server process as far as it matters to it. -/
structure Connection where
  pc : ChildPc
  timer : Timer
  /-- The child has not closed its descriptor. -/
  fdOpen : Bool
  /-- What was sent, by anybody. -/
  frames : List (List Byte)
  /-- The child has an entry in `processus_alive`. -/
  tracked : Bool
  server : Process

def sigint : ℕ := 2
def sigusr1 : ℕ := 10
def sigalrm : ℕ := 14

namespace Connection

/-- A child that was just forked. -/
def init : Connection := ⟨.start, .off, true, [], true, .running⟩

/-! ### The steps -/

/-- A step, with what the surroundings decide at it. -/
inductive Act where
  | setTimeout (ok : Bool) : Act
  | read (alloc : Allocator) (client : Socket Byte) : Act
  | search : Act
  | verify : Act
  | execute (alloc : Allocator) : Act
  | send (granted : Bool) (r : SendResult) : Act
  | close : Act
  | exit : Act
  /-- `SIGALRM` is delivered. -/
  | alarm : Act
  /-- The child is killed by a signal. -/
  | kill (sig : ℕ) : Act
  /-- A child that did something undefined ends, in whatever way. -/
  | wreck (e : Ended) : Act
  /-- The tracker comes to the entry of the child. -/
  | sweep (res : WaitResult) (granted : Bool) (r : SendResult) : Act

/-- A `send` of the child fails on a descriptor that it has closed. -/
def through (s : Connection) (r : SendResult) : SendResult := if s.fdOpen then r else .failed

/-- A `send_error` of the child, up to its `send`. -/
def sendErrorStep (s : Connection) (granted : Bool) (r : SendResult) (c : Byte) : Connection :=
  match sendError { Allocator.granted with answer := granted } (s.through r).isAccepted c with
  | .ok served =>
    match served.sent with
    | some frame => { s with frames := s.frames ++ [frame], pc := .refused }
    | none => { s with pc := .unsent (s.through r) served.status }
  | .error _ => { s with pc := .undefined }

/-- A `send_answer`, up to its `send`. -/
def sendAnswerStep (s : Connection) (r : SendResult) (e : Executed) : Connection :=
  match Machine.send r.isAccepted e.ret e.size with
  | .ok (some frame) => { s with frames := s.frames ++ [frame], pc := .leaving exitSuccess }
  | .ok none => { s with pc := .unsent r exitFailure }
  | .error _ => { s with pc := .undefined }

/-- These do not kill: the child has the handlers of the server it was forked from, and
that of its timer. -/
def handled (s : Connection) (sig : ℕ) : Bool :=
  sig = sigint || sig = sigusr1 || (sig = sigalrm && decide (s.timer ≠ .off))

/-- `waitpid` answers what has become of the child; it may always fail. -/
def answers (s : Connection) : WaitResult → Bool
  | .running => s.pc.alive
  | .ended e =>
    match s.pc with
    | .ended e' => decide (e = e')
    | _ => false
  | .echild _ => true
  | .failed _ => true

/-- The effect of the sweep on the connection. -/
def sweepStep (s : Connection) (granted : Bool) (r : SendResult) (swept : Swept) : Connection :=
  let s := { s with tracked := !swept.removed }
  match swept.answer with
  | none => s
  | some c =>
    let s := { s with server := .endedBySendError granted r c }
    match sendError { Allocator.granted with answer := granted } r.isAccepted c with
    | .ok served => { s with frames := s.frames ++ served.sent.toList }
    | .error _ => s

/-- One step of a connection to a server with this registry. -/
def step (memory : Memory FunPtr) (s : Connection) (a : Act) : Option Connection :=
  match a, s.pc with
  | .setTimeout ok, .start =>
    some { s with pc := .reading, timer := if ok then .armed else .off }
  | .read alloc client, .reading => some { s with pc := .read alloc client }
  | .search, .searching msg => some { s with pc := .search memory msg }
  | .verify, .verifying f msg => some { s with pc := .verify f msg }
  | .execute alloc, .executing f msg => some { s with pc := .execute alloc f msg }
  | .send _ r, .sending e => some (s.sendAnswerStep r e)
  | .send granted r, .refusing c => some (s.sendErrorStep granted r c)
  | .close, .refused => some { s with pc := .leaving exitSuccess, fdOpen := false }
  | .exit, .leaving status => some { s with pc := .ended (.exited status) }
  -- `timeout_handler` calls `send_error`, which does not come back
  | .alarm, pc =>
    if pc.alive = true ∧ s.timer = .armed then
      some { s with pc := .refusing rpcRetNoAnswer, timer := .spent }
    else none
  | .kill sig, pc =>
    if pc.alive = true ∧ s.handled sig = false then some { s with pc := .ended (.signaled sig) }
    else none
  | .wreck e, .undefined => some { s with pc := .ended e }
  | .sweep res granted r, _ =>
    if s.tracked = true ∧ s.server = .running ∧ s.answers res = true then
      match sweepEntry res with
      | .ok swept => some (s.sweepStep granted r swept)
      | .error _ => some { s with tracked := false, server := .crashed }
    else none
  | _, _ => none

/-! ### What a step can do -/

/-- The steps of a connection. -/
inductive Step (memory : Memory FunPtr) (s : Connection) : Act → Connection → Prop where
  | setTimeout {ok : Bool} (hpc : s.pc = .start) :
      Step memory s (.setTimeout ok)
        { s with pc := .reading, timer := if ok then .armed else .off }
  | read {alloc : Allocator} {client : Socket Byte} (hpc : s.pc = .reading) :
      Step memory s (.read alloc client) { s with pc := .read alloc client }
  | search {msg : Message} (hpc : s.pc = .searching msg) :
      Step memory s .search { s with pc := .search memory msg }
  | verify {f : Option (FunctionMapper FunPtr)} {msg : Message} (hpc : s.pc = .verifying f msg) :
      Step memory s .verify { s with pc := .verify f msg }
  | execute {alloc : Allocator} {f : FunctionMapper FunPtr} {msg : Message}
      (hpc : s.pc = .executing f msg) :
      Step memory s (.execute alloc) { s with pc := .execute alloc f msg }
  | sendAnswer {granted : Bool} {r : SendResult} {e : Executed} (hpc : s.pc = .sending e) :
      Step memory s (.send granted r) (s.sendAnswerStep r e)
  | sendError {granted : Bool} {r : SendResult} {c : Byte} (hpc : s.pc = .refusing c) :
      Step memory s (.send granted r) (s.sendErrorStep granted r c)
  | close (hpc : s.pc = .refused) :
      Step memory s .close { s with pc := .leaving exitSuccess, fdOpen := false }
  | exit {status : CInt} (hpc : s.pc = .leaving status) :
      Step memory s .exit { s with pc := .ended (.exited status) }
  | wreck {e : Ended} (hpc : s.pc = .undefined) :
      Step memory s (.wreck e) { s with pc := .ended e }
  | alarm (halive : s.pc.alive = true) (htimer : s.timer = .armed) :
      Step memory s .alarm { s with pc := .refusing rpcRetNoAnswer, timer := .spent }
  | kill {sig : ℕ} (halive : s.pc.alive = true) (hsig : s.handled sig = false) :
      Step memory s (.kill sig) { s with pc := .ended (.signaled sig) }
  | swept {res : WaitResult} {granted : Bool} {r : SendResult} {swept : Swept}
      (htracked : s.tracked = true) (hanswers : s.answers res = true)
      (hswept : sweepEntry res = .ok swept) :
      Step memory s (.sweep res granted r) (s.sweepStep granted r swept)
  | crashed {res : WaitResult} {granted : Bool} {r : SendResult} {e : Fault}
      (herror : sweepEntry res = .error e) :
      Step memory s (.sweep res granted r) { s with tracked := false, server := .crashed }

/-- **What a step can do.** -/
theorem step_cases {memory : Memory FunPtr} {s t : Connection} {a : Act}
    (h : step memory s a = some t) : Step memory s a t := by
  unfold step at h
  split at h
  · cases h
    exact .setTimeout ‹_›
  · cases h
    exact .read ‹_›
  · cases h
    exact .search ‹_›
  · cases h
    exact .verify ‹_›
  · cases h
    exact .execute ‹_›
  · cases h
    exact .sendAnswer ‹_›
  · cases h
    exact .sendError ‹_›
  · cases h
    exact .close ‹_›
  · cases h
    exact .exit ‹_›
  · split_ifs at h with halarm
    cases h
    exact .alarm halarm.1 halarm.2
  · split_ifs at h with hkill
    cases h
    exact .kill hkill.1 hkill.2
  · cases h
    exact .wreck ‹_›
  · split_ifs at h with hsweep
    split at h
    · next hswept =>
      cases h
      exact .swept hsweep.1 hsweep.2.2 hswept
    · next herror =>
      cases h
      exact .crashed herror
  · cases h

/-! ### An undisturbed child -/

/-- The child takes this step itself. -/
def Act.byChild : Act → Bool
  | .alarm => false
  | .kill _ => false
  | .sweep _ _ _ => false
  | _ => true

/-- Steps of its own lead the child to its end, with nothing more sent than
this. -/
def Ends (memory : Memory FunPtr) (s : Connection) (served : Served) : Prop :=
  ∃ acts t, (∀ a ∈ acts, a.byChild = true) ∧ runFrom (step memory) s acts = some t ∧
    t.pc = .ended (.exited served.status) ∧ t.frames = s.frames ++ served.sent.toList

variable {memory : Memory FunPtr} {s : Connection} {served : Served} {alloc : Allocator}
  {accepted : Bool}

theorem Ends.of_step {u : Connection} {a : Act} (ha : a.byChild = true)
    (h : step memory s a = some u) (hframes : u.frames = s.frames) (hu : Ends memory u served) :
    Ends memory s served := by
  obtain ⟨acts, t, hacts, hrun, hpc, hsent⟩ := hu
  refine ⟨a :: acts, t, List.forall_mem_cons.mpr ⟨ha, hacts⟩, ?_, hpc, ?_⟩
  · rw [runFrom, h]
    exact hrun
  · rw [hsent, hframes]

theorem Ends.of_send {u : Connection} {a : Act} (ha : a.byChild = true) {status : CInt}
    {frame : List Byte} {calls : List Call} (h : step memory s a = some u)
    (hframes : u.frames = s.frames ++ [frame]) (hu : Ends memory u ⟨status, none, calls⟩) :
    Ends memory s ⟨status, some frame, calls⟩ := by
  obtain ⟨acts, t, hacts, hrun, hpc, hsent⟩ := hu
  refine ⟨a :: acts, t, List.forall_mem_cons.mpr ⟨ha, hacts⟩, ?_, hpc, ?_⟩
  · rw [runFrom, h]
    exact hrun
  · rw [hsent, hframes]
    exact List.append_nil _

theorem ends_of_leaving {status : CInt} (hpc : s.pc = .leaving status) (calls : List Call) :
    Ends memory s ⟨status, none, calls⟩ := by
  have hexit : step memory s .exit = some { s with pc := .ended (.exited status) } := by
    simp only [step, hpc]
  refine ⟨[.exit], { s with pc := .ended (.exited status) }, ?_, ?_, rfl,
    (List.append_nil _).symm⟩
  · intro a ha
    rw [List.mem_singleton.mp ha]
    rfl
  · rw [runFrom, hexit]
    rfl

theorem ends_of_sendError {c : Byte} (hpc : s.pc = .refusing c) (hopen : s.fdOpen = true)
    (h : sendError alloc accepted c = .ok served) : Ends memory s served := by
  have hstep : step memory s (.send alloc.answer (.returned accepted)) =
      some (s.sendErrorStep alloc.answer (.returned accepted) c) := by
    simp only [step, hpc]
  have hthrough : s.through (.returned accepted) = .returned accepted := if_pos hopen
  have hsend : sendError { Allocator.granted with answer := alloc.answer }
      (s.through (.returned accepted)).isAccepted c = .ok served := by
    rw [hthrough, SendResult.isAccepted_returned]
    exact h
  rw [sendErrorStep, hsend, hthrough] at hstep
  rw [sendError, Checked.bind_eq_ok] at h
  obtain ⟨⟨msg, size⟩, -, h⟩ := h
  rw [Checked.bind_eq_ok] at h
  obtain ⟨sent, -, h⟩ := h
  cases sent with
  | none =>
    cases h
    exact .of_step rfl hstep rfl (ends_of_leaving (ChildPc.unsent_returned _ _) [])
  | some frame =>
    cases h
    exact .of_send rfl hstep rfl (.of_step (a := .close) rfl rfl rfl (ends_of_leaving rfl []))

theorem ends_of_sendAnswer {e : Executed} (hpc : s.pc = .sending e)
    (h : sendAnswer accepted e = .ok served) : Ends memory s served := by
  have hstep : step memory s (.send true (.returned accepted)) =
      some (s.sendAnswerStep (.returned accepted) e) := by
    simp only [step, hpc]
  rw [sendAnswer, Checked.bind_eq_ok] at h
  obtain ⟨sent, hsend, h⟩ := h
  rw [sendAnswerStep, SendResult.isAccepted_returned, hsend] at hstep
  cases sent with
  | none =>
    cases h
    exact .of_step rfl hstep rfl (ends_of_leaving (ChildPc.unsent_returned _ _) _)
  | some frame =>
    cases h
    exact .of_send rfl hstep rfl (ends_of_leaving rfl _)

theorem ends_of_serveMessage {msg : Message} (hpc : s.pc = .searching msg) (hopen : s.fdOpen = true)
    (h : serveMessage alloc accepted (some memory) msg = .ok served) : Ends memory s served := by
  have hsearch : step memory s .search = some { s with pc := .search memory msg } := by
    simp only [step, hpc]
  rw [serveMessage] at h
  rw [ChildPc.search] at hsearch
  cases hfound : searchFunction (some memory) msg with
  | error c =>
    rw [hfound] at h hsearch
    exact .of_step rfl hsearch rfl (ends_of_sendError rfl hopen h)
  | ok f =>
    rw [hfound] at h hsearch
    refine .of_step rfl hsearch rfl ?_
    simp only [Checked.bind_eq_ok] at h
    obtain ⟨verified, hverified, h⟩ := h
    refine .of_step (a := .verify) rfl rfl rfl ?_
    cases verified with
    | error c =>
      simp only [ChildPc.verify, hverified]
      exact ends_of_sendError rfl hopen h
    | ok u =>
      cases f with
      | none => cases h
      | some f =>
        simp only [ChildPc.verify, hverified]
        simp only [Checked.bind_eq_ok] at h
        obtain ⟨executed, hexecuted, h⟩ := h
        refine .of_step (a := .execute alloc) rfl rfl rfl ?_
        simp only [ChildPc.execute, hexecuted]
        cases executed with
        | error c => exact ends_of_sendError rfl hopen h
        | ok e => exact ends_of_sendAnswer rfl h

/-- **An undisturbed child does what `executeClient` says**: it ends with that
exit code, having sent that. -/
theorem ends_of_executeClient {client : Socket Byte}
    (h : executeClient alloc accepted (some memory) client = .ok served) :
    Ends memory init served := by
  refine .of_step (a := .setTimeout true) rfl rfl rfl ?_
  refine .of_step (a := .read alloc client) rfl rfl rfl ?_
  rw [executeClient, Checked.bind_eq_ok] at h
  obtain ⟨msg, hread, h⟩ := h
  simp only [ChildPc.read, hread]
  cases msg with
  | none =>
    cases h
    exact ends_of_leaving rfl []
  | some msg => exact ends_of_serveMessage rfl rfl h

end Connection

end RemoteProcedure
