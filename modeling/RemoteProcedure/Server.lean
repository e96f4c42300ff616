import Mathlib.Logic.Function.Basic
import RemoteProcedure.Machine.Transition
import RemoteProcedure.Dispatch

/-!
# The server process

`loop_server` accepts connections and forks a child for each; the thread
`check_client_track` sweeps the list of children every five seconds.  The two
share the list and a mutex.  What the system answers to a call (`accept`,
`fork`, the mutex operations, `waitpid`) is part of the action, and so is the
order of the steps.

## Main definitions

* `Alive` — the structure of the same name.
* `sweepEntry` — what the sweep does with one entry, by what `waitpid` says.
* `Server`, `Server.step` — the state of the process and of its children, and the
  steps of both threads, of a child that ends, and of a signal.

## Main results

* `Server.loopServer_cases`, `Server.checkClientTrack_cases` — **what a step of
  either thread can do.**
* `Server.wait_cases` — what one `waitpid` of the sweep can lead to.
-/

namespace RemoteProcedure

open Machine

/-! ### Children and `waitpid` -/

/-- How a process ended: what `WIFEXITED` and `WIFSIGNALED` tell apart. -/
inductive Ended where
  | exited (status : CInt) : Ended
  | signaled (sig : ℕ) : Ended
  deriving DecidableEq, Repr

/-- What `waitpid` answers.  When it fails it leaves `info` alone, which was not
given a value before: what both macros make of it is up to the stack. -/
inductive WaitResult where
  /-- It returns 0. -/
  | running : WaitResult
  /-- It returns the child and how it ended. -/
  | ended (e : Ended) : WaitResult
  /-- It fails with `ECHILD`. -/
  | echild (info : Option Ended) : WaitResult
  /-- It fails in another way. -/
  | failed (info : Option Ended) : WaitResult
  deriving DecidableEq, Repr

/-- What becomes of a `send`. -/
inductive SendResult where
  | accepted : SendResult
  /-- It returns -1. -/
  | failed : SendResult
  /-- The other end is closed: `SIGPIPE`, which nothing in the server handles. -/
  | broken : SendResult
  deriving DecidableEq, Repr

/-- It returns what was sent. -/
def SendResult.isAccepted : SendResult → Bool
  | accepted => true
  | _ => false

/-- One that returns. -/
def SendResult.returned : Bool → SendResult
  | true => accepted
  | false => failed

@[simp] theorem SendResult.isAccepted_returned (b : Bool) : (returned b).isAccepted = b := by
  cases b <;> rfl

theorem SendResult.returned_ne (b : Bool) : returned b ≠ broken := by
  cases b <;> decide

def sigpipe : ℕ := 13

/-- What the sweep does with an entry. -/
structure Swept where
  /-- It is taken off the list and freed. -/
  removed : Bool
  /-- Its descriptor is closed. -/
  closed : Bool
  /-- `send_error` is called with this status. -/
  answer : Option Byte
  deriving DecidableEq, Repr

/-- The end of the body of the sweep, which looks at `info`; a second removal of
an entry follows pointers of freed memory. -/
def sweepInfo (swept : Swept) : Option Ended → Checked Swept
  | some (.exited _) =>
    if swept.removed then .error .freed else .ok { swept with removed := true }
  | some (.signaled _) =>
    if swept.removed then .error .freed
    else .ok { swept with removed := true, answer := some rpcRetNoAnswer }
  | none => .ok swept

/-- The body of the sweep. -/
def sweepEntry : WaitResult → Checked Swept
  | .running => .ok ⟨false, false, none⟩
  | .ended e => sweepInfo ⟨false, false, none⟩ (some e)
  -- the `case` of `ECHILD` falls out of the `switch`, to the test of `info`
  | .echild info => sweepInfo ⟨true, true, none⟩ info
  | .failed info => sweepInfo ⟨false, false, none⟩ info

/-! ### The state -/

/-- A `struct alive`. -/
structure Alive where
  son : ℕ
  clientFd : ℕ
  deriving DecidableEq, Repr

/-- A child of the server, as the system keeps it until it is waited for. -/
inductive Child where
  | running : Child
  | zombie (e : Ended) : Child
  deriving DecidableEq, Repr

inductive Thread where
  | loop : Thread
  | tracker : Thread
  deriving DecidableEq, Repr

inductive Process where
  | running : Process
  | exited (status : CInt) : Process
  | killed (sig : ℕ) : Process
  /-- It did something undefined. -/
  | crashed : Process
  deriving DecidableEq, Repr

/-- How a process ends that calls `send_error`. -/
def Process.endedBySendError (granted : Bool) (r : SendResult) (c : Byte) : Process :=
  match sendError { Allocator.granted with answer := granted } r.isAccepted c with
  | .ok served => if r = .broken then .killed sigpipe else .exited served.status
  | .error _ => .crashed

/-- Where `loop_server` is. -/
inductive LoopPc where
  | accept : LoopPc
  | fork (client : ℕ) : LoopPc
  | lock (client son : ℕ) : LoopPc
  | track (client son : ℕ) : LoopPc
  | unlock : LoopPc
  deriving DecidableEq, Repr

/-- Where `check_client_track` is. -/
inductive TrackerPc where
  /-- At the test of `error`. -/
  | top : TrackerPc
  | lock : TrackerPc
  /-- At the entry with this many before it. -/
  | sweep (i : ℕ) : TrackerPc
  | ended : TrackerPc
  deriving DecidableEq, Repr

/-- The server process and its children. -/
structure Server where
  process : Process
  loop : LoopPc
  tracker : TrackerPc
  error : ℕ
  mutex : Option Thread
  /-- The list `processus_alive`. -/
  alive : List Alive
  /-- The client sockets open in the process. -/
  fds : List ℕ
  children : ℕ → Option Child

namespace Server

def init : Server := ⟨.running, .accept, .top, 0, none, [], [], fun _ => none⟩

/-! ### The steps -/

/-- A step of `loop_server`, with what the system answers. -/
inductive LoopAct where
  | accept (client : Option ℕ) : LoopAct
  | fork (son : Option ℕ) : LoopAct
  | lock (ok : Bool) : LoopAct
  | track (granted : Bool) : LoopAct
  | unlock (ok : Bool) : LoopAct
  deriving DecidableEq, Repr

/-- A step of `check_client_track`. -/
inductive TrackerAct where
  | top : TrackerAct
  | lock (ok : Bool) : TrackerAct
  /-- The `waitpid` of an entry, and the allocation and `send` that may follow. -/
  | wait (res : WaitResult) (granted : Bool) (r : SendResult) : TrackerAct
  | unlock (ok : Bool) : TrackerAct
  deriving DecidableEq, Repr

inductive Act where
  | loop (a : LoopAct) : Act
  | tracker (a : TrackerAct) : Act
  /-- A child exits or is killed. -/
  | child (son : ℕ) (e : Ended) : Act
  /-- `SIGUSR1` or `SIGINT` reaches the process. -/
  | signal (sig : ℕ) : Act
  deriving DecidableEq, Repr

/-- `keep_track_of_client`, which stores through the block it did not get. -/
def keepTrackOfClient (s : Server) (granted : Bool) (clientPid clientFd : ℕ) : Server :=
  if granted then { s with alive := ⟨clientPid, clientFd⟩ :: s.alive }
  else { s with process := .crashed }

/-- `loop_server`.  A lock that is held blocks; `accept` and `fork` answer with
what is not in use. -/
def loopServer (s : Server) (a : LoopAct) : Option Server :=
  match s.loop, a with
  | .accept, .accept none => some s
  | .accept, .accept (some client) =>
    if client ∈ s.fds then none
    else some { s with loop := .fork client, fds := client :: s.fds }
  | .fork _, .fork none => some { s with loop := .accept }
  | .fork client, .fork (some son) =>
    if s.children son = none then
      some { s with loop := .lock client son
                    children := Function.update s.children son (some .running) }
    else none
  | .lock _ _, .lock false => some { s with loop := .accept }
  | .lock client son, .lock true =>
    if s.mutex = none then some { s with loop := .track client son, mutex := some .loop } else none
  | .track client son, .track granted =>
    some { s.keepTrackOfClient granted son client with loop := .unlock }
  | .unlock, .unlock ok =>
    some { s with loop := .accept, mutex := if ok then none else s.mutex }
  | _, _ => none

/-- `waitpid` answers what has become of the child; it may always fail. -/
def Answers (s : Server) (son : ℕ) : WaitResult → Prop
  | .running => s.children son = some .running
  | .ended e => s.children son = some (.zombie e)
  | .echild _ => True
  | .failed _ => True

instance (s : Server) (son : ℕ) (res : WaitResult) : Decidable (s.Answers son res) := by
  cases res <;> unfold Answers <;> infer_instance

/-- `send_error` ends the process that calls it. -/
def exitBySendError (s : Server) (granted : Bool) (r : SendResult) (c : Byte) : Server :=
  { s with process := .endedBySendError granted r c }

/-- The effect of the sweep on entry `p`, with `i` entries before it. -/
def applySwept (s : Server) (i : ℕ) (p : Alive) (res : WaitResult) (granted : Bool) (r : SendResult)
    (swept : Swept) : Server :=
  let s := match res with
    | .ended _ => { s with children := Function.update s.children p.son none }
    | _ => s
  let s := if swept.removed then { s with alive := s.alive.eraseIdx i } else s
  let s := if swept.closed then { s with fds := s.fds.erase p.clientFd } else s
  match swept.answer with
  | some c => s.exitBySendError granted r c
  | none =>
    -- `continue` without `p = next` when the child still runs
    { s with tracker := .sweep (if res = .running ∨ swept.removed then i else i + 1) }

/-- An entry that `ECHILD` has taken off is taken off once more. -/
def removedTwice (s : Server) (i : ℕ) (p : Alive) : Server :=
  { s with process := .crashed, alive := s.alive.eraseIdx i, fds := s.fds.erase p.clientFd }

/-- `check_client_track`. -/
def checkClientTrack (s : Server) (a : TrackerAct) : Option Server :=
  match s.tracker, a with
  | .top, .top => some { s with tracker := if 3 ≤ s.error then .ended else .lock }
  | .lock, .lock false => some { s with tracker := .top, error := s.error + 1 }
  | .lock, .lock true =>
    if s.mutex = none then some { s with tracker := .sweep 0, mutex := some .tracker } else none
  | .sweep i, .wait res granted r =>
    match s.alive[i]? with
    | none => none
    | some p =>
      if s.Answers p.son res then
        match sweepEntry res with
        | .ok swept => some (s.applySwept i p res granted r swept)
        | .error _ => some (s.removedTwice i p)
      else none
  | .sweep i, .unlock ok =>
    if s.alive.length ≤ i then
      some { s with tracker := .top, mutex := if ok then none else s.mutex
                    error := if ok then s.error else s.error + 1 }
    else none
  | _, _ => none

/-- A step of the server process, or of one of its children. -/
def step (s : Server) (a : Act) : Option Server :=
  match s.process with
  | .running =>
    match a with
    | .loop a => s.loopServer a
    | .tracker a => s.checkClientTrack a
    | .child son e =>
      if s.children son = some .running then
        some { s with children := Function.update s.children son (some (.zombie e)) }
      else none
    -- `kill_handler`, whichever signal it is
    | .signal _ => some { s with process := .exited exitSuccess }
  | _ => none

/-- A client that is served, and its sweep. -/
def servedRun : List Act :=
  [.loop (.accept (some 4)), .loop (.fork (some 100)), .loop (.lock true), .loop (.track true),
    .loop (.unlock true), .child 100 (.exited exitSuccess), .tracker .top, .tracker (.lock true),
    .tracker (.wait (.ended (.exited exitSuccess)) true .accepted), .tracker (.unlock true)]

/-! ### What a step can do -/

variable {s t : Server}

/-- The steps of the loop. -/
inductive LoopStep (s : Server) : LoopAct → Server → Prop where
  | notAccepted (hloop : s.loop = .accept) : LoopStep s (.accept none) s
  | accepted {client : ℕ} (hloop : s.loop = .accept) (hfresh : client ∉ s.fds) :
      LoopStep s (.accept (some client)) { s with loop := .fork client, fds := client :: s.fds }
  | notForked {client : ℕ} (hloop : s.loop = .fork client) :
      LoopStep s (.fork none) { s with loop := .accept }
  | forked {client son : ℕ} (hloop : s.loop = .fork client) (hfresh : s.children son = none) :
      LoopStep s (.fork (some son))
        { s with loop := .lock client son
                 children := Function.update s.children son (some .running) }
  | notLocked {client son : ℕ} (hloop : s.loop = .lock client son) :
      LoopStep s (.lock false) { s with loop := .accept }
  | locked {client son : ℕ} (hloop : s.loop = .lock client son) (hfree : s.mutex = none) :
      LoopStep s (.lock true) { s with loop := .track client son, mutex := some .loop }
  | tracked {client son : ℕ} (hloop : s.loop = .track client son) :
      LoopStep s (.track true)
        { s with alive := ⟨son, client⟩ :: s.alive, loop := .unlock }
  /-- Without a block for the entry the process crashes. -/
  | crashed {client son : ℕ} (hloop : s.loop = .track client son) :
      LoopStep s (.track false) { s with process := .crashed, loop := .unlock }
  | unlocked {ok : Bool} (hloop : s.loop = .unlock) :
      LoopStep s (.unlock ok) { s with loop := .accept, mutex := if ok then none else s.mutex }

/-- **What a step of the loop can do.** -/
theorem loopServer_cases {a : LoopAct} (h : s.loopServer a = some t) : LoopStep s a t := by
  unfold loopServer at h
  split at h
  · cases h
    exact .notAccepted ‹_›
  · split_ifs at h with hused
    cases h
    exact .accepted ‹_› hused
  · cases h
    exact .notForked ‹_›
  · split_ifs at h with hfresh
    cases h
    exact .forked ‹_› hfresh
  · cases h
    exact .notLocked ‹_›
  · split_ifs at h with hfree
    cases h
    exact .locked ‹_› hfree
  · next granted hloop =>
    cases h
    cases granted with
    | true => exact .tracked hloop
    | false => exact .crashed hloop
  · cases h
    exact .unlocked ‹_›
  · cases h

/-- The steps of the tracker. -/
inductive TrackerStep (s : Server) : TrackerAct → Server → Prop where
  | tested (htracker : s.tracker = .top) :
      TrackerStep s .top { s with tracker := if 3 ≤ s.error then .ended else .lock }
  | notLocked (htracker : s.tracker = .lock) :
      TrackerStep s (.lock false) { s with tracker := .top, error := s.error + 1 }
  | locked (htracker : s.tracker = .lock) (hfree : s.mutex = none) :
      TrackerStep s (.lock true) { s with tracker := .sweep 0, mutex := some .tracker }
  | swept {i : ℕ} {p : Alive} {res : WaitResult} {granted : Bool} {r : SendResult} {swept : Swept}
      (htracker : s.tracker = .sweep i) (hp : s.alive[i]? = some p) (hanswers : s.Answers p.son res)
      (hswept : sweepEntry res = .ok swept) :
      TrackerStep s (.wait res granted r) (s.applySwept i p res granted r swept)
  | crashed {i : ℕ} {p : Alive} {res : WaitResult} {granted : Bool} {r : SendResult} {e : Fault}
      (htracker : s.tracker = .sweep i) (hp : s.alive[i]? = some p) (hanswers : s.Answers p.son res)
      (herror : sweepEntry res = .error e) :
      TrackerStep s (.wait res granted r) (s.removedTwice i p)
  | unlocked {i : ℕ} {ok : Bool} (htracker : s.tracker = .sweep i) (hend : s.alive.length ≤ i) :
      TrackerStep s (.unlock ok)
        { s with tracker := .top, mutex := if ok then none else s.mutex
                 error := if ok then s.error else s.error + 1 }

/-- **What a step of the tracker can do.** -/
theorem checkClientTrack_cases {a : TrackerAct} (h : s.checkClientTrack a = some t) :
    TrackerStep s a t := by
  unfold checkClientTrack at h
  split at h
  · cases h
    exact .tested ‹_›
  · cases h
    exact .notLocked ‹_›
  · split_ifs at h with hfree
    cases h
    exact .locked ‹_› hfree
  · next htracker =>
    split at h
    · cases h
    · next hp =>
      split_ifs at h with hanswers
      split at h
      · next hswept =>
        cases h
        exact .swept htracker hp hanswers hswept
      · next herror =>
        cases h
        exact .crashed htracker hp hanswers herror
  · next i _ htracker =>
    by_cases hend : s.alive.length ≤ i
    · rw [if_pos hend] at h
      cases h
      exact .unlocked htracker hend
    · rw [if_neg hend] at h
      cases h
  · cases h

/-- **One `waitpid` of the sweep** is about an entry; it is swept, or the process
crashes. -/
theorem wait_cases {res : WaitResult} {granted : Bool} {r : SendResult}
    (h : s.checkClientTrack (.wait res granted r) = some t) :
    ∃ i p, s.tracker = .sweep i ∧ s.alive[i]? = some p ∧ s.Answers p.son res ∧
      ((∃ swept, sweepEntry res = .ok swept ∧ t = s.applySwept i p res granted r swept) ∨
        ∃ e, sweepEntry res = .error e ∧ t = s.removedTwice i p) := by
  cases checkClientTrack_cases h with
  | swept htracker hp hanswers hswept =>
    exact ⟨_, _, htracker, hp, hanswers, .inl ⟨_, hswept, rfl⟩⟩
  | crashed htracker hp hanswers herror =>
    exact ⟨_, _, htracker, hp, hanswers, .inr ⟨_, herror, rfl⟩⟩

/-- Freed entries are used exactly when `ECHILD` meets an `info` that tells of an
end. -/
theorem sweepEntry_cases (res : WaitResult) :
    (∃ e, res = .echild (some e) ∧ sweepEntry res = .error .freed) ∨
    ∃ swept, sweepEntry res = .ok swept ∧
      (swept.answer = none ∨
        swept.answer = some rpcRetNoAnswer ∧ swept.removed = true ∧ swept.closed = false ∧
          ∃ sig, res = .ended (.signaled sig) ∨ res = .failed (some (.signaled sig))) := by
  cases res with
  | running => exact .inr ⟨_, rfl, .inl rfl⟩
  | ended e =>
    cases e with
    | exited status => exact .inr ⟨_, rfl, .inl rfl⟩
    | signaled sig => exact .inr ⟨_, rfl, .inr ⟨rfl, rfl, rfl, sig, .inl rfl⟩⟩
  | echild info =>
    cases info with
    | none => exact .inr ⟨_, rfl, .inl rfl⟩
    | some e => cases e <;> exact .inl ⟨_, rfl, rfl⟩
  | failed info =>
    cases info with
    | none => exact .inr ⟨_, rfl, .inl rfl⟩
    | some e =>
      cases e with
      | exited status => exact .inr ⟨_, rfl, .inl rfl⟩
      | signaled sig => exact .inr ⟨_, rfl, .inr ⟨rfl, rfl, rfl, sig, .inr rfl⟩⟩

/-- `send_error` never comes back. -/
theorem exitBySendError_process (s : Server) (granted : Bool) (r : SendResult) (c : Byte) :
    (s.exitBySendError granted r c).process ≠ .running := by
  show Process.endedBySendError granted r c ≠ .running
  unfold Process.endedBySendError
  split
  · split_ifs <;> exact fun h => Process.noConfusion h
  · exact fun h => Process.noConfusion h

/-- An entry that is not answered leaves the process running; the list and the
descriptors are what the sweep makes of them. -/
theorem applySwept_of_none {swept : Swept} (h : swept.answer = none) (s : Server) (i : ℕ)
    (p : Alive) (res : WaitResult) (granted : Bool) (r : SendResult) :
    (s.applySwept i p res granted r swept).process = s.process ∧
    (s.applySwept i p res granted r swept).loop = s.loop ∧
    (s.applySwept i p res granted r swept).alive =
      (if swept.removed then s.alive.eraseIdx i else s.alive) ∧
    (s.applySwept i p res granted r swept).fds =
      (if swept.closed then s.fds.erase p.clientFd else s.fds) := by
  rcases swept with ⟨removed, closed, answer⟩
  obtain rfl : answer = none := h
  cases res <;> cases removed <;> cases closed <;> exact ⟨rfl, rfl, rfl, rfl⟩

/-- An entry that is answered ends the process. -/
theorem applySwept_of_some {swept : Swept} {c : Byte} (h : swept.answer = some c) (s : Server)
    (i : ℕ) (p : Alive) (res : WaitResult) (granted : Bool) (r : SendResult) :
    (s.applySwept i p res granted r swept).process ≠ .running := by
  simp only [applySwept, h]
  exact exitBySendError_process _ granted r c

/-- `loop_server` ends the process only where it could not allocate an entry. -/
theorem loopServer_process {a : LoopAct} (h : s.loopServer a = some t) :
    t.process = s.process ∧ a ≠ .track false ∨ t.process = .crashed ∧ a = .track false := by
  cases loopServer_cases h with
  | crashed hloop => exact .inr ⟨rfl, rfl⟩
  | _ => exact .inl ⟨rfl, by simp⟩

/-- The steps of the tracker other than `waitpid` leave all but its own place, the
count of errors and the mutex alone. -/
theorem checkClientTrack_frame {a : TrackerAct} (h : s.checkClientTrack a = some t)
    (ha : ∀ res granted r, a ≠ .wait res granted r) :
    t.process = s.process ∧ t.loop = s.loop ∧ t.alive = s.alive ∧ t.fds = s.fds := by
  cases checkClientTrack_cases h with
  | swept _ _ _ _ => exact absurd rfl (ha _ _ _)
  | crashed _ _ _ _ => exact absurd rfl (ha _ _ _)
  | _ => exact ⟨rfl, rfl, rfl, rfl⟩

theorem step_of_running (h : s.process = .running) (a : Act) :
    s.step a = match a with
      | .loop a => s.loopServer a
      | .tracker a => s.checkClientTrack a
      | .child son e =>
        if s.children son = some .running then
          some { s with children := Function.update s.children son (some (.zombie e)) }
        else none
      | .signal _ => some { s with process := .exited exitSuccess } := by
  unfold step
  simp only [h]

/-- A process that ended takes no step. -/
theorem step_of_not_running (h : s.process ≠ .running) (a : Act) : s.step a = none := by
  unfold step
  split
  · exact absurd ‹_› h
  · rfl

end Server

end RemoteProcedure
