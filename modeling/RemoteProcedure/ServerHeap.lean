import RemoteProcedure.Machine.Queue
import RemoteProcedure.Sweep

/-!
# The tracked children on the heap

`loop_server` and `check_client_track` share a list of `sys/queue.h`: one thread inserts
at its head, the other walks along its pointers, looks at the successor of an entry
before it removes and frees it, and goes on from there.  Only the mutex keeps the one from
the other.

## Main definitions

* `HeapServer`, `HeapServer.step` — the server with its pointers.
* `sweepNode` — the body of the sweep.
* `HeapServer.Shows` — the server with a list that it shows.

## Main results

* `sweepNode_eq` — the body does with an entry what `sweepEntry` says.
* `HeapServer.shows_of_run` — **every run of the server is one of the server with a
  list**; while it runs, nothing is allocated but the entries.
-/

namespace RemoteProcedure

open Machine

/-! ### The body of the sweep -/

/-- What the body leaves, and where the loop goes on. -/
structure SweptNode where
  alive : Queue Alive
  p : Option ℕ
  /-- The descriptor that was closed. -/
  closed : Option ℕ
  /-- The descriptor that `send_error` is called with. -/
  answer : Option ℕ

/-- The end of the body of the sweep, which looks at `info`. -/
def sweepNodeInfo (alive : Queue Alive) (p : ℕ) (next closed : Option ℕ) :
    Option Ended → Checked SweptNode
  | some (.exited _) => do
    -- the message has `p->son`
    let _ ← alive.get p
    let alive ← alive.listRemove p
    let alive ← alive.free p
    return ⟨alive, next, closed, none⟩
  | some (.signaled _) => do
    let _ ← alive.get p
    let alive ← alive.listRemove p
    let e ← alive.get p
    return ⟨alive, next, closed, some e.value.clientFd⟩
  | none => .ok ⟨alive, next, closed, none⟩

/-- The body of the sweep at an entry. -/
def sweepNode (alive : Queue Alive) (p : ℕ) (res : WaitResult) : Checked SweptNode := do
  let e ← alive.get p
  let next := e.leNext
  match res with
  | .running => return ⟨alive, some p, none, none⟩
  | .ended info => sweepNodeInfo alive p next none (some info)
  | .echild info => do
    let alive ← alive.listRemove p
    let e ← alive.get p
    let alive ← alive.free p
    sweepNodeInfo alive p next (some e.value.clientFd) info
  | .failed info => sweepNodeInfo alive p next none info

/-! ### The server -/

/-- Where `check_client_track` is. -/
inductive HeapTrackerPc where
  | top : HeapTrackerPc
  | lock : HeapTrackerPc
  /-- At the test of `p`. -/
  | sweep (p : Option ℕ) : HeapTrackerPc
  | ended : HeapTrackerPc
  deriving DecidableEq, Repr

/-- The server process and its children. -/
structure HeapServer where
  process : Process
  loop : LoopPc
  tracker : HeapTrackerPc
  error : ℕ
  mutex : Option Thread
  /-- The list `processus_alive`. -/
  alive : Queue Alive
  fds : List ℕ
  children : ℕ → Option Child

namespace HeapServer

def init : HeapServer := ⟨.running, .accept, .top, 0, none, .empty, [], fun _ => none⟩

/-- The steps are those of the server; `malloc` answers with a block, whose links are
whatever was there. -/
inductive Act where
  | accept (client : Option ℕ) : Act
  | fork (son : Option ℕ) : Act
  | lock (ok : Bool) : Act
  | track (block : Option ℕ) (links : Option ℕ × Link) : Act
  | unlock (ok : Bool) : Act
  | tracker (a : Server.TrackerAct) : Act
  | child (son : ℕ) (e : Ended) : Act
  | signal (sig : ℕ) : Act

/-- `keep_track_of_client`. -/
def keepTrackOfClient (h : HeapServer) (block : Option ℕ) (links : Option ℕ × Link)
    (clientPid clientFd : ℕ) : HeapServer :=
  match block with
  | none => { h with process := .crashed }
  | some p =>
    match (h.alive.malloc p ⟨⟨clientPid, clientFd⟩, links.1, links.2⟩).listInsertHead p with
    | .ok alive => { h with alive }
    | .error _ => { h with process := .crashed }

/-- `malloc` answers with what is not in use. -/
def Free (h : HeapServer) (block : Option ℕ) : Prop :=
  ∀ p ∈ block, (h.alive.element p).isSome = false

instance (h : HeapServer) (block : Option ℕ) : Decidable (h.Free block) := by
  cases block with
  | none => exact isTrue fun p hp => absurd hp (Option.not_mem_none p)
  | some p =>
    exact decidable_of_iff ((h.alive.element p).isSome = false)
      ⟨fun hp r hr => Option.mem_some_iff.mp hr ▸ hp, fun hall => hall p rfl⟩

/-- `loop_server`. -/
def loopServer (h : HeapServer) (a : Act) : Option HeapServer :=
  match h.loop, a with
  | .accept, .accept none => some h
  | .accept, .accept (some client) =>
    if client ∈ h.fds then none
    else some { h with loop := .fork client, fds := client :: h.fds }
  | .fork _, .fork none => some { h with loop := .accept }
  | .fork client, .fork (some son) =>
    if h.children son = none then
      some { h with loop := .lock client son
                    children := Function.update h.children son (some .running) }
    else none
  | .lock _ _, .lock false => some { h with loop := .accept }
  | .lock client son, .lock true =>
    if h.mutex = none then some { h with loop := .track client son, mutex := some .loop } else none
  | .track client son, .track block links =>
    if h.Free block then some { h.keepTrackOfClient block links son client with loop := .unlock }
    else none
  | .unlock, .unlock ok =>
    some { h with loop := .accept, mutex := if ok then none else h.mutex }
  | _, _ => none

/-- `waitpid` answers what has become of the child; it may always fail. -/
def Answers (h : HeapServer) (son : ℕ) (res : WaitResult) : Prop :=
  Server.Answers { Server.init with children := h.children } son res

instance (h : HeapServer) (son : ℕ) (res : WaitResult) : Decidable (h.Answers son res) :=
  inferInstanceAs (Decidable (Server.Answers _ son res))

/-- The effect of the body on the process; a `send_error` ends it. -/
def applySwept (h : HeapServer) (son : ℕ) (res : WaitResult) (granted : Bool) (r : SendResult)
    (swept : SweptNode) : HeapServer :=
  let h := match res with
    | .ended _ => { h with children := Function.update h.children son none }
    | _ => h
  let h := { h with alive := swept.alive }
  let h := match swept.closed with
    | some fd => { h with fds := h.fds.erase fd }
    | none => h
  match swept.answer with
  | some _ => { h with process := .endedBySendError granted r rpcRetNoAnswer }
  | none => { h with tracker := .sweep swept.p }

/-- `check_client_track`. -/
def checkClientTrack (h : HeapServer) (a : Server.TrackerAct) : Option HeapServer :=
  match h.tracker, a with
  | .top, .top => some { h with tracker := if 3 ≤ h.error then .ended else .lock }
  | .lock, .lock false => some { h with tracker := .top, error := h.error + 1 }
  | .lock, .lock true =>
    if h.mutex = none then
      some { h with tracker := .sweep h.alive.lhFirst, mutex := some .tracker }
    else none
  | .sweep (some p), .wait res granted r =>
    match h.alive.get p with
    | .error _ => some { h with process := .crashed }
    | .ok e =>
      if h.Answers e.value.son res then
        match sweepNode h.alive p res with
        | .ok swept => some (h.applySwept e.value.son res granted r swept)
        | .error _ => some { h with process := .crashed }
      else none
  | .sweep none, .unlock ok =>
    some { h with tracker := .top, mutex := if ok then none else h.mutex
                  error := if ok then h.error else h.error + 1 }
  | _, _ => none

/-- A step of the server process, or of one of its children. -/
def step (h : HeapServer) (a : Act) : Option HeapServer :=
  match h.process with
  | .running =>
    match a with
    | .tracker a => h.checkClientTrack a
    | .child son e =>
      if h.children son = some .running then
        some { h with children := Function.update h.children son (some (.zombie e)) }
      else none
    | .signal _ => some { h with process := .exited exitSuccess }
    | a => h.loopServer a
  | _ => none

/-- The step of the server with a list. -/
def Act.abs : Act → Server.Act
  | accept client => .loop (.accept client)
  | fork son => .loop (.fork son)
  | lock ok => .loop (.lock ok)
  | track block _ => .loop (.track block.isSome)
  | unlock ok => .loop (.unlock ok)
  | tracker a => .tracker a
  | child son e => .child son e
  | signal sig => .signal sig

/-! ### What it shows -/

/-- The pointer of the tracker is that of the entry it is at. -/
inductive TrackerShows (nodes : List (ℕ × Alive)) : HeapTrackerPc → TrackerPc → Prop where
  | top : TrackerShows nodes .top .top
  | lock : TrackerShows nodes .lock .lock
  | sweep (i : ℕ) : TrackerShows nodes (.sweep ((nodes.drop i).head?.map Prod.fst)) (.sweep i)
  | ended : TrackerShows nodes .ended .ended

/-- A server that runs, and the one with a list. -/
structure ShowsRunning (h : HeapServer) (s : Server) : Prop where
  loop : h.loop = s.loop
  error : h.error = s.error
  mutex : h.mutex = s.mutex
  fds : h.fds = s.fds
  children : h.children = s.children
  exclusive : s.Exclusive
  alive : ∃ nodes, h.alive.Holds nodes [] ∧ nodes.map Prod.snd = s.alive ∧
    TrackerShows nodes h.tracker s.tracker

/-- The server with a list that it shows.  Of a process that has ended nothing is left. -/
structure Shows (h : HeapServer) (s : Server) : Prop where
  process : h.process = s.process
  running : h.process = .running → h.ShowsRunning s

theorem shows_init : init.Shows .init where
  process := rfl
  running _ := ⟨rfl, rfl, rfl, rfl, rfl, Server.exclusive_init, [], Queue.holds_empty, rfl, .top⟩

end HeapServer

/-! ### One entry -/

section

variable {alive : Queue Alive} {pre post : List (ℕ × Alive)} {p : ℕ} {a : Alive}

/-- A child that has ended is taken off the list. -/
theorem sweepNodeInfo_of_ended (h : alive.Holds (pre ++ (p, a) :: post) []) (next closed : Option ℕ)
    (e : Ended) : ∃ node, sweepNodeInfo alive p next closed (some e) = .ok node ∧
      node.closed = closed ∧
      match e with
      | .exited _ => node.answer = none ∧ node.p = next ∧ node.alive.Holds (pre ++ post) []
      | .signaled _ => node.answer = some a.clientFd := by
  obtain ⟨l, he⟩ := h.element_eq
  obtain ⟨alive₁, hremove, h₁, he₁⟩ := h.remove
  rw [he] at he₁
  cases e with
  | exited status =>
    obtain ⟨alive₂, hfree, h₂⟩ := h₁.free
    refine ⟨⟨alive₂, next, closed, none⟩, ?_, rfl, rfl, rfl, h₂⟩
    simp [sweepNodeInfo, Queue.get_of_element he, hremove, hfree]
  | signaled sig =>
    refine ⟨⟨alive₁, next, closed, some a.clientFd⟩, ?_, rfl, rfl⟩
    simp [sweepNodeInfo, Queue.get_of_element he, hremove, Queue.get_of_element he₁]

/-- What the body does with an entry, by what `sweepEntry` says. -/
structure SweptShows (pre post : List (ℕ × Alive)) (p : ℕ) (a : Alive) (res : WaitResult)
    (swept : Swept) (node : SweptNode) : Prop where
  closed : node.closed = if swept.closed then some a.clientFd else none
  answer : node.answer = swept.answer.map fun _ => a.clientFd
  status : ∀ c ∈ swept.answer, c = rpcRetNoAnswer
  /-- Where it goes on, unless `send_error` has ended it. -/
  next : swept.answer = none →
    (res = .running → swept.removed = false) ∧
    node.p = (if res = .running then some p else post.head?.map Prod.fst) ∧
    node.alive.Holds (if swept.removed then pre ++ post else pre ++ (p, a) :: post) []

/-- **The body does with an entry what `sweepEntry` says**, and uses it after it was freed
where that does. -/
theorem sweepNode_eq (h : alive.Holds (pre ++ (p, a) :: post) []) (res : WaitResult) :
    (∃ e e', sweepEntry res = .error e ∧ sweepNode alive p res = .error e') ∨
    ∃ swept node, sweepEntry res = .ok swept ∧ sweepNode alive p res = .ok node ∧
      SweptShows pre post p a res swept node := by
  obtain ⟨l, he⟩ := h.element_eq
  have hget := Queue.get_of_element he
  cases res with
  | running =>
    refine .inr ⟨_, _, rfl, by simp [sweepNode, hget]; rfl, rfl, rfl, by simp, ?_⟩
    exact fun _ => ⟨fun _ => rfl, rfl, h⟩
  | ended e =>
    obtain ⟨node, hnode, hclosed, hrest⟩ :=
      sweepNodeInfo_of_ended h (post.head?.map Prod.fst) none e
    have hsweep : sweepNode alive p (.ended e) = .ok node := by simp [sweepNode, hget, hnode]
    cases e with
    | exited status =>
      obtain ⟨hanswer, hp, halive⟩ := hrest
      exact .inr ⟨_, node, rfl, hsweep, hclosed, hanswer, by simp, fun _ =>
        ⟨fun hno => (nomatch hno), hp, halive⟩⟩
    | signaled sig =>
      exact .inr ⟨_, node, rfl, hsweep, hclosed, hrest, by simp, fun hno => (nomatch hno)⟩
  | failed info =>
    cases info with
    | none =>
      refine .inr ⟨_, _, rfl, by simp [sweepNode, hget, sweepNodeInfo]; rfl, rfl, rfl, by simp, ?_⟩
      exact fun _ => ⟨fun _ => rfl, rfl, h⟩
    | some e =>
      obtain ⟨node, hnode, hclosed, hrest⟩ :=
        sweepNodeInfo_of_ended h (post.head?.map Prod.fst) none e
      have hsweep : sweepNode alive p (.failed (some e)) = .ok node := by
        simp [sweepNode, hget, hnode]
      cases e with
      | exited status =>
        obtain ⟨hanswer, hp, halive⟩ := hrest
        exact .inr ⟨_, node, rfl, hsweep, hclosed, hanswer, by simp, fun _ =>
          ⟨fun hno => (nomatch hno), hp, halive⟩⟩
      | signaled sig =>
        exact .inr ⟨_, node, rfl, hsweep, hclosed, hrest, by simp, fun hno => (nomatch hno)⟩
  | echild info =>
    obtain ⟨alive₁, hremove, h₁, he₁⟩ := h.remove
    rw [he] at he₁
    obtain ⟨alive₂, hfree, h₂⟩ := h₁.free
    cases info with
    | none =>
      refine .inr ⟨_, ⟨alive₂, post.head?.map Prod.fst, some a.clientFd, none⟩, rfl, ?_, rfl, rfl,
        by simp, fun _ => ⟨fun hno => (nomatch hno), rfl, h₂⟩⟩
      simp [sweepNode, hget, hremove, Queue.get_of_element he₁, hfree, sweepNodeInfo]
    | some e =>
      -- the entry is not there any more
      have hgone : alive₂.get p = .error .freed := by
        have hnot : (alive₂.element p).isSome = false := by
          have hnodup := h₁.nodup
          rw [List.perm_middle.nodup_iff, List.nodup_cons] at hnodup
          exact Bool.eq_false_iff.mpr fun hsome => hnodup.1 ((h₂.allocated p).mp hsome)
        rw [Option.isSome_eq_false_iff, Option.isNone_iff_eq_none] at hnot
        simp [Queue.get, hnot]
      refine .inl ⟨.freed, .freed, ?_, ?_⟩
      · cases e <;> rfl
      · cases e <;> simp [sweepNode, hget, hremove, Queue.get_of_element he₁, hfree, sweepNodeInfo,
          hgone]

end

namespace HeapServer

variable {h t : HeapServer} {s : Server}

/-! ### The steps -/

/-- A tracker that does not sweep has no pointer into the list. -/
theorem TrackerShows.of_not_critical {nodes nodes' : List (ℕ × Alive)} {pc : HeapTrackerPc}
    {pc' : TrackerPc} (hpc : TrackerShows nodes pc pc') (hnot : ¬ Server.TrackerCritical pc') :
    TrackerShows nodes' pc pc' := by
  cases hpc with
  | top => exact .top
  | lock => exact .lock
  | sweep i => exact absurd trivial hnot
  | ended => exact .ended

/-- A step that leaves the list alone. -/
theorem shows_of_step (hs : h.ShowsRunning s) {a : Server.Act} {s' : Server}
    (hstep : s.step a = some s') (hprocess : t.process = s'.process) (hloop : t.loop = s'.loop)
    (herror : t.error = s'.error) (hmutex : t.mutex = s'.mutex) (hfds : t.fds = s'.fds)
    (hchildren : t.children = s'.children) (halive : t.alive = h.alive)
    (halive' : s'.alive = s.alive)
    (htracker : ∀ nodes, h.alive.Holds nodes [] → nodes.map Prod.snd = s.alive →
      TrackerShows nodes h.tracker s.tracker → TrackerShows nodes t.tracker s'.tracker) :
    t.Shows s' := by
  refine ⟨hprocess, fun _ => ?_⟩
  obtain ⟨nodes, hnodes, hsnd, hold⟩ := hs.alive
  refine ⟨hloop, herror, hmutex, hfds, hchildren, Server.exclusive_step hs.exclusive hstep, nodes,
    ?_, ?_, htracker nodes hnodes hsnd hold⟩
  · rw [halive]
    exact hnodes
  · rw [halive']
    exact hsnd

/-- The insertion of an entry.  The tracker has no pointer into the list meanwhile. -/
theorem track_refines (hs : h.ShowsRunning s) (hp : h.process = .running)
    (hprocess : s.process = .running) {client son : ℕ} (hloop : h.loop = .track client son)
    {block : Option ℕ} (hfree : h.Free block) (links : Option ℕ × Link) :
    ∃ s', s.step (.loop (.track block.isSome)) = some s' ∧
      Shows { h.keepTrackOfClient block links son client with loop := .unlock } s' := by
  have hloop' : s.loop = .track client son := hs.loop.symm.trans hloop
  have hstep : s.step (.loop (.track block.isSome)) =
      some { s.keepTrackOfClient block.isSome son client with loop := .unlock } := by
    rw [Server.step_of_running hprocess]
    simp only [Server.loopServer, hloop']
  refine ⟨_, hstep, ?_⟩
  cases block with
  | none => exact ⟨rfl, fun hno => Process.noConfusion hno⟩
  | some p =>
    obtain ⟨nodes, hnodes, hsnd, htracker⟩ := hs.alive
    have hnone : h.alive.element p = none := by
      have := hfree p rfl
      rwa [Option.isSome_eq_false_iff, Option.isNone_iff_eq_none] at this
    set e : Element Alive := ⟨⟨son, client⟩, links.1, links.2⟩ with he
    obtain ⟨alive', hinsert, hholds⟩ :=
      (hnodes.malloc hnone e).insertHead (Queue.element_set_self h.alive p e)
    have hkeep : h.keepTrackOfClient (some p) links son client = { h with alive := alive' } := by
      simp [keepTrackOfClient, ← he, hinsert]
    have hcritical : Server.LoopCritical s.loop := by
      rw [hloop']
      trivial
    rw [hkeep]
    refine ⟨hp.trans hprocess.symm, fun _ => ⟨rfl, hs.error, hs.mutex, hs.fds, hs.children,
      Server.exclusive_step hs.exclusive hstep, _, hholds, ?_, ?_⟩⟩
    · show _ :: _ = _
      rw [hsnd]
      rfl
    · exact htracker.of_not_critical (hs.exclusive.not_both hcritical)

/-- **The steps of the loop** are those of the server with a list. -/
theorem loopServer_refines (hs : h.ShowsRunning s) (hp : h.process = .running)
    (hprocess : s.process = .running) {a : Act} (hstep : h.loopServer a = some t) :
    ∃ s', s.step a.abs = some s' ∧ t.Shows s' := by
  have hmine : ∀ b : Server.LoopAct, s.step (.loop b) = s.loopServer b := by
    intro b
    rw [Server.step_of_running hprocess]
  have hsame : h.process = s.process := hp.trans hprocess.symm
  unfold loopServer at hstep
  split at hstep
  · next hloop =>
    cases hstep
    have hs' : s.step (.loop (.accept none)) = some s := by
      simp [hmine, Server.loopServer, ← hs.loop, hloop]
    exact ⟨s, hs', shows_of_step hs hs' hsame hs.loop hs.error hs.mutex hs.fds hs.children rfl rfl
      fun _ _ _ h => h⟩
  · next client hloop =>
    split_ifs at hstep with hused
    cases hstep
    rw [hs.fds] at hused
    have hs' : s.step (.loop (.accept (some client))) =
        some { s with loop := .fork client, fds := client :: s.fds } := by
      simp [hmine, Server.loopServer, ← hs.loop, hloop, hused]
    exact ⟨_, hs', shows_of_step hs hs' hsame rfl hs.error hs.mutex
      (congrArg (client :: ·) hs.fds) hs.children rfl rfl fun _ _ _ h => h⟩
  · next client hloop =>
    cases hstep
    have hs' : s.step (.loop (.fork none)) = some { s with loop := .accept } := by
      simp [hmine, Server.loopServer, ← hs.loop, hloop]
    exact ⟨_, hs', shows_of_step hs hs' hsame rfl hs.error hs.mutex hs.fds hs.children rfl rfl
      fun _ _ _ h => h⟩
  · next client son hloop =>
    split_ifs at hstep with hfresh
    cases hstep
    rw [hs.children] at hfresh
    have hs' : s.step (.loop (.fork (some son))) = some { s with
        loop := .lock client son
        children := Function.update s.children son (some .running) } := by
      simp [hmine, Server.loopServer, ← hs.loop, hloop, hfresh]
    refine ⟨_, hs', shows_of_step hs hs' hsame rfl hs.error hs.mutex hs.fds ?_ rfl rfl
      fun _ _ _ h => h⟩
    rw [hs.children]
  · next client son hloop =>
    cases hstep
    have hs' : s.step (.loop (.lock false)) = some { s with loop := .accept } := by
      simp [hmine, Server.loopServer, ← hs.loop, hloop]
    exact ⟨_, hs', shows_of_step hs hs' hsame rfl hs.error hs.mutex hs.fds hs.children rfl rfl
      fun _ _ _ h => h⟩
  · next client son hloop =>
    split_ifs at hstep with hmutex
    cases hstep
    rw [hs.mutex] at hmutex
    have hs' : s.step (.loop (.lock true)) =
        some { s with loop := .track client son, mutex := some .loop } := by
      simp [hmine, Server.loopServer, ← hs.loop, hloop, hmutex]
    exact ⟨_, hs', shows_of_step hs hs' hsame rfl hs.error rfl hs.fds hs.children rfl rfl
      fun _ _ _ h => h⟩
  · next client son block links hloop =>
    split_ifs at hstep with hfree
    cases hstep
    exact track_refines hs hp hprocess hloop hfree links
  · next ok hloop =>
    cases hstep
    have hs' : s.step (.loop (.unlock ok)) =
        some { s with loop := .accept, mutex := if ok then none else s.mutex } := by
      simp [hmine, Server.loopServer, ← hs.loop, hloop]
    refine ⟨_, hs', shows_of_step hs hs' hsame rfl hs.error ?_ hs.fds hs.children rfl rfl
      fun _ _ _ h => h⟩
    simp only [hs.mutex]
  · cases hstep

/-- The pointer behind an entry that was swept. -/
theorem drop_of_swept {nodes pre post : List (ℕ × Alive)} {p : ℕ} {e : Alive} {i : ℕ}
    (hnodes : nodes = pre ++ (p, e) :: post) (hi : pre.length = i) :
    nodes.drop i = (p, e) :: post ∧ nodes.drop (i + 1) = post ∧ (pre ++ post).drop i = post := by
  subst hnodes hi
  refine ⟨by simp, ?_, by simp⟩
  rw [← List.drop_drop, List.drop_left]
  rfl

/-- **What is left of a sweep.** -/
theorem applySwept_shows (hs : h.ShowsRunning s) (hsame : h.process = s.process)
    {nodes pre post : List (ℕ × Alive)} {p i : ℕ} {a : Alive}
    (hsnd : nodes.map Prod.snd = s.alive) (hsplit : nodes = pre ++ (p, a) :: post)
    (hi : pre.length = i) {res : WaitResult} {granted : Bool} {r : SendResult} {swept : Swept}
    {node : SweptNode} (hswept : SweptShows pre post p a res swept node)
    (hexclusive : (s.applySwept i a res granted r swept).Exclusive) :
    (h.applySwept a.son res granted r node).Shows
      (s.applySwept i a res granted r swept) := by
  obtain ⟨removed, closed, answer⟩ := swept
  obtain ⟨alive, next, closed', answer'⟩ := node
  obtain ⟨hclosed, hanswer, hstatus, hnext⟩ := hswept
  simp only at hclosed hanswer hstatus hnext
  subst hclosed hanswer
  cases answer with
  | some c =>
    obtain rfl : c = rpcRetNoAnswer := hstatus c rfl
    -- `send_error` ends the process
    have hends : ∀ h' : HeapServer, h'.process = .endedBySendError granted r rpcRetNoAnswer →
        h'.process ≠ .running := by
      rintro h' hprocess
      rw [hprocess]
      exact Server.exitBySendError_process s granted r rpcRetNoAnswer
    refine ⟨?_, fun hno => absurd hno (hends _ ?_)⟩
    · cases res <;> cases removed <;> cases closed <;> rfl
    · cases res <;> cases closed <;> rfl
  | none =>
    obtain ⟨hkept, rfl, halive⟩ := hnext rfl
    obtain ⟨hdrop, hdrop', hdropped⟩ := drop_of_swept hsplit hi
    have herased : s.alive.eraseIdx i = (pre ++ post).map Prod.snd := by
      rw [← hsnd, hsplit, ← hi, List.map_append, List.map_cons, List.map_append,
        List.eraseIdx_append_of_length_le (by simp)]
      simp
    have hprocess : (h.applySwept a.son res granted r
        ⟨alive, if res = .running then some p else post.head?.map Prod.fst,
          if closed then some a.clientFd else none, none⟩).process =
        (s.applySwept i a res granted r ⟨removed, closed, none⟩).process := by
      cases res <;> cases removed <;> cases closed <;> exact hsame
    refine ⟨hprocess, fun _ => ⟨?_, ?_, ?_, ?_, ?_, hexclusive, ?_⟩⟩
    · cases res <;> cases removed <;> cases closed <;> exact hs.loop
    · cases res <;> cases removed <;> cases closed <;> exact hs.error
    · cases res <;> cases removed <;> cases closed <;> exact hs.mutex
    · have herase := congrArg (·.erase a.clientFd) hs.fds
      cases res <;> cases removed <;> cases closed <;> first | exact hs.fds | exact herase
    · have hupdate := congrArg (fun children => Function.update children a.son none) hs.children
      cases res <;> cases removed <;> cases closed <;> first | exact hs.children | exact hupdate
    · cases removed with
      | true =>
        have hres : res ≠ .running := fun hno => Bool.noConfusion (hkept hno)
        have hhead : (if res = .running then some p else post.head?.map Prod.fst) =
            ((pre ++ post).drop i).head?.map Prod.fst := by rw [if_neg hres, hdropped]
        refine ⟨pre ++ post, ?_, ?_, ?_⟩
        · cases res <;> cases closed <;> exact halive
        · cases res <;> cases closed <;> exact herased.symm
        · have hsweep := @TrackerShows.sweep (pre ++ post) i
          rw [← hhead] at hsweep
          have hpc : (s.applySwept i a res granted r ⟨true, closed, none⟩).tracker =
              .sweep i := by
            cases res <;> cases closed <;> simp [Server.applySwept]
          rw [hpc]
          cases res <;> cases closed <;> exact hsweep
      | false =>
        rw [← hsplit] at halive
        refine ⟨nodes, ?_, ?_, ?_⟩
        · cases res <;> cases closed <;> exact halive
        · cases res <;> cases closed <;> exact hsnd
        · by_cases hres : res = .running
          · subst hres
            have hsweep := @TrackerShows.sweep nodes i
            rw [hdrop] at hsweep
            cases closed <;> exact hsweep
          · have hhead : (if res = .running then some p else post.head?.map Prod.fst) =
                (nodes.drop (i + 1)).head?.map Prod.fst := by rw [if_neg hres, hdrop']
            have hsweep := @TrackerShows.sweep nodes (i + 1)
            rw [← hhead] at hsweep
            have hpc : (s.applySwept i a res granted r ⟨false, closed, none⟩).tracker =
                .sweep (i + 1) := by
              cases res <;> cases closed <;> simp [Server.applySwept] at hres ⊢
            rw [hpc]
            cases res <;> cases closed <;> exact hsweep

/-- The sweep of an entry. -/
theorem wait_refines (hs : h.ShowsRunning s) (hp : h.process = .running)
    (hprocess : s.process = .running) {p : ℕ} (htracker : h.tracker = .sweep (some p))
    {e : Element Alive} (hget : h.alive.get p = .ok e) {res : WaitResult}
    (hanswers : h.Answers e.value.son res) {granted : Bool} {r : SendResult}
    (ht : (match sweepNode h.alive p res with
      | .ok swept => some (h.applySwept e.value.son res granted r swept)
      | .error _ => some { h with process := .crashed }) = some t) :
    ∃ s', s.step (.tracker (.wait res granted r)) = some s' ∧ t.Shows s' := by
  obtain ⟨nodes, hnodes, hsnd, hshows⟩ := hs.alive
  rw [htracker] at hshows
  generalize hcur : some p = cur at hshows
  generalize hpc : s.tracker = pc at hshows
  cases hshows with
  | sweep i =>
    -- the entry at the place of the tracker
    obtain ⟨⟨p', a⟩, hhead, hp'⟩ := Option.map_eq_some_iff.mp hcur.symm
    obtain rfl : p' = p := hp'
    obtain ⟨post, hpost⟩ := List.head?_eq_some_iff.mp hhead
    have hsplit : nodes = nodes.take i ++ (p', a) :: post := by
      rw [← hpost, List.take_append_drop]
    have hi : (nodes.take i).length = i := by
      have hlen := congrArg List.length hpost
      rw [List.length_drop, List.length_cons] at hlen
      rw [List.length_take]
      omega
    set pre := nodes.take i
    obtain ⟨hdrop, hdrop', hdropped⟩ := drop_of_swept hsplit hi
    rw [hsplit] at hnodes
    obtain ⟨l, he⟩ := hnodes.element_eq
    obtain rfl : e = _ := Except.ok.inj (hget.symm.trans (Queue.get_of_element he))
    have halive : s.alive[i]? = some a := by
      rw [← hsnd, List.getElem?_map, ← List.head?_drop, hdrop]
      rfl
    have hanswers' : s.Answers a.son res := by
      cases res with
      | running => exact (congrFun hs.children a.son).symm.trans hanswers
      | ended st => exact (congrFun hs.children a.son).symm.trans hanswers
      | echild info => trivial
      | failed info => trivial
    rcases sweepNode_eq hnodes res with ⟨st, st', hentry, hnode⟩ |
      ⟨swept, node, hentry, hnode, hswept⟩
    · rw [hnode] at ht
      cases ht
      have hstep : s.step (.tracker (.wait res granted r)) =
          some (s.removedTwice i a) := by
        rw [Server.step_of_running hprocess]
        simp only [Server.checkClientTrack, hpc, halive, if_pos hanswers', hentry]
      exact ⟨_, hstep, rfl, fun hno => Process.noConfusion hno⟩
    · rw [hnode] at ht
      cases ht
      have hstep : s.step (.tracker (.wait res granted r)) =
          some (s.applySwept i a res granted r swept) := by
        rw [Server.step_of_running hprocess]
        simp only [Server.checkClientTrack, hpc, halive, if_pos hanswers', hentry]
      exact ⟨_, hstep, applySwept_shows hs (hp.trans hprocess.symm) hsnd hsplit hi hswept
        (Server.exclusive_step hs.exclusive hstep)⟩

/-- The places of the tracker outside its list. -/
theorem tracker_eq (hs : h.ShowsRunning s) :
    (h.tracker = .top → s.tracker = .top) ∧ (h.tracker = .lock → s.tracker = .lock) := by
  obtain ⟨nodes, -, -, hshows⟩ := hs.alive
  generalize h.tracker = pc at hshows ⊢
  generalize s.tracker = pc' at hshows ⊢
  cases hshows <;> simp

/-- **The steps of the tracker** are those of the server with a list. -/
theorem checkClientTrack_refines (hs : h.ShowsRunning s) (hp : h.process = .running)
    (hprocess : s.process = .running) {a : Server.TrackerAct}
    (hstep : h.checkClientTrack a = some t) :
    ∃ s', s.step (.tracker a) = some s' ∧ t.Shows s' := by
  have hmine : ∀ b, s.step (.tracker b) = s.checkClientTrack b := by
    intro b
    rw [Server.step_of_running hprocess]
  have hsame : h.process = s.process := hp.trans hprocess.symm
  unfold checkClientTrack at hstep
  split at hstep
  · next htop =>
    cases hstep
    have hs' : s.step (.tracker .top) =
        some { s with tracker := if 3 ≤ s.error then .ended else .lock } := by
      simp [hmine, Server.checkClientTrack, (tracker_eq hs).1 htop]
    refine ⟨_, hs', shows_of_step hs hs' hsame hs.loop hs.error hs.mutex hs.fds hs.children rfl rfl
      fun nodes _ _ _ => ?_⟩
    simp only [hs.error]
    split_ifs
    · exact .ended
    · exact .lock
  · next hlock =>
    cases hstep
    have hs' : s.step (.tracker (.lock false)) =
        some { s with tracker := .top, error := s.error + 1 } := by
      simp [hmine, Server.checkClientTrack, (tracker_eq hs).2 hlock]
    exact ⟨_, hs', shows_of_step hs hs' hsame hs.loop (congrArg (· + 1) hs.error) hs.mutex hs.fds
      hs.children rfl rfl fun _ _ _ _ => .top⟩
  · next hlock =>
    split_ifs at hstep with hfree
    cases hstep
    rw [hs.mutex] at hfree
    have hs' : s.step (.tracker (.lock true)) =
        some { s with tracker := .sweep 0, mutex := some .tracker } := by
      simp [hmine, Server.checkClientTrack, (tracker_eq hs).2 hlock, hfree]
    refine ⟨_, hs', shows_of_step hs hs' hsame hs.loop hs.error rfl hs.fds hs.children rfl rfl
      fun nodes hnodes _ _ => ?_⟩
    have hsweep := @TrackerShows.sweep nodes 0
    rw [List.drop_zero, ← hnodes.lhFirst_eq] at hsweep
    exact hsweep
  · next p res granted r hsweep =>
    split at hstep
    · next e hget =>
      -- the pointer is that of an entry
      obtain ⟨nodes, hnodes, -, hshows⟩ := hs.alive
      rw [hsweep] at hshows
      generalize hcur : some p = cur at hshows
      generalize s.tracker = pc at hshows
      cases hshows with
      | sweep i =>
        obtain ⟨node, hhead, rfl⟩ := Option.map_eq_some_iff.mp hcur.symm
        have hmem : node ∈ nodes := List.mem_of_mem_drop (List.mem_of_head? hhead)
        have hsome : (h.alive.element node.1).isSome = true :=
          (hnodes.allocated node.1).mpr (by simpa using ⟨node.2, hmem⟩)
        obtain ⟨e', he'⟩ := Option.isSome_iff_exists.mp hsome
        rw [Queue.get_of_element he'] at hget
        cases hget
    · next e hget =>
      split_ifs at hstep with hanswers
      exact wait_refines hs hp hprocess hsweep hget hanswers hstep
  · next ok hsweep =>
    cases hstep
    obtain ⟨nodes, hnodes, hsnd, hshows⟩ := hs.alive
    rw [hsweep] at hshows
    generalize hcur : (none : Option ℕ) = cur at hshows
    generalize hpc : s.tracker = pc at hshows
    cases hshows with
    | sweep i =>
      have hend : s.alive.length ≤ i := by
        have hnone := Option.map_eq_none_iff.mp hcur.symm
        rw [List.head?_eq_none_iff, List.drop_eq_nil_iff] at hnone
        rw [← hsnd, List.length_map]
        exact hnone
      have hs' : s.step (.tracker (.unlock ok)) =
          some { s with tracker := .top, mutex := if ok then none else s.mutex
                        error := if ok then s.error else s.error + 1 } := by
        simp [hmine, Server.checkClientTrack, hpc, hend]
      refine ⟨_, hs', shows_of_step hs hs' hsame hs.loop ?_ ?_ hs.fds hs.children rfl rfl
        fun _ _ _ _ => .top⟩
      · simp only [hs.error]
      · simp only [hs.mutex]
  · cases hstep

/-- **Every step of the server is one of the server with a list.** -/
theorem step_refines (hs : h.Shows s) {a : Act} (hstep : h.step a = some t) :
    ∃ s', s.step a.abs = some s' ∧ t.Shows s' := by
  by_cases hp : h.process = .running
  · have hprocess : s.process = .running := hs.process.symm.trans hp
    have hrunning := hs.running hp
    unfold step at hstep
    rw [hp] at hstep
    simp only at hstep
    split at hstep
    · exact checkClientTrack_refines hrunning hp hprocess hstep
    · next son e =>
      split_ifs at hstep with hson
      cases hstep
      rw [hrunning.children] at hson
      have hs' : s.step (.child son e) =
          some { s with children := Function.update s.children son (some (.zombie e)) } := by
        rw [Server.step_of_running hprocess]
        exact if_pos hson
      refine ⟨_, hs', shows_of_step hrunning hs' hprocess.symm hrunning.loop hrunning.error
        hrunning.mutex hrunning.fds ?_ rfl rfl fun _ _ _ h => h⟩
      simp only [hrunning.children]
    · next sig =>
      cases hstep
      have hs' : s.step (.signal sig) = some { s with process := .exited exitSuccess } := by
        rw [Server.step_of_running hprocess]
      exact ⟨_, hs', rfl, fun hno => Process.noConfusion hno⟩
    · exact loopServer_refines hrunning hp hprocess hstep
  · -- a process that has ended takes no step
    unfold step at hstep
    split at hstep
    · exact absurd ‹_› hp
    · cases hstep

/-- **Every run of the server is one of the server with a list**: the macros are applied
to entries that are there, the walk of the tracker follows pointers that the loop does not
touch, and while the process runs the entries are all that is allocated. -/
theorem shows_of_run {acts : List Act} (hrun : runFrom step init acts = some t) :
    ∃ s, runFrom Server.step .init (acts.map Act.abs) = some s ∧ t.Shows s :=
  simulation_of_run Act.abs Shows (fun _ _ _ _ hs hstep => step_refines hs hstep) shows_init hrun

/-- A client that is served, and its sweep. -/
def servedRun : List Act :=
  [.accept (some 4), .fork (some 100), .lock true, .track (some 7) (some 9, .next 9), .unlock true,
    .child 100 (.exited exitSuccess), .tracker .top, .tracker (.lock true),
    .tracker (.wait (.ended (.exited exitSuccess)) true .accepted), .tracker (.unlock true)]

theorem shows_of_run_servedRun :
    ∃ t s, runFrom step init servedRun = some t ∧
      runFrom Server.step .init (servedRun.map Act.abs) = some s ∧ t.Shows s := by
  have hrun : runFrom step init servedRun = some _ := rfl
  obtain ⟨s, hs, hshows⟩ := shows_of_run hrun
  exact ⟨_, s, hrun, hs, hshows⟩

end HeapServer

end RemoteProcedure
