import RemoteProcedure.AtMostOnce
import RemoteProcedure.Tracking

/-!
# The server and all its clients

The server process, the child of each connection, and the frames on each of them, in one
step relation: the loop, the tracker, and every child take their steps in any order.
What the tracker sends goes to the connection behind a descriptor, and a child that ends
is known by its number; both are used again.

Each connection comes with what its client sends: any bytes, and where they are cut.  A
function may send `SIGUSR1` to the server; no other signal reaches it.

## Main definitions

* `System`, `System.step` — the state, and the steps of all the parties.
* `behind` — the connection that a descriptor stands for.
* `System.Inv` — what ties the processes to the connections.

## Main results

* `System.inv_step` — **each step is one of the server and of at most one connection**.
-/

namespace RemoteProcedure

open Machine

/-- The last of the first connections whose descriptor was this one. -/
def behind (fd : ℕ → ℕ) (clientFd : ℕ) : ℕ → Option ℕ
  | 0 => none
  | n + 1 => if fd n = clientFd then some n else behind fd clientFd n

theorem behind_congr {fd fd' : ℕ → ℕ} {clientFd : ℕ} : ∀ {n : ℕ}, (∀ i < n, fd i = fd' i) →
    behind fd clientFd n = behind fd' clientFd n
  | 0, _ => rfl
  | n + 1, h => by
    rw [behind, behind, h n (Nat.lt_succ_self n),
      behind_congr fun i hi => h i (Nat.lt_succ_of_lt hi)]

/-- How the system sees a child. -/
def ChildPc.asChild : ChildPc → Child
  | ended e => .zombie e
  | _ => .running

theorem ChildPc.asChild_of_alive {pc : ChildPc} (h : pc.alive = true) : pc.asChild = .running := by
  cases pc with
  | ended e => cases h
  | _ => rfl

/-- The step is one of the tracker. -/
def Connection.Act.bySweep : Connection.Act → Bool
  | .sweep _ _ _ => true
  | _ => false

/-- The step of a child that reads what its client sends. -/
def Connection.Act.reading (client : Socket Byte) : Connection.Act → Connection.Act
  | .read alloc _ => .read alloc client
  | a => a

/-- The end of a child, if its step was the last. -/
def Server.childEnds (s : Server) (son : ℕ) : ChildPc → Server
  | .ended e => (s.step (.child son e)).getD s
  | _ => s

/-- The server, and the connections in the order they were accepted. -/
structure System where
  server : Server
  /-- How many there are. -/
  count : ℕ
  /-- The descriptor of a connection in the server. -/
  fd : ℕ → ℕ
  /-- The child of a connection, once it was forked. -/
  son : ℕ → Option ℕ
  session : ℕ → Session
  /-- A child has sent `SIGUSR1`. -/
  signalled : Bool

namespace System

def init : System := ⟨.init, 0, fun _ => 0, fun _ => none, fun _ => .init, false⟩

inductive Act where
  | loop (a : Server.LoopAct) : Act
  | tracker (a : Server.TrackerAct) : Act
  /-- A step of the child of a connection, or of its timer. -/
  | child (i : ℕ) (a : Connection.Act) : Act
  /-- `SIGUSR1` is delivered. -/
  | signal : Act

/-- What a step of the loop does to the connections. -/
def loopLinks (s : System) : Server.LoopAct → System
  | .accept (some client) =>
    { s with fd := Function.update s.fd s.count client, count := s.count + 1 }
  -- the child of the connection accepted last
  | .fork (some son) => { s with son := Function.update s.son (s.count - 1) (some son) }
  | _ => s

/-- What the sweep of an entry does to the connection behind its descriptor. -/
def sweepLink (s : System) (p : Alive) (granted : Bool) (r : SendResult) (swept : Swept) :
    ℕ → Session :=
  match behind s.fd p.clientFd s.count with
  | some j =>
    Function.update s.session j
      { s.session j with conn := (s.session j).conn.sweepStep granted r swept }
  | none => s.session

/-- What a step of the tracker does to the connections. -/
def trackerLinks (s : System) (a : Server.TrackerAct) : ℕ → Session :=
  match a, s.server.tracker with
  | .wait res granted r, .sweep i =>
    match s.server.alive[i]?, sweepEntry res with
    | some p, .ok swept => s.sweepLink p granted r swept
    | _, _ => s.session
  | _, _ => s.session

/-- One step of any party, for a server with this registry, where `raises` tells the calls
that send `SIGUSR1` to the server. -/
def step (memory : Memory FunPtr) (raises : Call → Bool) (clients : ℕ → Socket Byte) (s : System) :
    Act → Option System
  | .loop a => (s.server.step (.loop a)).map fun server => { s.loopLinks a with server }
  | .tracker a =>
    (s.server.step (.tracker a)).map fun server => { s with server, session := s.trackerLinks a }
  | .child i a =>
    match s.son i with
    | none => none
    | some son =>
      if a.bySweep then none
      else ((s.session i).step memory (a.reading (clients i))).map fun session =>
        { s with
          session := Function.update s.session i session
          server := s.server.childEnds son session.conn.pc
          signalled := s.signalled ||
            ((s.session i).called (a.reading (clients i))).any raises }
  | .signal =>
    if s.signalled then
      (s.server.step (.signal sigusr1)).map fun server => { s with server }
    else none

/-! ### What ties the processes to the connections -/

/-- A connection that comes from a run of its own. -/
def Reached (memory : Memory FunPtr) (client : Socket Byte) (session : Session) : Prop :=
  ∃ acts, (∀ a ∈ acts, Reads client a) ∧
    runFrom (Session.step memory) .init acts = some session

/-- The connection of an entry. -/
structure Entry (s : System) (p : Alive) (j : ℕ) : Prop where
  behind : behind s.fd p.clientFd s.count = some j
  son : s.son j = some p.son
  tracked : (s.session j).conn.tracked = true
  child : s.server.process = .running →
    s.server.children p.son = some (s.session j).conn.pc.asChild

/-- What holds between any two steps. -/
structure Inv (memory : Memory FunPtr) (raises : Call → Bool) (clients : ℕ → Socket Byte)
    (s : System) : Prop where
  tracked : s.server.Tracked
  /-- Each entry is that of the connection behind its descriptor. -/
  entry : ∀ p ∈ s.server.entries, ∃ j, s.Entry p j
  forking : ∀ client, s.server.loop = .fork client →
    ∃ j, s.count = j + 1 ∧ s.fd j = client ∧ s.son j = none
  beyond : ∀ i, s.count ≤ i → s.son i = none
  unforked : ∀ i, s.son i = none → s.session i = .init
  /-- A child that runs is known as running, -/
  owner : s.server.process = .running → ∀ i son, s.son i = some son →
    (s.session i).conn.pc.asChild = .running → s.server.children son = some .running
  /-- and no other has its number. -/
  unique : ∀ i j son, s.son i = some son → s.son j = some son →
    (s.session i).conn.pc.asChild = .running → (s.session j).conn.pc.asChild = .running → i = j
  running : s.server.process = .running → ∀ i, (s.session i).conn.server = .running
  reached : ∀ i, Reached memory (clients i) (s.session i)
  signalled : s.signalled = true → ∃ i, ∃ c ∈ (s.session i).calls, raises c = true

end System

/-! ### A child and its connection -/

theorem Connection.Act.bySweep_reading (client : Socket Byte) (a : Connection.Act) :
    (a.reading client).bySweep = a.bySweep := by
  cases a <;> rfl

theorem Connection.Act.reads_reading (client : Socket Byte) (a : Connection.Act) :
    Reads client (a.reading client) := by
  cases a <;> first | rfl | trivial

/-- A step of the child is one of a child that runs; its entry is not its own. -/
theorem Connection.frame_of_child {memory : Memory FunPtr} {conn conn' : Connection}
    {a : Connection.Act} (ha : a.bySweep = false) (h : conn.step memory a = some conn') :
    conn'.tracked = conn.tracked ∧ conn'.server = conn.server ∧
      conn.pc.asChild = .running := by
  cases Connection.step_cases h with
  | sendAnswer hpc =>
    rw [hpc, Connection.sendAnswerStep]
    split <;> exact ⟨rfl, rfl, rfl⟩
  | sendError hpc =>
    rw [hpc, Connection.sendErrorStep]
    split
    · split <;> exact ⟨rfl, rfl, rfl⟩
    · exact ⟨rfl, rfl, rfl⟩
  | alarm halive htimer => exact ⟨rfl, rfl, ChildPc.asChild_of_alive halive⟩
  | kill halive hsig => exact ⟨rfl, rfl, ChildPc.asChild_of_alive halive⟩
  | swept htracked hanswers hswept => cases ha
  | crashed herror => cases ha
  | _ hpc => exact ⟨rfl, rfl, by rw [hpc]; rfl⟩

namespace System

variable {memory : Memory FunPtr} {raises : Call → Bool} {clients : ℕ → Socket Byte} {s t : System}

theorem reached_init (client : Socket Byte) : Reached memory client .init :=
  ⟨[], fun _ h => absurd h List.not_mem_nil, rfl⟩

theorem Reached.concat {client : Socket Byte} {session session' : Session} {a : Connection.Act}
    (h : Reached memory client session) (ha : Reads client a)
    (hstep : session.step memory a = some session') : Reached memory client session' := by
  obtain ⟨acts, hacts, hrun⟩ := h
  refine ⟨acts ++ [a], ?_, runFrom_concat hrun hstep⟩
  intro b hb
  rcases List.mem_append.mp hb with hb | hb
  · exact hacts b hb
  · rw [List.mem_singleton.mp hb]
    exact ha

theorem inv_init : init.Inv memory raises clients where
  tracked := Server.tracked_init
  entry _ hp := absurd hp List.not_mem_nil
  forking _ hloop := nomatch hloop
  beyond _ _ := rfl
  unforked _ _ := rfl
  owner _ _ _ hson := nomatch hson
  unique _ _ _ hson := nomatch hson
  running _ _ := rfl
  reached i := reached_init (clients i)
  signalled hno := nomatch hno

/-- A step that is only the server's, and makes no entry. -/
theorem Inv.of_server (h : s.Inv memory raises clients) {server : Server}
    (htracked : server.Tracked) (hentries : ∀ p ∈ server.entries, p ∈ s.server.entries)
    (hrunning : server.process = .running →
      s.server.process = .running ∧ server.children = s.server.children)
    (hforking : ∀ client, server.loop = .fork client → s.server.loop = .fork client) :
    Inv memory raises clients { s with server } where
  tracked := htracked
  entry p hp := by
    obtain ⟨j, hj⟩ := h.entry p (hentries p hp)
    refine ⟨j, hj.behind, hj.son, hj.tracked, ?_⟩
    intro hprocess
    obtain ⟨hold, hchildren⟩ := hrunning hprocess
    rw [hchildren]
    exact hj.child hold
  forking client hloop := h.forking client (hforking client hloop)
  beyond := h.beyond
  unforked := h.unforked
  owner hprocess i son hson halive := by
    obtain ⟨hold, hchildren⟩ := hrunning hprocess
    rw [hchildren]
    exact h.owner hold i son hson halive
  unique := h.unique
  running hprocess := h.running (hrunning hprocess).1
  reached := h.reached
  signalled := h.signalled

/-- A step of one connection, beside what it does to the server. -/
theorem Inv.of_link (h : s.Inv memory raises clients) {server : Server} {j son : ℕ}
    {session : Session} {signalled : Bool} (htracked : server.Tracked)
    (hloop : server.loop = s.server.loop) (hson : s.son j = some son)
    (hentry : ∀ p ∈ server.entries, ∃ k,
      Entry { s with server, session := Function.update s.session j session, signalled } p k)
    (howner : server.process = .running → ∀ i σ, s.son i = some σ →
      (Function.update s.session j session i).conn.pc.asChild = .running →
      server.children σ = some .running)
    (hrun : session.conn.pc.asChild = .running → (s.session j).conn.pc.asChild = .running)
    (hrunning : server.process = .running →
      s.server.process = .running ∧ session.conn.server = .running)
    (hreached : Reached memory (clients j) session)
    (hcalls : ∀ c ∈ (s.session j).calls, c ∈ session.calls)
    (hsignalled : signalled = true →
      s.signalled = true ∨ ∃ c ∈ session.calls, raises c = true) :
    Inv memory raises clients
      { s with server, session := Function.update s.session j session, signalled } := by
  have hother : ∀ k, k ≠ j → Function.update s.session j session k = s.session k :=
    fun k hk => Function.update_of_ne hk _ _
  have hself : Function.update s.session j session j = session := Function.update_self _ _ _
  have hran : ∀ k, (Function.update s.session j session k).conn.pc.asChild = .running →
      (s.session k).conn.pc.asChild = .running := by
    intro k hk
    by_cases hkj : k = j
    · rw [hkj, hself] at hk
      rw [hkj]
      exact hrun hk
    · rwa [hother k hkj] at hk
  refine ⟨htracked, hentry, ?_, h.beyond, ?_, howner, ?_, ?_, ?_, ?_⟩
  · intro client hfork
    exact h.forking client (hloop.symm.trans hfork)
  · intro k hk
    have hkj : k ≠ j := by
      rintro rfl
      cases hk.symm.trans hson
    exact (hother k hkj).trans (h.unforked k hk)
  · intro k l σ hk hl hkrun hlrun
    exact h.unique k l σ hk hl (hran k hkrun) (hran l hlrun)
  · intro hprocess k
    obtain ⟨hold, hnew⟩ := hrunning hprocess
    by_cases hkj : k = j
    · simp only [hkj, hself]
      exact hnew
    · simp only [hother k hkj]
      exact h.running hold k
  · intro k
    by_cases hkj : k = j
    · simp only [hkj, hself]
      exact hreached
    · simp only [hother k hkj]
      exact h.reached k
  · intro hset
    rcases hsignalled hset with hold | ⟨c, hc, hraises⟩
    · obtain ⟨k, c, hc, hraises⟩ := h.signalled hold
      refine ⟨k, c, ?_, hraises⟩
      by_cases hkj : k = j
      · simp only [hkj, hself]
        rw [hkj] at hc
        exact hcalls c hc
      · simp only [hother k hkj]
        exact hc
    · refine ⟨j, c, ?_, hraises⟩
      simp only [hself]
      exact hc

/-! ### The steps of the loop -/

/-- A new connection has no entry yet, and takes the descriptor of none. -/
theorem inv_accepted (h : s.Inv memory raises clients) {client : ℕ}
    (hloop : s.server.loop = .accept) (hfresh : client ∉ s.server.fds)
    (htracked : Server.Tracked
      { s.server with loop := .fork client, fds := client :: s.server.fds }) :
    Inv memory raises clients
      { s.loopLinks (.accept (some client)) with
        server := { s.server with loop := .fork client, fds := client :: s.server.fds } } where
  tracked := htracked
  entry p hp := by
    have hold : p ∈ s.server.entries := by
      rw [Server.entries, hloop]
      exact hp
    obtain ⟨j, hj⟩ := h.entry p hold
    have hne : client ≠ p.clientFd := by
      rintro rfl
      exact hfresh (h.tracked.isOpen p hold)
    refine ⟨j, ?_, hj.son, hj.tracked, hj.child⟩
    have hkept : behind (Function.update s.fd s.count client) p.clientFd s.count =
        behind s.fd p.clientFd s.count :=
      behind_congr fun i hi => Function.update_of_ne (Nat.ne_of_lt hi) _ _
    rw [← hj.behind, ← hkept]
    simp only [loopLinks, behind, Function.update_self, if_neg hne]
  forking client' hfork := by
    cases hfork
    exact ⟨s.count, rfl, Function.update_self _ _ _, h.beyond s.count le_rfl⟩
  beyond i hi := h.beyond i (Nat.le_of_succ_le hi)
  unforked := h.unforked
  owner := h.owner
  unique := h.unique
  running := h.running
  reached := h.reached
  signalled := h.signalled

/-- A new child is that of the connection accepted last; its number is that of no child
that runs or has an entry. -/
theorem inv_forked (h : s.Inv memory raises clients) (hrunning : s.server.process = .running)
    {client son : ℕ} (hloop : s.server.loop = .fork client)
    (hfresh : s.server.children son = none)
    (htracked : Server.Tracked { s.server with
      loop := .lock client son
      children := Function.update s.server.children son (some .running) }) :
    Inv memory raises clients
      { s.loopLinks (.fork (some son)) with
        server := { s.server with
          loop := .lock client son
          children := Function.update s.server.children son (some .running) } } := by
  obtain ⟨j, hcount, hfd, hson⟩ := h.forking client hloop
  have hlast : s.count - 1 = j := by omega
  have hinit := h.unforked j hson
  -- whoever has the number of the new child has ended, and has no entry
  have hother : ∀ i, s.son i = some son → (s.session i).conn.pc.asChild ≠ .running := by
    intro i hi halive
    rw [h.owner hrunning i son hi halive] at hfresh
    cases hfresh
  have hupdate : ∀ i, i ≠ j → Function.update s.son j (some son) i = s.son i :=
    fun i hi => Function.update_of_ne hi _ _
  have hself : Function.update s.son j (some son) j = some son := Function.update_self _ _ _
  simp only [loopLinks, hlast]
  refine ⟨htracked, ?_, fun _ hno => (nomatch hno), ?_, ?_, ?_, ?_, h.running, h.reached,
    h.signalled⟩
  · intro p hp
    rcases List.mem_cons.mp hp with rfl | hp
    · refine ⟨j, ?_, hself, ?_, ?_⟩
      · simp only [hcount, behind, hfd, if_true]
      · rw [hinit]
        rfl
      · intro _
        rw [hinit]
        exact Function.update_self _ _ _
    · have hold : p ∈ s.server.entries := by
        rw [Server.entries, hloop]
        exact hp
      obtain ⟨k, hk⟩ := h.entry p hold
      have hkj : k ≠ j := by
        rintro rfl
        cases hson.symm.trans hk.son
      have hne : p.son ≠ son := by
        rintro rfl
        exact h.tracked.children p hold hfresh
      refine ⟨k, hk.behind, (hupdate k hkj).trans hk.son, hk.tracked, ?_⟩
      intro _
      exact (Function.update_of_ne hne _ _).trans (hk.child hrunning)
  · intro i hi
    have hij : i ≠ j := by
      rintro rfl
      exact absurd hi (by simp only [hcount]; omega)
    exact (hupdate i hij).trans (h.beyond i hi)
  · intro i hi
    by_cases hij : i = j
    · rw [hij]
      exact hinit
    · simp only [hupdate i hij] at hi
      exact h.unforked i hi
  · intro _ i son' hi halive
    by_cases hij : i = j
    · simp only [hij, hself] at hi
      cases hi
      exact Function.update_self _ _ _
    · simp only [hupdate i hij] at hi
      have hne : son' ≠ son := by
        rintro rfl
        exact hother i hi halive
      exact (Function.update_of_ne hne _ _).trans (h.owner hrunning i son' hi halive)
  · intro i k son' hi hk hialive hkalive
    by_cases hij : i = j
    · by_cases hkj : k = j
      · rw [hij, hkj]
      · simp only [hij, hself] at hi
        cases hi
        simp only [hupdate k hkj] at hk
        exact absurd hkalive (hother k hk)
    · simp only [hupdate i hij] at hi
      by_cases hkj : k = j
      · simp only [hkj, hself] at hk
        cases hk
        exact absurd hialive (hother i hi)
      · simp only [hupdate k hkj] at hk
        exact h.unique i k son' hi hk hialive hkalive

/-! ### The sweep -/

/-- The sweep leaves the child alone, and the server running if nothing is sent. -/
theorem sweepStep_frame (conn : Connection) (granted : Bool) (r : SendResult) (swept : Swept) :
    (conn.sweepStep granted r swept).pc = conn.pc ∧
    (conn.sweepStep granted r swept).tracked = !swept.removed ∧
    (swept.answer = none → (conn.sweepStep granted r swept).server = conn.server) := by
  rw [Connection.sweepStep]
  split
  · exact ⟨rfl, rfl, fun _ => rfl⟩
  · next c hc =>
    split <;> exact ⟨rfl, rfl, fun hno => absurd (hno.symm.trans hc) (Option.some_ne_none c).symm⟩

theorem asChild_eq_zombie {pc : ChildPc} {e : Ended} (h : pc.asChild = .zombie e) :
    pc = .ended e := by
  cases pc with
  | ended e' =>
    cases h
    rfl
  | _ => cases h

/-- What `waitpid` answers about the child of an entry is true of the connection behind
the descriptor of the entry. -/
theorem Entry.sweep (memory : Memory FunPtr) {p : Alive} {j : ℕ} (h : s.Entry p j)
    (hrunning : s.server.process = .running) (hserver : (s.session j).conn.server = .running)
    {res : WaitResult} {swept : Swept}
    (hanswers : s.server.Answers p.son res) (hswept : sweepEntry res = .ok swept)
    (granted : Bool) (r : SendResult) :
    (s.session j).conn.sweepStep granted r swept = (s.session j).conn ∨
    (s.session j).conn.step memory (.sweep res granted r) =
      some ((s.session j).conn.sweepStep granted r swept) := by
  have hchild := h.child hrunning
  have hstep (hans : (s.session j).conn.answers res = true) :
      (s.session j).conn.step memory (.sweep res granted r) =
        some ((s.session j).conn.sweepStep granted r swept) := by
    simp only [Connection.step, h.tracked, hserver, hans, hswept, and_self, if_true]
  cases res with
  | running =>
    refine .inl ?_
    cases hswept
    have htracked := h.tracked
    rw [Connection.sweepStep]
    generalize (s.session j).conn = conn at htracked ⊢
    cases conn
    cases htracked
    rfl
  | ended e =>
    refine .inr (hstep ?_)
    have hpc := asChild_eq_zombie (Option.some.inj (hchild.symm.trans hanswers))
    simp only [Connection.answers, hpc, decide_true]
  | echild info => exact .inr (hstep rfl)
  | failed info => exact .inr (hstep rfl)

/-- **The sweep of an entry is a step of the connection of its child**, and of no
other. -/
theorem inv_swept (h : s.Inv memory raises clients) (hrunning : s.server.process = .running)
    {i : ℕ} {p : Alive} {res : WaitResult} {granted : Bool} {r : SendResult} {swept : Swept}
    (hp : s.server.alive[i]? = some p) (hanswers : s.server.Answers p.son res)
    (hswept : sweepEntry res = .ok swept)
    (htracked : (s.server.applySwept i p res granted r swept).Tracked) :
    Inv memory raises clients
      { s with server := s.server.applySwept i p res granted r swept
               session := s.sweepLink p granted r swept } := by
  obtain ⟨hi, rfl⟩ := List.getElem?_eq_some_iff.mp hp
  obtain ⟨hloop, halive, -, hchildren⟩ :=
    Server.applySwept_lists s.server i s.server.alive[i] res granted r swept
  have hmem : s.server.alive[i] ∈ s.server.entries :=
    List.mem_append_right _ (List.getElem_mem hi)
  obtain ⟨j, hj⟩ := h.entry _ hmem
  obtain ⟨hpc, htrack, hserver⟩ := sweepStep_frame (s.session j).conn granted r swept
  have hsweep := hj.sweep memory hrunning (h.running hrunning j) hanswers hswept
    granted r
  have hanswer : (s.server.applySwept i s.server.alive[i] res granted r swept).process =
      .running → swept.answer = none := by
    intro hprocess
    cases hnone : swept.answer with
    | none => rfl
    | some c =>
      exact absurd hprocess (Server.applySwept_of_some hnone s.server i _ res granted r)
  -- a removed entry is not among those that are left
  have hleft : ∀ q ∈ (s.server.applySwept i s.server.alive[i] res granted r swept).entries,
      q ∈ s.server.entries ∧ (swept.removed = true → q.son ≠ s.server.alive[i].son) := by
    intro q hq
    rw [Server.entries, hloop, halive] at hq
    by_cases hremoved : swept.removed = true
    · rw [if_pos hremoved] at hq
      have hsub : q ∈ s.server.entries := by
        rcases List.mem_append.mp hq with hq | hq
        · exact List.mem_append_left _ hq
        · exact List.mem_append_right _ ((List.eraseIdx_sublist _ _).subset hq)
      exact ⟨hsub, fun _ => (h.tracked.ne_of_mem_eraseIdx hi hq).1⟩
    · rw [if_neg hremoved] at hq
      exact ⟨hq, fun hno => absurd hno hremoved⟩
  -- only the child that was waited for is gone
  have hkept : ∀ son, (son ≠ s.server.alive[i].son ∨ ∀ e, res ≠ .ended e) →
      (s.server.applySwept i s.server.alive[i] res granted r swept).children son =
        s.server.children son := by
    intro son hne
    rw [hchildren]
    cases res with
    | ended e => exact Function.update_of_ne (hne.resolve_right fun hno => hno e rfl) _ _
    | running => rfl
    | echild info => rfl
    | failed info => rfl
  have hlink : s.sweepLink s.server.alive[i] granted r swept =
      Function.update s.session j
        { s.session j with conn := (s.session j).conn.sweepStep granted r swept } := by
    simp only [sweepLink, hj.behind]
  have hother : ∀ k, k ≠ j → ∀ session, Function.update s.session j session k = s.session k :=
    fun k hk session => Function.update_of_ne hk _ _
  have hchild : ∀ k, (Function.update s.session j
      { s.session j with conn := (s.session j).conn.sweepStep granted r swept } k).conn.pc =
      (s.session k).conn.pc := by
    intro k
    by_cases hk : k = j
    · rw [hk, Function.update_self]
      exact hpc
    · rw [hother k hk]
  rw [hlink]
  refine h.of_link htracked hloop hj.son ?_ ?_ ?_ ?_ ?_ ?_ ?_
  · intro q hq
    obtain ⟨hold, hne⟩ := hleft q hq
    obtain ⟨k, hk⟩ := h.entry q hold
    refine ⟨k, hk.behind, hk.son, ?_, ?_⟩
    · by_cases hkj : k = j
      · -- the entry of the same child is the one that was swept, and was kept
        have hson : q.son = s.server.alive[i].son := by
          rw [hkj] at hk
          exact Option.some.inj (hk.son.symm.trans hj.son)
        have hremoved : swept.removed = false :=
          Bool.eq_false_iff.mpr fun hremoved => hne hremoved hson
        simp only [hkj, Function.update_self, htrack, hremoved, Bool.not_false]
      · simp only [hother k hkj]
        exact hk.tracked
    · intro _
      simp only [hchild k]
      refine (hkept q.son ?_).trans (hk.child hrunning)
      by_cases hremoved : swept.removed = true
      · exact .inl (hne hremoved)
      · refine .inr ?_
        rintro e rfl
        exact hremoved (Server.removed_of_ended hswept)
  · intro _ k son hk hrun
    rw [hchild k] at hrun
    have hold := h.owner hrunning k son hk hrun
    refine (hkept son ?_).trans hold
    by_contra hno
    rw [not_or, not_not] at hno
    obtain ⟨rfl, hended⟩ := hno
    obtain ⟨e, he⟩ := not_forall_not.mp hended
    rw [he] at hanswers
    cases hold.symm.trans hanswers
  · intro hrun
    rwa [hpc] at hrun
  · intro hprocess
    exact ⟨hrunning, (hserver (hanswer hprocess)).trans (h.running hrunning j)⟩
  · rcases hsweep with hsame | hstep
    · rw [hsame]
      exact h.reached j
    · refine (h.reached j).concat (a := .sweep res granted r) trivial ?_
      rw [Session.step, hstep]
      exact congrArg some (congrArg (Session.mk _) (List.append_nil _))
  · exact fun c hc => hc
  · exact fun hset => .inl hset

/-! ### The steps of a child -/

/-- The end of a child is known to a server that runs. -/
theorem childEnds_eq {server : Server} (hrunning : server.process = .running) {son : ℕ}
    (hson : server.children son = some .running) (pc : ChildPc) :
    server.childEnds son pc =
      { server with children := Function.update server.children son (some pc.asChild) } := by
  cases pc with
  | ended e =>
    simp only [Server.childEnds, Server.step_of_running hrunning, if_pos hson]
    rfl
  | _ =>
    have hsame : Function.update server.children son (some .running) = server.children := by
      rw [← hson]
      exact Function.update_eq_self son _
    simp only [Server.childEnds, ChildPc.asChild, hsame]

/-- The step of a child changes nothing of the server but what is known of the child. -/
theorem childEnds_frame (server : Server) (son : ℕ) (pc : ChildPc) :
    (server.childEnds son pc).process = server.process ∧
    (server.childEnds son pc).loop = server.loop ∧
    (server.childEnds son pc).alive = server.alive := by
  cases pc with
  | ended e =>
    simp only [Server.childEnds]
    cases hstep : server.step (.child son e) with
    | none => exact ⟨rfl, rfl, rfl⟩
    | some t =>
      by_cases hrunning : server.process = .running
      · rw [Server.step_of_running hrunning] at hstep
        simp only at hstep
        split_ifs at hstep
        cases hstep
        exact ⟨rfl, rfl, rfl⟩
      · rw [Server.step_of_not_running hrunning] at hstep
        cases hstep
  | _ => exact ⟨rfl, rfl, rfl⟩

theorem tracked_childEnds {server : Server} (h : server.Tracked) (son : ℕ) (pc : ChildPc) :
    (server.childEnds son pc).Tracked := by
  cases pc with
  | ended e =>
    simp only [Server.childEnds]
    cases hstep : server.step (.child son e) with
    | none => exact h
    | some t => exact Server.tracked_step h hstep
  | _ => exact h

/-- **The step of a child is one of its own connection**, and of no other. -/
theorem inv_child (h : s.Inv memory raises clients) {i son : ℕ} (hson : s.son i = some son)
    {a : Connection.Act} (ha : a.bySweep = false) {session : Session}
    (hstep : (s.session i).step memory (a.reading (clients i)) = some session) :
    Inv memory raises clients
      { s with session := Function.update s.session i session
               server := s.server.childEnds son session.conn.pc
               signalled := s.signalled ||
                 ((s.session i).called (a.reading (clients i))).any raises } := by
  have hconn := hstep
  rw [Session.step, Option.map_eq_some_iff] at hconn
  obtain ⟨conn, hconn, rfl⟩ := hconn
  obtain ⟨htrack, hserver, hran⟩ := Connection.frame_of_child
    ((Connection.Act.bySweep_reading _ a).trans ha) hconn
  obtain ⟨hprocess, hloop, halive⟩ := childEnds_frame s.server son conn.pc
  have hother : ∀ k, k ≠ i → ∀ session, Function.update s.session i session k = s.session k :=
    fun k hk session => Function.update_of_ne hk _ _
  -- no other child that runs has the number of this one
  have hne : ∀ k σ, k ≠ i → s.son k = some σ → (s.session k).conn.pc.asChild = .running →
      σ ≠ son := by
    rintro k σ hk hσ hrun rfl
    exact hk (h.unique k i σ hσ hson hrun hran)
  refine h.of_link (tracked_childEnds h.tracked _ _) hloop hson ?_ ?_ ?_ ?_ ?_ ?_ ?_
  · intro p hp
    simp only [Server.entries, hloop, halive] at hp
    obtain ⟨k, hk⟩ := h.entry p hp
    refine ⟨k, hk.behind, hk.son, ?_, ?_⟩
    · by_cases hki : k = i
      · simp only [hki, Function.update_self]
        rw [htrack, ← hki]
        exact hk.tracked
      · simp only [hother k hki]
        exact hk.tracked
    · intro hrunning
      simp only [hprocess] at hrunning
      have hknown := h.owner hrunning i son hson hran
      simp only [childEnds_eq hrunning hknown]
      by_cases hki : k = i
      · have hpson : p.son = son := by
          rw [hki] at hk
          exact Option.some.inj (hk.son.symm.trans hson)
        simp only [hki, hpson, Function.update_self]
      · have hpson : p.son ≠ son := by
          intro heq
          have hrun := hk.child hrunning
          rw [heq, hknown] at hrun
          exact hne k p.son hki hk.son (Option.some.inj hrun).symm heq
        simp only [hother k hki, Function.update_of_ne hpson]
        exact hk.child hrunning
  · intro hrunning k σ hσ hrun
    rw [hprocess] at hrunning
    have hknown := h.owner hrunning i son hson hran
    rw [childEnds_eq hrunning hknown]
    by_cases hki : k = i
    · rw [hki] at hσ hrun
      rw [Function.update_self] at hrun
      obtain rfl : σ = son := Option.some.inj (hσ.symm.trans hson)
      simp only [Function.update_self, hrun]
    · rw [hother k hki] at hrun
      simp only [Function.update_of_ne (hne k σ hki hσ hrun)]
      exact h.owner hrunning k σ hσ hrun
  · exact fun _ => hran
  · intro hrunning
    rw [hprocess] at hrunning
    exact ⟨hrunning, hserver.trans (h.running hrunning i)⟩
  · exact (h.reached i).concat (Connection.Act.reads_reading _ a) hstep
  · exact fun c hc => List.mem_append_left _ hc
  · intro hset
    rcases Bool.or_eq_true_iff.mp hset with hold | hnew
    · exact .inl hold
    · obtain ⟨c, hc, hraises⟩ := List.any_eq_true.mp hnew
      exact .inr ⟨c, List.mem_append_right _ hc, hraises⟩

/-! ### Any step -/

theorem inv_loop (h : s.Inv memory raises clients) {a : Server.LoopAct} {server : Server}
    (hstep : s.server.step (.loop a) = some server) :
    Inv memory raises clients { s.loopLinks a with server } := by
  have htracked := Server.tracked_step h.tracked hstep
  have hrunning : s.server.process = .running := by
    by_contra hno
    rw [Server.step_of_not_running hno] at hstep
    cases hstep
  rw [Server.step_of_running hrunning] at hstep
  cases Server.loopServer_cases hstep with
  | notAccepted hloop => exact h.of_server htracked (fun _ hp => hp) (fun h => ⟨h, rfl⟩) fun _ => id
  | accepted hloop hfresh => exact inv_accepted h hloop hfresh htracked
  | notForked hloop =>
    refine h.of_server htracked ?_ (fun h => ⟨h, rfl⟩) fun _ hno => LoopPc.noConfusion hno
    exact fun p hp => List.mem_append_right _ hp
  | forked hloop hfresh => exact inv_forked h hrunning hloop hfresh htracked
  | notLocked hloop =>
    refine h.of_server htracked ?_ (fun h => ⟨h, rfl⟩) fun _ hno => LoopPc.noConfusion hno
    exact fun p hp => List.mem_append_right _ hp
  | locked hloop hfree =>
    refine h.of_server htracked ?_ (fun h => ⟨h, rfl⟩) fun _ hno => LoopPc.noConfusion hno
    intro p hp
    rw [Server.entries, hloop]
    exact hp
  | tracked hloop =>
    refine h.of_server htracked ?_ (fun h => ⟨h, rfl⟩) fun _ hno => LoopPc.noConfusion hno
    intro p hp
    rw [Server.entries, hloop]
    exact hp
  | crashed hloop =>
    refine h.of_server htracked ?_ (fun hno => Process.noConfusion hno) fun _ hno =>
      LoopPc.noConfusion hno
    exact fun p hp => List.mem_append_right _ hp
  | unlocked hloop =>
    refine h.of_server htracked ?_ (fun h => ⟨h, rfl⟩) fun _ hno => LoopPc.noConfusion hno
    exact fun p hp => List.mem_append_right _ hp

theorem inv_tracker (h : s.Inv memory raises clients) {a : Server.TrackerAct} {server : Server}
    (hstep : s.server.step (.tracker a) = some server) :
    Inv memory raises clients { s with server, session := s.trackerLinks a } := by
  have htracked := Server.tracked_step h.tracked hstep
  have hrunning : s.server.process = .running := by
    by_contra hno
    rw [Server.step_of_not_running hno] at hstep
    cases hstep
  rw [Server.step_of_running hrunning] at hstep
  cases Server.checkClientTrack_cases hstep with
  | tested _ => exact h.of_server htracked (fun _ hp => hp) (fun h => ⟨h, rfl⟩) fun _ => id
  | notLocked _ => exact h.of_server htracked (fun _ hp => hp) (fun h => ⟨h, rfl⟩) fun _ => id
  | locked _ _ => exact h.of_server htracked (fun _ hp => hp) (fun h => ⟨h, rfl⟩) fun _ => id
  | swept htracker hp hanswers hswept =>
    simp only [trackerLinks, htracker, hp, hswept]
    exact inv_swept h hrunning hp hanswers hswept htracked
  | @crashed _ _ res granted r _ htracker hp hanswers herror =>
    have hlinks : s.trackerLinks (.wait res granted r) = s.session := by
      simp only [trackerLinks, htracker, hp, herror]
    rw [hlinks]
    refine h.of_server htracked ?_ (fun hno => Process.noConfusion hno) fun _ => id
    exact ((List.Sublist.refl _).append (List.eraseIdx_sublist _ _)).subset
  | unlocked _ _ => exact h.of_server htracked (fun _ hp => hp) (fun h => ⟨h, rfl⟩) fun _ => id

/-- **Each step is one of the server and of at most one connection.** -/
theorem inv_step (h : s.Inv memory raises clients) {a : Act}
    (hstep : s.step memory raises clients a = some t) : t.Inv memory raises clients := by
  cases a with
  | loop a =>
    obtain ⟨server, hserver, rfl⟩ := Option.map_eq_some_iff.mp hstep
    exact inv_loop h hserver
  | tracker a =>
    obtain ⟨server, hserver, rfl⟩ := Option.map_eq_some_iff.mp hstep
    exact inv_tracker h hserver
  | child i a =>
    simp only [step] at hstep
    split at hstep
    · cases hstep
    · next son hson =>
      split_ifs at hstep with ha
      obtain ⟨session, hsession, rfl⟩ := Option.map_eq_some_iff.mp hstep
      exact inv_child h hson (Bool.eq_false_iff.mpr ha) hsession
  | signal =>
    simp only [step] at hstep
    split_ifs at hstep with hsignalled
    obtain ⟨server, hserver, rfl⟩ := Option.map_eq_some_iff.mp hstep
    have htracked := Server.tracked_step h.tracked hserver
    by_cases hrunning : s.server.process = .running
    · rw [Server.step_of_running hrunning] at hserver
      cases hserver
      exact h.of_server htracked (fun _ hp => hp) (fun hno => Process.noConfusion hno) fun _ => id
    · rw [Server.step_of_not_running hrunning] at hserver
      cases hserver

theorem inv_of_run {acts : List Act}
    (h : runFrom (step memory raises clients) init acts = some t) :
    t.Inv memory raises clients :=
  invariant_of_run (Inv memory raises clients) (fun _ _ _ hs hstep => inv_step hs hstep) inv_init h

end System

end RemoteProcedure
