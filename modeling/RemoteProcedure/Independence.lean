import RemoteProcedure.Isolation
import RemoteProcedure.Outcome

/-!
# A client as if it were alone

A call goes through the server, where other clients connect, call, are killed, and have
their entries swept at any time.  If nothing disturbs the child of one call, none of it
matters: the client reads what it would read if there were no other, and the same is
called for it.

## Main definitions

* `System.Spares` — the steps that do not disturb the child of a connection.

## Main results

* `System.comesTo_step` — no step of another changes what is left of a call.
* `System.alone_of_run` — **a call among others is the call alone.**
-/

namespace RemoteProcedure

open Machine

namespace System

variable {memory : Memory FunPtr} {raises : Call → Bool} {clients : ℕ → Socket Byte} {s t : System}
  {i : ℕ}

/-- The connection whose entry the tracker has come to. -/
def visited (s : System) : Option ℕ :=
  match s.server.tracker with
  | .sweep k => s.server.alive[k]?.bind fun p => behind s.fd p.clientFd s.count
  | _ => none

/-- The child of this connection is not disturbed, and `waitpid` does not fail for its
entry.  Whatever becomes of the other clients, and of the server, is allowed. -/
def Spares (i : ℕ) (s : System) : Act → Prop
  | .child j a => j = i → a.Undisturbed
  | .tracker (.wait res _ _) =>
    s.visited = some i → ∀ info, res ≠ .echild info ∧ res ≠ .failed info
  | _ => True

theorem undisturbed_reading {a : Connection.Act} (client : Socket Byte) (h : a.Undisturbed) :
    (a.reading client).Undisturbed := by
  cases a <;> exact h

theorem session_loopLinks (s : System) (a : Server.LoopAct) :
    (s.loopLinks a).session = s.session := by
  unfold loopLinks
  split <;> rfl

/-- The sweep of an entry is nothing to the other connections, and a step of its own. -/
theorem comesTo_tracker (hinv : s.Inv memory raises clients) {o : Outcome}
    (h : (s.session i).ComesTo memory (clients i) o) {a : Server.TrackerAct} {server : Server}
    (ha : s.Spares i (.tracker a)) (hserver : s.server.step (.tracker a) = some server) :
    (s.trackerLinks a i).ComesTo memory (clients i) o := by
  have hrunning : s.server.process = .running := by
    by_contra hno
    rw [Server.step_of_not_running hno] at hserver
    cases hserver
  rw [Server.step_of_running hrunning] at hserver
  cases a with
  | wait res granted r =>
    obtain ⟨k, p, htracker, hp, hanswers, -⟩ := Server.wait_cases hserver
    obtain ⟨hk, rfl⟩ := List.getElem?_eq_some_iff.mp hp
    obtain ⟨j, hj⟩ := hinv.entry _ (List.mem_append_right _ (List.getElem_mem hk))
    simp only [trackerLinks, htracker, hp]
    cases hswept : sweepEntry res with
    | error e => exact h
    | ok swept =>
      simp only [sweepLink, hj.behind]
      by_cases hij : i = j
      · subst hij
        rw [Function.update_self]
        rcases hj.sweep memory hrunning (hinv.running hrunning i) hanswers hswept granted r
          with hsame | hstep
        · rw [hsame]
          exact h
        · have hsession : (s.session i).step memory (.sweep res granted r) =
              some ⟨(s.session i).conn.sweepStep granted r swept,
                (s.session i).calls ++ []⟩ := by
            rw [Session.step, hstep]
            rfl
          rw [List.append_nil] at hsession
          have hvisited : s.visited = some i := by
            simp only [visited, htracker, hp, Option.bind_some, hj.behind]
          exact Session.comesTo_step (a := .sweep res granted r) h trivial (ha hvisited) hsession
      · rw [Function.update_of_ne hij]
        exact h
  | _ => exact h

/-- **No step of another changes what is left of a call.** -/
theorem comesTo_step (hinv : s.Inv memory raises clients) {o : Outcome}
    (h : (s.session i).ComesTo memory (clients i) o) {a : Act} (ha : s.Spares i a)
    (hstep : s.step memory raises clients a = some t) :
    (t.session i).ComesTo memory (clients i) o := by
  cases a with
  | loop a =>
    obtain ⟨server, -, rfl⟩ := Option.map_eq_some_iff.mp hstep
    simp only [session_loopLinks]
    exact h
  | tracker a =>
    obtain ⟨server, hserver, rfl⟩ := Option.map_eq_some_iff.mp hstep
    exact comesTo_tracker hinv h ha hserver
  | child j a =>
    simp only [step] at hstep
    split at hstep
    · cases hstep
    · split_ifs at hstep
      obtain ⟨session, hsession, rfl⟩ := Option.map_eq_some_iff.mp hstep
      by_cases hij : i = j
      · subst hij
        simp only [Function.update_self]
        exact Session.comesTo_step h (Connection.Act.reads_reading _ a)
          (undisturbed_reading _ (ha rfl)) hsession
      · simp only [Function.update_of_ne hij]
        exact h
  | signal =>
    simp only [step] at hstep
    split_ifs at hstep
    obtain ⟨server, -, rfl⟩ := Option.map_eq_some_iff.mp hstep
    exact h

/-- What the child of a connection comes to in a run that spares it. -/
theorem comesTo_of_run {served : Served}
    (hserved : executeClient .granted true (some memory) (clients i) = .ok served)
    {acts : List Act} (hacts : Along (step memory raises clients) (Spares i) init acts)
    (h : runFrom (step memory raises clients) init acts = some t) :
    (t.session i).ComesTo memory (clients i)
      ⟨served.status, served.sent.toList, served.calls⟩ := by
  have hstep : ∀ (s : System) a t,
      (s.Inv memory raises clients ∧ (s.session i).ComesTo memory (clients i)
        ⟨served.status, served.sent.toList, served.calls⟩) → s.Spares i a →
      s.step memory raises clients a = some t →
      t.Inv memory raises clients ∧ (t.session i).ComesTo memory (clients i)
        ⟨served.status, served.sent.toList, served.calls⟩ :=
    fun s a t hs ha hstep => ⟨inv_step hs.1 hstep, comesTo_step hs.1 hs.2 ha hstep⟩
  exact (invariant_of_along _ hstep ⟨inv_init, Session.comesTo_init hserved⟩ hacts h).2

/-- A connection as the peer of its client: what was sent on it is to be received. -/
def answering (t : System) (i : ℕ) (_request : List Byte) : Checked (Socket Byte × List Call) :=
  .ok (⟨(t.session i).conn.frames.flatten, []⟩, (t.session i).calls)

/-- **A call among others is the call alone**: in every run that does not disturb its child,
once that has ended, what the client reads on its connection is what `external_call`
returns and stores on a server that has no other client, and the same was called. -/
theorem alone_of_run {command : CString} {returnType : Byte} {argc : CInt} {args : ArgArray argc}
    {cell : Option Data} {r : Returned Call} {m : Message}
    (hcreate : createMessage allGranted (some .unset) (some command) returnType argc (some args) =
      .ok (.created m))
    (hclient : clients i = m.client) (hm : m.Sent)
    (halone : remoteCall true memory command returnType args cell = .ok r)
    {acts : List Act} (hacts : Along (step memory raises clients) (Spares i) init acts)
    (h : runFrom (step memory raises clients) init acts = some t) {e : Ended}
    (hended : (t.session i).conn.pc = .ended e) :
    transmition (fun _ => true) true true (t.answering i) cell (.filled m) = .ok r := by
  obtain ⟨-, hcommand, rfl⟩ := eq_newMessage_of_created hcreate
  rw [remoteCall_of_sendable (sendable_of_externalCall halone) hcommand, transmition_eq hm.1 hm.2,
    Checked.bind_eq_ok] at halone
  obtain ⟨served, hserved, hread⟩ := halone
  have hexecuted : executeClient .granted true (some memory) (clients i) = .ok served := by
    rw [hclient, executeClient, readMsg_client hm]
    exact hserved
  obtain ⟨-, hframes, hcalls⟩ := (comesTo_of_run hexecuted hacts h).of_ended hended
  have hflat : (t.session i).conn.frames.flatten = served.sent.getD [] := by
    rw [hframes]
    cases served.sent with
    | none => rfl
    | some frame => exact List.append_nil frame
  rw [transmition, sendCmd_of_fits (fun a ha => (hm.1 a ha).storable) hm.2]
  simp only [Bool.and_self, if_true, Checked.ok_bind, answering, StackMessage.returnType,
    hflat, hcalls]
  exact hread

/-- A client whose child ends, after another was killed and swept. -/
def servedBehindKilled : List Act :=
  [.loop (.accept (some 4)), .loop (.fork (some 100)), .loop (.lock true), .loop (.track true),
    .loop (.unlock true), .child 0 (.kill 11), .loop (.accept (some 5)), .loop (.fork (some 101)),
    .child 1 (.setTimeout true), .child 1 (.read .granted ⟨[], []⟩), .child 1 .search,
    .child 1 .verify, .child 1 (.execute .granted), .tracker .top, .tracker (.lock true),
    .tracker (.wait (.ended (.signaled 11)) true .accepted), .child 1 (.send true .accepted),
    .child 1 .exit]

theorem spares_servedBehindKilled : ∀ a ∈ servedBehindKilled, ∀ s : System, s.Spares 1 a := by
  intro a ha s
  simp only [servedBehindKilled, List.mem_cons, List.not_mem_nil, or_false] at ha
  rcases ha with rfl | rfl | rfl | rfl | rfl | rfl | rfl | rfl | rfl | rfl | rfl | rfl | rfl | rfl |
      rfl | rfl | rfl | rfl <;>
    simp [Spares, Connection.Act.Undisturbed]

/-- The second child exits. -/
theorem child_servedBehindKilled :
    ((runFrom (step (registry [mapperF]) (fun _ => false) fun _ => callF.client) init
      servedBehindKilled).map fun t => (t.session 1).conn.pc.asChild) =
        some (.zombie (.exited exitSuccess)) := by
  decide +kernel

theorem alone_of_run_servedBehindKilled :
    ∃ t r, remoteCall true (registry [mapperF]) mapperF.name rpcTyStr (⟨[], rfl⟩ : ArgArray 0)
        (some .null) = .ok r ∧
      runFrom (step (registry [mapperF]) (fun _ => false) fun _ => callF.client) init
        servedBehindKilled = some t ∧
      transmition (fun _ => true) true true (t.answering 1) (some .null) (.filled callF) =
        .ok r := by
  obtain ⟨t, hrun, hchild⟩ := Option.map_eq_some_iff.mp child_servedBehindKilled
  obtain ⟨r, halone⟩ : ∃ r, remoteCall true (registry [mapperF]) mapperF.name rpcTyStr
      (⟨[], rfl⟩ : ArgArray 0) (some .null) = .ok r := ⟨_, rfl⟩
  have hcreate : createMessage allGranted (some .unset) (some mapperF.name) rpcTyStr 0
      (some (⟨[], rfl⟩ : ArgArray 0)) = .ok (.created callF) := rfl
  have hsent : callF.Sent := ⟨fun a ha => absurd ha List.not_mem_nil, by decide⟩
  exact ⟨t, r, halone, hrun,
    @alone_of_run (registry [mapperF]) (fun _ => false) (fun _ => callF.client) t 1 mapperF.name
      rpcTyStr 0 ⟨[], rfl⟩ (some .null) r callF hcreate rfl hsent halone servedBehindKilled
      (along_of_forall spares_servedBehindKilled) hrun _ (asChild_eq_zombie hchild)⟩

end System

end RemoteProcedure
