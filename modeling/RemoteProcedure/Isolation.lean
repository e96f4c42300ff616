import RemoteProcedure.System

/-!
# What holds of the whole service

Many clients at a time share one server process, its descriptors and the numbers of its
children.  Neither the answers nor the calls of one are mixed up with those of another.

## Main results

* `atMostOnce_of_run` — **a client gets the value of its one call, or an error**, whatever
  the others do.
* `swept_of_run` — **the tracker answers the right client.**
-/

namespace RemoteProcedure

open Machine

namespace System

variable {memory : Memory FunPtr} {raises : Call → Bool} {clients : ℕ → Socket Byte} {s t : System}

/-- A client that connects, and is served by a child of its own. -/
def servedClient : List Act :=
  [.loop (.accept (some 4)), .loop (.fork (some 100)), .loop (.lock true), .loop (.track true),
    .loop (.unlock true), .child 0 (.setTimeout true), .child 0 (.read .granted ⟨[], []⟩),
    .child 0 .search, .child 0 .verify, .child 0 (.execute .granted),
    .child 0 (.send true .accepted)]

/-- A client whose child is killed before it reads, up to the sweep. -/
def killedClient : List Act :=
  [.loop (.accept (some 4)), .loop (.fork (some 100)), .loop (.lock true), .loop (.track true),
    .loop (.unlock true), .child 0 (.kill 11), .tracker .top, .tracker (.lock true)]

/-! ### What the clients can rely on -/

/-- **At most once.**  Whatever the other clients send, and in whatever order the steps
come, a client gets the value of the one call that its request led to, or an error and
nothing in its cell. -/
theorem atMostOnce_of_run {acts : List Act}
    (h : runFrom (step memory raises clients) init acts = some t) {i : ℕ} {m : Message}
    (hclient : clients i = m.client) (hm : Servable memory m) {frame : List Byte}
    {rest : List (List Byte)} (hframes : (t.session i).conn.frames = frame :: rest)
    (cell : Option Data) :
    getAnswer true true (charToInt m.returnType) cell
        ⟨(t.session i).conn.frames.flatten, []⟩ = .ok (-1, cell) ∨
    ∃ f a, memory.callee m = some f ∧ f.value m = some a ∧
      (t.session i).calls = [f.call m] ∧
      getAnswer true true (charToInt m.returnType) cell
        ⟨(t.session i).conn.frames.flatten, []⟩ = .ok (0, a.assign cell) := by
  obtain ⟨own, hreads, hown⟩ := (inv_of_run h).reached i
  rw [hclient] at hreads
  have hreply := (Session.inv_of_run hm hreads hown).frames frame
    (by rw [hframes]; exact List.mem_cons_self)
  rw [hframes, List.flatten_cons]
  exact Session.getAnswer_of_reply hm hreply rest.flatten cell

theorem atMostOnce_of_run_servedClient :
    ∃ t frame rest, runFrom (step (registry [mapperF]) (fun _ => false) fun _ => callF.client) init
        servedClient = some t ∧ (t.session 0).conn.frames = frame :: rest ∧
      (getAnswer true true (charToInt callF.returnType) (some .null)
          ⟨(t.session 0).conn.frames.flatten, []⟩ = .ok (-1, some .null) ∨
        ∃ f a, (registry [mapperF]).callee callF = some f ∧ f.value callF = some a ∧
          (t.session 0).calls = [f.call callF] ∧
          getAnswer true true (charToInt callF.returnType) (some .null)
            ⟨(t.session 0).conn.frames.flatten, []⟩ = .ok (0, a.assign (some .null))) := by
  have hrun : runFrom (step (registry [mapperF]) (fun _ => false) fun _ => callF.client) init
      servedClient = some _ := rfl
  exact ⟨_, _, _, hrun, rfl,
    atMostOnce_of_run hrun (i := 0) rfl Session.servable_callF rfl (some .null)⟩

/-- The last connection with a descriptor. -/
theorem eq_of_behind {fd : ℕ → ℕ} {clientFd j : ℕ} : ∀ {n : ℕ}, behind fd clientFd n = some j →
    j < n ∧ fd j = clientFd ∧ ∀ k, j < k → k < n → fd k ≠ clientFd
  | 0, h => nomatch h
  | n + 1, h => by
    rw [behind] at h
    split_ifs at h with hn
    · cases h
      exact ⟨Nat.lt_succ_self _, hn, fun k hjk hk => by omega⟩
    · obtain ⟨hj, hfd, hlast⟩ := eq_of_behind h
      refine ⟨Nat.lt_succ_of_lt hj, hfd, ?_⟩
      intro k hjk hk
      by_cases hkn : k = n
      · rw [hkn]
        exact hn
      · exact hlast k hjk (by omega)

/-- **The tracker answers the right client**: the entry it sweeps is that of a connection
which is the last with its descriptor, whose child `waitpid` tells the truth about, and
nothing is sent on any other. -/
theorem swept_of_run {acts : List Act}
    (h : runFrom (step memory raises clients) init acts = some s) {res : WaitResult}
    {granted : Bool} {r : SendResult}
    (hstep : s.step memory raises clients (.tracker (.wait res granted r)) = some t) :
    ∃ i p j, s.server.tracker = .sweep i ∧ s.server.alive[i]? = some p ∧
      s.son j = some p.son ∧ s.fd j = p.clientFd ∧
      (∀ k, j < k → k < s.count → s.fd k ≠ p.clientFd) ∧
      (∀ e, res = .ended e → (s.session j).conn.pc = .ended e) ∧
      ∀ k, k ≠ j → t.session k = s.session k := by
  have hinv := inv_of_run h
  obtain ⟨server, hserver, rfl⟩ := Option.map_eq_some_iff.mp hstep
  have hrunning : s.server.process = .running := by
    by_contra hno
    rw [Server.step_of_not_running hno] at hserver
    cases hserver
  rw [Server.step_of_running hrunning] at hserver
  obtain ⟨i, p, htracker, hp, hanswers, hend⟩ := Server.wait_cases hserver
  obtain ⟨hi, rfl⟩ := List.getElem?_eq_some_iff.mp hp
  obtain ⟨j, hj⟩ := hinv.entry _ (List.mem_append_right _ (List.getElem_mem hi))
  obtain ⟨-, hfd, hlast⟩ := eq_of_behind hj.behind
  refine ⟨i, _, j, htracker, hp, hj.son, hfd, hlast, ?_, ?_⟩
  · rintro e rfl
    exact asChild_eq_zombie (Option.some.inj ((hj.child hrunning).symm.trans hanswers))
  · intro k hk
    rcases hend with ⟨swept, hswept, -⟩ | ⟨e, herror, -⟩
    · simp only [trackerLinks, htracker, hp, hswept, sweepLink, hj.behind]
      exact Function.update_of_ne hk _ _
    · simp only [trackerLinks, htracker, hp, herror]

theorem swept_of_run_killedClient :
    ∃ s t, runFrom (step (registry [mapperF]) (fun _ => false) fun _ => callF.client) init
        killedClient = some s ∧
      s.step (registry [mapperF]) (fun _ => false) (fun _ => callF.client)
        (.tracker (.wait (.ended (.signaled 11)) true .accepted)) = some t ∧
      ∃ i p j, s.server.tracker = .sweep i ∧ s.server.alive[i]? = some p ∧
        s.son j = some p.son ∧ s.fd j = p.clientFd ∧
        (∀ k, j < k → k < s.count → s.fd k ≠ p.clientFd) ∧
        (∀ e, .ended (.signaled 11) = WaitResult.ended e → (s.session j).conn.pc = .ended e) ∧
        ∀ k, k ≠ j → t.session k = s.session k := by
  have hrun : runFrom (step (registry [mapperF]) (fun _ => false) fun _ => callF.client) init
      killedClient = some _ := rfl
  exact ⟨_, _, hrun, rfl, swept_of_run hrun rfl⟩

end System

end RemoteProcedure
