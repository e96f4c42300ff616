import Mathlib.Data.List.Perm.Basic
import RemoteProcedure.Server

/-!
# The descriptors of the server

The loop acquires a descriptor for each connection; the tracker is to give it up
when the child has ended.  It closes the descriptor of an entry only in the
`case` of `ECHILD`: not when the child exited, and neither does the loop when it
cannot fork, or cannot lock.

## Main definitions

* `Server.Kept` — the steps that lose no descriptor.
* `Server.Accounted` — every open socket belongs to an entry, or to the loop.

## Main results

* `fds_perm_of_along` — **between two rounds of both loops, the open sockets are
  those of the entries**, in every run of such steps.
-/

namespace RemoteProcedure

open Machine

/-- The descriptor that `loop_server` holds in `client`. -/
def LoopPc.held : LoopPc → List ℕ
  | .fork client => [client]
  | .lock client _ => [client]
  | .track client _ => [client]
  | _ => []

namespace Server

/-- Every open client socket is that of an entry, or of the loop. -/
def Accounted (s : Server) : Prop :=
  s.process = .running → s.fds.Perm (s.loop.held ++ s.alive.map Alive.clientFd)

/-- The steps that lose no descriptor: the loop forks and locks when it has a
connection; the child of an entry did not exit, nor does `info` say so when
`waitpid` fails, nor tell of any end after `ECHILD`. -/
def Kept : Act → Prop
  | .loop (.fork son) => son ≠ none
  | .loop (.lock ok) => ok = true
  | .tracker (.wait (.ended (.exited _)) _ _) => False
  | .tracker (.wait (.failed (some (.exited _))) _ _) => False
  | .tracker (.wait (.echild info) _ _) => info = none
  | _ => True

/-- Between two iterations of the loop, and two sweeps. -/
structure Between (s : Server) : Prop where
  process : s.process = .running
  loop : s.loop = .accept
  tracker : ∀ i, s.tracker ≠ .sweep i

variable {s t : Server}

theorem accounted_loopServer (hs : s.Accounted) (hrunning : s.process = .running) {a : LoopAct}
    (hkept : Kept (.loop a)) (h : s.loopServer a = some t) : t.Accounted := by
  have hfds := hs hrunning
  cases loopServer_cases h with
  | notAccepted hloop => exact hs
  | accepted hloop hfresh =>
    rw [hloop] at hfds
    exact fun _ => hfds.cons _
  | notForked hloop => exact absurd rfl hkept
  | forked hloop hfresh =>
    rw [hloop] at hfds
    exact fun _ => hfds
  | notLocked hloop => cases hkept
  | locked hloop hfree =>
    rw [hloop] at hfds
    exact fun _ => hfds
  | tracked hloop =>
    -- the descriptor passes from the loop to the entry
    rw [hloop] at hfds
    exact fun _ => hfds
  | crashed hloop => exact fun hcrashed => nomatch hcrashed
  | unlocked hloop =>
    rw [hloop] at hfds
    exact fun _ => hfds

/-- An entry is closed when it is removed. -/
theorem removed_eq_closed {res : WaitResult} {granted : Bool} {r : SendResult}
    (hkept : Kept (.tracker (.wait res granted r))) {swept : Swept}
    (h : sweepEntry res = .ok swept) (hanswer : swept.answer = none) :
    swept.removed = swept.closed := by
  cases res with
  | running => cases h; rfl
  | ended e =>
    cases e with
    | exited status => exact hkept.elim
    | signaled sig => cases h; cases hanswer
  | echild info =>
    obtain rfl : info = none := hkept
    cases h
    rfl
  | failed info =>
    cases info with
    | none => cases h; rfl
    | some e =>
      cases e with
      | exited status => exact hkept.elim
      | signaled sig => cases h; cases hanswer

/-- Closing the descriptor of an entry that is removed. -/
theorem perm_erase_eraseIdx {held fds : List ℕ} {alive : List Alive} {i : ℕ} {p : Alive}
    (hp : alive[i]? = some p) (h : fds.Perm (held ++ alive.map Alive.clientFd)) :
    (fds.erase p.clientFd).Perm (held ++ (alive.eraseIdx i).map Alive.clientFd) := by
  obtain ⟨hi, rfl⟩ := List.getElem?_eq_some_iff.mp hp
  have hentries : (alive.map Alive.clientFd).Perm
      (alive[i].clientFd :: (alive.eraseIdx i).map Alive.clientFd) :=
    (List.getElem_cons_eraseIdx_perm hi).symm.map Alive.clientFd
  have hfds := (h.trans (hentries.append_left held)).trans List.perm_middle
  have herase := hfds.erase alive[i].clientFd
  rw [List.erase_cons_head] at herase
  exact herase

theorem accounted_wait (hs : s.Accounted) (hrunning : s.process = .running) {res : WaitResult}
    {granted : Bool} {r : SendResult} (hkept : Kept (.tracker (.wait res granted r)))
    (h : s.checkClientTrack (.wait res granted r) = some t) : t.Accounted := by
  intro hafter
  obtain ⟨i, p, -, hp, -, ⟨swept, hswept, rfl⟩ | ⟨e, -, rfl⟩⟩ := wait_cases h
  · cases hanswer : swept.answer with
    | some c => exact absurd hafter (applySwept_of_some hanswer s i p res granted r)
    | none =>
      obtain ⟨-, hloop, halive, hfds⟩ := applySwept_of_none hanswer s i p res granted r
      have hclosed := removed_eq_closed hkept hswept hanswer
      rw [hloop, halive, hfds, hclosed]
      split_ifs
      · exact perm_erase_eraseIdx hp (hs hrunning)
      · exact hs hrunning
  · cases hafter

/-- **One such step loses no descriptor.** -/
theorem accounted_step {a : Act} (hs : s.Accounted) (hkept : Kept a) (h : s.step a = some t) :
    t.Accounted := by
  by_cases hrunning : s.process = .running
  · rw [step_of_running hrunning] at h
    cases a with
    | loop a => exact accounted_loopServer hs hrunning hkept h
    | tracker a =>
      cases a with
      | wait res granted r => exact accounted_wait hs hrunning hkept h
      | _ =>
        obtain ⟨hprocess, hloop, halive, hfds⟩ := checkClientTrack_frame h fun _ _ _ => by simp
        rw [Accounted, hprocess, hloop, halive, hfds]
        exact hs
    | child son e =>
      simp only at h
      split_ifs at h
      cases h
      exact hs
    | signal sig =>
      cases h
      exact fun hexited => nomatch hexited
  · rw [step_of_not_running hrunning] at h
    cases h

/-- **Between two rounds of both loops, the open sockets are those of the
entries**, in every run whose steps lose no descriptor. -/
theorem fds_perm_of_along {acts : List Act} (hkept : Along step (fun _ a => Kept a) init acts)
    (h : runFrom step init acts = some t) (hbetween : t.Between) :
    t.fds.Perm (t.alive.map Alive.clientFd) := by
  have hinit : init.Accounted := fun _ => List.Perm.refl _
  have hstep : ∀ (s : Server) a t, s.Accounted → Kept a → s.step a = some t → t.Accounted := by
    intro s a t hs hok hstep
    exact accounted_step hs hok hstep
  have haccounted := invariant_of_along Accounted hstep hinit hkept h hbetween.process
  rw [hbetween.loop] at haccounted
  exact haccounted

/-- When a client that is served has been swept, its entry is gone and its socket
is open. -/
theorem not_fds_perm_servedRun :
    ¬ ∀ (acts : List Act) (t : Server), runFrom step init acts = some t → t.Between →
      t.fds.Perm (t.alive.map Alive.clientFd) := by
  intro h
  have hperm := h servedRun _ rfl ⟨rfl, rfl, fun i hi => nomatch hi⟩
  exact absurd hperm.length_eq (by decide)

/-- A client whose child the system has forgotten. -/
def forgottenRun : List Act :=
  [.loop (.accept (some 4)), .loop (.fork (some 100)), .loop (.lock true), .loop (.track true),
    .loop (.unlock true), .loop (.accept none), .tracker .top, .tracker (.lock true),
    .tracker (.wait (.echild none) true .accepted), .tracker (.unlock true)]

theorem fds_perm_of_along_forgottenRun :
    ∃ t, runFrom step init forgottenRun = some t ∧ t.fds.Perm (t.alive.map Alive.clientFd) := by
  have hkept : Along step (fun _ a => Kept a) init forgottenRun := by
    apply along_of_forall
    intro a ha s
    simp only [forgottenRun, List.mem_cons, List.not_mem_nil, or_false] at ha
    rcases ha with rfl | rfl | rfl | rfl | rfl | rfl | rfl | rfl | rfl | rfl <;> simp [Kept]
  exact ⟨_, rfl, fds_perm_of_along hkept rfl ⟨rfl, rfl, fun i hi => nomatch hi⟩⟩

end Server

end RemoteProcedure
