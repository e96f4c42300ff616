import Mathlib.Data.List.Perm.Basic
import RemoteProcedure.Server

/-!
# The children that are tracked

An entry of `processus_alive` names a child and a descriptor.  The system gives a number
that is free to the next child or connection, so an entry that outlived what it names
would come to name something else.

## Main definitions

* `Server.entries` — the entries, with the one that is about to be made.
* `Server.Tracked` — the entries name different children, none of which has been waited
  for, and different descriptors, which are open.

## Main results

* `tracked_of_run` — **the entries name what they were made for**, in every run.
-/

namespace RemoteProcedure

open Machine

/-- The entry `loop_server` is about to make. -/
def LoopPc.pending : LoopPc → List Alive
  | .lock client son => [⟨son, client⟩]
  | .track client son => [⟨son, client⟩]
  | _ => []

namespace Server

/-- The entries of the list, behind the one that is about to be made. -/
def entries (s : Server) : List Alive := s.loop.pending ++ s.alive

/-- The entries name children that have not been waited for, and open descriptors, each
one once. -/
structure Tracked (s : Server) : Prop where
  sons : (s.entries.map Alive.son).Nodup
  children : ∀ p ∈ s.entries, s.children p.son ≠ none
  clientFds : (s.entries.map Alive.clientFd).Nodup
  isOpen : ∀ p ∈ s.entries, p.clientFd ∈ s.fds
  held : ∀ client, s.loop = .fork client → client ∈ s.fds ∧ ∀ p ∈ s.alive, p.clientFd ≠ client
  fds : s.fds.Nodup

variable {s t : Server}

theorem tracked_init : init.Tracked where
  sons := List.nodup_nil
  children _ hp := absurd hp List.not_mem_nil
  clientFds := List.nodup_nil
  isOpen _ hp := absurd hp List.not_mem_nil
  held _ hloop := nomatch hloop
  fds := List.nodup_nil

/-- Fewer entries are tracked as well, if what they name is still there. -/
theorem Tracked.of_sublist (h : s.Tracked) (hentries : t.entries.Sublist s.entries)
    (hchildren : ∀ p ∈ t.entries, t.children p.son ≠ none)
    (hopen : ∀ p ∈ t.entries, p.clientFd ∈ t.fds)
    (hheld : ∀ client, t.loop = .fork client →
      client ∈ t.fds ∧ ∀ p ∈ t.alive, p.clientFd ≠ client)
    (hfds : t.fds.Nodup) : t.Tracked where
  sons := h.sons.sublist (hentries.map Alive.son)
  children := hchildren
  clientFds := h.clientFds.sublist (hentries.map Alive.clientFd)
  isOpen := hopen
  held := hheld
  fds := hfds

/-- A step that leaves the entries, the children and the descriptors alone. -/
theorem Tracked.frame (h : s.Tracked) (hentries : t.entries.Sublist s.entries)
    (hchildren : t.children = s.children) (hfds : t.fds = s.fds)
    (hheld : ∀ client, t.loop = .fork client → s.loop = .fork client ∧ t.alive = s.alive) :
    t.Tracked := by
  refine h.of_sublist hentries ?_ ?_ ?_ (hfds ▸ h.fds)
  · intro p hp
    rw [hchildren]
    exact h.children p (hentries.subset hp)
  · intro p hp
    rw [hfds]
    exact h.isOpen p (hentries.subset hp)
  · intro client hloop
    obtain ⟨hold, halive⟩ := hheld client hloop
    rw [hfds, halive]
    exact h.held client hold

theorem tracked_loopServer (h : s.Tracked) {a : LoopAct} (hstep : s.loopServer a = some t) :
    t.Tracked := by
  cases loopServer_cases hstep with
  | notAccepted hloop => exact h
  | @accepted client hloop hfresh =>
    have hentries : s.entries = s.alive := by rw [entries, hloop]; rfl
    have hold := h.isOpen
    have hchildren := h.children
    rw [hentries] at hold hchildren
    refine h.of_sublist ?_ hchildren ?_ ?_ (List.nodup_cons.mpr ⟨hfresh, h.fds⟩)
    · rw [hentries]
      exact List.Sublist.refl _
    · exact fun p hp => List.mem_cons_of_mem client (hold p hp)
    · rintro client' ⟨⟩
      refine ⟨List.mem_cons_self, ?_⟩
      rintro p hp rfl
      exact hfresh (hold p hp)
  | notForked hloop =>
    refine h.frame ?_ rfl rfl fun _ hno => (nomatch hno)
    rw [entries, entries, hloop]
    exact List.Sublist.refl _
  | @forked client son hloop hfresh =>
    obtain ⟨hclient, hothers⟩ := h.held client hloop
    have hentries : s.entries = s.alive := by rw [entries, hloop]; rfl
    have hsons := h.sons
    have hchildren := h.children
    have hfds := h.clientFds
    have hopen := h.isOpen
    rw [hentries] at hsons hchildren hfds hopen
    -- a number that is free is that of no entry
    have hnew : ∀ p ∈ s.alive, p.son ≠ son := by
      rintro p hp rfl
      exact hchildren p hp hfresh
    refine ⟨?_, ?_, ?_, ?_, fun _ hno => (nomatch hno), h.fds⟩
    · refine List.nodup_cons.mpr ⟨?_, hsons⟩
      intro hmem
      obtain ⟨p, hp, heq⟩ := List.mem_map.mp hmem
      exact hnew p hp heq
    · intro p hp
      rcases List.mem_cons.mp hp with rfl | hp
      · simp only [Function.update_self]
        exact Option.some_ne_none _
      · simp only [Function.update_of_ne (hnew p hp)]
        exact hchildren p hp
    · refine List.nodup_cons.mpr ⟨?_, hfds⟩
      intro hmem
      obtain ⟨p, hp, heq⟩ := List.mem_map.mp hmem
      exact hothers p hp heq
    · intro p hp
      rcases List.mem_cons.mp hp with rfl | hp
      · exact hclient
      · exact hopen p hp
  | notLocked hloop =>
    refine h.frame ?_ rfl rfl fun _ hno => (nomatch hno)
    exact List.sublist_append_right _ _
  | locked hloop hfree =>
    refine h.frame ?_ rfl rfl fun _ hno => (nomatch hno)
    rw [entries, entries, hloop]
    exact List.Sublist.refl _
  | tracked hloop =>
    refine h.frame ?_ rfl rfl fun _ hno => (nomatch hno)
    rw [entries, entries, hloop]
    exact List.Sublist.refl _
  | crashed hloop =>
    refine h.frame ?_ rfl rfl fun _ hno => (nomatch hno)
    exact List.sublist_append_right _ _
  | unlocked hloop =>
    refine h.frame ?_ rfl rfl fun _ hno => (nomatch hno)
    rw [entries, entries, hloop]
    exact List.Sublist.refl _

/-! ### The tracker -/

/-- The child that `waitpid` returns is taken off the list. -/
theorem removed_of_ended {e : Ended} {swept : Swept} (h : sweepEntry (.ended e) = .ok swept) :
    swept.removed = true := by
  cases e with
  | exited status => cases h; rfl
  | signaled sig => cases h; rfl

/-- An entry whose descriptor is closed is taken off too. -/
theorem removed_of_closed {res : WaitResult} {swept : Swept} (h : sweepEntry res = .ok swept)
    (hclosed : swept.closed = true) : swept.removed = true := by
  cases res with
  | running => cases h; cases hclosed
  | ended e => exact removed_of_ended h
  | echild info =>
    cases info with
    | none => cases h; rfl
    | some e => cases e <;> cases h
  | failed info =>
    cases info with
    | none => cases h; cases hclosed
    | some e => cases e <;> cases h <;> rfl

/-- What the sweep of an entry leaves of the lists. -/
theorem applySwept_lists (s : Server) (i : ℕ) (p : Alive) (res : WaitResult)
    (granted : Bool) (r : SendResult) (swept : Swept) :
    (s.applySwept i p res granted r swept).loop = s.loop ∧
    (s.applySwept i p res granted r swept).alive =
      (if swept.removed then s.alive.eraseIdx i else s.alive) ∧
    (s.applySwept i p res granted r swept).fds =
      (if swept.closed then s.fds.erase p.clientFd else s.fds) ∧
    (s.applySwept i p res granted r swept).children =
      (match res with
        | .ended _ => Function.update s.children p.son none
        | _ => s.children) := by
  rcases swept with ⟨removed, closed, answer⟩
  cases answer <;> cases res <;> cases removed <;> cases closed <;> exact ⟨rfl, rfl, rfl, rfl⟩

/-- An entry of the list, and the others. -/
theorem entries_perm {i : ℕ} (hi : i < s.alive.length) :
    s.entries.Perm (s.alive[i] :: (s.loop.pending ++ s.alive.eraseIdx i)) :=
  ((List.getElem_cons_eraseIdx_perm hi).symm.append_left _).trans List.perm_middle

/-- When an entry is taken off, those that are left name neither its child nor its
descriptor. -/
theorem Tracked.ne_of_mem_eraseIdx (h : s.Tracked) {i : ℕ} (hi : i < s.alive.length) {q : Alive}
    (hq : q ∈ s.loop.pending ++ s.alive.eraseIdx i) :
    q.son ≠ s.alive[i].son ∧ q.clientFd ≠ s.alive[i].clientFd := by
  have hsons := ((entries_perm hi).map Alive.son).nodup_iff.mp h.sons
  have hclients := ((entries_perm hi).map Alive.clientFd).nodup_iff.mp h.clientFds
  rw [List.map_cons, List.nodup_cons] at hsons hclients
  constructor
  · intro heq
    exact hsons.1 (List.mem_map.mpr ⟨q, hq, heq⟩)
  · intro heq
    exact hclients.1 (List.mem_map.mpr ⟨q, hq, heq⟩)

/-- An entry that was taken off leaves the others with what they name. -/
theorem Tracked.removedTwice (h : s.Tracked) {i : ℕ} (hi : i < s.alive.length) :
    (s.removedTwice i s.alive[i]).Tracked := by
  have halive : (s.alive.eraseIdx i).Sublist s.alive := List.eraseIdx_sublist _ _
  have hentries : (s.removedTwice i s.alive[i]).entries.Sublist s.entries :=
    (List.Sublist.refl _).append halive
  refine h.of_sublist hentries (fun q hq => h.children q (hentries.subset hq)) ?_ ?_ (h.fds.erase _)
  · intro q hq
    exact (List.mem_erase_of_ne (h.ne_of_mem_eraseIdx hi hq).2).mpr
      (h.isOpen q (hentries.subset hq))
  · intro client hfork
    obtain ⟨hclient, hne⟩ := h.held client hfork
    refine ⟨?_, fun q hq => hne q (halive.subset hq)⟩
    exact (List.mem_erase_of_ne (hne s.alive[i] (List.getElem_mem hi)).symm).mpr hclient

/-- The entries behind a sweep: the others are kept, and what they name. -/
theorem tracked_wait (h : s.Tracked) {res : WaitResult} {granted : Bool} {r : SendResult}
    (hstep : s.checkClientTrack (.wait res granted r) = some t) : t.Tracked := by
  obtain ⟨i, p, -, hp, -, ⟨swept, hswept, rfl⟩ | ⟨e, -, rfl⟩⟩ := wait_cases hstep
  · obtain ⟨hloop, halive, hfds, hchildren⟩ := applySwept_lists s i p res granted r swept
    obtain ⟨hi, rfl⟩ := List.getElem?_eq_some_iff.mp hp
    have hsub : (s.applySwept i s.alive[i] res granted r swept).alive.Sublist s.alive := by
      rw [halive]
      split_ifs
      · exact List.eraseIdx_sublist _ _
      · exact List.Sublist.refl _
    have hentries : (s.applySwept i s.alive[i] res granted r swept).entries.Sublist
        s.entries := by
      rw [entries, entries, hloop]
      exact (List.Sublist.refl _).append hsub
    have hother : swept.removed = true →
        ∀ q ∈ (s.applySwept i s.alive[i] res granted r swept).entries,
          q.son ≠ s.alive[i].son ∧ q.clientFd ≠ s.alive[i].clientFd := by
      intro hremoved q hq
      rw [entries, hloop, halive, if_pos hremoved] at hq
      exact h.ne_of_mem_eraseIdx hi hq
    refine h.of_sublist hentries ?_ ?_ ?_ ?_
    · intro q hq
      have hold := h.children q (hentries.subset hq)
      rw [hchildren]
      split
      · rw [Function.update_of_ne (hother (removed_of_ended hswept) q hq).1]
        exact hold
      · exact hold
    · intro q hq
      have hold := h.isOpen q (hentries.subset hq)
      rw [hfds]
      split_ifs with hclosed
      · exact (List.mem_erase_of_ne (hother (removed_of_closed hswept hclosed) q hq).2).mpr hold
      · exact hold
    · intro client hfork
      rw [hloop] at hfork
      obtain ⟨hclient, hne⟩ := h.held client hfork
      refine ⟨?_, fun q hq => hne q (hsub.subset hq)⟩
      rw [hfds]
      split_ifs
      · exact (List.mem_erase_of_ne (hne s.alive[i] (List.getElem_mem hi)).symm).mpr hclient
      · exact hclient
    · rw [hfds]
      split_ifs
      · exact h.fds.erase _
      · exact h.fds
  · obtain ⟨hi, rfl⟩ := List.getElem?_eq_some_iff.mp hp
    exact h.removedTwice hi

theorem tracked_checkClientTrack (h : s.Tracked) {a : TrackerAct}
    (hstep : s.checkClientTrack a = some t) : t.Tracked := by
  cases checkClientTrack_cases hstep with
  | tested _ => exact h.frame (List.Sublist.refl _) rfl rfl fun client hloop => ⟨hloop, rfl⟩
  | notLocked _ => exact h.frame (List.Sublist.refl _) rfl rfl fun client hloop => ⟨hloop, rfl⟩
  | locked _ _ => exact h.frame (List.Sublist.refl _) rfl rfl fun client hloop => ⟨hloop, rfl⟩
  | swept _ _ _ _ => exact tracked_wait h hstep
  | crashed _ _ _ _ => exact tracked_wait h hstep
  | unlocked _ _ => exact h.frame (List.Sublist.refl _) rfl rfl fun client hloop => ⟨hloop, rfl⟩

/-- **One step keeps it**, whatever the step and whatever the system answers. -/
theorem tracked_step (h : s.Tracked) {a : Act} (hstep : s.step a = some t) : t.Tracked := by
  by_cases hrunning : s.process = .running
  · rw [step_of_running hrunning] at hstep
    cases a with
    | loop a => exact tracked_loopServer h hstep
    | tracker a => exact tracked_checkClientTrack h hstep
    | child son e =>
      simp only at hstep
      split_ifs at hstep with hson
      cases hstep
      refine h.of_sublist (List.Sublist.refl _) ?_ h.isOpen h.held h.fds
      intro p hp
      simp only [Function.update_apply]
      split_ifs
      · exact Option.some_ne_none _
      · exact h.children p hp
    | signal sig =>
      cases hstep
      exact h.frame (List.Sublist.refl _) rfl rfl fun client hloop => ⟨hloop, rfl⟩
  · rw [step_of_not_running hrunning] at hstep
    cases hstep

/-- **The entries name what they were made for**, in every run. -/
theorem tracked_of_run {acts : List Act} (h : runFrom step init acts = some t) : t.Tracked :=
  invariant_of_run Tracked (fun _ _ _ hs hstep => tracked_step hs hstep) tracked_init h

theorem tracked_of_run_servedRun : ∃ t, runFrom step init servedRun = some t ∧ t.Tracked :=
  ⟨_, rfl, tracked_of_run (show runFrom step init servedRun = some _ from rfl)⟩

end Server

end RemoteProcedure
