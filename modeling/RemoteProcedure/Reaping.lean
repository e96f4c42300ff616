import RemoteProcedure.Tracking

/-!
# The children that can still be waited for

A child that has ended stays with the system until it is waited for, and only the sweep
waits, for the children of the entries.  A child without an entry is never waited for: its
number is lost for good.

## Main definitions

* `Server.Lost` — a child that was not waited for and has no entry.
* `Server.Reapable` — each child that was not waited for has an entry.
* `Server.KeepsEntry` — the actions that leave no child without one.

## Main results

* `Server.lost_step` — a child that is lost stays so.
* `Server.reapable_step` — what one step does to the others.
* `Server.reapable_iff_of_run` — **no child is lost exactly in the runs of such actions**,
  and none that is lost is ever found again.
-/

namespace RemoteProcedure

open Machine

namespace Server

/-- A child that was forked and not waited for, and has no entry. -/
def Lost (s : Server) (son : ℕ) : Prop := s.children son ≠ none ∧ ∀ p ∈ s.entries, p.son ≠ son

/-- Each child that was not waited for has an entry. -/
def Reapable (s : Server) : Prop := ∀ son, s.children son ≠ none → ∃ p ∈ s.entries, p.son = son

/-- The loop gets its lock and the block for the entry, and when `waitpid` fails the entry
stays on the list. -/
def KeepsEntry : Act → Prop
  | .loop (.lock ok) => ok = true
  | .loop (.track granted) => granted = true
  | .tracker (.wait (.echild _) _ _) => False
  | .tracker (.wait (.failed info) _ _) => info = none
  | _ => True

variable {s t : Server}

/-! ### Nobody finds a lost child again -/

theorem reapable_iff_not_lost : s.Reapable ↔ ∀ son, ¬ s.Lost son := by
  constructor
  · rintro h son ⟨hson, hnone⟩
    obtain ⟨p, hp, heq⟩ := h son hson
    exact hnone p hp heq
  · intro h son hson
    by_contra hno
    exact h son ⟨hson, fun p hp heq => hno ⟨p, hp, heq⟩⟩

theorem Lost.of_subset {son : ℕ} (h : s.Lost son) (hentries : ∀ p ∈ t.entries, p ∈ s.entries)
    (hchildren : t.children son = s.children son) : t.Lost son := by
  refine ⟨?_, fun p hp => h.2 p (hentries p hp)⟩
  rw [hchildren]
  exact h.1

theorem lost_loopServer {son : ℕ} (h : s.Lost son) {a : LoopAct}
    (hstep : s.loopServer a = some t) : t.Lost son := by
  cases loopServer_cases hstep with
  | notAccepted hloop => exact h
  | accepted hloop hfresh =>
    refine h.of_subset (fun p hp => ?_) rfl
    rw [entries, hloop]
    exact hp
  | notForked hloop =>
    refine h.of_subset (fun p hp => ?_) rfl
    rw [entries, hloop]
    exact hp
  | @forked client new hloop hfresh =>
    -- its number is in use, so that the new child has another
    have hne : new ≠ son := by
      rintro rfl
      exact h.1 hfresh
    refine ⟨?_, fun p hp => ?_⟩
    · simp only [Function.update_of_ne hne.symm]
      exact h.1
    · rcases List.mem_cons.mp hp with rfl | hp
      · exact hne
      · refine h.2 p ?_
        rw [entries, hloop]
        exact hp
  | notLocked hloop => exact h.of_subset (fun p hp => List.mem_append_right _ hp) rfl
  | locked hloop hfree =>
    refine h.of_subset (fun p hp => ?_) rfl
    rw [entries, hloop]
    exact hp
  | tracked hloop =>
    refine h.of_subset (fun p hp => ?_) rfl
    rw [entries, hloop]
    exact hp
  | crashed hloop => exact h.of_subset (fun p hp => List.mem_append_right _ hp) rfl
  | unlocked hloop => exact h.of_subset (fun p hp => List.mem_append_right _ hp) rfl

/-- The tracker waits for the children of the entries, and makes no entry. -/
theorem lost_checkClientTrack {son : ℕ} (h : s.Lost son) {a : TrackerAct}
    (hstep : s.checkClientTrack a = some t) : t.Lost son := by
  cases checkClientTrack_cases hstep with
  | @swept i p res granted r swept htracker hp hanswers hswept =>
    obtain ⟨hloop, halive, -, hchildren⟩ := applySwept_lists s i p res granted r swept
    have hother : p.son ≠ son := h.2 p (List.mem_append_right _ (List.mem_of_getElem? hp))
    refine h.of_subset (fun q hq => ?_) ?_
    · rw [entries, hloop, halive] at hq
      refine ((List.Sublist.refl _).append ?_).subset hq
      split_ifs
      · exact List.eraseIdx_sublist _ _
      · exact List.Sublist.refl _
    · rw [hchildren]
      cases res with
      | ended e => exact Function.update_of_ne hother.symm _ _
      | _ => rfl
  | crashed htracker hp hanswers herror =>
    refine h.of_subset ?_ rfl
    exact ((List.Sublist.refl _).append (List.eraseIdx_sublist _ _)).subset
  | _ => exact h.of_subset (fun _ hq => hq) rfl

/-- **A child that is lost stays so.** -/
theorem lost_step {son : ℕ} (h : s.Lost son) {a : Act} (hstep : s.step a = some t) :
    t.Lost son := by
  have hrunning : s.process = .running := by
    by_contra hno
    rw [step_of_not_running hno] at hstep
    cases hstep
  rw [step_of_running hrunning] at hstep
  cases a with
  | loop a => exact lost_loopServer h hstep
  | tracker a => exact lost_checkClientTrack h hstep
  | child other e =>
    simp only at hstep
    split_ifs at hstep
    cases hstep
    refine ⟨?_, h.2⟩
    simp only [Function.update_apply]
    split_ifs
    · exact Option.some_ne_none _
    · exact h.1
  | signal sig =>
    cases hstep
    exact h.of_subset (fun _ hq => hq) rfl

/-! ### Steps that leave the entries alone, and steps that lose a child -/

theorem reapable_congr (hentries : t.entries = s.entries)
    (hchildren : ∀ son, t.children son = none ↔ s.children son = none) :
    t.Reapable ↔ s.Reapable := by
  simp only [Reapable, hentries, ne_eq, hchildren]

/-- A step of which nothing is said but that it keeps the entries and the children. -/
theorem reapable_and_iff {ok : Prop} (hentries : t.entries = s.entries)
    (hchildren : t.children = s.children) (hok : ok) : t.Reapable ↔ s.Reapable ∧ ok := by
  rw [reapable_congr hentries fun son => by rw [hchildren]]
  exact (and_iff_left hok).symm

/-- A child whose entry is gone is lost. -/
theorem not_reapable (h : s.Tracked) {p : Alive} (hp : p ∈ s.entries)
    (hchildren : t.children = s.children) (hleft : ∀ q ∈ t.entries, q.son ≠ p.son) :
    ¬ t.Reapable := by
  intro hreapable
  have hknown : t.children p.son ≠ none := by
    rw [hchildren]
    exact h.children p hp
  obtain ⟨q, hq, hson⟩ := hreapable p.son hknown
  exact hleft q hq hson

/-- The child whose entry was about to be made is lost when it is not made: no other entry
is its own. -/
theorem not_reapable_of_pending (h : s.Tracked) {p : Alive} (hloop : s.loop.pending = [p])
    (hchildren : t.children = s.children) (hentries : t.entries = s.alive) : ¬ t.Reapable := by
  have hsons := h.sons
  have hmem : p ∈ s.entries := by
    rw [entries, hloop]
    exact List.mem_cons_self
  rw [entries, hloop, List.singleton_append, List.map_cons, List.nodup_cons] at hsons
  refine not_reapable h hmem hchildren fun q hq heq => ?_
  rw [hentries] at hq
  exact hsons.1 (List.mem_map.mpr ⟨q, hq, heq⟩)

/-! ### The loop -/

/-- The number of a new child was that of none. -/
theorem reapable_forked {client son : ℕ} (hloop : s.loop = .fork client)
    (hfresh : s.children son = none) :
    Reapable { s with loop := .lock client son
                      children := Function.update s.children son (some .running) } ↔
      s.Reapable := by
  have hentries : s.entries = s.alive := by rw [entries, hloop]; rfl
  constructor
  · intro h other hother
    have hne : other ≠ son := by
      rintro rfl
      exact hother hfresh
    have hkept : Function.update s.children son (some .running) other ≠ none := by
      rw [Function.update_of_ne hne]
      exact hother
    obtain ⟨p, hp, hson⟩ := h other hkept
    rcases List.mem_cons.mp hp with rfl | hp
    · exact absurd hson.symm hne
    · exact ⟨p, hentries ▸ hp, hson⟩
  · intro h other hother
    by_cases hne : other = son
    · exact ⟨⟨son, client⟩, List.mem_cons_self, hne.symm⟩
    · have hkept : s.children other ≠ none := by
        rw [← Function.update_of_ne hne (some .running) s.children]
        exact hother
      obtain ⟨p, hp, hson⟩ := h other hkept
      rw [hentries] at hp
      exact ⟨p, List.mem_cons_of_mem _ hp, hson⟩

theorem reapable_loopServer (h : s.Tracked) {a : LoopAct} (hstep : s.loopServer a = some t) :
    t.Reapable ↔ s.Reapable ∧ KeepsEntry (.loop a) := by
  cases loopServer_cases hstep with
  | notAccepted hloop => exact reapable_and_iff rfl rfl trivial
  | accepted hloop hfresh =>
    refine reapable_and_iff ?_ rfl trivial
    rw [entries, entries, hloop]
    rfl
  | notForked hloop =>
    refine reapable_and_iff ?_ rfl trivial
    rw [entries, entries, hloop]
    rfl
  | forked hloop hfresh =>
    rw [reapable_forked hloop hfresh]
    exact (and_iff_left trivial).symm
  | @notLocked client son hloop =>
    have hpending : s.loop.pending = [⟨son, client⟩] := by rw [hloop]; rfl
    exact iff_of_false (not_reapable_of_pending h hpending rfl rfl)
      fun hno => Bool.noConfusion hno.2
  | locked hloop hfree =>
    refine reapable_and_iff ?_ rfl rfl
    rw [entries, entries, hloop]
    rfl
  | tracked hloop =>
    refine reapable_and_iff ?_ rfl rfl
    rw [entries, entries, hloop]
    rfl
  | @crashed client son hloop =>
    have hpending : s.loop.pending = [⟨son, client⟩] := by rw [hloop]; rfl
    exact iff_of_false (not_reapable_of_pending h hpending rfl rfl)
      fun hno => Bool.noConfusion hno.2
  | unlocked hloop =>
    refine reapable_and_iff ?_ rfl trivial
    rw [entries, entries, hloop]
    rfl

/-! ### The tracker -/

/-- The child that is waited for is gone with its entry. -/
theorem reapable_of_ended {i : ℕ} (hi : i < s.alive.length)
    (hentries : t.entries = s.loop.pending ++ s.alive.eraseIdx i)
    (hchildren : t.children = Function.update s.children s.alive[i].son none) :
    t.Reapable ↔ s.Reapable := by
  have hmem : s.alive[i] ∈ s.entries := List.mem_append_right _ (List.getElem_mem hi)
  have hsub : ∀ q ∈ t.entries, q ∈ s.entries := by
    intro q hq
    rw [hentries] at hq
    exact ((List.Sublist.refl _).append (List.eraseIdx_sublist _ _)).subset hq
  constructor
  · intro hreapable son hson
    by_cases hne : son = s.alive[i].son
    · exact ⟨_, hmem, hne.symm⟩
    · have hkept : t.children son ≠ none := by
        rw [hchildren, Function.update_of_ne hne]
        exact hson
      obtain ⟨q, hq, heq⟩ := hreapable son hkept
      exact ⟨q, hsub q hq, heq⟩
  · intro hreapable son hson
    have hne : son ≠ s.alive[i].son := by
      rintro rfl
      rw [hchildren, Function.update_self] at hson
      exact hson rfl
    rw [hchildren, Function.update_of_ne hne] at hson
    obtain ⟨q, hq, rfl⟩ := hreapable son hson
    refine ⟨q, ?_, rfl⟩
    rw [hentries]
    rcases List.mem_cons.mp ((entries_perm hi).mem_iff.mp hq) with rfl | hq
    · exact absurd rfl hne
    · exact hq

theorem reapable_wait (h : s.Tracked) {i : ℕ} (hi : i < s.alive.length) {res : WaitResult}
    {swept : Swept} (hswept : sweepEntry res = .ok swept) (granted : Bool) (r : SendResult) :
    (s.applySwept i s.alive[i] res granted r swept).Reapable ↔
      s.Reapable ∧ KeepsEntry (.tracker (.wait res granted r)) := by
  obtain ⟨hloop, halive, -, hchildren⟩ :=
    applySwept_lists s i s.alive[i] res granted r swept
  have hmem : s.alive[i] ∈ s.entries := List.mem_append_right _ (List.getElem_mem hi)
  have hkept : swept.removed = false →
      (s.applySwept i s.alive[i] res granted r swept).entries = s.entries := by
    intro hremoved
    rw [entries, entries, hloop, halive, hremoved]
    rfl
  have herased : swept.removed = true →
      (s.applySwept i s.alive[i] res granted r swept).entries =
        s.loop.pending ++ s.alive.eraseIdx i := by
    intro hremoved
    rw [entries, hloop, halive, hremoved]
    rfl
  -- the entry of a child that is still there was taken off
  have hlost : swept.removed = true →
      (s.applySwept i s.alive[i] res granted r swept).children = s.children →
      ¬ (s.applySwept i s.alive[i] res granted r swept).Reapable := by
    intro hremoved hsame
    refine not_reapable h hmem hsame fun q hq => ?_
    rw [herased hremoved] at hq
    exact (h.ne_of_mem_eraseIdx hi hq).1
  cases res with
  | running =>
    cases hswept
    exact reapable_and_iff (hkept rfl) hchildren trivial
  | ended e =>
    rw [reapable_of_ended hi (herased (removed_of_ended hswept)) hchildren]
    exact (and_iff_left trivial).symm
  | echild info =>
    cases info with
    | none =>
      cases hswept
      exact iff_of_false (hlost rfl hchildren) fun hno => hno.2
    | some e => cases e <;> cases hswept
  | failed info =>
    cases info with
    | none =>
      cases hswept
      exact reapable_and_iff (hkept rfl) hchildren rfl
    | some e =>
      cases e <;> cases hswept <;>
        exact iff_of_false (hlost rfl hchildren) fun hno => Option.some_ne_none _ hno.2

theorem reapable_checkClientTrack (h : s.Tracked) {a : TrackerAct}
    (hstep : s.checkClientTrack a = some t) :
    t.Reapable ↔ s.Reapable ∧ KeepsEntry (.tracker a) := by
  cases checkClientTrack_cases hstep with
  | tested _ => exact reapable_and_iff rfl rfl trivial
  | notLocked _ => exact reapable_and_iff rfl rfl trivial
  | locked _ _ => exact reapable_and_iff rfl rfl trivial
  | @swept i p res granted r swept htracker hp hanswers hswept =>
    obtain ⟨hi, rfl⟩ := List.getElem?_eq_some_iff.mp hp
    exact reapable_wait h hi hswept granted r
  | @crashed i p res granted r e htracker hp hanswers herror =>
    rcases sweepEntry_cases res with ⟨e', rfl, -⟩ | ⟨swept, hok, -⟩
    · obtain ⟨hi, rfl⟩ := List.getElem?_eq_some_iff.mp hp
      have hmem : s.alive[i] ∈ s.entries := List.mem_append_right _ (List.getElem_mem hi)
      refine iff_of_false (not_reapable h hmem rfl fun q hq => ?_) fun hno => hno.2
      exact (h.ne_of_mem_eraseIdx hi hq).1
    · cases hok.symm.trans herror
  | unlocked _ _ => exact reapable_and_iff rfl rfl trivial

/-! ### Any run -/

/-- **What one step does to it.** -/
theorem reapable_step (h : s.Tracked) {a : Act} (hstep : s.step a = some t) :
    t.Reapable ↔ s.Reapable ∧ KeepsEntry a := by
  have hrunning : s.process = .running := by
    by_contra hno
    rw [step_of_not_running hno] at hstep
    cases hstep
  rw [step_of_running hrunning] at hstep
  cases a with
  | loop a => exact reapable_loopServer h hstep
  | tracker a => exact reapable_checkClientTrack h hstep
  | child son e =>
    simp only at hstep
    split_ifs at hstep with hson
    cases hstep
    -- a child that has ended is still to be waited for
    have hsame : ∀ other, Function.update s.children son (some (.zombie e)) other = none ↔
        s.children other = none := by
      intro other
      by_cases hne : other = son
      · simp [hne, hson]
      · rw [Function.update_of_ne hne]
    have hcongr : Reapable
        { s with children := Function.update s.children son (some (.zombie e)) } ↔ s.Reapable :=
      reapable_congr rfl hsame
    rw [hcongr]
    exact (and_iff_left trivial).symm
  | signal sig =>
    cases hstep
    exact reapable_and_iff rfl rfl trivial

/-- **No child is lost exactly in the runs of such actions**: each child that was forked
and not waited for has an entry.  One that is lost is never found again, however the run
goes on. -/
theorem reapable_iff_of_run {acts : List Act} (h : runFrom step init acts = some t) :
    ((∀ son, ¬ t.Lost son) ↔ ∀ a ∈ acts, KeepsEntry a) ∧
      ∀ son, t.Lost son → ∀ more u, runFrom step t more = some u → u.Lost son := by
  refine ⟨?_, fun son hson more u hrun => ?_⟩
  swap
  · exact invariant_of_run (Lost · son) (fun _ _ _ hs hstep => lost_step hs hstep) hson hrun
  have hinit : init.Reapable := fun son hson => absurd rfl hson
  have hstep : ∀ (s : Server) a t, s.Tracked → s.step a = some t →
      t.Tracked ∧ (t.Reapable ↔ s.Reapable ∧ KeepsEntry a) :=
    fun s a t hs hstep => ⟨tracked_step hs hstep, reapable_step hs hstep⟩
  rw [← reapable_iff_not_lost, iff_forall_of_step Tracked Reapable hstep tracked_init h]
  exact and_iff_right hinit

/-- The loop does not get its lock after it has forked. -/
def lostRun : List Act :=
  [.loop (.accept (some 4)), .loop (.fork (some 100)), .loop (.lock false)]

theorem reapable_iff_of_run_lostRun :
    ∃ t, runFrom step init lostRun = some t ∧
      ((∀ son, ¬ t.Lost son) ↔ ∀ a ∈ lostRun, KeepsEntry a) ∧
      ∀ son, t.Lost son → ∀ more u, runFrom step t more = some u → u.Lost son := by
  have hrun : runFrom step init lostRun = some _ := rfl
  exact ⟨_, hrun, reapable_iff_of_run hrun⟩

end Server

end RemoteProcedure
