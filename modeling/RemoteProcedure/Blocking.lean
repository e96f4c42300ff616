import RemoteProcedure.Sweep

/-!
# While the tracker waits for a child

The sweep asks for the child of each entry, and while that child runs it asks again.  The
mutex stays with the tracker, and the loop, which records each client before it takes the
next, comes to wait for it.

## Main definitions

* `Server.Waiting` — the tracker is at the entry of a child that runs.
* `Server.forksLeft` — how many children can still be forked.

## Main results

* `Server.waiting_step` — the tracker goes on waiting, whatever the others do.
* `Server.blocked_of_run` — **at most one more child is forked.**
-/

namespace RemoteProcedure

open Machine

namespace Server

variable {s t : Server}

/-- This child does not end, and neither the lock of the loop nor `waitpid` fails. -/
def Waits (son : ℕ) : Act → Prop
  | .child son' _ => son' ≠ son
  | .loop (.lock ok) => ok = true
  | .tracker (.wait res _ _) => ∀ info, res ≠ .echild info ∧ res ≠ .failed info
  | _ => True

/-- A child is forked. -/
def Act.forks : Act → Bool
  | .loop (.fork (some _)) => true
  | _ => false

/-- The tracker is at the entry of a child that runs. -/
structure Waiting (alive : List Alive) (i : ℕ) (p : Alive) (s : Server) : Prop where
  exclusive : s.Exclusive
  tracker : s.tracker = .sweep i
  alive : s.alive = alive
  entry : s.alive[i]? = some p
  child : s.children p.son = some .running

/-- How many children can still be forked. -/
def forksLeft (s : Server) : ℕ :=
  match s.loop with
  | .accept => 1
  | .fork _ => 1
  | _ => 0

variable {alive : List Alive} {i : ℕ} {p : Alive}

theorem Waiting.mutex (h : s.Waiting alive i p) : s.mutex = some .tracker :=
  h.exclusive.tracker (by rw [h.tracker]; trivial)

theorem Waiting.not_critical (h : s.Waiting alive i p) : ¬ LoopCritical s.loop := by
  intro hcritical
  cases (h.exclusive.loop hcritical).symm.trans h.mutex

theorem waiting_loopServer (h : s.Waiting alive i p) {a : LoopAct} (ha : Waits p.son (.loop a))
    (hstep : s.loopServer a = some t) :
    (t.tracker = s.tracker ∧ t.alive = s.alive ∧ t.children p.son = some .running) ∧
      t.forksLeft + (if Act.forks (.loop a) then 1 else 0) ≤ s.forksLeft := by
  cases loopServer_cases hstep with
  | notAccepted hloop => exact ⟨⟨rfl, rfl, h.child⟩, le_rfl⟩
  | accepted hloop hfresh =>
    refine ⟨⟨rfl, rfl, h.child⟩, ?_⟩
    simp [forksLeft, hloop, Act.forks]
  | notForked hloop =>
    refine ⟨⟨rfl, rfl, h.child⟩, ?_⟩
    simp [forksLeft, hloop, Act.forks]
  | @forked client son hloop hfresh =>
    have hne : p.son ≠ son := by
      rintro rfl
      cases hfresh.symm.trans h.child
    refine ⟨⟨rfl, rfl, (Function.update_of_ne hne _ _).trans h.child⟩, ?_⟩
    simp [forksLeft, hloop, Act.forks]
  | notLocked hloop => cases ha
  | locked hloop hfree => cases hfree.symm.trans h.mutex
  | tracked hloop => exact absurd (by rw [hloop]; trivial) h.not_critical
  | crashed hloop => exact absurd (by rw [hloop]; trivial) h.not_critical
  | unlocked hloop => exact absurd (by rw [hloop]; trivial) h.not_critical

theorem waiting_checkClientTrack (h : s.Waiting alive i p) {a : TrackerAct}
    (ha : Waits p.son (.tracker a)) (hstep : s.checkClientTrack a = some t) : t = s := by
  have htracker := h.tracker
  cases checkClientTrack_cases hstep with
  | @swept k q res granted r swept hsweep hq hanswers hswept =>
    obtain rfl : k = i := TrackerPc.sweep.inj (hsweep.symm.trans htracker)
    obtain rfl : q = p := Option.some.inj (hq.symm.trans h.entry)
    cases res with
    | running =>
      cases hswept
      cases s
      cases htracker
      rfl
    | ended e => cases Option.some.inj (hanswers.symm.trans h.child)
    | echild info => exact absurd rfl (ha info).1
    | failed info => exact absurd rfl (ha info).2
  | @crashed k q res granted r e hsweep hq hanswers herror =>
    cases res with
    | running => cases herror
    | ended e' => cases e' <;> cases herror
    | echild info => exact absurd rfl (ha info).1
    | failed info => exact absurd rfl (ha info).2
  | @unlocked k ok hsweep hend =>
    obtain rfl : k = i := TrackerPc.sweep.inj (hsweep.symm.trans htracker)
    obtain ⟨hlt, -⟩ := List.getElem?_eq_some_iff.mp h.entry
    omega
  | tested hother => cases hother.symm.trans htracker
  | notLocked hother => cases hother.symm.trans htracker
  | locked hother hfree => cases hother.symm.trans htracker

/-- A step while the tracker waits leaves it waiting. -/
theorem waiting_step (h : s.Waiting alive i p) {a : Act} (ha : Waits p.son a)
    (hstep : s.step a = some t) :
    t.Waiting alive i p ∧ t.forksLeft + (if a.forks then 1 else 0) ≤ s.forksLeft := by
  have hexclusive := exclusive_step h.exclusive hstep
  have hrunning : s.process = .running := by
    by_contra hno
    rw [step_of_not_running hno] at hstep
    cases hstep
  rw [step_of_running hrunning] at hstep
  cases a with
  | loop a =>
    obtain ⟨⟨htracker, halive, hchild⟩, hforks⟩ := waiting_loopServer h ha hstep
    refine ⟨⟨hexclusive, htracker.trans h.tracker, halive.trans h.alive, ?_, hchild⟩, hforks⟩
    rw [halive]
    exact h.entry
  | tracker a =>
    obtain rfl := waiting_checkClientTrack h ha hstep
    exact ⟨h, le_rfl⟩
  | child son e =>
    simp only at hstep
    split_ifs at hstep with hson
    cases hstep
    refine ⟨⟨hexclusive, h.tracker, h.alive, h.entry, ?_⟩, le_rfl⟩
    exact (Function.update_of_ne (Ne.symm ha) _ _).trans h.child
  | signal sig =>
    cases hstep
    exact ⟨⟨hexclusive, h.tracker, h.alive, h.entry, h.child⟩, le_rfl⟩

theorem exclusive_of_run {acts : List Act} (h : runFrom step init acts = some s) : s.Exclusive :=
  invariant_of_run Exclusive (fun _ _ _ hs hstep => exclusive_step hs hstep) exclusive_init h

/-- **While the tracker waits for a child, at most one more is forked**: the tracker stays
at its entry with the mutex held, and the loop cannot record the client it took last. -/
theorem blocked_of_run {past acts : List Act} (hpast : runFrom step init past = some s)
    (htracker : s.tracker = .sweep i) (hp : s.alive[i]? = some p)
    (hchild : s.children p.son = some .running) (hacts : ∀ a ∈ acts, Waits p.son a)
    (h : runFrom step s acts = some t) :
    t.tracker = .sweep i ∧ t.alive = s.alive ∧ t.mutex = some .tracker ∧
      acts.countP Act.forks ≤ 1 := by
  have hwaiting : s.Waiting s.alive i p := ⟨exclusive_of_run hpast, htracker, rfl, hp, hchild⟩
  obtain ⟨hend, hcount⟩ := countP_le_of_measure forksLeft Act.forks (Waits p.son)
    (Waiting s.alive i p) (fun _ _ _ hs ha hstep => waiting_step hs ha hstep) hwaiting hacts h
  refine ⟨hend.tracker, hend.alive, hend.mutex, ?_⟩
  have hone : s.forksLeft ≤ 1 := by
    rw [forksLeft]
    split <;> omega
  omega

/-- The tracker is at the entry of the first client, whose child runs. -/
def firstWaited : List Act :=
  [.loop (.accept (some 4)), .loop (.fork (some 100)), .loop (.lock true), .loop (.track true),
    .loop (.unlock true), .tracker .top, .tracker (.lock true)]

/-- A second client comes, and the tracker looks again. -/
def secondBlocked : List Act :=
  [.loop (.accept (some 5)), .loop (.fork (some 101)), .tracker (.wait .running true .accepted)]

theorem waits_secondBlocked : ∀ a ∈ secondBlocked, Waits 100 a := by
  intro a ha
  simp only [secondBlocked, List.mem_cons, List.not_mem_nil, or_false] at ha
  rcases ha with rfl | rfl | rfl <;> simp [Waits]

theorem blocked_of_run_secondBlocked :
    ∃ s t, runFrom step init firstWaited = some s ∧ runFrom step s secondBlocked = some t ∧
      t.tracker = .sweep 0 ∧ t.alive = s.alive ∧ t.mutex = some .tracker ∧
      secondBlocked.countP Act.forks ≤ 1 := by
  obtain ⟨s, hs⟩ : ∃ s, runFrom step init firstWaited = some s := ⟨_, rfl⟩
  obtain ⟨t, ht⟩ : ∃ t, runFrom step s secondBlocked = some t := by
    cases hs
    exact ⟨_, rfl⟩
  refine ⟨s, t, hs, ht, ?_⟩
  refine blocked_of_run (p := ⟨100, 4⟩) hs ?_ ?_ ?_ waits_secondBlocked ht
  all_goals
    cases hs
    rfl

end Server

end RemoteProcedure
