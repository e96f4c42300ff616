import Mathlib.Data.List.InsertIdx
import RemoteProcedure.Server

/-!
# The sweep of the tracker

A sweep of `check_client_track` walks the list of children with the mutex held.
What it does to an entry is a sequence of effects; the entries are numbered as
they stand in the list when the sweep begins.

## Main definitions

* `Effect`, `entryEffects` — what the body of the sweep does to one entry.
* `Sweep`, `Sweep.step` — a sweep under way, by what `waitpid` answers.
* `Server.Follows` — the server is where such a sweep is.

## Main results

* `sweepEntry_effects` — the effects are those of the server's sweep.
* `Server.exclusive_step` — the loop and the tracker exclude each other.
* `Server.follows_run` — **between its lock and its unlock the tracker makes a run
  of the sweep**, whatever the children and the loop do meanwhile.
-/

namespace RemoteProcedure

open Machine

/-! ### The effects on an entry -/

/-- What is done to an entry. -/
inductive Effect where
  /-- One of its fields is read. -/
  | use : Effect
  /-- `LIST_REMOVE`. -/
  | unlink : Effect
  /-- Its descriptor is closed. -/
  | close : Effect
  /-- `send_error` on its descriptor. -/
  | sendError (c : Byte) : Effect
  | free : Effect
  deriving DecidableEq, Repr

/-- Is anything done to an entry after it was freed. -/
def usedAfterFree : List Effect → Bool
  | [] => false
  | .free :: l => l ≠ []
  | _ :: l => usedAfterFree l

/-- The end of the body, which looks at `info`.  `send_error` does not come back
to the `free` behind it. -/
def infoEffects : Option Ended → List Effect
  | some (.exited _) => [.use, .unlink, .free]
  | some (.signaled _) => [.use, .unlink, .sendError rpcRetNoAnswer]
  | none => []

/-- The body of the sweep, from the look at the successor on. -/
def entryEffects : WaitResult → List Effect
  | .running => [.use]
  | .ended e => .use :: infoEffects (some e)
  | .echild info => [.use, .use, .unlink, .close, .free] ++ infoEffects info
  | .failed info => [.use, .use] ++ infoEffects info

/-- Does an effect end the process. -/
def Effect.leaves : Effect → Bool
  | .sendError _ => true
  | _ => false

/-- **The effects are what the body of the sweep does**: it faults where a freed
entry is used, and else removes, closes and answers as the effects say. -/
theorem sweepEntry_effects (res : WaitResult) :
    (sweepEntry res = .error .freed ∧ usedAfterFree (entryEffects res) = true) ∨
    usedAfterFree (entryEffects res) = false ∧ ∃ swept, sweepEntry res = .ok swept ∧
      (swept.removed = true ↔ .unlink ∈ entryEffects res) ∧
      (swept.closed = true ↔ .close ∈ entryEffects res) ∧
      (swept.answer ≠ none ↔ (entryEffects res).any Effect.leaves = true) := by
  cases res with
  | running => exact .inr ⟨rfl, _, rfl, by decide, by decide, by decide⟩
  | ended e =>
    cases e <;> refine .inr ⟨rfl, _, rfl, ?_⟩ <;> simp [entryEffects, infoEffects, Effect.leaves]
  | echild info =>
    cases info with
    | none => exact .inr ⟨rfl, _, rfl, by decide, by decide, by decide⟩
    | some e => cases e <;> exact .inl ⟨rfl, rfl⟩
  | failed info =>
    cases info with
    | none => exact .inr ⟨rfl, _, rfl, by decide, by decide, by decide⟩
    | some e =>
      cases e <;> refine .inr ⟨rfl, _, rfl, ?_⟩ <;> simp [entryEffects, infoEffects, Effect.leaves]

/-- The process goes on after the entry. -/
def goesOn (res : WaitResult) : Bool :=
  !usedAfterFree (entryEffects res) && !(entryEffects res).any Effect.leaves

/-! ### The machine -/

/-- A sweep under way. -/
structure Sweep where
  /-- The entries in the list. -/
  linked : List ℕ
  /-- The entry that `p` points to. -/
  cur : ℕ
  /-- What `waitpid` has answered for an entry. -/
  answers : ℕ → List WaitResult
  /-- What was done to an entry. -/
  effects : ℕ → List Effect
  /-- The mutex is held. -/
  held : Bool
  /-- The process has neither ended nor used what it freed. -/
  going : Bool

inductive SweepAct where
  | wait (res : WaitResult) : SweepAct
  | unlock : SweepAct
  deriving DecidableEq, Repr

namespace Sweep

/-- The sweep of `n` entries when it begins. -/
def start (n : ℕ) : Sweep := ⟨List.range n, 0, fun _ => [], fun _ => [], true, true⟩

/-- The body for the entry at hand. -/
def visit (q : Sweep) (res : WaitResult) : Sweep where
  linked := if .unlink ∈ entryEffects res then q.linked.erase q.cur else q.linked
  -- `continue` without `p = next` when the child still runs
  cur := if res = .running then q.cur else q.cur + 1
  answers := Function.update q.answers q.cur (q.answers q.cur ++ [res])
  effects := Function.update q.effects q.cur (q.effects q.cur ++ entryEffects res)
  held := q.held
  going := goesOn res

/-- One `waitpid`, or the unlocking behind the last entry. -/
def step (n : ℕ) (q : Sweep) : SweepAct → Option Sweep
  | .wait res => if q.going = true ∧ q.cur < n then some (q.visit res) else none
  | .unlock =>
    if q.going = true ∧ n ≤ q.cur ∧ q.held = true then some { q with held := false } else none

variable {n : ℕ} {q q' : Sweep}

/-! The body adds to what is known of the entry at hand, and of no other. -/

@[simp] theorem answers_visit_cur (q : Sweep) (res : WaitResult) :
    (q.visit res).answers q.cur = q.answers q.cur ++ [res] := Function.update_self ..

@[simp] theorem effects_visit_cur (q : Sweep) (res : WaitResult) :
    (q.visit res).effects q.cur = q.effects q.cur ++ entryEffects res := Function.update_self ..

theorem linked_visit_of_mem {res : WaitResult} (h : .unlink ∈ entryEffects res) :
    (q.visit res).linked = q.linked.erase q.cur := if_pos h

theorem linked_visit_of_notMem {res : WaitResult} (h : .unlink ∉ entryEffects res) :
    (q.visit res).linked = q.linked := if_neg h

theorem cur_visit_of_ne {res : WaitResult} (h : res ≠ .running) :
    (q.visit res).cur = q.cur + 1 := if_neg h

theorem answers_visit_of_ne {j : ℕ} (h : j ≠ q.cur) (res : WaitResult) :
    (q.visit res).answers j = q.answers j := Function.update_of_ne h ..

theorem effects_visit_of_ne {j : ℕ} (h : j ≠ q.cur) (res : WaitResult) :
    (q.visit res).effects j = q.effects j := Function.update_of_ne h ..

theorem step_wait_iff {res : WaitResult} :
    q.step n (.wait res) = some q' ↔ (q.going = true ∧ q.cur < n) ∧ q.visit res = q' := by
  rw [step]
  split_ifs with h
  · rw [Option.some_inj, and_iff_right h]
  · exact iff_of_false not_false fun h' => h h'.1

theorem step_unlock_iff :
    q.step n .unlock = some q' ↔
      (q.going = true ∧ n ≤ q.cur ∧ q.held = true) ∧ { q with held := false } = q' := by
  rw [step]
  split_ifs with h
  · rw [Option.some_inj, and_iff_right h]
  · exact iff_of_false not_false fun h' => h h'.1

end Sweep

/-! ### The tracker of the server -/

namespace Server

/-- The tracker is at the entry where the sweep of the list `alive` is, and has
the same entries in front of it and behind. -/
structure Follows (alive : List Alive) (s : Server) (q : Sweep) : Prop where
  process : s.process = .running
  going : q.going = true
  mutex : s.mutex = some .tracker
  held : q.held = true
  list : s.alive.map some = q.linked.map fun j => alive[j]?
  place : ∃ front, q.linked = front ++ List.range' q.cur (alive.length - q.cur) ∧
    (∀ j ∈ front, j < q.cur) ∧ s.tracker = .sweep front.length

variable {alive : List Alive} {s t : Server} {q : Sweep}

/-- Where the tracker goes on after an entry. -/
theorem applySwept_tracker {swept : Swept} (h : swept.answer = none) (s : Server) (i : ℕ)
    (p : Alive) (res : WaitResult) (granted : Bool) (r : SendResult) :
    (s.applySwept i p res granted r swept).tracker =
      .sweep (if res = .running ∨ swept.removed = true then i else i + 1) ∧
    (s.applySwept i p res granted r swept).mutex = s.mutex := by
  rcases swept with ⟨removed, closed, answer⟩
  obtain rfl : answer = none := h
  cases res <;> cases removed <;> cases closed <;> exact ⟨rfl, rfl⟩

/-- The tracker begins a sweep when it has the mutex. -/
theorem follows_start (hs : s.process = .running) (h : s.checkClientTrack (.lock true) = some t) :
    Follows s.alive t (Sweep.start s.alive.length) := by
  cases checkClientTrack_cases h
  refine ⟨hs, rfl, rfl, rfl, ?_, [], ?_, ?_, rfl⟩
  · apply List.ext_getElem <;> simp [Sweep.start]
  · exact List.range_eq_range'
  · exact fun j hj => absurd hj List.not_mem_nil

/-- The entries from one on begin with it. -/
theorem range'_of_lt {i n : ℕ} (h : i < n) :
    List.range' i (n - i) = i :: List.range' (i + 1) (n - (i + 1)) := by
  have hsucc : n - i = n - (i + 1) + 1 := by omega
  rw [hsucc, List.range'_succ]

/-- Taking the entry at hand off the list. -/
theorem erase_cur {front r : List ℕ} {cur : ℕ} (h : ∀ j ∈ front, j < cur) :
    (front ++ cur :: r).erase cur = front ++ r ∧
      (front ++ cur :: r).eraseIdx front.length = front ++ r := by
  have hnot : cur ∉ front := fun hmem => Nat.lt_irrefl _ (h _ hmem)
  constructor
  · rw [List.erase_append_right _ hnot, List.erase_cons_head]
  · rw [List.eraseIdx_append_of_length_le (Nat.le_refl _), Nat.sub_self, List.eraseIdx_cons_zero]

/-- The list of the server is as long as that of the sweep. -/
theorem Follows.length (hq : Follows alive s q) {front : List ℕ}
    (hlinked : q.linked = front ++ List.range' q.cur (alive.length - q.cur)) :
    s.alive.length = front.length + (alive.length - q.cur) := by
  have hlen := congrArg List.length hq.list
  simpa only [List.length_map, hlinked, List.length_append, List.length_range'] using hlen

/-- The entry at hand, in the list of the server and in that of the sweep. -/
theorem Follows.entry (hq : Follows alive s q) {i : ℕ} {p : Alive} (hi : s.tracker = .sweep i)
    (hp : s.alive[i]? = some p) :
    q.cur < alive.length ∧ ∃ front, q.linked =
        front ++ q.cur :: List.range' (q.cur + 1) (alive.length - (q.cur + 1)) ∧
      (∀ j ∈ front, j < q.cur) ∧ front.length = i := by
  obtain ⟨front, hlinked, hfront, htracker⟩ := hq.place
  rw [htracker] at hi
  cases hi
  have hlt : q.cur < alive.length := by
    have hlen := hq.length hlinked
    have hi := (List.getElem?_eq_some_iff.mp hp).1
    omega
  rw [range'_of_lt hlt] at hlinked
  exact ⟨hlt, front, hlinked, hfront, rfl⟩

/-- The place of the tracker behind the entry at hand, or still at it. -/
theorem place_visit {n : ℕ} {front : List ℕ} (res : WaitResult) (hlt : q.cur < n)
    (hlinked : q.linked = front ++ q.cur :: List.range' (q.cur + 1) (n - (q.cur + 1)))
    (hfront : ∀ j ∈ front, j < q.cur) :
    ∃ front', (q.visit res).linked =
        front' ++ List.range' (q.visit res).cur (n - (q.visit res).cur) ∧
      (∀ j ∈ front', j < (q.visit res).cur) ∧ front'.length =
        if res = .running ∨ .unlink ∈ entryEffects res then front.length else front.length + 1 := by
  by_cases hrunning : res = .running
  · subst hrunning
    rw [← range'_of_lt hlt] at hlinked
    exact ⟨front, hlinked, hfront, rfl⟩
  · rw [Sweep.cur_visit_of_ne hrunning]
    by_cases hunlink : .unlink ∈ entryEffects res
    · refine ⟨front, ?_, fun j hj => Nat.lt_succ_of_lt (hfront j hj), (if_pos (.inr hunlink)).symm⟩
      rw [Sweep.linked_visit_of_mem hunlink, hlinked, (erase_cur hfront).1]
    · refine ⟨front ++ [q.cur], ?_, ?_, ?_⟩
      · rw [Sweep.linked_visit_of_notMem hunlink, hlinked, List.append_assoc, List.singleton_append]
      · intro j hj
        rcases List.mem_append.mp hj with hj | hj
        · exact Nat.lt_succ_of_lt (hfront j hj)
        · rw [List.mem_singleton.mp hj]
          exact Nat.lt_succ_self _
      · rw [if_neg (not_or.mpr ⟨hrunning, hunlink⟩), List.length_append, List.length_singleton]

/-- **A `waitpid` of the tracker is one of the sweep**; what ends the one ends the
other. -/
theorem follows_wait (hq : Follows alive s q) {res : WaitResult} {granted : Bool} {r : SendResult}
    (h : s.checkClientTrack (.wait res granted r) = some t) :
    q.step alive.length (.wait res) = some (q.visit res) ∧
      (((q.visit res).going = true ∧ Follows alive t (q.visit res)) ∨
        (q.visit res).going = false ∧ t.process ≠ .running) := by
  obtain ⟨i, p, hi, hp, -, hswept⟩ := wait_cases h
  obtain ⟨hlt, front, hlinked, hfront, rfl⟩ := hq.entry hi hp
  refine ⟨Sweep.step_wait_iff.mpr ⟨⟨hq.going, hlt⟩, rfl⟩, ?_⟩
  rcases sweepEntry_effects res with ⟨hfault, hused⟩ |
    ⟨hunused, swept, hok, hremoved, -, hanswer⟩
  · obtain ⟨swept, hok, -⟩ | ⟨e, -, rfl⟩ := hswept
    · rw [hfault] at hok
      cases hok
    · refine .inr ⟨by simp [Sweep.visit, goesOn, hused], ?_⟩
      exact fun hrunning => nomatch hrunning
  · obtain ⟨swept', hok', rfl⟩ | ⟨e, herror, -⟩ := hswept
    swap
    · rw [hok] at herror
      cases herror
    rw [hok] at hok'
    cases hok'
    cases hc : swept.answer with
    | some c =>
      have hleaves := hanswer.mp (by rw [hc]; exact Option.some_ne_none c)
      have hends : (q.visit res).going = false := by simp [Sweep.visit, goesOn, hleaves]
      exact .inr ⟨hends, applySwept_of_some hc s _ p res granted r⟩
    | none =>
      have hstays : (entryEffects res).any Effect.leaves = false := by
        rw [← Bool.not_eq_true, ← hanswer, hc]
        exact fun hne => hne rfl
      have hgoing : (q.visit res).going = true := by simp [Sweep.visit, goesOn, hunused, hstays]
      obtain ⟨hprocess, -, halive, -⟩ := applySwept_of_none hc s front.length p res granted r
      obtain ⟨htracker, hmutex⟩ := applySwept_tracker hc s front.length p res granted r
      obtain ⟨front', hlinked', hfront', hlength⟩ := place_visit res hlt hlinked hfront
      refine .inl ⟨hgoing, hprocess.trans hq.process, hgoing, hmutex.trans hq.mutex, hq.held, ?_,
        front', hlinked', hfront', ?_⟩
      · rw [halive]
        by_cases hunlink : .unlink ∈ entryEffects res
        · obtain ⟨herase, heraseIdx⟩ := erase_cur (r := List.range' (q.cur + 1)
            (alive.length - (q.cur + 1))) hfront
          rw [if_pos (hremoved.mpr hunlink), Sweep.linked_visit_of_mem hunlink,
            ← List.eraseIdx_map, hq.list, hlinked, herase, List.eraseIdx_map, heraseIdx]
        · rw [if_neg (mt hremoved.mp hunlink), Sweep.linked_visit_of_notMem hunlink, hq.list]
      · simp only [htracker, hremoved, hlength]

/-- **The tracker unlocks the mutex where the sweep does.** -/
theorem follows_unlock (hq : Follows alive s q) (h : s.checkClientTrack (.unlock true) = some t) :
    q.step alive.length .unlock = some { q with held := false } ∧ t.process = .running ∧
      t.mutex = none ∧ t.alive = s.alive := by
  obtain ⟨front, hlinked, -, hfollows⟩ := hq.place
  cases checkClientTrack_cases h with
  | unlocked htracker hend
  rw [hfollows] at htracker
  cases htracker
  have hlen := hq.length hlinked
  exact ⟨Sweep.step_unlock_iff.mpr ⟨⟨hq.going, by omega, hq.held⟩, rfl⟩, hq.process, rfl, rfl⟩

/-! ### The other thread meanwhile -/

/-- The places of the loop between its lock and its unlock. -/
def LoopCritical : LoopPc → Prop
  | .track _ _ => True
  | .unlock => True
  | _ => False

/-- Those of the tracker. -/
def TrackerCritical : TrackerPc → Prop
  | .sweep _ => True
  | _ => False

/-- Between its lock and its unlock a thread has the mutex. -/
structure Exclusive (s : Server) : Prop where
  loop : LoopCritical s.loop → s.mutex = some .loop
  tracker : TrackerCritical s.tracker → s.mutex = some .tracker

theorem exclusive_init : Exclusive init where
  loop := False.elim
  tracker := False.elim

/-- Only one of them is there. -/
theorem Exclusive.not_both (hs : Exclusive s) (hloop : LoopCritical s.loop) :
    ¬ TrackerCritical s.tracker := by
  intro htracker
  have hheld := hs.loop hloop
  rw [hs.tracker htracker] at hheld
  cases hheld

theorem applySwept_frame (s : Server) (i : ℕ) (p : Alive) (res : WaitResult)
    (granted : Bool) (r : SendResult) (swept : Swept) :
    (s.applySwept i p res granted r swept).loop = s.loop ∧
      (s.applySwept i p res granted r swept).mutex = s.mutex := by
  rcases swept with ⟨removed, closed, _ | c⟩
  · cases res <;> cases removed <;> cases closed <;> exact ⟨rfl, rfl⟩
  · unfold applySwept exitBySendError
    cases res <;> cases removed <;> cases closed <;> simp only <;> split <;> exact ⟨rfl, rfl⟩

theorem exclusive_loopServer (hs : Exclusive s) {a : LoopAct} (h : s.loopServer a = some t) :
    Exclusive t := by
  cases loopServer_cases h with
  | notAccepted hloop => exact hs
  | accepted hloop hfresh => exact ⟨False.elim, hs.tracker⟩
  | notForked hloop => exact ⟨False.elim, hs.tracker⟩
  | forked hloop hfresh => exact ⟨False.elim, hs.tracker⟩
  | notLocked hloop => exact ⟨False.elim, hs.tracker⟩
  | locked hloop hfree =>
    -- a sweep under way would have the mutex
    refine ⟨fun _ => rfl, ?_⟩
    intro hsweep
    have hheld := hs.tracker hsweep
    rw [hfree] at hheld
    cases hheld
  | tracked hloop => exact ⟨fun _ => hs.loop (by rw [hloop]; trivial), hs.tracker⟩
  | crashed hloop => exact ⟨fun _ => hs.loop (by rw [hloop]; trivial), hs.tracker⟩
  | unlocked hloop =>
    have hcritical : LoopCritical s.loop := by
      rw [hloop]
      trivial
    exact ⟨False.elim, fun hsweep => absurd hsweep (hs.not_both hcritical)⟩

theorem exclusive_checkClientTrack (hs : Exclusive s) {a : TrackerAct}
    (h : s.checkClientTrack a = some t) : Exclusive t := by
  cases checkClientTrack_cases h with
  | tested htracker =>
    refine ⟨hs.loop, ?_⟩
    simp only
    split_ifs <;> exact False.elim
  | notLocked htracker => exact ⟨hs.loop, False.elim⟩
  | locked htracker hfree =>
    refine ⟨?_, fun _ => rfl⟩
    intro hcritical
    have hheld := hs.loop hcritical
    rw [hfree] at hheld
    cases hheld
  | @swept i p res granted r swept htracker hp hanswers hswept =>
    obtain ⟨hloop, hmutex⟩ := applySwept_frame s i p res granted r swept
    constructor
    · rw [hloop, hmutex]
      exact hs.loop
    · rw [hmutex]
      exact fun _ => hs.tracker (by rw [htracker]; trivial)
  | crashed htracker hp hanswers herror => exact ⟨hs.loop, hs.tracker⟩
  | unlocked htracker hend =>
    have hcritical : TrackerCritical s.tracker := by
      rw [htracker]
      trivial
    exact ⟨fun hloop => absurd hcritical (hs.not_both hloop), False.elim⟩

/-- **The two threads exclude each other** after every step. -/
theorem exclusive_step {a : Act} (hs : Exclusive s) (h : s.step a = some t) : Exclusive t := by
  by_cases hrunning : s.process = .running
  · rw [step_of_running hrunning] at h
    cases a with
    | loop a => exact exclusive_loopServer hs h
    | tracker a => exact exclusive_checkClientTrack hs h
    | child son e =>
      simp only at h
      split_ifs at h
      cases h
      exact ⟨hs.loop, hs.tracker⟩
    | signal sig =>
      cases h
      exact ⟨hs.loop, hs.tracker⟩
  · rw [step_of_not_running hrunning] at h
    cases h

/-- The loop does not touch the list while the tracker sweeps it. -/
theorem follows_loopServer (hs : Exclusive s) (hq : Follows alive s q) {a : LoopAct}
    (h : s.loopServer a = some t) : Follows alive t q := by
  have hnot : ¬ LoopCritical s.loop := by
    intro hcritical
    have hheld := hs.loop hcritical
    rw [hq.mutex] at hheld
    cases hheld
  have hframe : ∀ {loop : LoopPc} {fds : List ℕ} {children : ℕ → Option Child},
      Follows alive { s with loop, fds, children } q :=
    ⟨hq.process, hq.going, hq.mutex, hq.held, hq.list, hq.place⟩
  cases loopServer_cases h with
  | notAccepted hloop => exact hq
  | accepted hloop hfresh => exact hframe
  | notForked hloop => exact hframe
  | forked hloop hfresh => exact hframe
  | notLocked hloop => exact hframe
  | locked hloop hfree =>
    rw [hq.mutex] at hfree
    cases hfree
  | tracked hloop => exact absurd (by rw [hloop]; trivial) hnot
  | crashed hloop => exact absurd (by rw [hloop]; trivial) hnot
  | unlocked hloop => exact absurd (by rw [hloop]; trivial) hnot

/-- **Whatever the children and the other thread do, a sweep of the server is a
sweep of the list it began with**, until the mutex is unlocked. -/
theorem follows_step (hs : Exclusive s) (hq : Follows alive s q) {a : Act}
    (hunlock : ∀ ok, a ≠ .tracker (.unlock ok)) (h : s.step a = some t)
    (hrunning : t.process = .running) :
    ∃ q', Follows alive t q' ∧ (q' = q ∨ ∃ res, q.step alive.length (.wait res) = some q') := by
  rw [step_of_running hq.process] at h
  obtain ⟨front, -, -, htracker⟩ := hq.place
  cases a with
  | loop a => exact ⟨q, follows_loopServer hs hq h, .inl rfl⟩
  | tracker a =>
    cases a with
    | wait res granted r =>
      obtain ⟨hstep, ⟨-, ht⟩ | ⟨-, hended⟩⟩ := follows_wait hq h
      · exact ⟨_, ht, .inr ⟨res, hstep⟩⟩
      · exact absurd hrunning hended
    | top => simp [checkClientTrack, htracker] at h
    | lock ok => simp [checkClientTrack, htracker] at h
    | unlock ok => exact absurd rfl (hunlock ok)
  | child son e =>
    simp only at h
    split_ifs at h
    cases h
    exact ⟨q, ⟨hq.process, hq.going, hq.mutex, hq.held, hq.list, hq.place⟩, .inl rfl⟩
  | signal sig =>
    cases h
    cases hrunning

/-- A process that is running at the end was running all along. -/
theorem running_of_runFrom {acts : List Act} (h : runFrom step s acts = some t)
    (ht : t.process = .running) : s.process = .running := by
  cases acts with
  | nil =>
    cases h
    exact ht
  | cons a acts =>
    obtain ⟨u, hu, -⟩ := runFrom_cons h
    by_contra hs
    rw [step_of_not_running hs] at hu
    cases hu

/-- **Between its lock and its unlock the tracker has made a run of the sweep**, in
every run of the server. -/
theorem follows_run {acts : List Act} : ∀ {s : Server} {q : Sweep}, Exclusive s →
    Follows alive s q → (∀ ok, .tracker (.unlock ok) ∉ acts) → runFrom step s acts = some t →
      t.process = .running →
        ∃ as q', runFrom (Sweep.step alive.length) q as = some q' ∧ Follows alive t q' := by
  induction acts with
  | nil =>
    intro s q _ hq _ h _
    cases h
    exact ⟨[], q, rfl, hq⟩
  | cons a acts ih =>
    intro s q hs hq hunlock h hrunning
    obtain ⟨u, hu, hrest⟩ := runFrom_cons h
    have hnot : ∀ ok, a ≠ .tracker (.unlock ok) := by
      rintro ok rfl
      exact hunlock ok List.mem_cons_self
    obtain ⟨q₁, hq₁, hstep⟩ := follows_step hs hq hnot hu (running_of_runFrom hrest hrunning)
    obtain ⟨as, q', has, hq'⟩ := ih (exclusive_step hs hu) hq₁
      (fun ok hmem => hunlock ok (List.mem_cons_of_mem a hmem)) hrest hrunning
    rcases hstep with rfl | ⟨res, hres⟩
    · exact ⟨as, q', has, hq'⟩
    · refine ⟨.wait res :: as, q', ?_, hq'⟩
      rw [runFrom, hres, Option.bind_some, has]

end Server

end RemoteProcedure
