import Mathlib.Tactic.MkIffOfInductiveProp
import RemoteProcedure.Sweep

/-!
# What a sweep removes

The body of the sweep tests `info` whatever `waitpid` returned.  When `waitpid`
failed, `info` is what the stack held, and an entry that was removed already, or
that should stay, may be taken for one whose child ended.

## Main definitions

* `EntryClean` — what is to hold of one entry.
* `Sweep.Clean` — of all of them, and of the order of the list.

## Main results

* `Sweep.clean_iff` — **a sweep removes what it should, once, exactly if `info` is
  never mistaken when `waitpid` fails.**
-/

namespace RemoteProcedure

open Machine

/-- The answers after which an entry is to be removed: the child exited, was
killed, or does not exist. -/
def WaitResult.Finished : WaitResult → Prop
  | .ended _ => True
  | .echild _ => True
  | _ => False

/-- When `waitpid` fails, the `info` that it leaves alone looks like no end. -/
def WaitResult.Reliable : WaitResult → Prop
  | .echild info => info = none
  | .failed info => info = none
  | _ => True

/-- An entry is unlinked and freed at most once, not used once freed, and not freed
while it is in the list; it is off the list exactly if its child is finished; and
an error is sent only if its child was killed. -/
@[mk_iff]
structure EntryClean (linked : Prop) (answers : List WaitResult) (effects : List Effect) :
    Prop where
  unlinked : effects.count .unlink ≤ 1
  freed : effects.count .free ≤ 1
  unused : usedAfterFree effects = false
  kept : linked → .free ∉ effects
  removed : ¬ linked ↔ ∃ res ∈ answers, res.Finished
  answered : ∀ c, .sendError c ∈ effects → ∃ sig, .ended (.signaled sig) ∈ answers

/-- The entries are clean, and those in the list stand in their order. -/
structure Sweep.Clean (n : ℕ) (q : Sweep) : Prop where
  entries : ∀ j < n, EntryClean (j ∈ q.linked) (q.answers j) (q.effects j)
  order : q.linked.Sublist (List.range n)

/-! ### One entry -/

theorem usedAfterFree_append {es l : List Effect} (h : ∀ e ∈ es, e = .use) :
    usedAfterFree (es ++ l) = usedAfterFree l := by
  induction es with
  | nil => rfl
  | cons e es ih =>
    obtain ⟨rfl, hes⟩ := List.forall_mem_cons.mp h
    exact ih hes

theorem mem_uses_append {es l : List Effect} (h : ∀ e ∈ es, e = .use) {e : Effect} (he : e ≠ .use) :
    e ∈ es ++ l ↔ e ∈ l := by
  rw [List.mem_append, or_iff_right fun hmem => he (h e hmem)]

theorem count_uses_append {es l : List Effect} (h : ∀ e ∈ es, e = .use) {e : Effect}
    (he : e ≠ .use) : (es ++ l).count e = l.count e := by
  rw [List.count_append, List.count_eq_zero.mpr fun hmem => he (h e hmem), Nat.zero_add]

/-- What came before, of a child that runs, does not matter. -/
theorem entryClean_append_iff {linked : Prop} {answers rs : List WaitResult} {es l : List Effect}
    (hanswers : ∀ r ∈ answers, r = .running) (h : ∀ e ∈ es, e = .use) :
    EntryClean linked (answers ++ rs) (es ++ l) ↔ EntryClean linked rs l := by
  have hmem : ∀ r, r ≠ .running → (r ∈ answers ++ rs ↔ r ∈ rs) := by
    intro r hr
    rw [List.mem_append, or_iff_right fun hmem => hr (hanswers r hmem)]
  have hfinished : (∃ r ∈ answers ++ rs, r.Finished) ↔ ∃ r ∈ rs, r.Finished := by
    constructor
    · rintro ⟨r, hr, hfin⟩
      refine ⟨r, (hmem r ?_).mp hr, hfin⟩
      rintro rfl
      exact hfin
    · rintro ⟨r, hr, hfin⟩
      exact ⟨r, List.mem_append_right answers hr, hfin⟩
  have hsent : ∀ c, .sendError c ∈ es ++ l ↔ .sendError c ∈ l :=
    fun c => mem_uses_append h (by simp)
  have hkilled : ∀ sig, .ended (.signaled sig) ∈ answers ++ rs ↔ .ended (.signaled sig) ∈ rs :=
    fun sig => hmem _ (by simp)
  simp only [entryClean_iff, usedAfterFree_append h, hfinished, hsent, hkilled,
    count_uses_append h (e := .unlink) (by decide), count_uses_append h (e := .free) (by decide),
    mem_uses_append h (e := .free) (by decide)]

/-- An entry whose child still runs is clean. -/
theorem entryClean_of_uses {linked : Prop} (hlinked : linked) {answers : List WaitResult}
    {es : List Effect} (hanswers : ∀ r ∈ answers, r = .running) (h : ∀ e ∈ es, e = .use) :
    EntryClean linked answers es := by
  rw [← List.append_nil answers, ← List.append_nil es, entryClean_append_iff hanswers h]
  exact ⟨by decide, by decide, rfl, fun _ => List.not_mem_nil, by simp [hlinked], by simp⟩

/-- **The body leaves an entry clean exactly if the answer is reliable.** -/
theorem entryClean_entryEffects (res : WaitResult) :
    EntryClean (.unlink ∉ entryEffects res) [res] (entryEffects res) ↔ res.Reliable := by
  cases res with
  | running =>
    simp [entryClean_iff, entryEffects, usedAfterFree, WaitResult.Finished, WaitResult.Reliable]
  | ended e =>
    cases e <;> simp [entryClean_iff, entryEffects, infoEffects, usedAfterFree,
      WaitResult.Finished, WaitResult.Reliable]
  | echild info =>
    cases info with
    | none =>
      simp [entryClean_iff, entryEffects, infoEffects, usedAfterFree, WaitResult.Finished,
        WaitResult.Reliable]
    | some e =>
      -- the entry is used after it was freed
      refine iff_of_false ?_ (Option.some_ne_none e)
      intro h
      have hunused := h.unused
      cases e <;> cases hunused
  | failed info =>
    cases info with
    | none =>
      simp [entryClean_iff, entryEffects, infoEffects, usedAfterFree, WaitResult.Finished,
        WaitResult.Reliable]
    | some e =>
      -- the entry is removed, and its child may well run
      refine iff_of_false ?_ (Option.some_ne_none e)
      intro h
      have hremoved := h.removed.mp (by cases e <;> simp [entryEffects, infoEffects])
      obtain ⟨res, hres, hfinished⟩ := hremoved
      rw [List.mem_singleton.mp hres] at hfinished
      exact hfinished

/-! ### A step and a run -/

namespace Sweep

/-- As long as the process goes on, the entries from the one at hand on are in the
list, and have only been looked at. -/
structure Ahead (n : ℕ) (q : Sweep) : Prop where
  nodup : q.linked.Nodup
  order : q.linked.Sublist (List.range n)
  linked : q.going = true → ∀ j < n, q.cur ≤ j → j ∈ q.linked
  uses : q.going = true → ∀ j, q.cur ≤ j → ∀ e ∈ q.effects j, e = .use
  running : q.going = true → ∀ j, q.cur ≤ j → ∀ r ∈ q.answers j, r = .running

/-- The actions that are answered reliably. -/
def ReliableAct : SweepAct → Prop
  | .wait res => res.Reliable
  | .unlock => True

variable {n : ℕ} {q t : Sweep}

theorem ahead_start (n : ℕ) : Ahead n (start n) where
  nodup := List.nodup_range
  order := List.Sublist.refl _
  linked := fun _ _ hj _ => List.mem_range.mpr hj
  uses := fun _ _ _ _ he => absurd he List.not_mem_nil
  running := fun _ _ _ _ hr => absurd hr List.not_mem_nil

/-- The entries other than the one at hand stay in the list, or off it. -/
theorem mem_linked_visit (res : WaitResult) {j : ℕ} (hj : j ≠ q.cur) :
    j ∈ (q.visit res).linked ↔ j ∈ q.linked := by
  by_cases hunlink : .unlink ∈ entryEffects res
  · rw [linked_visit_of_mem hunlink]
    exact List.mem_erase_of_ne hj
  · rw [linked_visit_of_notMem hunlink]

theorem cur_mem_linked_visit (hq : Ahead n q) (hgoing : q.going = true) (hlt : q.cur < n)
    (res : WaitResult) : q.cur ∈ (q.visit res).linked ↔ .unlink ∉ entryEffects res := by
  by_cases hunlink : .unlink ∈ entryEffects res
  · rw [linked_visit_of_mem hunlink]
    exact iff_of_false hq.nodup.not_mem_erase (not_not_intro hunlink)
  · rw [linked_visit_of_notMem hunlink]
    exact iff_of_true (hq.linked hgoing _ hlt (Nat.le_refl _)) hunlink

/-- The entry at hand is only looked at while the sweep stays there. -/
theorem ahead_visit (hq : Ahead n q) (hgoing : q.going = true) (res : WaitResult) :
    Ahead n (q.visit res) := by
  by_cases hrunning : res = .running
  · subst hrunning
    have hlinked : (q.visit .running).linked = q.linked := linked_visit_of_notMem (by decide)
    refine ⟨hlinked ▸ hq.nodup, hlinked ▸ hq.order, fun _ => hlinked ▸ hq.linked hgoing, ?_, ?_⟩
    · intro _ j hj e he
      by_cases hcur : j = q.cur
      · rw [hcur, effects_visit_cur, List.mem_append] at he
        exact he.elim (hq.uses hgoing _ (Nat.le_refl _) e) List.mem_singleton.mp
      · rw [effects_visit_of_ne hcur] at he
        exact hq.uses hgoing j hj e he
    · intro _ j hj r hr
      by_cases hcur : j = q.cur
      · rw [hcur, answers_visit_cur, List.mem_append] at hr
        exact hr.elim (hq.running hgoing _ (Nat.le_refl _) r) List.mem_singleton.mp
      · rw [answers_visit_of_ne hcur] at hr
        exact hq.running hgoing j hj r hr
  · have hsub : (q.visit res).linked.Sublist q.linked := by
      by_cases hunlink : .unlink ∈ entryEffects res
      · rw [linked_visit_of_mem hunlink]
        exact List.erase_sublist
      · rw [linked_visit_of_notMem hunlink]
    refine ⟨hsub.nodup hq.nodup, hsub.trans hq.order, ?_, ?_, ?_⟩
    · intro _ j hj hle
      rw [cur_visit_of_ne hrunning] at hle
      rw [mem_linked_visit res (by omega)]
      exact hq.linked hgoing j hj (by omega)
    · intro _ j hle
      rw [cur_visit_of_ne hrunning] at hle
      rw [effects_visit_of_ne (by omega)]
      exact hq.uses hgoing j (by omega)
    · intro _ j hle
      rw [cur_visit_of_ne hrunning] at hle
      rw [answers_visit_of_ne (by omega)]
      exact hq.running hgoing j (by omega)

/-- **One step keeps the sweep clean exactly if it is answered reliably.** -/
theorem clean_step_iff (hq : Ahead n q) {a : SweepAct} (h : q.step n a = some t) :
    Ahead n t ∧ (Clean n t ↔ Clean n q ∧ ReliableAct a) := by
  cases a with
  | unlock =>
    obtain ⟨-, rfl⟩ := step_unlock_iff.mp h
    refine ⟨⟨hq.nodup, hq.order, hq.linked, hq.uses, hq.running⟩, ?_⟩
    constructor
    · intro hclean
      exact ⟨⟨hclean.entries, hclean.order⟩, trivial⟩
    · rintro ⟨hclean, -⟩
      exact ⟨hclean.entries, hclean.order⟩
  | wait res =>
    obtain ⟨⟨hgoing, hlt⟩, rfl⟩ := step_wait_iff.mp h
    have huses := hq.uses hgoing q.cur (Nat.le_refl _)
    have hrunning := hq.running hgoing q.cur (Nat.le_refl _)
    have hahead := ahead_visit hq hgoing res
    -- the entry at hand, before the step and after it
    have hbefore : EntryClean (q.cur ∈ q.linked) (q.answers q.cur) (q.effects q.cur) :=
      entryClean_of_uses (hq.linked hgoing _ hlt (Nat.le_refl _)) hrunning huses
    have hafter : EntryClean (q.cur ∈ (q.visit res).linked) ((q.visit res).answers q.cur)
        ((q.visit res).effects q.cur) ↔ res.Reliable := by
      rw [cur_mem_linked_visit hq hgoing hlt, answers_visit_cur, effects_visit_cur,
        entryClean_append_iff hrunning huses, entryClean_entryEffects]
    have hother : ∀ j, j ≠ q.cur →
        (EntryClean (j ∈ (q.visit res).linked) ((q.visit res).answers j)
          ((q.visit res).effects j) ↔ EntryClean (j ∈ q.linked) (q.answers j) (q.effects j)) := by
      intro j hj
      rw [mem_linked_visit res hj, answers_visit_of_ne hj, effects_visit_of_ne hj]
    refine ⟨hahead, ?_⟩
    constructor
    · intro hclean
      refine ⟨⟨?_, hq.order⟩, hafter.mp (hclean.entries _ hlt)⟩
      intro j hj
      by_cases hcur : j = q.cur
      · rw [hcur]
        exact hbefore
      · exact (hother j hcur).mp (hclean.entries j hj)
    · rintro ⟨hclean, hreliable⟩
      refine ⟨?_, hahead.order⟩
      intro j hj
      by_cases hcur : j = q.cur
      · rw [hcur]
        exact hafter.mpr hreliable
      · exact (hother j hcur).mpr (hclean.entries j hj)

theorem clean_start (n : ℕ) : Clean n (start n) where
  entries := fun _ hj => entryClean_of_uses (List.mem_range.mpr hj)
    (fun _ hr => absurd hr List.not_mem_nil) fun _ he => absurd he List.not_mem_nil
  order := List.Sublist.refl _

/-- **A sweep is clean exactly if each of its answers is reliable**, whatever the
list and the answers. -/
theorem clean_iff (alive : List Alive) {acts : List SweepAct}
    (h : runFrom (step alive.length) (start alive.length) acts = some q) :
    Clean alive.length q ↔ ∀ a ∈ acts, ReliableAct a := by
  rw [iff_forall_of_step (Ahead alive.length) (Clean alive.length)
    (fun _ _ _ hq hstep => clean_step_iff hq hstep) (ahead_start _) h,
    and_iff_right (clean_start _)]

/-- Two children, of which the first exited and the second runs. -/
theorem clean_iff_exited :
    ∃ q, runFrom (step 2) (start 2) [.wait (.ended (.exited exitSuccess)), .wait .running] =
        some q ∧
      (Clean 2 q ↔ ∀ a ∈ [.wait (.ended (.exited exitSuccess)), .wait .running], ReliableAct a) :=
  ⟨_, rfl, clean_iff [⟨100, 4⟩, ⟨101, 5⟩] rfl⟩

/-- A child that does not exist, where `info` looks like an exit: its entry is freed
and then used; and one for which `waitpid` is interrupted: its entry is removed. -/
theorem not_clean_stale :
    (∃ q, runFrom (step 1) (start 1) [.wait (.echild (some (.exited exitSuccess)))] = some q ∧
      ¬ Clean 1 q) ∧
    ∃ q, runFrom (step 1) (start 1) [.wait (.failed (some (.exited exitSuccess)))] = some q ∧
      ¬ Clean 1 q := by
  refine ⟨⟨_, rfl, ?_⟩, _, rfl, ?_⟩
  · intro h
    exact absurd (h.entries 0 Nat.one_pos).unused (by decide)
  · intro h
    obtain ⟨res, hres, hfinished⟩ := (h.entries 0 Nat.one_pos).removed.mp (by decide)
    obtain rfl := List.mem_singleton.mp hres
    exact hfinished

end Sweep

end RemoteProcedure
