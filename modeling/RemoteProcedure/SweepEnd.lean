import RemoteProcedure.Sweep

/-!
# Where a sweep ends

The sweep moves on to the successor at the end of its body.  For a child that
still runs it goes back to the head of the loop before that, with the mutex held.

## Main definitions

* `sweepAfter` — the sweep after some steps, when each entry has its answer.
* `SweepEnds` — it comes to the end of the list and gives the mutex back.

## Main results

* `sweepEnds_iff` — **a sweep ends exactly if no child runs or was killed**, and
  `waitpid` does not fail with an `info` that looks as if.
-/

namespace RemoteProcedure

open Machine

/-- The answers after which the sweep is at the next entry. -/
def WaitResult.Passed : WaitResult → Prop
  | .running => False
  | .ended (.signaled _) => False
  | .echild info => info = none
  | .failed (some (.signaled _)) => False
  | _ => True

theorem passed_iff (res : WaitResult) : res.Passed ↔ res ≠ .running ∧ goesOn res = true := by
  rcases res with _ | (_ | _) | (_ | _ | _) | (_ | _ | _) <;>
    simp [WaitResult.Passed, goesOn, usedAfterFree, entryEffects, infoEffects, Effect.leaves]

namespace Sweep

/-- What the sweep does next when entry `j` is answered with `answer j`. -/
def nextAct (n : ℕ) (answer : ℕ → WaitResult) (q : Sweep) : SweepAct :=
  if q.cur < n then .wait (answer q.cur) else .unlock

/-- The sweep of `n` entries after `k` steps. -/
def sweepAfter (n : ℕ) (answer : ℕ → WaitResult) : ℕ → Option Sweep
  | 0 => some (start n)
  | k + 1 => (sweepAfter n answer k).bind fun q => q.step n (q.nextAct n answer)

/-- After some steps the sweep is at the end of the list, the mutex is released,
and `waitpid` was called at most once for each entry. -/
def SweepEnds (alive : List Alive) (answer : ℕ → WaitResult) : Prop :=
  ∃ k q, sweepAfter alive.length answer k = some q ∧ q.cur = alive.length ∧ q.held = false ∧
    ∀ j, (q.answers j).length ≤ 1

variable {n : ℕ} {answer : ℕ → WaitResult} {q q' : Sweep}

theorem nextAct_cases (h : q.step n (q.nextAct n answer) = some q') :
    q.going = true ∧ (q.cur < n ∧ q' = q.visit (answer q.cur) ∨
      n ≤ q.cur ∧ q' = { q with held := false }) := by
  rw [nextAct] at h
  split_ifs at h with hlt
  · obtain ⟨⟨hgoing, -⟩, rfl⟩ := step_wait_iff.mp h
    exact ⟨hgoing, .inl ⟨hlt, rfl⟩⟩
  · obtain ⟨⟨hgoing, hle, -⟩, rfl⟩ := step_unlock_iff.mp h
    exact ⟨hgoing, .inr ⟨hle, rfl⟩⟩

/-! ### A sweep that ended -/

/-- **What lies behind the sweep was passed**, unless the process ended over it; and
the mutex is held up to the end of the list. -/
theorem passed_of_sweepAfter : ∀ {k : ℕ} {q : Sweep}, sweepAfter n answer k = some q →
    (q.going = true → ∀ j < q.cur, (answer j).Passed) ∧
      (q.held = false → q.going = true ∧ n ≤ q.cur) := by
  intro k
  induction k with
  | zero =>
    intro q h
    cases h
    exact ⟨fun _ j hj => absurd hj (Nat.not_lt_zero j), fun hheld => nomatch hheld⟩
  | succ k ih =>
    intro q' h
    obtain ⟨q, hq, hstep⟩ := Option.bind_eq_some_iff.mp h
    obtain ⟨hpassed, hheld⟩ := ih hq
    obtain ⟨hgoing, ⟨hlt, rfl⟩ | ⟨hle, rfl⟩⟩ := nextAct_cases hstep
    · refine ⟨?_, fun hreleased => absurd (hheld hreleased).2 (Nat.not_le_of_lt hlt)⟩
      intro hgoes j hj
      by_cases hrunning : answer q.cur = .running
      · rw [visit, if_pos hrunning] at hj
        exact hpassed hgoing j hj
      · rw [visit, if_neg hrunning] at hj
        rcases Nat.lt_succ_iff_lt_or_eq.mp hj with hj | rfl
        · exact hpassed hgoing j hj
        · exact (passed_iff _).mpr ⟨hrunning, hgoes⟩
    · exact ⟨hpassed, fun _ => ⟨hgoing, hle⟩⟩

theorem passed_of_sweepEnds {alive : List Alive} (h : SweepEnds alive answer) :
    ∀ j < alive.length, (answer j).Passed := by
  obtain ⟨k, q, hq, hcur, hheld, -⟩ := h
  obtain ⟨hpassed, hreleased⟩ := passed_of_sweepAfter hq
  rw [← hcur]
  exact hpassed (hreleased hheld).1

/-! ### A sweep that ends -/

/-- The sweep has had one answer for each entry behind it. -/
structure OnceEach (answer : ℕ → WaitResult) (k : ℕ) (q : Sweep) : Prop where
  cur : q.cur = k
  going : q.going = true
  held : q.held = true
  answers : ∀ j, q.answers j = if j < k then [answer j] else []

theorem onceEach_visit {k : ℕ} (hq : OnceEach answer k q) (hpassed : (answer k).Passed) :
    OnceEach answer (k + 1) (q.visit (answer k)) := by
  obtain ⟨hrunning, hgoes⟩ := (passed_iff _).mp hpassed
  refine ⟨?_, hgoes, hq.held, ?_⟩
  · rw [visit, if_neg hrunning, hq.cur]
  · intro j
    by_cases hj : j = q.cur
    · have hcur := hq.cur
      subst hj
      rw [← hcur, answers_visit_cur, hq.answers, hcur, if_neg (Nat.lt_irrefl _),
        if_pos (Nat.lt_succ_self _)]
      rfl
    · rw [answers_visit_of_ne hj, hq.answers]
      rw [hq.cur] at hj
      congr 1
      exact propext (by omega)

/-- **As long as the entries are passed each step is about the next one.** -/
theorem exists_onceEach (h : ∀ j < n, (answer j).Passed) : ∀ {k : ℕ}, k ≤ n →
    ∃ q, sweepAfter n answer k = some q ∧ OnceEach answer k q := by
  intro k
  induction k with
  | zero => exact fun _ => ⟨start n, rfl, rfl, rfl, rfl, fun _ => rfl⟩
  | succ k ih =>
    intro hk
    obtain ⟨q, hq, honce⟩ := ih (Nat.le_of_succ_le hk)
    refine ⟨q.visit (answer k), ?_, onceEach_visit honce (h k hk)⟩
    have hlt : q.cur < n := by
      rw [honce.cur]
      exact hk
    rw [sweepAfter, hq, Option.bind_some, nextAct, if_pos hlt, step_wait_iff, honce.cur]
    exact ⟨⟨honce.going, hk⟩, rfl⟩

/-- **A sweep ends, with each entry asked for at most once, exactly if every answer
lets it pass**, for every list and every assignment of answers. -/
theorem sweepEnds_iff (alive : List Alive) (answer : ℕ → WaitResult) :
    SweepEnds alive answer ↔ ∀ j < alive.length, (answer j).Passed := by
  constructor
  · exact passed_of_sweepEnds
  · intro h
    obtain ⟨q, hq, honce⟩ := exists_onceEach h (Nat.le_refl _)
    refine ⟨alive.length + 1, { q with held := false }, ?_, honce.cur, rfl, ?_⟩
    · have hend : ¬ q.cur < alive.length := by
        rw [honce.cur]
        exact Nat.lt_irrefl _
      rw [sweepAfter, hq, Option.bind_some, nextAct, if_neg hend, step_unlock_iff]
      exact ⟨⟨honce.going, Nat.le_of_not_lt hend, honce.held⟩, rfl⟩
    · intro j
      rw [honce.answers]
      split_ifs
      · exact Nat.le_refl _
      · exact Nat.zero_le _

/-- One child that still runs: the sweep asks for it again and again. -/
theorem not_sweepEnds_running : ¬ SweepEnds [⟨100, 4⟩] fun _ => .running := by
  intro h
  exact passed_of_sweepEnds h 0 Nat.one_pos

end Sweep

end RemoteProcedure
