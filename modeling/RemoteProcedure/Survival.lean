import RemoteProcedure.Server

/-!
# What ends the server

`send_error` ends the process that calls it.  In a child that is the point; the
tracker calls it too, in the server, for a child that was killed.

## Main definitions

* `Server.Harmless` — the steps that leave the server running.

## Main results

* `running_iff_along` — **the server survives a run exactly if every step of it
  is harmless.**
-/

namespace RemoteProcedure

open Machine

namespace Server

/-- The steps that do not end the server: `waitpid` does not tell of a child that
was killed; where it fails, `info` does not look as if it did, nor, after
`ECHILD`, like any end; an entry is allocated; and no signal comes. -/
def Harmless : Act → Prop
  | .loop (.track granted) => granted = true
  | .tracker (.wait (.ended (.signaled _)) _ _) => False
  | .tracker (.wait (.failed (some (.signaled _))) _ _) => False
  | .tracker (.wait (.echild info) _ _) => info = none
  | .signal _ => False
  | _ => True

variable {s t : Server}

theorem wait_running_iff (hs : s.process = .running) {res : WaitResult} {granted : Bool}
    {r : SendResult} (h : s.checkClientTrack (.wait res granted r) = some t) :
    t.process = .running ↔ Harmless (.tracker (.wait res granted r)) := by
  obtain ⟨i, p, -, -, -, ⟨swept, hswept, rfl⟩ | ⟨e, herror, rfl⟩⟩ := wait_cases h
  · rcases sweepEntry_cases res with ⟨e, -, herror⟩ | ⟨swept', hswept', hanswer⟩
    · rw [hswept] at herror
      cases herror
    rw [hswept] at hswept'
    cases hswept'
    rcases hanswer with hnone | ⟨hsome, -, -, sig, rfl | rfl⟩
    · have hprocess := (applySwept_of_none hnone s i p res granted r).1
      refine iff_of_true (hprocess.trans hs) ?_
      -- the results left are those that call nothing
      cases res with
      | running => trivial
      | ended e =>
        cases e with
        | exited status => trivial
        | signaled sig => cases hswept; cases hnone
      | echild info =>
        cases info with
        | none => rfl
        | some e => cases e <;> cases hswept
      | failed info =>
        cases info with
        | none => trivial
        | some e =>
          cases e with
          | exited status => trivial
          | signaled sig => cases hswept; cases hnone
    · exact iff_of_false (applySwept_of_some hsome s i p _ granted r) id
    · exact iff_of_false (applySwept_of_some hsome s i p _ granted r) id
  · rcases sweepEntry_cases res with ⟨e', rfl, -⟩ | ⟨swept, hswept, -⟩
    · exact iff_of_false (fun hcrashed => nomatch hcrashed) fun hinfo => nomatch hinfo
    · rw [hswept] at herror
      cases herror

/-- **One step keeps the server running exactly if it is harmless.** -/
theorem step_running_iff (hs : s.process = .running) {a : Act} (h : s.step a = some t) :
    t.process = .running ↔ Harmless a := by
  rw [step_of_running hs] at h
  cases a with
  | loop a =>
    rcases loopServer_process h with ⟨hprocess, ha⟩ | ⟨hprocess, rfl⟩
    · refine iff_of_true (hprocess.trans hs) ?_
      cases a with
      | track granted => cases granted with
        | true => rfl
        | false => exact absurd rfl ha
      | _ => trivial
    · rw [hprocess]
      exact iff_of_false (fun hcrashed => nomatch hcrashed) fun hgranted => nomatch hgranted
  | tracker a =>
    cases a with
    | wait res granted r => exact wait_running_iff hs h
    | _ =>
      have hprocess := (checkClientTrack_frame h fun _ _ _ => by simp).1
      exact iff_of_true (hprocess.trans hs) trivial
  | child son e =>
    simp only at h
    split_ifs at h
    cases h
    exact iff_of_true hs trivial
  | signal sig =>
    cases h
    exact iff_of_false (fun hexited => nomatch hexited) id

/-- **The server survives a run exactly if every step of it is harmless.** -/
theorem running_iff_along {acts : List Act} (h : runFrom step init acts = some t) :
    t.process = .running ↔ Along step (fun _ a => Harmless a) init acts :=
  iff_along_of_step (fun s => s.process = .running)
    (fun _ _ _ hs hstep => step_running_iff hs hstep)
    (fun _ a hs => step_of_not_running hs a) rfl h

theorem running_iff_along_servedRun :
    ∃ t, runFrom step init servedRun = some t ∧
      (t.process = .running ↔ Along step (fun _ a => Harmless a) init servedRun) :=
  ⟨_, rfl, running_iff_along rfl⟩

/-- A client that makes its child divide by zero. -/
def divisionRun : List Act :=
  [.loop (.accept (some 4)), .loop (.fork (some 100)), .loop (.lock true), .loop (.track true),
    .loop (.unlock true), .child 100 (.signaled 8), .tracker .top, .tracker (.lock true),
    .tracker (.wait (.ended (.signaled 8)) true .accepted)]

/-- The sweep after it ends the server: nobody called `shutdown`, and no signal
came. -/
theorem not_running_divisionRun :
    ¬ ∀ acts : List Act, (∀ sig, .signal sig ∉ acts) →
      ∀ t, runFrom step init acts = some t → t.process = .running := by
  intro h
  have hend := h divisionRun (by simp [divisionRun]) _ rfl
  exact absurd hend (by decide)

end Server

end RemoteProcedure
