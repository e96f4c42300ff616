import RemoteProcedure.Connection
import RemoteProcedure.Framing

/-!
# One answer for each request

A child that is not disturbed, and that has something to answer, sends one frame
and ends.  A second one comes from its timer, or from the tracker, when a signal
is late; none comes when the child gives the request up.

## Main definitions

* `Connection.Proper` — the steps that neither lose nor repeat the answer.
* `Connection.Inv` — what has been sent, by where the child is.

## Main results

* `oneAnswer_of_along` — **a request is answered once**, in every run of such
  steps.
-/

namespace RemoteProcedure

open Machine

namespace Connection

/-- A frame that `serialize_answer` builds, of the size it gives. -/
def WellFormed (frame : List Byte) : Prop :=
  ∃ status ret blk size, serializeAnswer true status ret = .ok (some blk, some size) ∧
    blk.contents = some frame ∧ size.toInt = frame.length

/-- A request is answered at most once, by a frame, and exactly once when its
entry is gone. -/
structure OneAnswer (s : Connection) : Prop where
  atMostOne : s.frames.length ≤ 1
  wellFormed : ∀ frame ∈ s.frames, WellFormed frame
  answered : s.tracked = false → s.frames.length = 1

/-- The steps that neither lose nor repeat the answer: the request can be read;
the function returns a value that fits a frame; `send` and the allocations before
it succeed; no signal comes when the answer was sent already; and `waitpid` does
not fail so that the entry is removed all the same. -/
def Proper (s : Connection) : Act → Prop
  | .read alloc client =>
    ∃ msg, readMsg alloc.request alloc.message .unset client = .ok (some msg)
  | .execute alloc => alloc = .granted ∧ ∀ f msg, s.pc = .executing f msg →
    ∃ a, f.function.funPtr.apply (msg.argv.map RpcArg.data) = some a ∧
      ∀ str, a = .str str → str.length + 7 < 2 ^ 31
  | .send granted r => granted = true ∧ r = .accepted
  | .alarm => s.frames = []
  | .kill _ => s.frames = []
  | .sweep (.echild _) _ _ => False
  | .sweep (.failed info) _ _ => info = none
  | .sweep _ granted r => granted = true ∧ r = .accepted
  | _ => True

end Connection

/-- The answer has been sent by the child. -/
def ChildPc.answered : ChildPc → Bool
  | refused => true
  | leaving _ => true
  | ended (.exited _) => true
  | _ => false

/-- What a child has established on its way. -/
def ChildPc.Ready (memory : Memory FunPtr) : ChildPc → Prop
  | verifying f _ => ∃ g ∈ memory.fmap, f = some g
  | executing f msg => f ∈ memory.fmap ∧ f.Accepts msg
  | sending e => ∃ frame, Connection.WellFormed frame ∧ send true e.ret e.size = .ok (some frame)
  | refusing c => c ≠ rpcRetOk
  | undefined => False
  | _ => True

namespace Connection

/-- What holds of a connection between any two steps. -/
structure Inv (memory : Memory FunPtr) (s : Connection) : Prop where
  ready : s.pc.Ready memory
  wellFormed : ∀ frame ∈ s.frames, WellFormed frame
  frames : s.tracked = true → s.frames.length = if s.pc.answered then 1 else 0
  swept : s.tracked = false → s.frames.length = 1 ∧ s.pc.alive = false
  fdOpen : s.pc.answered = false → s.fdOpen = true

variable {memory : Memory FunPtr} {s t : Connection}

theorem wellFormed_status {c : Byte} (h : c ≠ rpcRetOk) : WellFormed (answerFrame c none) :=
  ⟨c, none, _, _, serializeAnswer_status h, Block.contents_map _, rfl⟩

theorem wellFormed_value {a : RpcArg} (ha : a.Defined) (hsize : (encodeArg a).length + 5 < 2 ^ 31) :
    WellFormed (answerFrame rpcRetOk (some a)) := by
  have hframe := length_answerFrame rpcRetOk a
  exact ⟨_, _, _, _, serializeAnswer_value ha hsize, Block.contents_map _,
    toInt_ofNat_of_lt (by omega)⟩

theorem inv_init : Inv memory init :=
  ⟨trivial, fun _ h => absurd h List.not_mem_nil, fun _ => rfl, fun h => (nomatch h), fun _ => rfl⟩

/-- The entry of a child is there as long as the child. -/
theorem Inv.tracked (h : Inv memory s) (halive : s.pc.alive = true) : s.tracked = true := by
  by_contra hswept
  have hdead := (h.swept (Bool.eq_false_iff.mpr hswept)).2
  rw [halive] at hdead
  cases hdead

/-- A connection whose child goes on without sending. -/
theorem Inv.advance (h : Inv memory s) {old : ChildPc} (hold : s.pc = old)
    (halive : old.alive = true) (hsent : old.answered = false) (pc : ChildPc)
    (hready : pc.Ready memory) (hpc : pc.answered = false) (timer : Timer) :
    Inv memory { s with pc, timer } where
  ready := hready
  wellFormed := h.wellFormed
  frames htracked := by
    have hframes := h.frames htracked
    rw [hold, hsent] at hframes
    rw [hpc]
    exact hframes
  swept hswept := absurd (h.tracked (by rw [hold]; exact halive)) (Bool.eq_false_iff.mp hswept)
  fdOpen _ := h.fdOpen (by rw [hold]; exact hsent)

/-- A connection whose child has sent its answer. -/
theorem Inv.send (h : Inv memory s) {old : ChildPc} (hold : s.pc = old)
    (halive : old.alive = true) (hsent : old.answered = false) (pc : ChildPc)
    (hready : pc.Ready memory) (hpc : pc.answered = true) {frame : List Byte}
    (hframe : WellFormed frame) : Inv memory { s with pc, frames := s.frames ++ [frame] } where
  ready := hready
  wellFormed f hf := by
    rcases List.mem_append.mp hf with hf | hf
    · exact h.wellFormed f hf
    · rw [List.mem_singleton.mp hf]
      exact hframe
  frames htracked := by
    have hframes := h.frames htracked
    rw [hold, hsent] at hframes
    rw [hpc, List.length_append, hframes]
    rfl
  swept hswept := absurd (h.tracked (by rw [hold]; exact halive)) (Bool.eq_false_iff.mp hswept)
  fdOpen hnot := by
    rw [hpc] at hnot
    cases hnot

/-- A connection whose child goes on after sending. -/
theorem Inv.settle (h : Inv memory s) {old : ChildPc} (hold : s.pc = old)
    (halive : old.alive = true) (hsent : old.answered = true) (pc : ChildPc)
    (hready : pc.Ready memory) (hpc : pc.answered = true) (fdOpen : Bool) :
    Inv memory { s with pc, fdOpen } where
  ready := hready
  wellFormed := h.wellFormed
  frames htracked := by
    have hframes := h.frames htracked
    rw [hold, hsent] at hframes
    rw [hpc]
    exact hframes
  swept hswept := absurd (h.tracked (by rw [hold]; exact halive)) (Bool.eq_false_iff.mp hswept)
  fdOpen hnot := by
    rw [hpc] at hnot
    cases hnot

theorem Inv.unanswered (h : Inv memory s) (halive : s.pc.alive = true) (hnil : s.frames = []) :
    s.pc.answered = false := by
  have hframes := h.frames (h.tracked halive)
  rw [hnil] at hframes
  cases hanswered : s.pc.answered with
  | false => rfl
  | true =>
    rw [hanswered] at hframes
    cases hframes

/-! ### The steps keep it -/

theorem ready_search (memory : Memory FunPtr) (msg : Message) :
    (ChildPc.search memory msg).Ready memory ∧ (ChildPc.search memory msg).answered = false := by
  rw [ChildPc.search, searchFunction_eq]
  cases hget : getFunction (some memory) msg.commandString with
  | none => exact ⟨(by decide : rpcRetUnknownFunc ≠ rpcRetOk), rfl⟩
  | some f => exact ⟨⟨f, mem_of_getFunction hget, rfl⟩, rfl⟩

theorem ready_verify {f : FunctionMapper FunPtr} (hf : f ∈ memory.fmap) (msg : Message) :
    (ChildPc.verify (some f) msg).Ready memory ∧
      (ChildPc.verify (some f) msg).answered = false := by
  rcases verificationFunction_eq f msg with ⟨haccepts, hverify⟩ | ⟨-, status, hstatus, hverify⟩
  · simp only [ChildPc.verify, hverify]
    exact ⟨⟨hf, haccepts⟩, rfl⟩
  · simp only [ChildPc.verify, hverify]
    exact ⟨hstatus, rfl⟩

/-- A call whose value fits a frame is executed up to its `send`. -/
theorem ready_execute (memory : Memory FunPtr) {f : FunctionMapper FunPtr} {msg : Message}
    (hfun : f.function.funPtr.returns = f.function.returnType) (haccepts : f.Accepts msg)
    {a : RpcArg} (ha : f.function.funPtr.apply (msg.argv.map RpcArg.data) = some a)
    (hstr : ∀ str, a = .str str → str.length + 7 < 2 ^ 31) :
    (ChildPc.execute .granted f msg).Ready memory ∧
      (ChildPc.execute .granted f msg).answered = false := by
  rw [ChildPc.execute]
  rcases lt_or_ge msg.argc.toInt 0 with hneg | hargc
  · obtain ⟨status, hstatus, hexecute⟩ := executeFunction_of_negative .granted f.function hneg
    rw [hexecute]
    exact ⟨hstatus, rfl⟩
  · have hdefined := (FunPtr.apply_typ ha).1
    have hsize := length_encodeArg_lt hdefined hstr
    rw [executeFunction_of_accepts haccepts hfun hargc ha, serializeAnswer_value hdefined hsize]
    exact ⟨⟨_, wellFormed_value hdefined hsize, send_answerFrame hsize⟩, rfl⟩

theorem inv_sendAnswerStep (h : Inv memory s) {e : Executed} (hpc : s.pc = .sending e) :
    Inv memory (s.sendAnswerStep .accepted e) := by
  have hready := h.ready
  rw [hpc] at hready
  obtain ⟨frame, hframe, hsend⟩ := hready
  have haccepted : Machine.send SendResult.accepted.isAccepted e.ret e.size = .ok (some frame) :=
    hsend
  rw [sendAnswerStep, haccepted]
  exact h.send hpc rfl rfl (.leaving exitSuccess) trivial rfl hframe

theorem inv_sendErrorStep (h : Inv memory s) {c : Byte} (hpc : s.pc = .refusing c) :
    Inv memory (s.sendErrorStep true .accepted c) := by
  have hready := h.ready
  rw [hpc] at hready
  have hopen := h.fdOpen (by rw [hpc]; rfl)
  have hsend : sendError { Allocator.granted with answer := true }
      (s.through .accepted).isAccepted c =
        .ok ⟨exitSuccess, some (answerFrame c none), []⟩ := by
    rw [through, if_pos hopen]
    exact sendError_granted hready
  rw [sendErrorStep, hsend]
  exact h.send hpc rfl rfl .refused trivial rfl (wellFormed_status hready)

/-- **The tracker answers for the child that was killed**, and for no other. -/
theorem inv_sweepStep (h : Inv memory s) (htracked : s.tracked = true) {res : WaitResult}
    {granted : Bool} {r : SendResult} (hproper : s.Proper (.sweep res granted r))
    (hanswers : s.answers res = true) {swept : Swept} (hswept : sweepEntry res = .ok swept) :
    Inv memory (s.sweepStep granted r swept) := by
  have hframes := h.frames htracked
  have hkeep : Inv memory { s with tracked := true } := by
    rw [← htracked]
    exact h
  cases res with
  | echild info => exact hproper.elim
  | running =>
    cases hswept
    exact hkeep
  | failed info =>
    obtain rfl : info = none := hproper
    cases hswept
    exact hkeep
  | ended e =>
    obtain ⟨rfl, rfl⟩ : granted = true ∧ r = .accepted := hproper
    have hpc : s.pc = .ended e := by
      simp only [answers] at hanswers
      split at hanswers
      · next e' hpc =>
        obtain rfl := of_decide_eq_true hanswers
        exact hpc
      · cases hanswers
    have hdead : s.pc.alive = false := by rw [hpc]; rfl
    rw [hpc] at hframes
    cases e with
    | exited status =>
      cases hswept
      exact ⟨h.ready, h.wellFormed, fun hno => (nomatch hno), fun _ => ⟨hframes, hdead⟩, h.fdOpen⟩
    | signaled sig =>
      cases hswept
      have hnil : s.frames = [] := List.length_eq_zero_iff.mp hframes
      have hsend : sendError { Allocator.granted with answer := true }
          SendResult.accepted.isAccepted rpcRetNoAnswer =
          .ok ⟨exitSuccess, some (answerFrame rpcRetNoAnswer none), []⟩ :=
        sendError_granted (by decide)
      simp only [sweepStep, hsend, hnil]
      refine ⟨h.ready, ?_, fun hno => (nomatch hno), fun _ => ⟨rfl, hdead⟩, h.fdOpen⟩
      intro f hf
      rw [List.mem_singleton.mp hf]
      exact wellFormed_status (by decide)

/-- **One such step loses and repeats nothing.** -/
theorem inv_step (hfun : ∀ f ∈ memory.fmap, f.function.funPtr.returns = f.function.returnType)
    (h : Inv memory s) {a : Act} (hproper : s.Proper a) (hstep : s.step memory a = some t) :
    Inv memory t := by
  cases step_cases hstep with
  | setTimeout hpc => exact h.advance hpc rfl rfl .reading trivial rfl _
  | read hpc =>
    obtain ⟨msg, hread⟩ := hproper
    rw [ChildPc.read, hread]
    exact h.advance hpc rfl rfl (.searching msg) trivial rfl _
  | @search msg hpc =>
    obtain ⟨hready, hsent⟩ := ready_search memory msg
    exact h.advance hpc rfl rfl _ hready hsent _
  | @verify f msg hpc =>
    have hf := h.ready
    rw [hpc] at hf
    obtain ⟨g, hg, rfl⟩ := hf
    obtain ⟨hready, hsent⟩ := ready_verify hg msg
    exact h.advance hpc rfl rfl _ hready hsent _
  | @execute alloc f msg hpc =>
    have hf := h.ready
    rw [hpc] at hf
    obtain ⟨rfl, hvalue⟩ := hproper
    obtain ⟨a, ha, hstr⟩ := hvalue f msg hpc
    obtain ⟨hready, hsent⟩ := ready_execute memory (hfun f hf.1) hf.2 ha hstr
    exact h.advance hpc rfl rfl _ hready hsent _
  | @sendAnswer granted r e hpc =>
    obtain ⟨rfl, rfl⟩ : granted = true ∧ r = .accepted := hproper
    exact inv_sendAnswerStep h hpc
  | @sendError granted r c hpc =>
    obtain ⟨rfl, rfl⟩ : granted = true ∧ r = .accepted := hproper
    exact inv_sendErrorStep h hpc
  | close hpc => exact h.settle hpc rfl rfl (.leaving exitSuccess) trivial rfl false
  | @exit status hpc => exact h.settle hpc rfl rfl (.ended (.exited status)) trivial rfl _
  | wreck hpc =>
    have hready := h.ready
    rw [hpc] at hready
    exact hready.elim
  | alarm halive htimer =>
    -- the handler answers in place of the child
    exact h.advance rfl halive (h.unanswered halive hproper) (.refusing rpcRetNoAnswer)
      (by decide : rpcRetNoAnswer ≠ rpcRetOk) rfl .spent
  | @kill sig halive hsig =>
    exact h.advance rfl halive (h.unanswered halive hproper) (.ended (.signaled sig)) trivial rfl _
  | swept htracked hanswers hswept => exact inv_sweepStep h htracked hproper hanswers hswept
  | @crashed res granted r e herror =>
    rcases Server.sweepEntry_cases res with ⟨e', rfl, -⟩ | ⟨swept, hswept, -⟩
    · exact hproper.elim
    · cases hswept.symm.trans herror

/-- **A request is answered once**, in every run of such steps, by a server whose
functions return what they are declared to. -/
theorem oneAnswer_of_along
    (hfun : ∀ f ∈ memory.fmap, f.function.funPtr.returns = f.function.returnType)
    {acts : List Act} (hproper : Along (step memory) Proper init acts)
    (h : runFrom (step memory) init acts = some t) : t.OneAnswer := by
  have hstep : ∀ (s : Connection) a t, Inv memory s → s.Proper a → s.step memory a = some t →
      Inv memory t := by
    intro s a t hs hok hstep
    exact inv_step hfun hs hok hstep
  have hinv : Inv memory t := invariant_of_along (Inv memory) hstep inv_init hproper h
  refine ⟨?_, hinv.wellFormed, fun hswept => (hinv.swept hswept).1⟩
  cases htracked : t.tracked with
  | false => exact Nat.le_of_eq (hinv.swept htracked).1
  | true =>
    rw [hinv.frames htracked]
    split_ifs
    · exact Nat.le_refl 1
    · exact Nat.zero_le 1

/-- A call of a function that the server does not have, and the timer just after
the error was sent. -/
def lateAlarm : List Act :=
  [.setTimeout true, .read .granted ⟨requestFrame callF, []⟩, .search, .send true .accepted, .alarm,
    .send true .accepted]

/-- A request with an argument of type 7, and the sweep after the child gave it
up. -/
def badRequest : List Act :=
  [.setTimeout true,
    .read .granted ⟨[11, 0, 0, 0, 1, 0, 0, 0, 0x66, rpcTyInt, 1, 0, 0, 0, 7], []⟩,
    .exit, .sweep (.ended (.exited exitFailure)) true .accepted]

/-- The first is answered twice, and the second is not answered. -/
theorem not_oneAnswer_lateAlarm :
    (¬ ∀ (memory : Memory FunPtr) (acts : List Act) (t : Connection),
      runFrom (step memory) init acts = some t → t.OneAnswer) ∧
    (∃ t, runFrom (step .zero) init lateAlarm = some t ∧ t.frames.length = 2) ∧
    ∃ t, runFrom (step .zero) init badRequest = some t ∧ t.tracked = false ∧ t.frames = [] := by
  refine ⟨?_, ⟨_, rfl, rfl⟩, ⟨_, rfl, rfl, rfl⟩⟩
  intro h
  have hlate := h .zero lateAlarm _ rfl
  exact absurd hlate.atMostOne (by decide)

/-- The same call, without the timer, up to its sweep. -/
def refusedCall : List Act :=
  [.setTimeout true, .read .granted ⟨requestFrame callF, []⟩, .search, .send true .accepted, .close,
    .exit, .sweep (.ended (.exited exitSuccess)) true .accepted]

theorem oneAnswer_of_along_refusedCall :
    ∃ t, runFrom (step .zero) init refusedCall = some t ∧ t.OneAnswer := by
  have hproper : Along (step .zero) Proper init refusedCall := by
    apply along_of_forall
    intro a ha s
    simp only [refusedCall, List.mem_cons, List.not_mem_nil, or_false] at ha
    rcases ha with rfl | rfl | rfl | rfl | rfl | rfl | rfl
    · trivial
    · exact ⟨callF, rfl⟩
    · trivial
    · exact ⟨rfl, rfl⟩
    · trivial
    · trivial
    · exact ⟨rfl, rfl⟩
  exact ⟨_, rfl, oneAnswer_of_along (fun f hf => absurd hf List.not_mem_nil) hproper rfl⟩

end Connection

end RemoteProcedure
