import RemoteProcedure.Answer

/-!
# Where the decoder of answers stays inside the answer

`deserialize_answer` tests the size of the answer for its first two bytes.  An
integer behind them is read by its own length byte, and the length of a string
is what the size leaves when three bytes are taken off.

## Main definitions

* `AnswerStaysInside` — no allocation lets the decoder leave the answer.
* `answerInFrame` — a check of the bytes alone.

## Main results

* `answerStaysInside_iff` — **the decoder stays inside exactly the answers that
  pass the check**.
-/

namespace RemoteProcedure

open Machine

/-- Is a value of an answer, with its type, as long as the decoder takes it to
be. -/
def valueInFrame : List Byte → Bool
  | [] => true
  | typ :: t =>
    if typ = rpcTyInt then integerWhole t
    -- the length byte is not read, but it is counted
    else if typ = rpcTyStr then decide (t ≠ [])
    else true

/-- Is an answer as long as the decoder takes it to be. -/
def answerInFrame : List Byte → Bool
  | [] => true
  | status :: t => if status = rpcRetOk then valueInFrame t else true

/-- Whatever the allocation does, and whether there is a place for the value, the
decoder neither reads beyond these bytes nor copies a negative number of them. -/
def AnswerStaysInside (size : CInt) (bytes : List Byte) : Prop :=
  ∀ (granted : Bool) (ret : Option Unit),
    deserializeAnswer granted ret size (some (bytes.map some)) ≠ .error .outOfRange

section

variable {size : CInt} {bytes : List Byte}

theorem drop_front (status typ : Byte) (t : List Byte) :
    ((status :: typ :: t).map some).drop 0 = some status :: some typ :: t.map some := rfl

/-- Without a place for the value nothing is read. -/
theorem deserializeAnswer_null (granted : Bool) (size : CInt)
    (serializedRet : Option (Buffer Byte)) :
    deserializeAnswer granted none size serializedRet = .ok (.untouched (-1)) := by
  unfold deserializeAnswer
  split <;> rfl

/-- A size below two, or another status, ends the decoder with at most one byte
read. -/
theorem deserializeAnswer_of_status {status : Byte} {t : List Byte}
    (hsize : (status :: t).length = size.toInt.toNat) (h : status = rpcRetOk → t = [])
    (granted : Bool) :
    ∃ answered, deserializeAnswer granted (some ()) size (some ((status :: t).map some)) =
      .ok (.untouched answered) := by
  have hread : Buffer.read ((status :: t).map some) 0 = .ok status := Buffer.read_of_drop rfl
  simp only [List.length_cons] at hsize
  rw [deserializeAnswer, if_neg (by omega)]
  simp only
  rw [hread, Checked.ok_bind]
  by_cases hok : status = rpcRetOk
  · have hnil := h hok
    subst hnil
    rw [if_pos hok, if_pos (by rw [List.length_nil] at hsize; omega)]
    exact ⟨_, rfl⟩
  · rw [if_neg hok]
    exact ⟨_, rfl⟩

/-- An integer is read inside the answer exactly if it is as long as it says. -/
theorem int_iff {t : List Byte} (hsize : (rpcRetOk :: rpcTyInt :: t).length = size.toInt.toNat) :
    (∀ granted, deserializeAnswer granted (some ()) size
      (some ((rpcRetOk :: rpcTyInt :: t).map some)) ≠ .error .outOfRange) ↔
    integerWhole t = true := by
  have hvalue : ((rpcRetOk :: rpcTyInt :: t).map some).drop 2 = t.map some ++ [] :=
    (List.append_nil _).symm
  simp only [List.length_cons] at hsize
  have htwo : 2 ≤ size.toInt := by omega
  cases hwhole : integerWhole t with
  | true =>
    refine iff_of_true ?_ rfl
    intro granted
    rw [deserializeAnswer_of_typ granted htwo (drop_front _ _ _), if_pos rfl]
    cases granted with
    | false =>
      intro hfault
      cases hfault
    | true =>
      obtain ⟨len, c, t, rfl, hroom⟩ := cells_of_integerWhole hwhole
      obtain ⟨v, hv⟩ := deserializeInteger_of_cells hvalue (Buffer.auditLength_false _ _) hroom
      rw [if_pos rfl, hv]
      exact Checked.ok_ne_error _ _
  | false =>
    refine iff_of_false ?_ (by decide)
    intro h
    apply h true
    rw [deserializeAnswer_of_typ true htwo (drop_front _ _ _), if_pos rfl, if_pos rfl,
      deserializeInteger_of_end hwhole hvalue rfl]
    rfl

/-- A string is copied from inside the answer exactly if there is a length byte in
front of it. -/
theorem str_iff {t : List Byte} (hsize : (rpcRetOk :: rpcTyStr :: t).length = size.toInt.toNat) :
    (∀ granted, deserializeAnswer granted (some ()) size
      (some ((rpcRetOk :: rpcTyStr :: t).map some)) ≠ .error .outOfRange) ↔ t ≠ [] := by
  simp only [List.length_cons] at hsize
  have hlt := toInt_lt_two_pow size
  have hn : size = BitVec.ofNat 32 (t.length + 2) := by
    apply BitVec.eq_of_toInt_eq
    rw [toInt_ofNat_of_lt (by omega)]
    omega
  rcases t with _ | ⟨len, t⟩
  · -- the length is -1, for which an empty block is allocated
    refine iff_of_false ?_ (fun hne => hne rfl)
    intro h
    apply h true
    rw [hn]
    rfl
  · refine iff_of_true ?_ (List.cons_ne_nil len t)
    have hcells : ((rpcRetOk :: rpcTyStr :: len :: t).map some).drop 3 = t.map some ++ [] :=
      (List.append_nil _).symm
    intro granted
    cases granted with
    | false =>
      rw [deserializeAnswer_of_typ false (by omega) (drop_front _ _ _), if_neg (by decide),
        if_pos rfl]
      exact Checked.ok_ne_error _ _
    | true =>
      rw [List.length_cons] at hsize
      rw [hn, List.length_cons, deserializeAnswer_str (by omega) (drop_front _ _ _),
        Buffer.copy_of_drop rfl hcells]
      exact Checked.ok_ne_error _ _

/-- A value of another type is not read at all. -/
theorem deserializeAnswer_of_other {typ : Byte} {t : List Byte}
    (hsize : (rpcRetOk :: typ :: t).length = size.toInt.toNat) (hint : typ ≠ rpcTyInt)
    (hstr : typ ≠ rpcTyStr) (granted : Bool) :
    deserializeAnswer granted (some ()) size (some ((rpcRetOk :: typ :: t).map some)) ≠
      .error .outOfRange := by
  simp only [List.length_cons] at hsize
  rw [deserializeAnswer_of_typ granted (by omega) (drop_front _ _ _), if_neg hint, if_neg hstr]
  split_ifs <;> exact Checked.ok_ne_error _ _

end

/-- A place that is null is no place to go wrong. -/
theorem answerStaysInside_iff_some {size : CInt} {bytes : List Byte} :
    AnswerStaysInside size bytes ↔ ∀ granted, deserializeAnswer granted (some ()) size
      (some (bytes.map some)) ≠ .error .outOfRange := by
  constructor
  · intro h granted
    exact h granted (some ())
  · intro h granted ret
    cases ret with
    | none =>
      rw [deserializeAnswer_null]
      exact Checked.ok_ne_error _ _
    | some u => exact h granted

/-- **The decoder stays inside exactly the answers that pass `answerInFrame`.** -/
theorem answerStaysInside_iff {size : CInt} {bytes : List Byte}
    (hsize : bytes.length = size.toInt.toNat) :
    AnswerStaysInside size bytes ↔ answerInFrame bytes = true := by
  rw [answerStaysInside_iff_some]
  rcases bytes with _ | ⟨status, t⟩
  · refine iff_of_true ?_ rfl
    intro granted
    rw [List.length_nil] at hsize
    rw [deserializeAnswer, if_pos (by omega)]
    exact Checked.ok_ne_error _ _
  rw [answerInFrame]
  by_cases hstatus : status = rpcRetOk
  · subst hstatus
    rw [if_pos rfl]
    rcases t with _ | ⟨typ, t⟩
    · refine iff_of_true ?_ rfl
      intro granted
      obtain ⟨answered, h⟩ := deserializeAnswer_of_status hsize (fun _ => rfl) granted
      rw [h]
      exact Checked.ok_ne_error _ _
    · rw [valueInFrame]
      by_cases hint : typ = rpcTyInt
      · subst hint
        rw [if_pos rfl]
        exact int_iff hsize
      · by_cases hstr : typ = rpcTyStr
        · subst hstr
          rw [if_neg hint, if_pos rfl, decide_eq_true_eq]
          exact str_iff hsize
        · rw [if_neg hint, if_neg hstr]
          exact iff_of_true (deserializeAnswer_of_other hsize hint hstr) rfl
  · rw [if_neg hstatus]
    refine iff_of_true ?_ rfl
    intro granted
    obtain ⟨answered, h⟩ :=
      deserializeAnswer_of_status hsize (fun hok => absurd hok hstatus) granted
    rw [h]
    exact Checked.ok_ne_error _ _

/-- The answer "hi". -/
theorem answerStaysInside_iff_hi :
    AnswerStaysInside 5 [0, 2, 2, 0x68, 0x69] ↔ answerInFrame [0, 2, 2, 0x68, 0x69] = true :=
  answerStaysInside_iff (by decide)

/-- Two bytes that announce a string of length -1, or an integer that does not
come: the decoder leaves the answer. -/
theorem not_answerStaysInside_two :
    ¬ AnswerStaysInside 2 [0, 2] ∧ ¬ AnswerStaysInside 2 [0, 1] := by
  constructor
  · intro h
    exact h true (some ()) rfl
  · intro h
    exact h true (some ()) rfl

end RemoteProcedure
