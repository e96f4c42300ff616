import RemoteProcedure.AnswerSafety
import RemoteProcedure.Receive

/-!
# What `getAnswer` does with a complete answer

An answer may be complete and be a refusal, or a value of another type than the
caller asked for.  What the caller's pointer points to is changed only by a value of
the type asked for, and its block is freed whatever the type.

## Main definitions

* `CompleteAnswer`, `decodedValue` — the answers that are all there, and the values
  in them.
* `Delivers` — a value is delivered on a well-typed success, and only then.

## Main results

* `deserializeAnswer_of_complete` — **a complete answer is decoded**.
* `getAnswerCall_delivers` — **a value is delivered on a well-typed success, and only
  then**.
-/

namespace RemoteProcedure

open Machine

/-! ### Complete answers -/

/-- The value in an answer, by its type and what is behind it. -/
def decodedValue (typ : Byte) (t : List Byte) : Option RpcArg :=
  if typ = rpcTyInt then
    match t with
    | len :: c :: t => some (.int (integerValue len c t))
    | _ => none
  -- a string is all that is behind its length byte, up to a NUL
  else if typ = rpcTyStr then
    match t with
    | _ :: t => some (.str (CString.ofBytes t))
    | [] => none
  else if h : typeExists typ = false then some (.other typ h)
  else some .void

/-- An answer that has a status, and if that is `RPC_RET_OK` a type, and behind it
as many bytes as a value of the type takes. -/
def CompleteAnswer : List Byte → Prop
  | [] => False
  | status :: t => status = rpcRetOk → t ≠ [] ∧ valueInFrame t = true

/-- **A complete value is decoded**, with its type. -/
theorem deserializeAnswer_of_complete {size : CInt} {typ : Byte} {t : List Byte}
    (hsize : size.toInt = (rpcRetOk :: typ :: t).length) (h : valueInFrame (typ :: t) = true) :
    ∃ a, decodedValue typ t = some a ∧ a.typ = typ ∧
      deserializeAnswer true (some ()) size (some ((rpcRetOk :: typ :: t).map some)) =
        .ok (.value a) := by
  have hlt := toInt_lt_two_pow size
  simp only [List.length_cons] at hsize
  rw [valueInFrame] at h
  rw [deserializeAnswer_of_typ true (by omega) (drop_front rpcRetOk typ t)]
  by_cases hint : typ = rpcTyInt
  · subst hint
    rw [if_pos rfl] at h
    obtain ⟨len, c, t, rfl, hroom⟩ := cells_of_integerWhole h
    have hvalue : ((rpcRetOk :: rpcTyInt :: len :: c :: t).map some).drop 2 =
        (len :: c :: t).map some ++ [] := (List.append_nil _).symm
    refine ⟨.int (integerValue len c t), rfl, rfl, ?_⟩
    rw [if_pos rfl, if_pos rfl, deserializeInteger_eq_of_cells hvalue (Buffer.auditLength_false _ _)
      hroom]
    rfl
  by_cases hstr : typ = rpcTyStr
  · subst hstr
    rw [if_neg hint, if_pos rfl, decide_eq_true_eq] at h
    obtain ⟨len, t, rfl⟩ := List.exists_cons_of_ne_nil h
    have hcells : ((rpcRetOk :: rpcTyStr :: len :: t).map some).drop 3 = t.map some ++ [] :=
      (List.append_nil _).symm
    have hn : size = BitVec.ofNat 32 (t.length + 3) := by
      apply BitVec.eq_of_toInt_eq
      rw [List.length_cons] at hsize
      rw [toInt_ofNat_of_lt (by omega)]
      omega
    have hdata : BitVec.ofNat 32 (t.length + 3) - 3 = BitVec.ofNat 32 t.length := by
      rw [BitVec.ofNat_add]
      exact BitVec.add_sub_cancel _ _
    rw [List.length_cons] at hsize
    have hblock : (BitVec.ofNat 32 t.length + 1 : CInt).toInt = t.length + 1 :=
      toInt_ofNat_add_one (by omega)
    have hcopied : (BitVec.ofNat 32 t.length).toInt = t.length := toInt_ofNat_of_lt (by omega)
    refine ⟨.str (CString.ofBytes t), rfl, rfl, ?_⟩
    rw [if_neg hint, if_pos rfl, hn, hdata, hblock, if_pos (mallocSucceeds_of_nonneg (by omega)),
      Buffer.copy_of_drop hcopied.symm hcells]
    rfl
  · rw [if_neg hint, if_neg hstr]
    unfold decodedValue
    rw [if_neg hint, if_neg hstr]
    split_ifs with hother
    · exact ⟨_, rfl, rfl, rfl⟩
    · have hvoid : typ = rpcTyVoid := by
        rw [Bool.not_eq_false, typeExists_iff] at hother
        tauto
      exact ⟨_, rfl, hvoid.symm, rfl⟩

/-! ### Delivery -/

/-- `getAnswer` returns 0 for a success of the type that was expected, and the
caller's cell, if there is one, holds the decoded value; otherwise it returns -1 and
the cell is as before.  The block of the decoded value is freed once, if there is
one. -/
structure Delivers (type : Byte) (ret : Option Data) (body : List Byte) (c : AnswerCall) :
    Prop where
  returns : c.succes = 0 ∨ c.succes = -1
  succeeds : c.succes = 0 ↔ ∃ t, body = rpcRetOk :: type :: t
  stored : ∀ t, body = rpcRetOk :: type :: t →
    ∃ a, decodedValue type t = some a ∧ c.ret = a.assign ret
  unchanged : (¬ ∃ t, body = rpcRetOk :: type :: t) → c.ret = ret
  freed : c.freed = if c.allocated then 1 else 0

theorem charToInt_inj {b c : Byte} : charToInt b = charToInt c ↔ b = c := by
  constructor
  · intro h
    have hint := congrArg BitVec.toInt h
    rw [toInt_charToInt, toInt_charToInt] at hint
    exact BitVec.toInt_inj.mp hint
  · rintro rfl
    rfl

/-- A call that fails and touches nothing delivers what any other answer should. -/
theorem delivers_nothing {type : Byte} {ret : Option Data} {body : List Byte}
    (h : ¬ ∃ t, body = rpcRetOk :: type :: t) (allocated : Bool) :
    Delivers type ret body ⟨-1, ret, allocated, if allocated then 1 else 0⟩ := by
  have hne : ¬ (-1 : CInt) = 0 := by decide
  exact ⟨.inr rfl, iff_of_false hne h, fun t ht => absurd ⟨t, ht⟩ h, fun _ => rfl, rfl⟩

/-- **A value is delivered if it is of the expected type.** -/
theorem delivers_value {type : Byte} (htype : typeExists type = true) (ret : Option Data)
    {a : RpcArg} {t : List Byte} (ha : decodedValue a.typ t = some a) :
    ∃ c, useRetArg (charToInt type) ret (Answered.value a).status (Answered.value a).retArg =
      .ok c ∧ Delivers type ret (rpcRetOk :: a.typ :: t) c := by
  rw [useRetArg_value]
  simp only
  by_cases htyp : a.typ = type
  · subst htyp
    rw [if_neg (fun hne => hne rfl), storeData_of_defined htype]
    refine ⟨_, rfl, .inl rfl, iff_of_true rfl ⟨t, rfl⟩, ?_, fun hfail => absurd ⟨t, rfl⟩ hfail, rfl⟩
    intro t' ht
    simp only [List.cons.injEq, true_and] at ht
    subst ht
    exact ⟨a, ha, rfl⟩
  · have hfail : ¬ ∃ t', rpcRetOk :: a.typ :: t = rpcRetOk :: type :: t' := by
      rintro ⟨t', ht⟩
      simp only [List.cons.injEq, true_and] at ht
      exact htyp ht.1
    rw [if_pos fun heq => htyp (charToInt_inj.mp heq)]
    exact ⟨_, rfl, delivers_nothing hfail _⟩

/-- **A value is delivered on a well-typed success, and only then**, from any complete
answer and to any caller; no assertion fails on the way, and nothing is read that was
not set. -/
theorem getAnswerCall_delivers {type : Byte} (htype : typeExists type = true) (ret : Option Data)
    {size : CInt} {body : List Byte} (hsize : size.toInt = body.length)
    (hbody : CompleteAnswer body) :
    ∃ c, getAnswerCall true true (charToInt type) ret ⟨intBytes size ++ body, []⟩ = .ok c ∧
      Delivers type ret body c := by
  have hreceived : Buffer.received body body.length = body.map some := by
    rw [Buffer.received, Nat.sub_self, List.replicate_zero, List.append_nil]
  rw [getAnswerCall, recvFrame_uncut hsize (by rw [hsize]), hsize,
    if_pos (mallocSucceeds_of_nonneg (by omega)), Int.toNat_natCast, hreceived]
  rcases body with _ | ⟨status, t⟩
  · exact absurd hbody id
  by_cases hstatus : status = rpcRetOk
  · subst hstatus
    obtain ⟨hne, hvalue⟩ := hbody rfl
    obtain ⟨typ, t, rfl⟩ := List.exists_cons_of_ne_nil hne
    obtain ⟨a, ha, rfl, hdecode⟩ := deserializeAnswer_of_complete hsize hvalue
    rw [hdecode, Checked.ok_bind]
    exact delivers_value htype ret ha
  · have hread : Buffer.read ((status :: t).map some) 0 = .ok status := Buffer.read_of_drop rfl
    have hdecode : deserializeAnswer true (some ()) size (some ((status :: t).map some)) =
        .ok (.untouched (charToInt status)) := by
      simp only [List.length_cons] at hsize
      rw [deserializeAnswer, if_neg (by omega)]
      simp only
      rw [hread, Checked.ok_bind, if_neg hstatus, Checked.pure_eq]
    have hnot : charToInt status ≠ charToInt rpcRetOk := fun heq => hstatus (charToInt_inj.mp heq)
    have hfail : ¬ ∃ t', status :: t = rpcRetOk :: type :: t' := by
      rintro ⟨t', ht⟩
      exact hstatus (List.cons.inj ht).1
    refine ⟨_, ?_, delivers_nothing hfail false⟩
    rw [hdecode, Checked.ok_bind, useRetArg, Answered.status, if_pos hnot, printErrorStatus,
      if_neg hnot]
    rfl

/-- The answer "hi", to a caller that expects a string. -/
theorem getAnswerCall_delivers_hi :
    ∃ c, getAnswerCall true true (charToInt rpcTyStr) (some .null)
      ⟨intBytes 5 ++ [0, 2, 2, 0x68, 0x69], []⟩ = .ok c ∧
        Delivers rpcTyStr (some .null) [0, 2, 2, 0x68, 0x69] c :=
  getAnswerCall_delivers rfl (some .null) (by decide) fun _ => ⟨List.cons_ne_nil _ _, by decide⟩

end RemoteProcedure
