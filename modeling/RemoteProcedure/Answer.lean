import RemoteProcedure.Request

/-!
# Answers

`serialize_answer` and `deserialize_answer`.  An answer is a status, followed by
a type and a value when the status is `RPC_RET_OK`.  The encoder lays the fields
out at fixed offsets, the value first; the decoder takes the length of a string
from the size of the frame and never reads the length byte in front of it.

## Main definitions

* `serializeAnswer`, `deserializeAnswer` — the functions of the source.
* `encodeAnswer`, `answerFrame` — the bytes of an answer.
* `Answered` — what a call of `deserialize_answer` returns and leaves behind.

## Main results

* `serializeAnswer_value`, `serializeAnswer_status` — the frame is
  `answerFrame`.
* `deserializeAnswer_serializeAnswer` — **an answer survives the wire**.
-/

namespace RemoteProcedure

open Machine

/-! ### `serialize_answer` -/

/-- The bytes of an answer after its length field. -/
def encodeAnswer (status : Byte) (ret : Option RpcArg) : List Byte :=
  status :: (ret.elim [] encodeArg)

/-- An answer as it is sent. -/
def answerFrame (status : Byte) (ret : Option RpcArg) : List Byte :=
  intBytes (BitVec.ofNat 32 (encodeAnswer status ret).length) ++ encodeAnswer status ret

/-- Store the type and value of an answer; the value comes first. -/
def storeValue (dataSize : CInt) (data : Block Byte) : RpcArg → Checked (Block Byte)
  | .int i => do
    let (data, _) ← serializeInteger i data 6
    data.store 5 [rpcTyInt]
  | .str s =>
    let strSize := dataSize - 2
    -- `memcpy` of a negative length leaves every object
    if strSize.toInt < 0 then .error .outOfRange
    else do
      let data ← data.store 7 (s.bytes.take strSize.toNat)
      let data ← data.store 6 [intToChar strSize]
      data.store 5 [rpcTyStr]
  | .void => data.store 5 [rpcTyVoid]
  | .other typ _ => data.store 5 [typ]

/-- `serialize_answer`: a null pointer or the block, and `*msg_size` once it is
assigned. -/
def serializeAnswer (granted : Bool) (status : Byte) (ret : Option RpcArg) :
    Checked (Option (Block Byte) × Option CInt) :=
  let dataSize := argSize (ret.map ([·]))
  if dataSize.toInt < 0 then .ok (none, none)
  else
    let messageLength : CInt := 1 + dataSize
    let msgSize : CInt := 4 + messageLength
    match malloc granted msgSize.toInt with
    | none => .ok (none, some msgSize)
    | some data =>
      if status = rpcRetOk then
        match ret with
        | none => .ok (none, some msgSize)
        | some a => do
          let data ← storeValue dataSize data a
          let data ← data.store 4 [status]
          let data ← data.store 0 (intBytes messageLength)
          return (some data, some msgSize)
      else do
        let data ← data.store 4 [status]
        let data ← data.store 0 (intBytes messageLength)
        return (some data, some msgSize)

theorem length_answerFrame (status : Byte) (a : RpcArg) :
    (answerFrame status (some a)).length = (encodeArg a).length + 5 := by
  rw [answerFrame, List.length_append, length_intBytes, encodeAnswer, List.length_cons,
    Option.elim_some]
  omega

theorem argSize_singleton {a : RpcArg} (ha : a.Defined) :
    argSize (some [a]) = BitVec.ofNat 32 (encodeArg a).length := by
  rw [argSize, argSizeLoop_cons ha, argSizeLoop]
  exact BitVec.zero_add _

theorem length_encodeArg_lt {a : RpcArg} (ha : a.Defined)
    (hstr : ∀ s, a = .str s → s.length + 7 < 2 ^ 31) : (encodeArg a).length + 5 < 2 ^ 31 := by
  cases a with
  | void => decide
  | int i =>
    have := length_integerChars i
    simp only [encodeArg, List.length_cons, length_encodeInteger]
    omega
  | str s =>
    have := hstr s rfl
    have := length_wire s
    simp only [encodeArg, List.length_cons]
    omega
  | other typ h => exact absurd ha (RpcArg.not_defined_other typ h)

/-- Storing the value and its type in untouched cells behind the status. -/
theorem storeValue_middle {a : RpcArg} (ha : a.Defined) (hsize : (encodeArg a).length < 2 ^ 31)
    (pre : Block Byte) (hpre : pre.length = 5) :
    storeValue (BitVec.ofNat 32 (encodeArg a).length)
      (pre ++ List.replicate (encodeArg a).length []) a = .ok (pre ++ (encodeArg a).map ([·])) := by
  have htype : ∀ (typ : Byte) (post : Block Byte),
      Block.store (pre ++ [] :: post) 5 [typ] = .ok (pre ++ [typ] :: post) := by
    intro typ post
    have := Block.store_middle [typ] pre post
    rw [hpre] at this
    exact this
  cases a with
  | other typ h => exact absurd ha (RpcArg.not_defined_other typ h)
  | void => exact htype rpcTyVoid []
  | int i =>
    have hint := serializeInteger_middle i (pre ++ [[]]) []
    rw [List.length_append, hpre] at hint
    simp only [List.append_nil, List.length_singleton, Nat.reduceAdd, List.append_assoc,
      List.singleton_append] at hint
    rw [storeValue, encodeArg, List.length_cons, List.replicate_succ, hint, Checked.ok_bind]
    exact htype rpcTyInt _
  | str s =>
    have hlen : (encodeArg (.str s)).length = (wire s).length + 2 := rfl
    rw [hlen] at hsize ⊢
    have hstrSize :
        BitVec.ofNat 32 ((wire s).length + 2) - 2 = BitVec.ofNat 32 (wire s).length := by
      rw [BitVec.ofNat_add]
      exact BitVec.add_sub_cancel _ _
    have hnonneg : ¬ (BitVec.ofNat 32 (wire s).length).toInt < 0 := by
      rw [toInt_ofNat_of_lt (by omega)]
      omega
    have htake : s.bytes.take (BitVec.ofNat 32 (wire s).length).toNat = wire s := by
      rw [BitVec.toNat_ofNat, length_wire, Nat.mod_mod]
      rfl
    have hbyte : intToChar (BitVec.ofNat 32 (wire s).length) = BitVec.ofNat 8 s.length := by
      rw [intToChar_ofNat, length_wire]
      apply BitVec.eq_of_toNat_eq
      simp only [BitVec.toNat_ofNat]
      omega
    -- the string, then the byte in front of it, then the type in front of that
    have hstring := Block.store_middle (wire s) (pre ++ [[], []]) []
    have hlength := Block.store_middle [BitVec.ofNat 8 s.length] (pre ++ [[]])
      ((wire s).map ([·]))
    rw [List.length_append, hpre] at hstring hlength
    simp only [List.append_nil, List.length_cons, List.length_nil, Nat.reduceAdd,
      List.append_assoc, List.cons_append, List.nil_append, List.replicate_one, List.map_cons,
      List.map_nil] at hstring hlength
    rw [storeValue, hstrSize, if_neg hnonneg, htake, hbyte, List.replicate_succ,
      List.replicate_succ, hstring, Checked.ok_bind, hlength, Checked.ok_bind]
    exact htype rpcTyStr _

/-- Storing the status and the length in front of what is stored already. -/
theorem storeFront (n : CInt) (status : Byte) (post : Block Byte) :
    (do let data ← Block.store (List.replicate 5 [] ++ post) 4 [status]
        data.store 0 (intBytes n)) = .ok ((intBytes n ++ [status]).map ([·]) ++ post) := by
  rfl

/-- **The frame of a value**: every byte is stored, once. -/
theorem serializeAnswer_value {a : RpcArg} (ha : a.Defined)
    (hsize : (encodeArg a).length + 5 < 2 ^ 31) :
    serializeAnswer true rpcRetOk (some a) =
      .ok (some ((answerFrame rpcRetOk (some a)).map ([·])),
        some (BitVec.ofNat 32 (answerFrame rpcRetOk (some a)).length)) := by
  set k := (encodeArg a).length with hk
  have hdata : argSize (Option.map ([·]) (some a)) = BitVec.ofNat 32 k := argSize_singleton ha
  have hmessage : (1 : CInt) + BitVec.ofNat 32 k = BitVec.ofNat 32 (k + 1) := by
    rw [Nat.add_comm, BitVec.ofNat_add]
    rfl
  have hframe : (4 : CInt) + BitVec.ofNat 32 (k + 1) = BitVec.ofNat 32 (k + 5) := by
    rw [show (4 : CInt) = BitVec.ofNat 32 4 from rfl, ← BitVec.ofNat_add]
    congr 1
    omega
  have hlen : (answerFrame rpcRetOk (some a)).length = k + 5 := length_answerFrame rpcRetOk a
  have hblock : Block.filled ([] : List Byte) (k + 5) =
      List.replicate 5 [] ++ List.replicate k [] := by
    rw [Block.filled_nil, Nat.add_comm, List.replicate_append_replicate]
  have hvalue := storeValue_middle ha (by omega) (List.replicate 5 []) rfl
  have hfront := storeFront (BitVec.ofNat 32 (k + 1)) rpcRetOk ((encodeArg a).map ([·]))
  rw [← hk] at hvalue
  rw [serializeAnswer]
  simp only [hdata, hmessage, hframe, hlen, toInt_ofNat_of_lt (by omega : k < 2 ^ 31),
    toInt_ofNat_of_lt (by omega : k + 5 < 2 ^ 31), if_neg (by omega : ¬ (k : ℤ) < 0), if_true,
    malloc_of_nonneg (by omega : 0 ≤ ((k + 5 : ℕ) : ℤ)), Int.toNat_natCast, hblock, hvalue,
    Checked.ok_bind]
  rw [← bind_assoc, hfront, Checked.ok_bind, answerFrame, encodeAnswer, Option.elim_some,
    List.length_cons, ← hk]
  simp only [List.map_append, List.map_cons, List.map_nil, List.append_assoc, List.cons_append,
    List.nil_append]
  rfl

/-- **The frame of an error** is its status. -/
theorem serializeAnswer_status {status : Byte} (h : status ≠ rpcRetOk) :
    serializeAnswer true status none =
      .ok (some ((answerFrame status none).map ([·])), some 5) := by
  rw [serializeAnswer]
  have hsize : argSize (Option.map ([·]) (none : Option RpcArg)) = 0 := rfl
  simp only [hsize, if_neg h]
  rfl

/-! ### `deserialize_answer` -/

/-- How a call of `deserialize_answer` ends. -/
inductive Answered where
  /-- It returns this without assigning `*ret`. -/
  | untouched (status : CInt) : Answered
  /-- It returns -1 with the type assigned and no value allocated. -/
  | typed (typ : Byte) : Answered
  /-- It returns `RPC_RET_OK` with the value in `*ret`. -/
  | value (a : RpcArg) : Answered
  deriving DecidableEq

/-- The `int` a call of `deserialize_answer` returns. -/
def Answered.status : Answered → CInt
  | .untouched status => status
  | .typed _ => -1
  | .value _ => charToInt rpcRetOk

/-- `deserialize_answer`, into a `ret` that may be null. -/
def deserializeAnswer (granted : Bool) (ret : Option Unit) (size : CInt)
    (serializedRet : Option (Buffer Byte)) : Checked Answered :=
  if size.toInt < 1 then .ok (.untouched (-1))
  else
    match ret, serializedRet with
    | some _, some buf => do
      let status ← buf.read 0
      if status = rpcRetOk then
        if size.toInt < 2 then return .untouched (-1)
        else
          let typ ← buf.read 1
          if typ = rpcTyInt then
            -- the allocation is not tested before the value is stored through it
            if granted then
              let (i, _) ← deserializeInteger false buf 2
              return .value (.int i)
            else .error .nullPointer
          else if typ = rpcTyStr then
            let dataLength : CInt := size - 3
            if mallocSucceeds granted (dataLength + 1).toInt then
              let data ← buf.copy 3 dataLength.toInt
              return .value (.str (CString.ofBytes data.1))
            else return .typed typ
          else if h : typeExists typ = false then return .value (.other typ h)
          else return .value .void
      else return .untouched (charToInt status)
    | _, _ => .ok (.untouched (-1))

/-- From the type byte of an answer on. -/
theorem deserializeAnswer_of_typ (granted : Bool) {size : CInt} (hsize : 2 ≤ size.toInt)
    {typ : Byte} {buf rest : Buffer Byte} (h : buf.drop 0 = some rpcRetOk :: some typ :: rest) :
    deserializeAnswer granted (some ()) size (some buf) =
      (if typ = rpcTyInt then
        if granted then do
          let (i, _) ← deserializeInteger false buf 2
          return .value (.int i)
        else .error .nullPointer
      else if typ = rpcTyStr then
        if mallocSucceeds granted (size - 3 + 1).toInt then do
          let data ← buf.copy 3 (size - 3).toInt
          return .value (.str (CString.ofBytes data.1))
        else return .typed typ
      else if h : typeExists typ = false then return .value (.other typ h)
      else return .value .void) := by
  have hstatus : buf.read 0 = .ok rpcRetOk := Buffer.read_of_drop h
  have htyp : buf.read 1 = .ok typ := Buffer.read_of_drop (Buffer.drop_succ h)
  rw [deserializeAnswer, if_neg (by omega)]
  simp only
  rw [hstatus, Checked.ok_bind, if_pos rfl, if_neg (by omega), htyp, Checked.ok_bind]

/-- What the decoder does with an integer. -/
theorem deserializeAnswer_int {n : ℕ} (hn : 2 ≤ n) (hlt : n < 2 ^ 31) {buf rest : Buffer Byte}
    (h : buf.drop 0 = some rpcRetOk :: some rpcTyInt :: rest) :
    deserializeAnswer true (some ()) (BitVec.ofNat 32 n) (some buf) = (do
      let (i, _) ← deserializeInteger false buf 2
      return .value (.int i)) := by
  have hint : (BitVec.ofNat 32 n).toInt = n := toInt_ofNat_of_lt hlt
  rw [deserializeAnswer_of_typ true (by omega) h, if_pos rfl]
  rfl

/-- What the decoder does with a string: all that is behind the length byte is
copied. -/
theorem deserializeAnswer_str {n : ℕ} (hlt : n + 3 < 2 ^ 31) {buf rest : Buffer Byte}
    (h : buf.drop 0 = some rpcRetOk :: some rpcTyStr :: rest) :
    deserializeAnswer true (some ()) (BitVec.ofNat 32 (n + 3)) (some buf) = (do
      let data ← buf.copy 3 n
      return .value (.str (CString.ofBytes data.1))) := by
  have hint : (BitVec.ofNat 32 (n + 3)).toInt = (n + 3 : ℕ) := toInt_ofNat_of_lt hlt
  have hdata : BitVec.ofNat 32 (n + 3) - 3 = BitVec.ofNat 32 n := by
    rw [BitVec.ofNat_add]
    exact BitVec.add_sub_cancel _ _
  have hblock : (BitVec.ofNat 32 n + 1 : CInt).toInt = n + 1 := toInt_ofNat_add_one (by omega)
  have hcopied : (BitVec.ofNat 32 n).toInt = n := toInt_ofNat_of_lt (by omega)
  rw [deserializeAnswer_of_typ true (by omega) h, if_neg (by decide), if_pos rfl, hdata, hblock,
    if_pos (mallocSucceeds_of_nonneg (by omega)), hcopied]

/-- **The decoder reads the encoded value back**, whatever follows in memory. -/
theorem deserializeAnswer_value {a : RpcArg} (ha : a.Defined)
    (hsize : (encodeAnswer rpcRetOk (some a)).length < 2 ^ 31)
    (hstr : ∀ s, a = .str s → s.length < 2 ^ 32) (memory : Buffer Byte) :
    deserializeAnswer true (some ()) (BitVec.ofNat 32 (encodeAnswer rpcRetOk (some a)).length)
      (some ((encodeAnswer rpcRetOk (some a)).map some ++ memory)) = .ok (.value a) := by
  cases a with
  | other typ h => exact absurd ha (RpcArg.not_defined_other typ h)
  | void => rfl
  | int i =>
    have hlen : (encodeAnswer rpcRetOk (some (.int i))).length = (encodeInteger i).length + 2 := rfl
    have hfront : ((encodeAnswer rpcRetOk (some (.int i))).map some ++ memory).drop 0 =
        some rpcRetOk :: some rpcTyInt :: ((encodeInteger i).map some ++ memory) := rfl
    have hcells := Buffer.drop_succ (Buffer.drop_succ hfront)
    rw [deserializeAnswer_int (by omega) hsize hfront, deserializeInteger_of_drop false i hcells]
    rfl
  | str s =>
    have hwire : wire s = s.bytes := wire_of_lt (hstr s rfl)
    have hlen : (encodeAnswer rpcRetOk (some (.str s))).length = s.bytes.length + 3 := by
      rw [← hwire]
      rfl
    have hfront : ((encodeAnswer rpcRetOk (some (.str s))).map some ++ memory).drop 0 =
        some rpcRetOk :: some rpcTyStr :: some (BitVec.ofNat 8 s.length) ::
          (s.bytes.map some ++ memory) := by
      rw [← hwire]
      rfl
    have hcells := Buffer.drop_succ (Buffer.drop_succ (Buffer.drop_succ hfront))
    rw [hlen] at hsize ⊢
    rw [deserializeAnswer_str hsize hfront, Buffer.copy_of_drop rfl hcells, Checked.ok_bind,
      CString.ofBytes_bytes]
    rfl

/-- **Answer round trip.**  A value whose frame an `int` can measure is framed by
its length and decodes to itself, and so does an error status. -/
theorem deserializeAnswer_serializeAnswer :
    (∀ a : RpcArg, a.Defined → (∀ s, a = .str s → s.length + 7 < 2 ^ 31) →
      ∃ (blk : Block Byte) (msgSize size : CInt) (body : List Byte),
        serializeAnswer true rpcRetOk (some a) = .ok (some blk, some msgSize) ∧
        blk.contents = some (intBytes size ++ body) ∧
        size.toInt = body.length ∧ msgSize.toInt = body.length + 4 ∧
        ∀ memory : Buffer Byte,
          deserializeAnswer true (some ()) size (some (body.map some ++ memory)) =
            .ok (.value a)) ∧
    ∀ status : Byte, status ≠ rpcRetOk →
      ∃ (blk : Block Byte) (msgSize size : CInt) (body : List Byte),
        serializeAnswer true status none = .ok (some blk, some msgSize) ∧
        blk.contents = some (intBytes size ++ body) ∧
        size.toInt = body.length ∧ msgSize.toInt = body.length + 4 ∧
        ∀ memory : Buffer Byte,
          deserializeAnswer true (some ()) size (some (body.map some ++ memory)) =
            .ok (.untouched (charToInt status)) := by
  constructor
  · intro a ha hsize
    have harg := length_encodeArg_lt ha hsize
    have hlen : (encodeAnswer rpcRetOk (some a)).length = (encodeArg a).length + 1 := rfl
    refine ⟨_, _, _, encodeAnswer rpcRetOk (some a), serializeAnswer_value ha harg,
      Block.contents_map _, toInt_ofNat_of_lt (by omega), ?_, ?_⟩
    · have hframe := length_answerFrame rpcRetOk a
      rw [toInt_ofNat_of_lt (by omega), hframe, hlen]
      push_cast
      ring
    · intro memory
      refine deserializeAnswer_value ha (by omega) ?_ memory
      intro s hs
      have := hsize s hs
      omega
  · intro status hstatus
    refine ⟨_, _, _, encodeAnswer status none, serializeAnswer_status hstatus, Block.contents_map _,
      rfl, rfl, ?_⟩
    intro memory
    have hread : Buffer.read ((encodeAnswer status none).map some ++ memory) 0 = .ok status := rfl
    have hone : ¬ (BitVec.ofNat 32 (encodeAnswer status none).length).toInt < 1 :=
      show ¬ (1 : CInt).toInt < 1 by decide
    rw [deserializeAnswer, if_neg hone]
    simp only [hread, Checked.ok_bind, if_neg hstatus, Checked.pure_eq]

/-- The answer "hi", and the answer to an unknown command. -/
theorem deserializeAnswer_serializeAnswer_hi :
    (∃ (blk : Block Byte) (msgSize size : CInt) (body : List Byte),
      serializeAnswer true rpcRetOk (some (.str (CString.ofBytes [0x68, 0x69]))) =
        .ok (some blk, some msgSize) ∧
      blk.contents = some (intBytes size ++ body) ∧
      size.toInt = body.length ∧ msgSize.toInt = body.length + 4 ∧
      ∀ memory : Buffer Byte,
        deserializeAnswer true (some ()) size (some (body.map some ++ memory)) =
          .ok (.value (.str (CString.ofBytes [0x68, 0x69])))) ∧
    ∃ (blk : Block Byte) (msgSize size : CInt) (body : List Byte),
      serializeAnswer true rpcRetUnknownFunc none = .ok (some blk, some msgSize) ∧
      blk.contents = some (intBytes size ++ body) ∧
      size.toInt = body.length ∧ msgSize.toInt = body.length + 4 ∧
      ∀ memory : Buffer Byte,
        deserializeAnswer true (some ()) size (some (body.map some ++ memory)) =
          .ok (.untouched (charToInt rpcRetUnknownFunc)) := by
  refine ⟨deserializeAnswer_serializeAnswer.1 _ rfl ?_,
    deserializeAnswer_serializeAnswer.2 _ (by decide)⟩
  intro s hs
  cases hs
  decide

end RemoteProcedure
