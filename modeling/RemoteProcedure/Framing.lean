import RemoteProcedure.Receive

/-!
# Cut frames

A stream socket may return a frame in pieces.  Neither end loops over `recv`, so
a frame is decoded as it was sent when each of the two reads returns all it asks
for; a piece that is missing is used all the same, as a value that was never
stored.

## Main definitions

* `Framed` — a frame is decoded whole, or reported as an error.

## Main results

* `deserializeMessage_of_hole`, `deserializeAnswer_of_hole` — decoding a piece
  uses a byte that was not received.
* `framed_iff` — **framing holds exactly when the reads are whole**.
-/

namespace RemoteProcedure

open Machine

/-! ### Decoding a piece of a request -/

/-- A hole is in the first of two fields, or behind it. -/
theorem hole_append {l₁ l₂ : List Byte} {k off : ℕ} {buf rest : Buffer Byte}
    (h : buf.drop off = ((l₁ ++ l₂).take k).map some ++ none :: rest) :
    (k < l₁.length ∧ buf.drop off = (l₁.take k).map some ++ none :: rest) ∨
      l₁.length ≤ k ∧ buf.drop off = l₁.map some ++
        ((l₂.take (k - l₁.length)).map some ++ none :: rest) := by
  rw [List.take_append, List.map_append, List.append_assoc] at h
  rcases Nat.lt_or_ge k l₁.length with hfirst | hsecond
  · rw [Nat.sub_eq_zero_of_le (Nat.le_of_lt hfirst), List.take_zero] at h
    exact .inl ⟨hfirst, h⟩
  · rw [List.take_of_length_le hsecond] at h
    exact .inr ⟨hsecond, h⟩

/-- A piece of an encoded integer is not as long as its length byte says. -/
theorem integerWhole_take {i : CInt} {k : ℕ} (hk : k < (encodeInteger i).length) :
    integerWhole ((encodeInteger i).take k) = false := by
  obtain ⟨hpos, hlen⟩ := length_integerChars i
  obtain ⟨c, t, hchars⟩ := List.exists_cons_of_length_pos (by omega : 0 < (integerChars i).length)
  have hcount : (integerChars i).length = t.length + 1 := by rw [hchars, List.length_cons]
  rw [length_encodeInteger] at hk
  rcases k with _ | _ | k
  · rfl
  · rfl
  · have htake : (t.take k).length = k := List.length_take_of_le (by omega)
    have hbyte : (BitVec.ofNat 8 (integerChars i).length).toInt = (integerChars i).length :=
      toInt_ofNat_byte (by omega)
    have hpiece : (encodeInteger i).take (k + 1 + 1) =
        BitVec.ofNat 8 (integerChars i).length :: c :: t.take k := by
      rw [encodeInteger, hchars]
      rfl
    rw [hpiece, integerWhole, decide_eq_false_iff_not, htake]
    unfold integerWidth
    split_ifs <;> omega

theorem decodeArgs_of_hole_head {a : RpcArg} (ha : a.Transmissible) {k : ℕ}
    (hk : k < (encodeArg a).length) {buf rest : Buffer Byte} {n i cpt : ℕ}
    (h : buf.drop cpt = ((encodeArg a).take k).map some ++ none :: rest) :
    decodeArgs false allGranted buf (n + 1) i cpt = .error .uninitialised := by
  rcases k with _ | k
  · rw [decodeArgs, Buffer.read_of_end h rfl]
    rfl
  cases a with
  | other typ h' => exact absurd ha id
  | void => exact absurd hk (by simp [encodeArg])
  | int v =>
    rw [encodeArg, List.length_cons] at hk
    rw [decodeArgs_int h, allGranted_eq, if_pos rfl,
      deserializeInteger_of_end (integerWhole_take (k := k) (by omega)) (Buffer.drop_succ h) rfl]
    rfl
  | str s =>
    have hlen : s.length ≤ 127 := ha
    have hwire : wire s = s.bytes := wire_of_lt (by omega)
    have hsigned : (BitVec.ofNat 8 s.length).toInt = s.length := toInt_ofNat_byte (by omega)
    have hbytes : s.bytes.length = s.length := rfl
    rw [encodeArg, List.length_cons, List.length_cons, hwire, hbytes] at hk
    rcases k with _ | k
    · rw [decodeArgs, Buffer.read_of_drop h, Checked.ok_bind, if_neg (by decide),
        if_neg (by decide), if_pos rfl, Buffer.read_of_end (Buffer.drop_succ h) rfl]
      rfl
    · have hcells : buf.drop (cpt + 2) = (s.bytes.take k).map some ++ none :: rest := by
        rw [← hwire]
        exact Buffer.drop_succ (Buffer.drop_succ h)
      have htake : (s.bytes.take k).length = k := List.length_take_of_le (by omega)
      rw [decodeArgs_str h, hsigned, Buffer.auditLength_false, Checked.ok_bind, allGranted_eq,
        if_pos (mallocSucceeds_of_nonneg (by omega)), Buffer.copy_of_end (by omega) hcells rfl]
      rfl

/-- The loop does not get past a hole in the arguments. -/
theorem decodeArgs_of_hole {args : List RpcArg} : (∀ a ∈ args, a.Transmissible) →
    ∀ {n : ℕ}, args.length = n → ∀ {k : ℕ}, k < (encodeArgs args).length →
      ∀ {buf rest : Buffer Byte} {i cpt : ℕ},
        buf.drop cpt = ((encodeArgs args).take k).map some ++ none :: rest →
          decodeArgs false allGranted buf n i cpt = .error .uninitialised := by
  induction args with
  | nil =>
    intro _ n _ k hk
    exact absurd hk (Nat.not_lt_zero k)
  | cons a as ih =>
    intro htr n hn k hk buf rest i cpt h
    obtain ⟨n, rfl⟩ : ∃ n', n = n' + 1 := ⟨as.length, hn.symm⟩
    have ha := htr a List.mem_cons_self
    rw [encodeArgs_cons, List.length_append] at hk
    rw [encodeArgs_cons] at h
    rcases hole_append h with ⟨hhead, h⟩ | ⟨htail, h⟩
    · exact decodeArgs_of_hole_head ha hhead h
    · rcases decodeArgs_of_encodeArg allGranted n i ha h with ⟨-, hdenied⟩ | ⟨p, hround⟩
      · cases hdenied
      · rw [hround, ih (fun b hb => htr b (List.mem_cons_of_mem a hb)) (Nat.succ.inj hn)
          (by omega) (Buffer.drop_add h (List.length_map _))]
        rfl

/-- **Decoding a piece of a request uses a byte that was not received.** -/
theorem deserializeMessage_of_hole {m : Message} (htr : ∀ a ∈ m.argv, a.Transmissible)
    (hm : m.command.length + 1 < 2 ^ 31) {k : ℕ} (hk : k < (encodeRequest m).length)
    {buf rest : Buffer Byte} (h : buf.drop 0 = ((encodeRequest m).take k).map some ++ none :: rest)
    (raw : RawMessage) (size : CInt) :
    deserializeMessage false allGranted (some raw) size (some buf) = .error .uninitialised := by
  have hlen := length_encodeRequest m
  have hcommand := m.command_length
  have hblock : (m.commandLength + 1 : CInt).toInt = m.commandLength.toInt + 1 :=
    toInt_add_one (by omega)
  rcases Nat.lt_or_ge k (m.command.length + 9) with hheader | hargs
  · -- the hole is in one of the four fields before the arguments
    simp only [encodeRequest, List.append_assoc] at h
    rw [deserializeMessage]
    simp only
    rcases hole_append h with ⟨hk, h⟩ | ⟨hk₀, h⟩
    · have : ((intBytes m.commandLength).take k).length ≤ k := List.length_take_le ..
      rw [length_intBytes] at hk
      rw [Buffer.readInt_of_end (by omega) h rfl]
      rfl
    rw [Buffer.readInt_of_drop h, Checked.ok_bind, Buffer.auditLength_false, Checked.ok_bind,
      hblock, allGranted_eq, if_pos (mallocSucceeds_of_nonneg (by omega))]
    have h₁ := Buffer.drop_add h (List.length_map _)
    rw [length_intBytes, Nat.zero_add] at h₁
    rw [length_intBytes] at hk₀
    rcases hole_append h₁ with ⟨hk, h₁⟩ | ⟨hk₁, h₁⟩
    · have : (m.command.take (k - 4)).length ≤ k - 4 := List.length_take_le ..
      rw [Buffer.copy_of_end (by omega) h₁ rfl]
      rfl
    rw [Buffer.copy_of_drop hcommand h₁, Checked.ok_bind]
    simp only
    have h₂ := Buffer.drop_add h₁ (List.length_map _)
    rcases hole_append h₂ with ⟨hk, h₂⟩ | ⟨hk₂, h₂⟩
    · rw [List.length_singleton] at hk
      rw [show k - 4 - m.command.length = 0 by omega] at h₂
      rw [Buffer.read_of_end h₂ rfl]
      rfl
    rw [Buffer.read_of_drop h₂, Checked.ok_bind]
    rw [List.length_singleton] at hk₂ h₂
    rcases hole_append (Buffer.drop_succ h₂) with ⟨hk, h₃⟩ | ⟨hk₃, h₃⟩
    · have : ((intBytes m.argc).take (k - 4 - m.command.length - 1)).length ≤
          k - 4 - m.command.length - 1 := List.length_take_le ..
      rw [length_intBytes] at hk
      rw [Buffer.readInt_of_end (by omega) h₃ rfl]
      rfl
    · rw [length_intBytes] at hk₃
      omega
  · have hcells : buf = (encodeHeader m).map some ++
        (((encodeArgs m.argv).take (k - (m.command.length + 9))).map some ++ none :: rest) := by
      rw [List.drop_zero, encodeRequest_eq, List.take_append, length_encodeHeader,
        List.take_of_length_le (by rw [length_encodeHeader]; omega), List.map_append,
        List.append_assoc] at h
      exact h
    have hdrop : buf.drop (m.command.length + 9) =
        ((encodeArgs m.argv).take (k - (m.command.length + 9))).map some ++ none :: rest := by
      rw [hcells]
      exact List.drop_left' (by rw [List.length_map, length_encodeHeader])
    have hloop := decodeArgs_of_hole htr m.argv_length (i := 0) (by omega) hdrop
    rw [hcells] at hloop ⊢
    rw [deserializeMessage_of_header hm, allGranted_eq, if_neg (by decide), allGranted_eq,
      if_neg (by simp), hloop]
    rfl

/-! ### Decoding a piece of an answer -/

/-- The answers a server sends: a value with `RPC_RET_OK`, or an error alone. -/
inductive IsAnswer : Byte → Option RpcArg → Prop where
  | value (a : RpcArg) (ha : a.Defined) : IsAnswer rpcRetOk (some a)
  | error (status : Byte) (h : status ≠ rpcRetOk) : IsAnswer status none

/-- Decoding a piece of a string that is not empty. -/
theorem deserializeAnswer_str_of_hole {s : CString} (hs : s.length < 2 ^ 32) {k : ℕ}
    (hsize : (encodeAnswer rpcRetOk (some (.str s))).length < 2 ^ 31)
    (hshort : k + 2 < (encodeAnswer rpcRetOk (some (.str s))).length)
    (hempty : ¬ (encodeAnswer rpcRetOk (some (.str s)) = [rpcRetOk, rpcTyStr, 0] ∧ k = 0))
    {buf rest : Buffer Byte}
    (hrest : rest =
      List.replicate ((encodeAnswer rpcRetOk (some (.str s))).length - (k + 2) - 1) none)
    (h : buf.drop 0 = some rpcRetOk :: some rpcTyStr ::
      (((BitVec.ofNat 8 s.length :: wire s).take k).map some ++ none :: rest)) :
    deserializeAnswer true (some ())
      (BitVec.ofNat 32 (encodeAnswer rpcRetOk (some (.str s))).length) (some buf) =
        .error .uninitialised := by
  have hwire : wire s = s.bytes := wire_of_lt hs
  have hlen : (encodeAnswer rpcRetOk (some (.str s))).length = s.bytes.length + 3 := by
    rw [← hwire]
    rfl
  have hhead := Buffer.drop_succ (Buffer.drop_succ h)
  rw [hlen] at hsize hshort hrest ⊢
  rw [deserializeAnswer_str hsize h]
  rcases k with _ | k
  · -- the length byte is missing, and with it the string, which is not empty
    have hne : s.bytes.length ≠ 0 := by
      intro hnil
      refine hempty ⟨?_, rfl⟩
      rw [encodeAnswer, Option.elim_some, encodeArg, hwire, List.length_eq_zero_iff.mp hnil,
        show s.length = 0 from hnil]
      rfl
    have hcells : buf.drop 3 = ([] : List Byte).map some ++ none ::
        List.replicate (s.bytes.length - 1) none := by
      rw [Buffer.drop_succ hhead, hrest, List.map_nil, List.nil_append, ← List.replicate_succ]
      congr 1
      omega
    rw [Buffer.copy_of_end (by rw [List.length_nil]; omega) hcells rfl]
    rfl
  · rw [List.take_succ_cons, List.map_cons, hwire] at hhead
    have hcells := Buffer.drop_succ hhead
    have htake : (s.bytes.take k).length = k := List.length_take_of_le (by omega)
    rw [Buffer.copy_of_end (by omega) hcells rfl]
    rfl

/-- **Decoding a piece of an answer uses a byte that was not received**, unless
only the length byte of an empty string is missing: it is never read. -/
theorem deserializeAnswer_of_hole {status : Byte} {ret : Option RpcArg} (h : IsAnswer status ret)
    (hsize : (encodeAnswer status ret).length < 2 ^ 31)
    (hstr : ∀ s, ret = some (.str s) → s.length < 2 ^ 32) {l : List Byte}
    (hl : l <+: encodeAnswer status ret) (hshort : l.length < (encodeAnswer status ret).length)
    (hempty : ¬ (encodeAnswer status ret = [rpcRetOk, rpcTyStr, 0] ∧ l.length = 2)) :
    deserializeAnswer true (some ()) (BitVec.ofNat 32 (encodeAnswer status ret).length)
      (some (Buffer.received l (encodeAnswer status ret).length)) = .error .uninitialised := by
  have hint := toInt_ofNat_of_lt hsize
  have hhole := Buffer.drop_received hshort
  set buf := Buffer.received l (encodeAnswer status ret).length
  set rest : Buffer Byte :=
    List.replicate ((encodeAnswer status ret).length - l.length - 1) none with hrest
  rw [List.prefix_iff_eq_take.mp hl] at hhole
  set k := l.length
  rcases hk : k with _ | k'
  · -- not even the status
    rw [hk] at hhole
    rw [deserializeAnswer, hint, if_neg (by omega)]
    simp only
    rw [Buffer.read_of_end hhole rfl]
    rfl
  rw [hk, encodeAnswer, List.take_succ_cons, List.map_cons] at hhole
  rw [hk] at hshort hempty hrest
  cases h with
  | error status h => exact absurd hshort (by simp [encodeAnswer])
  | value a ha =>
    have hlen : (encodeAnswer rpcRetOk (some a)).length = (encodeArg a).length + 1 := rfl
    rcases k' with _ | k'
    · -- not even the type
      have hpos : 1 ≤ (encodeArg a).length := by
        cases a <;> simp [encodeArg]
      rw [deserializeAnswer, hint, if_neg (by omega)]
      simp only
      rw [Buffer.read_of_drop hhole, Checked.ok_bind, if_pos rfl, if_neg (by omega),
        Buffer.read_of_end (Buffer.drop_succ hhole) rfl]
      rfl
    cases a with
    | other typ h => exact absurd ha (RpcArg.not_defined_other typ h)
    | void => exact absurd hshort (by simp [encodeAnswer, encodeArg])
    | int i =>
      have hfield : (encodeArg (.int i)).length = (encodeInteger i).length + 1 := rfl
      rw [deserializeAnswer_int (by omega) hsize hhole,
        deserializeInteger_of_end (integerWhole_take (k := k') (by omega))
          (Buffer.drop_succ (Buffer.drop_succ hhole)) rfl]
      rfl
    | str s =>
      refine deserializeAnswer_str_of_hole (hstr s rfl) hsize hshort ?_ hrest hhole
      rintro ⟨hframe, rfl⟩
      exact hempty ⟨hframe, rfl⟩

/-! ### Framing -/

/-- The peer sends `delivered`, some prefix of a frame, and closes; the stream is
cut by `cuts`.  If that is the whole frame, it is decoded as if it arrived in
one piece, or a read failed and that is reported; if not, an error is reported
and nothing is decoded. -/
def Framed {β : Type} (run : Socket Byte → Checked β) (failure : β) (frame delivered : List Byte)
    (cuts : List Cut) : Prop :=
  if delivered = frame then
    run ⟨delivered, cuts⟩ = run ⟨frame, []⟩ ∨ .error ∈ cuts ∧ run ⟨delivered, cuts⟩ = .ok failure
  else run ⟨delivered, cuts⟩ = .ok failure

variable {β : Type} {run : Socket Byte → Checked β} {failure : β} {frame delivered : List Byte}
  {cuts : List Cut}

theorem framed_of_error (herror : .error ∈ cuts) (h : run ⟨delivered, cuts⟩ = .ok failure) :
    Framed run failure frame delivered cuts := by
  unfold Framed
  split_ifs
  · exact .inr ⟨herror, h⟩
  · exact h

theorem framed_of_eq (hd : delivered = frame) (h : run ⟨delivered, cuts⟩ = run ⟨frame, []⟩) :
    Framed run failure frame delivered cuts := by
  rw [Framed, if_pos hd]
  exact .inl h

theorem not_framed_of_fault {e : Fault} {b : β} (h : run ⟨delivered, cuts⟩ = .error e)
    (hone : run ⟨frame, []⟩ = .ok b) : ¬ Framed run failure frame delivered cuts := by
  unfold Framed
  rw [h, hone]
  split_ifs
  · rintro (hsame | ⟨-, hfail⟩)
    · cases hsame
    · cases hfail
  · intro hfail
    cases hfail

/-- **Whole reads are enough**, whatever the frame holds. -/
theorem framed_recvFrame {block : CInt → CInt} {body : List Byte} {size : CInt}
    (hsize : size.toInt = body.length) (hblock : body.length ≤ (block size).toInt)
    (hd : delivered <+: intBytes size ++ body)
    (hreads : Socket.ReadsWhole ⟨delivered, cuts⟩ [4, body.length]) (granted : Bool) (failure : β)
    (next : CInt → Buffer Byte → Checked β) :
    Framed (recvFrame granted block failure next) failure (intBytes size ++ body) delivered
      cuts := by
  rcases recvFrame_cases β block hsize hblock hd cuts with ⟨herror, -, hrun⟩ | ⟨hshort, -⟩ |
    ⟨l, -, hlong, -, hwhole, hrun⟩
  · exact framed_of_error herror (hrun granted failure next)
  · exact absurd hreads hshort
  · obtain rfl := hwhole.mp hreads
    refine framed_of_eq (hd.eq_of_length_le ?_) ?_
    · rw [List.length_append, length_intBytes]
      exact hlong
    · rw [hrun, recvFrame_uncut hsize hblock]

/-- **The server reads a request whole exactly when its reads are whole.** -/
theorem framed_readMsg_iff {m : Message} (htr : ∀ a ∈ m.argv, a.Transmissible)
    (hsize : (encodeRequest m).length + 4 < 2 ^ 31) (hd : delivered <+: requestFrame m) :
    (∀ granted alloc msg,
      Framed (readMsg granted alloc msg) none (requestFrame m) delivered cuts) ↔
      Socket.ReadsWhole ⟨delivered, cuts⟩ [4, (encodeRequest m).length] := by
  set n := (encodeRequest m).length with hn
  have hlen : (BitVec.ofNat 32 n).toInt = n := toInt_ofNat_of_lt (by omega)
  have hblock : (BitVec.ofNat 32 n + 1 : CInt).toInt = n + 1 := toInt_ofNat_add_one (by omega)
  rcases recvFrame_cases (Option Message) (fun size => size + 1) hlen
    (by rw [hblock]; omega) hd cuts with ⟨herror, hwhole, hrun⟩ |
    ⟨hwhole, -, hrun⟩ | ⟨l, hl, -, -, hwhole, hrun⟩
  · refine ⟨fun _ => hwhole, ?_⟩
    intro _ granted alloc msg
    exact framed_of_error herror (hrun granted none _)
  · constructor
    · intro h
      exact absurd (h true allGranted .unset)
        (not_framed_of_fault (hrun true none _) (readMsg_uncut htr hsize .unset))
    · intro hreads
      exact absurd hreads hwhole
  · rw [hwhole]
    constructor
    · intro h
      by_contra hne
      have hshort : l.length < n := Nat.lt_of_le_of_ne hl.length_le fun h => hne (hl.eq_of_length h)
      -- the body has a hole where it was not received
      have hroom : ((n : ℤ) + 1).toNat = n + 1 := by omega
      have hhole : (Buffer.received l (n + 1)).drop 0 =
          ((encodeRequest m).take l.length).map some ++
            none :: List.replicate (n + 1 - l.length - 1) none := by
        rw [← List.prefix_iff_eq_take.mp hl]
        exact Buffer.drop_received (Nat.lt_succ_of_lt hshort)
      have hfault := deserializeMessage_of_hole htr
        (by have := length_encodeRequest m; omega) hshort hhole .unset (BitVec.ofNat 32 n)
      refine not_framed_of_fault (e := .uninitialised) ?_ (readMsg_uncut htr hsize .unset)
        (h true allGranted .unset)
      rw [readMsg, hrun, hblock, if_pos (mallocSucceeds_of_nonneg (by omega)), hroom, hfault]
      rfl
    · intro hl granted alloc msg
      exact framed_recvFrame hlen (by rw [hblock]; omega) hd (hwhole.mpr hl) granted none _

/-- The client decodes a whole answer, to some result. -/
theorem getAnswer_uncut {status : Byte} {ret : Option RpcArg} (h : IsAnswer status ret)
    (hsize : (encodeAnswer status ret).length + 4 < 2 ^ 31)
    (hstr : ∀ s, ret = some (.str s) → s.length < 2 ^ 32) :
    ∃ r, getAnswer true true (charToInt ((ret.map RpcArg.typ).getD rpcTyVoid)) none
      ⟨answerFrame status ret, []⟩ = .ok r := by
  cases h with
  | value a ha => exact ⟨_, getAnswer_value ha hsize (fun s hs => hstr s (by rw [hs])) none⟩
  | error status h => exact ⟨_, getAnswer_status h _ none⟩

/-- An empty string is decoded without the length byte in front of it. -/
theorem deserializeAnswer_empty (granted : Bool) :
    deserializeAnswer granted (some ()) 3 (some (Buffer.received [rpcRetOk, rpcTyStr] 3)) =
      deserializeAnswer granted (some ()) 3
        (some (Buffer.received [rpcRetOk, rpcTyStr, 0] 3)) := by
  cases granted <;> decide

/-- **The client reads an answer whole exactly when its reads are whole**, or all
of an empty string arrives but its length byte, in the second read. -/
theorem framed_getAnswer_iff {status : Byte} {ret : Option RpcArg} (h : IsAnswer status ret)
    (hsize : (encodeAnswer status ret).length + 4 < 2 ^ 31)
    (hstr : ∀ s, ret = some (.str s) → s.length < 2 ^ 32)
    (hd : delivered <+: answerFrame status ret) :
    (∀ granted grantedData type cell,
      Framed (getAnswer granted grantedData type cell) (-1, cell) (answerFrame status ret) delivered
        cuts) ↔
      Socket.ReadsWhole ⟨delivered, cuts⟩ [4, (encodeAnswer status ret).length] ∨
        encodeAnswer status ret = [rpcRetOk, rpcTyStr, 0] ∧ delivered = answerFrame status ret ∧
          Socket.readLengths ⟨delivered, cuts⟩ [4, (encodeAnswer status ret).length] =
            [some 4, some 2] := by
  set n := (encodeAnswer status ret).length with hn
  have hlen : (BitVec.ofNat 32 n).toInt = n := toInt_ofNat_of_lt (by omega)
  have hmalloc : mallocSucceeds true (BitVec.ofNat 32 n).toInt = true :=
    mallocSucceeds_of_nonneg (by omega)
  have hroom : (BitVec.ofNat 32 n).toInt.toNat = n := by rw [hlen, Int.toNat_natCast]
  obtain ⟨r, hone⟩ := getAnswer_uncut h hsize hstr
  simp only [getAnswer_eq] at hone ⊢
  rcases recvFrame_cases (CInt × Option Data) (fun size => size) hlen (by rw [hlen]) hd cuts with
    ⟨herror, hwhole, hrun⟩ | ⟨hwhole, hlengths, hrun⟩ | ⟨l, hl, -, hlengths, hwhole, hrun⟩
  · refine ⟨fun _ => .inl hwhole, ?_⟩
    intro _ granted grantedData type cell
    exact framed_of_error herror (hrun granted (-1, cell) _)
  · constructor
    · intro hframed
      exact absurd (hframed true true _ none) (not_framed_of_fault (hrun true (-1, none) _) hone)
    · rintro (hreads | ⟨-, -, hreads⟩)
      · exact absurd hreads hwhole
      · exact absurd hreads (hlengths _)
  · rw [hwhole, hlengths]
    constructor
    · intro hframed
      by_contra hne
      rw [not_or] at hne
      have hshort : l.length < n :=
        Nat.lt_of_le_of_ne hl.length_le fun h => hne.1 (hl.eq_of_length h)
      by_cases hempty : encodeAnswer status ret = [rpcRetOk, rpcTyStr, 0] ∧ l.length = 2
      · -- what was delivered is short, and yet decoded
        have hd' : delivered ≠ answerFrame status ret := by
          intro hd'
          exact hne.2 ⟨hempty.1, hd', by rw [hempty.2]⟩
        have hl' : l = [rpcRetOk, rpcTyStr] := by
          rw [List.prefix_iff_eq_take.mp hl, hempty.1, hempty.2]
          rfl
        have hthree : n = 3 := by rw [hn, hempty.1]; rfl
        have hfailed := hframed true true (charToInt rpcTyStr) none
        rw [Framed, if_neg hd', hrun, if_pos hmalloc, hroom, hl', hthree] at hfailed
        exact absurd hfailed (by decide)
      · have hfault := deserializeAnswer_of_hole h (by omega) hstr hl hshort hempty
        refine not_framed_of_fault (e := .uninitialised) ?_ hone (hframed true true _ none)
        rw [hrun, if_pos hmalloc, hroom, hfault]
        rfl
    · rintro (hl | ⟨hempty, hd', hcount⟩) granted grantedData type cell
      · exact framed_recvFrame hlen (by rw [hlen]) hd (hwhole.mpr hl) granted _ _
      · have hl' : l = [rpcRetOk, rpcTyStr] := by
          rw [List.prefix_iff_eq_take.mp hl, hempty, Option.some.inj (List.cons.inj
            (List.cons.inj hcount).2).1]
          rfl
        have hthree : n = 3 := by rw [hn, hempty]; rfl
        apply framed_of_eq hd'
        rw [hrun, answerFrame, recvFrame_uncut hlen (by rw [hlen]), hroom, hl', hempty,
          hthree]
        show (if _ then Except.map _ (deserializeAnswer grantedData (some ()) 3 _ >>= _) else _) = _
        rw [deserializeAnswer_empty grantedData]
        rfl

/-- **Framing.**  Whatever a frame holds, it is read whole when each of the two
reads returns all it asks for, or fails; and a request or an answer is read whole
only then, but for an empty string of which the length byte alone is missing. -/
theorem framed_iff (delivered : List Byte) (cuts : List Cut) :
    (∀ (size : CInt) (body : List Byte), size.toInt = body.length → body.length + 4 < 2 ^ 31 →
      delivered <+: intBytes size ++ body →
        Socket.ReadsWhole ⟨delivered, cuts⟩ [4, body.length] →
          (∀ granted alloc msg,
            Framed (readMsg granted alloc msg) none (intBytes size ++ body) delivered cuts) ∧
          ∀ granted grantedData type cell,
            Framed (getAnswer granted grantedData type cell) (-1, cell) (intBytes size ++ body)
              delivered cuts) ∧
    (∀ m : Message, (∀ a ∈ m.argv, a.Transmissible) → (encodeRequest m).length + 4 < 2 ^ 31 →
      delivered <+: requestFrame m →
        ((∀ granted alloc msg,
          Framed (readMsg granted alloc msg) none (requestFrame m) delivered cuts) ↔
            Socket.ReadsWhole ⟨delivered, cuts⟩ [4, (encodeRequest m).length])) ∧
    ∀ (status : Byte) (ret : Option RpcArg), IsAnswer status ret →
      (encodeAnswer status ret).length + 4 < 2 ^ 31 →
        (∀ s, ret = some (.str s) → s.length < 2 ^ 32) → delivered <+: answerFrame status ret →
          ((∀ granted grantedData type cell,
            Framed (getAnswer granted grantedData type cell) (-1, cell) (answerFrame status ret)
              delivered cuts) ↔
            Socket.ReadsWhole ⟨delivered, cuts⟩ [4, (encodeAnswer status ret).length] ∨
              encodeAnswer status ret = [rpcRetOk, rpcTyStr, 0] ∧
                delivered = answerFrame status ret ∧
                  Socket.readLengths ⟨delivered, cuts⟩ [4, (encodeAnswer status ret).length] =
                    [some 4, some 2]) := by
  refine ⟨?_, fun m htr hsize hd => framed_readMsg_iff htr hsize hd,
    fun status ret h hsize hstr hd => framed_getAnswer_iff h hsize hstr hd⟩
  intro size body hsize hbody hd hreads
  have hblock : (size + 1).toInt = size.toInt + 1 := toInt_add_one (by omega)
  constructor
  · intro granted alloc msg
    exact framed_recvFrame hsize (by rw [hblock]; omega) hd hreads granted none _
  · intro granted grantedData type cell
    rw [getAnswer_eq]
    exact framed_recvFrame hsize (by rw [hsize]) hd hreads granted (-1, cell) _

/-- A call of `f` without arguments, -/
def callF : Message where
  commandLength := 1
  command := [0x66]
  returnType := rpcTyStr
  argc := 0
  argv := []
  command_length := rfl
  argv_length := length_nil_eq

/-- Its result. -/
def strHi : CString := CString.ofBytes [0x68, 0x69]

/-- When the first `recv` returns two of the four bytes of the length, the other
two are used all the same, although the whole frame is on its way. -/
theorem not_framed_two_bytes :
    (¬ ∀ granted alloc msg,
      Framed (readMsg granted alloc msg) none (requestFrame callF) (requestFrame callF)
        [.chunk 1]) ∧
    ¬ ∀ granted grantedData type cell,
      Framed (getAnswer granted grantedData type cell) (-1, cell)
        (answerFrame rpcRetOk (some (.str strHi))) (answerFrame rpcRetOk (some (.str strHi)))
        [.chunk 1] := by
  constructor
  · intro h
    exact absurd (h true allGranted .unset)
      (not_framed_of_fault (e := .uninitialised) (b := some callF) rfl rfl)
  · intro h
    exact absurd (h true true (charToInt rpcTyStr) none)
      (not_framed_of_fault (e := .uninitialised) (b := (0, none)) rfl rfl)

/-- The call of `f` and the answer "hi", in one piece each. -/
theorem framed_iff_callF :
    (Framed (readMsg true allGranted .unset) none (requestFrame callF) (requestFrame callF) [] ∧
      Framed (getAnswer true true (charToInt rpcTyStr) none) (-1, none)
        (requestFrame callF) (requestFrame callF) []) ∧
    Framed (readMsg true allGranted .unset) none (requestFrame callF) (requestFrame callF) [] ∧
    Framed (getAnswer true true (charToInt rpcTyStr) none) (-1, none)
      (answerFrame rpcRetOk (some (.str strHi))) (answerFrame rpcRetOk (some (.str strHi))) [] := by
  have hreads : Socket.ReadsWhole ⟨requestFrame callF, []⟩ [4, (encodeRequest callF).length] :=
    ⟨rfl, rfl, trivial⟩
  have hwhole := (framed_iff (requestFrame callF) []).1 _ (encodeRequest callF) rfl (by decide)
    (List.prefix_refl _) hreads
  have hrequest := (framed_iff (requestFrame callF) []).2.1 callF
    (fun a ha => absurd ha List.not_mem_nil) (by decide) (List.prefix_refl _)
  have hanswer := (framed_iff (answerFrame rpcRetOk (some (.str strHi))) []).2.2 rpcRetOk
    (some (.str strHi)) (.value _ rfl) (by decide) (fun s hs => by cases hs; decide)
    (List.prefix_refl _)
  exact ⟨⟨hwhole.1 true allGranted .unset, hwhole.2 true true _ none⟩,
    hrequest.mpr hreads true allGranted .unset,
    hanswer.mpr (.inl ⟨rfl, rfl, trivial⟩) true true _ none⟩

end RemoteProcedure
