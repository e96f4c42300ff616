import RemoteProcedure.RequestScan
import RemoteProcedure.Receive

/-!
# What the server accepts

`deserialize_message` returns how many bytes it consumed too many or too few,
and -1 when it fails; `read_msg` tests for -1.  One byte left over looks like a
failure, and any other number is not noticed.

The block `read_msg` receives into has one cell more than the body.  Nothing is
said about that cell: it may hold a byte from before or, as far as the program
may tell, no value at all.

## Main definitions

* `requestWidth` — how many of some bytes a request takes, if there is one.
* `AcceptedExactly` — the server goes on exactly if a request was read and nothing
  is left over.

## Main results

* `acceptedExactly_iff` — **no body is accepted wrongly but those with more than
  one byte left over, and those whose request takes in the cell behind them**.
-/

namespace RemoteProcedure

open Machine

/-- `read_msg`, once the body is received. -/
def readMsgBody (alloc : MsgBlock → Bool) (msg : RawMessage) (size : CInt) (from' : Buffer Byte) :
    Checked (Option Message) := do
  let d ← deserializeMessage false alloc (some msg) size (some from')
  return d.dispatched

theorem readMsg_eq (granted : Bool) (alloc : MsgBlock → Bool) (msg : RawMessage) :
    readMsg granted alloc msg =
      recvFrame granted (fun size => size + 1) none (readMsgBody alloc msg) := rfl

/-- Whatever the allocations do, when the decoder does not fault the server goes on
exactly if a whole message was read and the announced bytes are used up. -/
def AcceptedExactly (size : CInt) (from' : Buffer Byte) : Prop :=
  ∀ (alloc : MsgBlock → Bool) (msg : RawMessage) (d : Decoded),
    deserializeMessage false alloc (some msg) size (some from') = .ok d →
      ((∃ m, readMsgBody alloc msg size from' = .ok (some m)) ↔ ∃ m, d = .done 0 m)

/-! ### The width of a request -/

/-- How many bytes `n` arguments take. -/
def argsWidth : ℕ → List Byte → Option ℕ
  | 0, _ => some 0
  | n + 1, t =>
    match scanArg t with
    | .field skip _ width =>
      if skip + width ≤ t.length then
        (argsWidth n (t.drop (skip + width))).map (skip + width + ·)
      else none
    | _ => none

/-- How many bytes the fields of a request behind its command take. -/
def tailWidth : List Byte → Option ℕ
  | _ :: b₀ :: b₁ :: b₂ :: b₃ :: t =>
    (argsWidth (intOfBytes b₀ b₁ b₂ b₃).toInt.toNat t).map (5 + ·)
  | _ => none

/-- How many bytes a request takes. -/
def requestWidth : List Byte → Option ℕ
  | b₀ :: b₁ :: b₂ :: b₃ :: t =>
    let commandLength := (intOfBytes b₀ b₁ b₂ b₃).toInt
    if 0 ≤ commandLength ∧ commandLength ≤ t.length then
      (tailWidth (t.drop commandLength.toNat)).map (4 + commandLength.toNat + ·)
    else none
  | _ => none

/-! ### The argument loop -/

section

variable {buf rest : Buffer Byte} {e : Fault}

/-- **A loop that ends has moved over the arguments.** -/
theorem argsWidth_of_done (n : ℕ) : ∀ {alloc : MsgBlock → Bool} {t : List Byte} {i cpt cpt' : ℕ}
    {args : { l : List RpcArg // l.length = n }}, buf.drop cpt = t.map some ++ rest →
      Buffer.endFault rest = some e → decodeArgs false alloc buf n i cpt = .ok (.done args cpt') →
        ∃ w, argsWidth n t = some w ∧ w ≤ t.length ∧ cpt' = cpt + w := by
  induction n with
  | zero =>
    intro alloc t i cpt cpt' args _ _ hdone
    cases hdone
    exact ⟨0, rfl, Nat.zero_le _, rfl⟩
  | succ n ih =>
    intro alloc t i cpt cpt' args h hend hdone
    obtain ⟨skip, len, width, hscan, hroom, as, has⟩ := field_of_done h hend hdone
    obtain ⟨w, hw, hle, hcpt⟩ := ih (Buffer.drop_cells h hroom) hend has
    rw [List.length_drop] at hle
    refine ⟨skip + width + w, ?_, by omega, by omega⟩
    rw [argsWidth, hscan]
    simp only [if_pos hroom, hw, Option.map_some]

/-- **Without a failed allocation the loop moves over the arguments.** -/
theorem exists_done_of_argsWidth (n : ℕ) : ∀ {t : List Byte} {i cpt w : ℕ},
    buf.drop cpt = t.map some ++ rest → argsWidth n t = some w →
      ∃ args, decodeArgs false allGranted buf n i cpt = .ok (.done args (cpt + w)) := by
  induction n with
  | zero =>
    intro t i cpt w _ hw
    cases hw
    exact ⟨_, rfl⟩
  | succ n ih =>
    intro t i cpt w h hw
    rw [argsWidth] at hw
    cases hscan : scanArg t with
    | short => rw [hscan] at hw; cases hw
    | undefined => rw [hscan] at hw; cases hw
    | negative => rw [hscan] at hw; cases hw
    | field skip len width =>
      rw [hscan] at hw
      simp only at hw
      split_ifs at hw with hroom
      obtain ⟨w', hw', rfl⟩ := Option.map_eq_some_iff.mp hw
      obtain ⟨as, has⟩ := ih (i := i + 1) (Buffer.drop_cells h hroom) hw'
      obtain ⟨args, -, hargs, -⟩ := exists_done_of_field h hscan hroom has
      have hcursor : cpt + (skip + width) + w' = cpt + (skip + width + w') := by omega
      rw [hcursor] at hargs
      exact ⟨args, hargs⟩

/-! ### The whole walk -/

/-- The fields behind the command were read off the bytes. -/
theorem tail_of_reads {t : List Byte} {cpt : ℕ} {returnType : Byte} {argc : CInt}
    (h : buf.drop cpt = t.map some ++ rest) (hend : Buffer.endFault rest = some e)
    (htype : buf.read cpt = .ok returnType) (hargc : buf.readInt (cpt + 1) = .ok argc) :
    ∃ b₀ b₁ b₂ b₃ t', t = returnType :: b₀ :: b₁ :: b₂ :: b₃ :: t' ∧
      argc = intOfBytes b₀ b₁ b₂ b₃ := by
  cases t with
  | nil =>
    rw [Buffer.read_of_end h hend] at htype
    cases htype
  | cons b t =>
    rw [Buffer.read_of_drop h] at htype
    cases htype
    have hnext : buf.drop (cpt + 1) = t.map some ++ rest := Buffer.drop_succ h
    obtain ⟨b₀, b₁, b₂, b₃, t', rfl, rfl⟩ := Buffer.cells_of_readInt hnext hend hargc
    exact ⟨b₀, b₁, b₂, b₃, t', rfl, rfl⟩

/-- The reads of the header: the command, the return type and the count. -/
structure HeaderReads (buf : Buffer Byte) (commandLength : CInt)
    (command : { l : List Byte // (l.length : ℤ) = commandLength.toInt }) (returnType : Byte)
    (argc : CInt) : Prop where
  length : buf.readInt 0 = .ok commandLength
  copy : buf.copy 4 commandLength.toInt = .ok command
  type : buf.read (4 + command.1.length) = .ok returnType
  count : buf.readInt (4 + command.1.length + 1) = .ok argc

/-- The ways `deserialize_message` can go without a fault. -/
inductive Walk (alloc : MsgBlock → Bool) (raw : RawMessage) (size : CInt) (buf : Buffer Byte) :
    Decoded → Prop where
  /-- There is no block for the command. -/
  | noCommand (commandLength : CInt)
      (hdenied : mallocSucceeds (alloc .command) (commandLength + 1).toInt = false)
      (hread : buf.readInt 0 = .ok commandLength) :
      Walk alloc raw size buf (.failed { raw with command := .null })
  /-- There is no block for the arguments. -/
  | noArgv {commandLength : CInt}
      {command : { l : List Byte // (l.length : ℤ) = commandLength.toInt }} {returnType : Byte}
      {argc : CInt} (hreads : HeaderReads buf commandLength command returnType argc)
      (hgranted : mallocSucceeds (alloc .command) (commandLength + 1).toInt = true)
      (hargc : 0 < argc.toInt) (hdenied : alloc .argv = false) :
      Walk alloc raw size buf (.failed ⟨.own (), some argc, .null⟩)
  /-- The loop fails. -/
  | failed {commandLength : CInt}
      {command : { l : List Byte // (l.length : ℤ) = commandLength.toInt }} {returnType : Byte}
      {argc : CInt} (hreads : HeaderReads buf commandLength command returnType argc)
      (hgranted : mallocSucceeds (alloc .command) (commandLength + 1).toInt = true)
      (hargv : ¬ (0 < argc.toInt ∧ alloc .argv = false)) {slots : List (Ptr Unit)}
      (hargs : decodeArgs false alloc buf argc.toInt.toNat 0 (4 + command.1.length + 5) =
        .ok (.fail slots)) :
      Walk alloc raw size buf (.failed ⟨.own (), some argc, .own slots⟩)
  /-- The message is filled in. -/
  | done {m : Message} (hreads : HeaderReads buf m.commandLength ⟨m.command, m.command_length⟩
        m.returnType m.argc) {args : { l : List RpcArg // l.length = m.argc.toInt.toNat }} {cpt : ℕ}
      (hargs : decodeArgs false alloc buf m.argc.toInt.toNat 0 (4 + m.command.length + 5) =
        .ok (.done args cpt)) :
      Walk alloc raw size buf (.done (BitVec.ofNat 32 cpt - size) m)

/-- **What `deserialize_message` can do.** -/
theorem walk_cases {alloc : MsgBlock → Bool} {raw : RawMessage} {size : CInt} {d : Decoded}
    (h : deserializeMessage false alloc (some raw) size (some buf) = .ok d) :
    Walk alloc raw size buf d := by
  rw [deserializeMessage, Checked.bind_eq_ok] at h
  obtain ⟨commandLength, hlength, h⟩ := h
  rw [Buffer.auditLength_false, Checked.ok_bind] at h
  split_ifs at h with hgranted
  · rw [Checked.bind_eq_ok] at h
    obtain ⟨command, hcommand, h⟩ := h
    simp only [Checked.bind_eq_ok] at h
    obtain ⟨returnType, htype, argc, hargc, -, -, h⟩ := h
    have hreads : HeaderReads buf commandLength command returnType argc :=
      ⟨hlength, hcommand, htype, hargc⟩
    split_ifs at h with hargv
    · cases h
      exact .noArgv hreads hgranted hargv.1 hargv.2
    · rw [Checked.bind_eq_ok] at h
      obtain ⟨args, hargs, h⟩ := h
      cases args with
      | fail slots =>
        cases h
        exact .failed hreads hgranted hargv hargs
      | done args cpt =>
        cases h
        exact .done hreads hargs
  · cases h
    exact .noCommand commandLength (Bool.not_eq_true _ ▸ hgranted) hlength

/-- **A header that was read lies inside the bytes.** -/
theorem header_of_reads {bytes : List Byte} {commandLength argc : CInt} {returnType : Byte}
    {command : { l : List Byte // (l.length : ℤ) = commandLength.toInt }}
    (h : buf = bytes.map some ++ rest) (hend : Buffer.endFault rest = some e)
    (hreads : HeaderReads buf commandLength command returnType argc) :
    ∃ b₀ b₁ b₂ b₃ t c₀ c₁ c₂ c₃ t', bytes = b₀ :: b₁ :: b₂ :: b₃ :: t ∧
      commandLength = intOfBytes b₀ b₁ b₂ b₃ ∧
      (0 ≤ commandLength.toInt ∧ commandLength.toInt ≤ t.length) ∧
      t.drop command.1.length = returnType :: c₀ :: c₁ :: c₂ :: c₃ :: t' ∧
      argc = intOfBytes c₀ c₁ c₂ c₃ ∧
      buf.drop (4 + command.1.length + 5) = t'.map some ++ rest := by
  have h₀ : buf.drop 0 = bytes.map some ++ rest := h
  obtain ⟨b₀, b₁, b₂, b₃, t, rfl, hn⟩ := Buffer.cells_of_readInt h₀ hend hreads.length
  have h₄ : buf.drop 4 = t.map some ++ rest := Buffer.drop_cells (k := 4) h₀ (by simp)
  obtain ⟨hlo, hhi⟩ := Buffer.le_of_copy h₄ hend hreads.copy
  have hlen := command.2
  have htail := Buffer.drop_cells h₄ (k := command.1.length) (by omega)
  obtain ⟨c₀, c₁, c₂, c₃, t', ht, hc⟩ := tail_of_reads htail hend hreads.type hreads.count
  rw [ht] at htail
  exact ⟨b₀, b₁, b₂, b₃, t, c₀, c₁, c₂, c₃, t', rfl, hn, ⟨hlo, hhi⟩, ht, hc,
    Buffer.drop_cells (k := 5) htail (by simp)⟩

/-- **A walk that ends has moved over a request.** -/
theorem requestWidth_of_done {alloc : MsgBlock → Bool} {raw : RawMessage} {size ret : CInt}
    {bytes : List Byte} {m : Message} (h : buf = bytes.map some ++ rest)
    (hend : Buffer.endFault rest = some e)
    (hdone : deserializeMessage false alloc (some raw) size (some buf) = .ok (.done ret m)) :
    ∃ w, requestWidth bytes = some w ∧ w ≤ bytes.length ∧ ret = BitVec.ofNat 32 w - size := by
  cases walk_cases hdone with
  | done hreads hargs =>
    obtain ⟨b₀, b₁, b₂, b₃, t, c₀, c₁, c₂, c₃, t', rfl, hn, hlength, ht, hc, hfields⟩ :=
      header_of_reads h hend hreads
    obtain ⟨w, hw, hle, rfl⟩ := argsWidth_of_done _ hfields hend hargs
    have hlen : m.command.length = m.commandLength.toInt.toNat := by
      have := m.command_length
      omega
    have hroom := congrArg List.length ht
    simp only [List.length_drop, List.length_cons] at hroom
    refine ⟨4 + m.command.length + (5 + w), ?_, ?_, ?_⟩
    · rw [requestWidth]
      simp only [← hn, if_pos hlength, ← hlen, ht, tailWidth, ← hc, hw, Option.map_some]
    · simp only [List.length_cons]
      omega
    · rw [Nat.add_assoc _ 5 w]

/-- Without a failed allocation the walk ends where the loop does. -/
theorem exists_done_of_reads {commandLength argc : CInt} {returnType : Byte}
    {command : { l : List Byte // (l.length : ℤ) = commandLength.toInt }}
    (hreads : HeaderReads buf commandLength command returnType argc)
    (hblock : 0 ≤ (commandLength + 1).toInt)
    {args : { l : List RpcArg // l.length = argc.toInt.toNat }}
    {cpt : ℕ} (hargs : decodeArgs false allGranted buf argc.toInt.toNat 0
      (4 + command.1.length + 5) = .ok (.done args cpt)) (raw : RawMessage) (size : CInt) :
    ∃ m, deserializeMessage false allGranted (some raw) size (some buf) =
      .ok (.done (BitVec.ofNat 32 cpt - size) m) := by
  rw [deserializeMessage]
  simp only
  rw [hreads.length, Checked.ok_bind, Buffer.auditLength_false, Checked.ok_bind, allGranted_eq,
    if_pos (mallocSucceeds_of_nonneg hblock), hreads.copy, Checked.ok_bind, hreads.type,
    Checked.ok_bind, hreads.count, Checked.ok_bind, Buffer.auditLength_false, Checked.ok_bind,
    allGranted_eq, if_neg (by simp), hargs]
  exact ⟨_, rfl⟩

/-- **Without a failed allocation the walk moves over a request.** -/
theorem exists_done_of_requestWidth {bytes : List Byte} {w : ℕ}
    (h : buf = bytes.map some ++ rest) (hbytes : bytes.length ≤ 2 ^ 31)
    (hw : requestWidth bytes = some w) (raw : RawMessage) (size : CInt) :
    ∃ m, deserializeMessage false allGranted (some raw) size (some buf) =
      .ok (.done (BitVec.ofNat 32 w - size) m) := by
  have h₀ : buf.drop 0 = bytes.map some ++ rest := h
  unfold requestWidth at hw
  split at hw
  · next b₀ b₁ b₂ b₃ t =>
    simp only at hw
    split_ifs at hw with hcommand
    obtain ⟨hlo, hhi⟩ := hcommand
    obtain ⟨w₁, hw₁, rfl⟩ := Option.map_eq_some_iff.mp hw
    simp only [List.length_cons] at hbytes
    have h₄ : buf.drop 4 = t.map some ++ rest := Buffer.drop_cells (k := 4) h₀ (by simp)
    obtain ⟨command, hcopy⟩ := Buffer.copy_of_le h₄ hlo hhi
    have hlen : command.1.length = (intOfBytes b₀ b₁ b₂ b₃).toInt.toNat := by
      have := command.2
      omega
    have htail := Buffer.drop_cells h₄ (k := command.1.length) (by omega)
    rw [← hlen] at hw₁
    unfold tailWidth at hw₁
    split at hw₁
    · next b c₀ c₁ c₂ c₃ t' ht =>
      obtain ⟨w₂, hw₂, rfl⟩ := Option.map_eq_some_iff.mp hw₁
      rw [ht] at htail
      have hfields : buf.drop (4 + command.1.length + 5) = t'.map some ++ rest :=
        Buffer.drop_cells (k := 5) htail (by simp)
      obtain ⟨args, hargs⟩ := exists_done_of_argsWidth _ (i := 0) hfields hw₂
      have hreads : HeaderReads buf (intOfBytes b₀ b₁ b₂ b₃) command b (intOfBytes c₀ c₁ c₂ c₃) :=
        ⟨Buffer.readInt_of_cells h₀, hcopy, Buffer.read_of_drop htail,
          Buffer.readInt_of_cells (Buffer.drop_succ htail)⟩
      have hblock : (intOfBytes b₀ b₁ b₂ b₃ + 1).toInt = (intOfBytes b₀ b₁ b₂ b₃).toInt + 1 :=
        toInt_add_one (by omega)
      have hcursor : 4 + command.1.length + 5 + w₂ = 4 + command.1.length + (5 + w₂) := by omega
      rw [hcursor] at hargs
      rw [← hlen]
      exact exists_done_of_reads hreads (by omega) hargs raw size
    · cases hw₁
  · cases hw

end

/-! ### What is accepted -/

/-- The cells of the block `read_msg` receives the body into. -/
theorem cells_eq (body : List Byte) (spare : Option Byte) :
    ∃ rest e, body.map some ++ [spare] = (body ++ spare.toList).map some ++ rest ∧
      Buffer.endFault rest = some e := by
  cases spare with
  | none => exact ⟨[none], .uninitialised, by rw [Option.toList_none, List.append_nil], rfl⟩
  | some b => exact ⟨[], .outOfRange, by simp, rfl⟩

/-- **The server decodes the body of a whole frame**, and a cell without a value. -/
theorem readMsg_whole (alloc : MsgBlock → Bool) (msg : RawMessage) {size : CInt} {body : List Byte}
    (hsize : size.toInt = body.length) (hlt : body.length + 1 < 2 ^ 31) :
    readMsg true alloc msg ⟨intBytes size ++ body, []⟩ =
      readMsgBody alloc msg size (body.map some ++ [none]) := by
  have hblock : (size + 1).toInt = body.length + 1 := by
    rw [toInt_add_one (by omega), hsize]
  have hone : ((body.length : ℤ) + 1).toNat - body.length = 1 := by omega
  rw [readMsg_eq, recvFrame_uncut hsize (by rw [hblock]; omega), hblock,
    if_pos (mallocSucceeds_of_nonneg (by omega)), Buffer.received, hone, List.replicate_one]

theorem exists_readMsgBody_iff {alloc : MsgBlock → Bool} {msg : RawMessage} {size : CInt}
    {from' : Buffer Byte} {d : Decoded}
    (hd : deserializeMessage false alloc (some msg) size (some from') = .ok d) :
    (∃ m, readMsgBody alloc msg size from' = .ok (some m)) ↔ ∃ m, d.dispatched = some m := by
  have hbody : readMsgBody alloc msg size from' = .ok d.dispatched := by
    rw [readMsgBody, hd]
    rfl
  simp only [hbody, Except.ok.injEq]

/-- A parse of `w` bytes out of `n`, or of one more, goes wrong exactly if it takes
neither all of them nor all but one. -/
theorem dispatched_iff_exact {w n : ℕ} (hw : w ≤ n + 1) (hn : n < 2 ^ 31) (m : Message) :
    ((∃ m', (Decoded.done (BitVec.ofNat 32 w - BitVec.ofNat 32 n) m).dispatched = some m') ↔
      ∃ m', Decoded.done (BitVec.ofNat 32 w - BitVec.ofNat 32 n) m = .done 0 m') ↔
    (w = n ∨ w + 1 = n) := by
  have hfail : BitVec.ofNat 32 w - BitVec.ofNat 32 n = (-1 : CInt) ↔ w + 1 = n := by
    rw [ofNat_sub_ofNat_eq_neg_one_iff]
    omega
  have hexact : BitVec.ofNat 32 w - BitVec.ofNat 32 n = (0 : CInt) ↔ w = n := by
    rw [ofNat_sub_ofNat_eq_zero_iff]
    omega
  have hdone : (∃ m', Decoded.done (BitVec.ofNat 32 w - BitVec.ofNat 32 n) m = .done 0 m') ↔
      w = n := by
    simp only [Decoded.done.injEq, exists_and_left, exists_eq', and_true, hexact]
  have hdispatched : (∃ m', (Decoded.done (BitVec.ofNat 32 w - BitVec.ofNat 32 n) m).dispatched =
      some m') ↔ w + 1 ≠ n := by
    rw [Decoded.dispatched]
    split_ifs with h
    · exact iff_of_false (fun hsome => nomatch hsome) (not_not_intro (hfail.mp h))
    · exact iff_of_true ⟨m, rfl⟩ fun hw => h (hfail.mpr hw)
  rw [hdone, hdispatched]
  omega

/-- **A body is accepted wrongly exactly if the request in it, read on into the cell
behind it, takes neither all the bytes nor all but one.** -/
theorem acceptedExactly_iff {size : CInt} {body : List Byte} (hsize : body.length = size.toInt)
    (spare : Option Byte) :
    AcceptedExactly size (body.map some ++ [spare]) ↔
      ∀ w, requestWidth (body ++ spare.toList) = some w →
        w = body.length ∨ w + 1 = body.length := by
  obtain ⟨rest, e, hcells, hend⟩ := cells_eq body spare
  have hlt := toInt_lt_two_pow size
  have hspare : (body ++ spare.toList).length ≤ body.length + 1 := by
    rw [List.length_append]
    have := Option.length_toList_le (o := spare)
    omega
  have hofNat : size = BitVec.ofNat 32 body.length := by
    apply BitVec.eq_of_toInt_eq
    rw [toInt_ofNat_of_lt (by omega), hsize]
  constructor
  · intro h w hw
    obtain ⟨m, hm⟩ := exists_done_of_requestWidth hcells (by omega) hw .unset size
    obtain ⟨w', hw', hle, -⟩ := requestWidth_of_done hcells hend hm
    rw [hw] at hw'
    cases hw'
    have hexact := h allGranted .unset _ hm
    rw [exists_readMsgBody_iff hm, hofNat] at hexact
    exact (dispatched_iff_exact (by omega) (by omega) m).mp hexact
  · intro h alloc msg d hd
    rw [exists_readMsgBody_iff hd]
    cases d with
    | rejected => exact iff_of_false (fun hsome => nomatch hsome) fun hdone => nomatch hdone
    | failed raw => exact iff_of_false (fun hsome => nomatch hsome) fun hdone => nomatch hdone
    | done ret m =>
      obtain ⟨w, hw, hle, rfl⟩ := requestWidth_of_done hcells hend hd
      rw [hofNat]
      exact (dispatched_iff_exact (by omega) (by omega) m).mpr (h w hw)

/-- A call of "f" without arguments, and nothing behind it. -/
theorem acceptedExactly_iff_f :
    AcceptedExactly 10 ([1, 0, 0, 0, 0x66, 2, 0, 0, 0, 0].map some ++ [none]) ↔
      ∀ w, requestWidth ([1, 0, 0, 0, 0x66, 2, 0, 0, 0, 0] ++ (none : Option Byte).toList) =
        some w → w = 10 ∨ w + 1 = 10 :=
  acceptedExactly_iff (by decide) none

/-- The same call with two bytes behind it, which nothing has read. -/
theorem not_acceptedExactly_f :
    ¬ AcceptedExactly 12 ([1, 0, 0, 0, 0x66, 2, 0, 0, 0, 0, 7, 7].map some ++ [none]) ∧
      ∃ m, readMsg true allGranted .unset
        ⟨intBytes 12 ++ [1, 0, 0, 0, 0x66, 2, 0, 0, 0, 0, 7, 7], []⟩ = .ok (some m) := by
  constructor
  · intro h
    obtain ⟨m, hm⟩ := (h allGranted .unset _ rfl).mp ⟨_, rfl⟩
    cases hm
  · exact ⟨_, rfl⟩

end RemoteProcedure
