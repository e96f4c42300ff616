import RemoteProcedure.RemoteCall

/-!
# What the client sends

`external_call` walks its variable arguments twice, to count them and to put them in
an array, from which it builds the message.  When one cannot be built, what it goes on
with was never stored, or was freed.

## Main definitions

* `externalCallVariadic` — `external_call`, from its variable arguments on, whatever
  is allocated.
* `Builds` — the message and the frame are built.
* `SendsOnlyBuilt` — a frame that is built is sent once, and nothing is sent and no
  fault made when none is.
* `Buildable` — the calls a frame is built for.

## Main results

* `sendsOnlyBuilt_iff` — **nothing but the frame is sent exactly if it can be built,
  or there is no array for the arguments**.
-/

namespace RemoteProcedure

open Machine

/-! ### The variable arguments -/

/-- Two of the variable arguments: a pointer, which is not null, to what the type says,
and the type, an `int` that is cut down to a `char`. -/
structure VarArg where
  type : CInt
  arg : RpcArg
  typ_eq : arg.typ = intToChar type

/-- The walk that counts the arguments. -/
def countArgs (nbArgs : CInt) : List VarArg → CInt
  | [] => nbArgs
  | _ :: ap => countArgs (nbArgs + 1) ap

/-- The walk that fills an array of `n` entries. -/
def fillArgs : (n : ℕ) → List VarArg → Checked { l : List RpcArg // l.length = n }
  | 0, [] => .ok ⟨[], List.length_nil⟩
  -- behind the end of the array
  | 0, _ :: _ => .error .outOfRange
  -- the entry keeps what the block held
  | _ + 1, [] => .error .uninitialised
  | n + 1, a :: ap => do
    let l ← fillArgs n ap
    return ⟨a.arg :: l.1, length_cons_eq a.arg l⟩

/-! ### The call -/

/-- A peer that notes what it is sent, and on whose connection `clt` is to be received. -/
def noting (clt : Socket Byte) (request : List Byte) : Checked (Socket Byte × List (List Byte)) :=
  .ok (clt, [request])

/-- `external_call`. -/
def externalCallVariadic (alloc : ClientBlock → Bool) (connected accepted : Bool)
    (clt : Socket Byte) (fuel : ℕ) (command : Option CString) (type : CInt) (ret : Option Data)
    (ap : List VarArg) : Option (Checked (Returned (List Byte))) :=
  let nbArgs := countArgs 0 ap
  -- an entry of the array takes 16 bytes
  if mallocSucceeds (alloc .args) (16 * nbArgs.toInt) then
    andThen (some (fillArgs nbArgs.toInt.toNat ap)) fun args =>
    externalCall alloc connected accepted (noting clt) fuel command (intToChar type) ret args
  else some (.ok ⟨-1, ret, []⟩)

/-- The array is filled, `create_message` returns 0, and `serialize_message` a block
that holds the frame. -/
def Builds (alloc : ClientBlock → Bool) (command : Option CString) (type : CInt)
    (ap : List VarArg) (frame : List Byte) : Prop :=
  mallocSucceeds (alloc .args) (16 * (countArgs 0 ap).toInt) = true ∧
  ∃ (args : ArgArray (countArgs 0 ap)) (m : Message) (blk : Block Byte) (size : CInt),
    fillArgs (countArgs 0 ap).toInt.toNat ap = .ok args ∧
    createMessage (fun b => alloc (.msg b)) (some .unset) command (intToChar type)
      (countArgs 0 ap) (some args) = .ok (.created m) ∧
    serializeMessage (alloc .serial) (some m) = .ok (some (blk, size)) ∧
    blk.contents = some frame

/-- When no frame is built the call returns -1, without a fault and without a byte sent
or a result stored; and a frame that is built is sent once, as it is, if the connection
is made and takes it, and the call returns if `getAnswer` does. -/
def SendsOnlyBuilt (alloc : ClientBlock → Bool) (command : Option CString) (type : CInt)
    (ap : List VarArg) : Prop :=
  ∀ (connected accepted : Bool) (clt : Socket Byte) (ret : Option Data),
    ((∀ frame, ¬ Builds alloc command type ap frame) →
      ∃ fuel, externalCallVariadic alloc connected accepted clt fuel command type ret ap =
        some (.ok ⟨-1, ret, []⟩)) ∧
    ∀ frame, Builds alloc command type ap frame →
      (∃ answer, getAnswer (alloc .answer) (alloc .data) (charToInt (intToChar type)) ret clt =
        .ok answer) →
      ∃ fuel out, externalCallVariadic alloc connected accepted clt fuel command type ret ap =
          some (.ok out) ∧
        out.effects = if connected && accepted then [frame] else []

/-! ### The array of the arguments -/

theorem countArgs_eq (ap : List VarArg) : ∀ nbArgs : CInt,
    countArgs nbArgs ap = nbArgs + BitVec.ofNat 32 ap.length := by
  induction ap with
  | nil => exact fun nbArgs => (BitVec.add_zero nbArgs).symm
  | cons a ap ih =>
    intro nbArgs
    rw [countArgs, ih, List.length_cons, Nat.add_comm, BitVec.ofNat_add, BitVec.add_assoc]
    rfl

theorem countArgs_zero (ap : List VarArg) : countArgs 0 ap = BitVec.ofNat 32 ap.length := by
  rw [countArgs_eq]
  exact BitVec.zero_add _

/-- An array of the right length is filled. -/
theorem fillArgs_of_length {ap : List VarArg} {n : ℕ} (hn : ap.length = n) :
    fillArgs n ap = .ok ⟨ap.map VarArg.arg, (List.length_map _).trans hn⟩ := by
  subst hn
  induction ap with
  | nil => rfl
  | cons a ap ih =>
    show fillArgs (ap.length + 1) (a :: ap) =
      .ok ⟨a.arg :: ap.map VarArg.arg, congrArg Nat.succ (List.length_map _)⟩
    rw [fillArgs, ih]
    rfl

/-- No other is. -/
theorem length_of_fillArgs : ∀ {n : ℕ} {ap : List VarArg} {l : { l : List RpcArg // l.length = n }},
    fillArgs n ap = .ok l → ap.length = n
  | 0, [], _, _ => rfl
  | 0, _ :: _, _, h => by cases h
  | _ + 1, [], _, h => by cases h
  | n + 1, a :: ap, l, h => by
    rw [fillArgs, Checked.bind_eq_ok] at h
    obtain ⟨l', hl', -⟩ := h
    rw [List.length_cons, length_of_fillArgs hl']

/-! ### What is asked of a call -/

/-- There is no array: its block is denied, or the number of the arguments wraps to one
that is negative. -/
def ArrayDenied (alloc : ClientBlock → Bool) (ap : List VarArg) : Prop :=
  alloc .args = false ∨ (BitVec.ofNat 32 ap.length).toInt < 0

instance (alloc : ClientBlock → Bool) (ap : List VarArg) : Decidable (ArrayDenied alloc ap) :=
  inferInstanceAs (Decidable (_ ∨ _))

/-- The calls a frame is built for and sent whole: each block is granted, the command
is no null pointer, the types are those of the protocol, and the frame is measured by an
`int`. -/
structure Buildable (alloc : ClientBlock → Bool) (command : Option CString) (type : CInt)
    (ap : List VarArg) : Prop where
  length : ap.length < 2 ^ 31
  sendable : ∃ c, command = some c ∧ Sendable c (intToChar type) (ap.map VarArg.arg)
  args : alloc .args = true
  command : alloc (.msg .command) = true
  argv : ap ≠ [] → alloc (.msg .argv) = true
  data : BlocksGranted (fun b => alloc (.msg b)) 0 (ap.map VarArg.arg)
  serial : alloc .serial = true

theorem malloc_args_iff (alloc : ClientBlock → Bool) (ap : List VarArg) :
    mallocSucceeds (alloc .args) (16 * (countArgs 0 ap).toInt) = true ↔ ¬ ArrayDenied alloc ap := by
  rw [countArgs_zero, mallocSucceeds, Bool.and_eq_true, decide_eq_true_eq, ArrayDenied, not_or,
    Bool.not_eq_false]
  refine and_congr_right fun _ => ?_
  omega

section

variable {alloc : MsgBlock → Bool} {command : Option CString} {returnType : Byte} {argc : CInt}
  {args : ArgArray argc}

/-- With a block for each thing the message is created. -/
theorem exists_created (alloc : MsgBlock → Bool) (args : ArgArray argc) {c : CString}
    (htype : typeExists returnType = true) (hcommand : alloc .command = true)
    (hlen : c.length + 1 < 2 ^ 31)
    (hargv : 0 < argc.toInt → alloc .argv = true) (hdata : BlocksGranted alloc 0 args.1) :
    ∃ m, createMessage alloc (some .unset) (some c) returnType argc (some args) =
        .ok (.created m) ∧ CopyOf (some c) returnType argc (some args) m := by
  by_cases hargc : 0 < argc.toInt
  · rcases createMessage_of_args hcommand hlen htype hargc args (hargv hargc) with
      ⟨-, m, hm, hcopy⟩ | ⟨hdenied, -⟩
    · exact ⟨m, hm, hcopy⟩
    · exact absurd hdata hdenied
  · obtain ⟨m, hm, hcopy, -⟩ := createMessage_of_nonpos hcommand hlen htype hargc (some args)
    exact ⟨m, hm, hcopy⟩

/-- **A message that is created has all of its blocks.** -/
theorem blocks_of_created {m : Message}
    (h : createMessage alloc (some .unset) command returnType argc (some args) =
      .ok (.created m)) :
    ∃ c, command = some c ∧ typeExists returnType = true ∧ alloc .command = true ∧
      c.length + 1 < 2 ^ 31 ∧ (0 < argc.toInt → alloc .argv = true) ∧
      BlocksGranted alloc 0 args.1 ∧ CopyOf (some c) returnType argc (some args) m := by
  by_cases hrefused : some () = none ∨ command = none ∨ typeExists returnType = false
  · have heq := h.symm.trans (createMessage_of_refused hrefused (some args))
    cases heq
  simp only [not_or] at hrefused
  obtain ⟨-, hnull, htype⟩ := hrefused
  rw [Bool.not_eq_false] at htype
  obtain ⟨c, rfl⟩ := Option.ne_none_iff_exists'.mp hnull
  by_cases hc : alloc .command = true ∧ c.length + 1 < 2 ^ 31
  · obtain ⟨hcommand, hlen⟩ := hc
    by_cases hargc : 0 < argc.toInt
    · cases hargv : alloc .argv with
      | false =>
        have heq := h.symm.trans (createMessage_of_noArgv hcommand hlen htype hargc args hargv)
        cases heq
      | true =>
        rcases createMessage_of_args hcommand hlen htype hargc args hargv with
          ⟨hdata, m', hm, hcopy⟩ | ⟨-, slots, hslots⟩
        · have heq := h.symm.trans hm
          cases heq
          exact ⟨c, rfl, htype, hcommand, hlen, fun _ => rfl, hdata, hcopy⟩
        · have heq := h.symm.trans hslots
          cases heq
    · obtain ⟨m', hm, hcopy, -⟩ :=
        createMessage_of_nonpos hcommand hlen htype hargc (some args)
      have heq := h.symm.trans hm
      cases heq
      have hnil : args.1 = [] := List.length_eq_zero_iff.mp (by rw [args.2]; omega)
      refine ⟨c, rfl, htype, hcommand, hlen, fun hpos => absurd hpos hargc, ?_, hcopy⟩
      rw [hnil]
      trivial
  · rcases createMessage_of_noCommand htype hc (some args) with hfailed | hfault
    · have heq := h.symm.trans hfailed
      cases heq
    · have heq := h.symm.trans hfault
      cases heq

end

/-! ### Frames that are sent -/

theorem storable_of_length {a : RpcArg} (ha : a.Defined) (h : (encodeArg a).length < 2 ^ 31) :
    a.Storable := by
  cases a with
  | void => trivial
  | int i => trivial
  | str s =>
    rw [encodeArg, List.length_cons, List.length_cons, length_wire] at h
    show s.length % 2 ^ 32 < 2 ^ 31
    omega
  | other typ hother => exact RpcArg.not_defined_other typ hother ha

/-- An argument is stored if all of them can be measured. -/
theorem Sendable.storable {command : CString} {returnType : Byte} {args : List RpcArg}
    (h : Sendable command returnType args) : ∀ a ∈ args, a.Storable := by
  intro a ha
  apply storable_of_length (h.defined a ha)
  have hshort := h.short
  obtain ⟨pre, post, rfl⟩ := List.append_of_mem ha
  rw [encodeArgs, List.flatMap_append, List.flatMap_cons, List.length_append,
    List.length_append] at hshort
  omega

/-! ### The calls that send nothing else -/

section

variable {alloc : ClientBlock → Bool} {command : Option CString} {type : CInt} {ap : List VarArg}

/-- The frame that is built is one and the same. -/
theorem Builds.unique {frame frame' : List Byte} (h : Builds alloc command type ap frame)
    (h' : Builds alloc command type ap frame') : frame = frame' := by
  obtain ⟨-, args, m, blk, size, hfill, hm, hserial, hframe⟩ := h
  obtain ⟨-, args', m', blk', size', hfill', hm', hserial', hframe'⟩ := h'
  have hargs := hfill.symm.trans hfill'
  simp only [Except.ok.injEq] at hargs
  subst hargs
  have hcreated := hm.symm.trans hm'
  simp only [Except.ok.injEq, Created.created.injEq] at hcreated
  subst hcreated
  have hblk := hserial.symm.trans hserial'
  simp only [Except.ok.injEq, Option.some.injEq, Prod.mk.injEq] at hblk
  rw [hblk.1] at hframe
  exact Option.some.inj (hframe.symm.trans hframe')

/-- A message that is sent, and answered, is freed. -/
theorem externalCall_of_created {returnType : Byte} {argc : CInt} {args : ArgArray argc}
    {m : Message}
    (hm : createMessage (fun b => alloc (.msg b)) (some .unset) command returnType argc
      (some args) = .ok (.created m))
    (htype : m.returnType = returnType) (hserial : alloc .serial = true)
    (hst : ∀ a ∈ m.argv, a.Storable) (hsize : (encodeRequest m).length + 4 < 2 ^ 31)
    (connected accepted : Bool) {clt : Socket Byte} {ret : Option Data}
    {answer : CInt × Option Data}
    (hanswer : getAnswer (alloc .answer) (alloc .data) (charToInt returnType) ret clt =
      .ok answer) :
    ∃ fuel out, externalCall alloc connected accepted (noting clt) fuel command returnType ret
        args = some (.ok out) ∧
      out.effects = if connected && accepted then [requestFrame m] else [] := by
  have hcreate : createStackMessage (m.argv.length + 1) alloc command returnType args =
      some (.ok (.filled m)) := by
    rw [createStackMessage, hm]
  have hfree := free_of_defined fun a ha => (hst a ha).defined
  have hsend : sendCmd (alloc .serial) connected accepted (.filled m) =
      .ok (if connected && accepted then some (requestFrame m) else none) := by
    rw [hserial]
    exact sendCmd_of_fits hst hsize connected accepted
  rw [← htype] at hanswer
  cases hsent : connected && accepted with
  | false =>
    rw [hsent] at hsend
    refine ⟨m.argv.length + 1, ⟨-1, ret, []⟩, ?_, rfl⟩
    rw [externalCall, hcreate, andThen_ok, transmition, hsend]
    simp only [Bool.false_eq_true, if_false, Checked.ok_bind, Checked.pure_eq, andThen_ok, hfree]
  | true =>
    rw [hsent] at hsend
    refine ⟨m.argv.length + 1,
      ⟨if answer.1.toInt < 0 then -1 else 0, answer.2, [requestFrame m]⟩, ?_, rfl⟩
    rw [externalCall, hcreate, andThen_ok, transmition, hsend]
    simp only [if_true, noting, Checked.ok_bind, StackMessage.returnType, hanswer,
      Checked.pure_eq, andThen_ok, hfree]

/-- **A call that can be built sends its frame.** -/
theorem sendsOnlyBuilt_of_buildable (h : Buildable alloc command type ap) :
    SendsOnlyBuilt alloc command type ap := by
  obtain ⟨c, rfl, hsendable⟩ := h.sendable
  have hshort := hsendable.short
  have hcount : (countArgs 0 ap).toInt = ap.length := by
    rw [countArgs_zero]
    exact toInt_ofNat_of_lt h.length
  have hlength : ap.length = (countArgs 0 ap).toInt.toNat := by omega
  have hmalloc : mallocSucceeds (alloc .args) (16 * (countArgs 0 ap).toInt) = true := by
    rw [h.args]
    exact mallocSucceeds_of_nonneg (by omega)
  have hfill := fillArgs_of_length hlength
  have hargv : 0 < (countArgs 0 ap).toInt → alloc (.msg .argv) = true := by
    intro hpos
    apply h.argv
    rintro rfl
    exact absurd hpos (by decide)
  obtain ⟨m, hm, hcopy⟩ := exists_created (fun b => alloc (.msg b))
    ⟨ap.map VarArg.arg, (List.length_map _).trans hlength⟩ hsendable.type_exists h.command
    (show c.length + 1 < 2 ^ 31 by omega) hargv h.data
  have hargs : m.argv = ap.map VarArg.arg := hcopy.argv
  have hcommand : m.command = c.bytes := (Option.some.inj hcopy.command).symm
  have hst : ∀ a ∈ m.argv, a.Storable := hargs ▸ hsendable.storable
  have hsize : (encodeRequest m).length + 4 < 2 ^ 31 := by
    rw [length_encodeRequest, hargs, hcommand]
    show c.length + _ + 9 + 4 < 2 ^ 31
    omega
  have hserial := serializeMessage_of_fits (fits_of_short hst hsize)
  have hbuilds : Builds alloc (some c) type ap (requestFrame m) :=
    ⟨hmalloc, _, m, _, _, hfill, hm, h.serial ▸ hserial, Block.contents_filled _⟩
  intro connected accepted clt ret
  refine ⟨fun hnone => absurd hbuilds (hnone _), ?_⟩
  rintro frame hframe ⟨answer, hanswer⟩
  rw [hframe.unique hbuilds]
  obtain ⟨fuel, out, hcall, hsent⟩ := externalCall_of_created hm hcopy.returnType h.serial hst
    hsize connected accepted hanswer
  refine ⟨fuel, out, ?_, hsent⟩
  rw [externalCallVariadic, if_pos hmalloc, hfill, andThen_ok, hcall]

/-- **A call that gets to send anything could be built.** -/
theorem buildable_of_externalCallVariadic {clt : Socket Byte} {fuel : ℕ} {ret : Option Data}
    {out : Returned (List Byte)} (hargs : ¬ ArrayDenied alloc ap)
    (h : externalCallVariadic alloc true true clt fuel command type ret ap = some (.ok out)) :
    Buildable alloc command type ap := by
  rw [externalCallVariadic, if_pos ((malloc_args_iff alloc ap).mpr hargs)] at h
  obtain ⟨args, hfill, h⟩ := andThen_eq_ok h
  obtain ⟨msg, hcreate, h⟩ := andThen_eq_ok h
  obtain ⟨out', htransmit, -⟩ := andThen_eq_ok h
  rw [Option.some.injEq, transmition, Checked.bind_eq_ok] at htransmit
  obtain ⟨sent, hsend, -⟩ := htransmit
  rw [Option.some.injEq] at hfill
  obtain ⟨hserial, m, rfl, hst, hsize⟩ := filled_of_sendCmd hsend
  obtain ⟨c, rfl, htype, hcommand, -, hargv, hdata, hcopy⟩ :=
    blocks_of_created (created_of_stackMessage hcreate)
  have hlength := length_of_fillArgs hfill
  have hbound := toInt_lt_two_pow (countArgs 0 ap)
  have hap : args.1 = ap.map VarArg.arg := by
    rw [fillArgs_of_length hlength, Except.ok.injEq] at hfill
    rw [← hfill]
  have hmargv : m.argv = ap.map VarArg.arg := hcopy.argv.trans hap
  have hmcommand : m.command = c.bytes := (Option.some.inj hcopy.command).symm
  refine ⟨by omega, ⟨c, rfl, htype, ?_, ?_⟩, ?_, hcommand, ?_, hap ▸ hdata, hserial⟩
  · rw [← hmargv]
    exact fun a ha => (hst a ha).defined
  · rw [length_encodeRequest, hmargv, hmcommand] at hsize
    show c.bytes.length + _ + 13 < 2 ^ 31
    omega
  · rw [ArrayDenied, not_or, Bool.not_eq_false] at hargs
    exact hargs.1
  · intro hne
    have hpos := List.length_pos_iff.mpr hne
    exact hargv (by omega)

/-- A connection that fails is an answer to every call. -/
theorem getAnswer_error (granted grantedData : Bool) (type : CInt) (ret : Option Data) :
    getAnswer granted grantedData type ret ⟨[], [.error]⟩ = .ok (-1, ret) := rfl

/-- **A call that sends nothing else could be built**, if it had its array. -/
theorem buildable_of_sendsOnlyBuilt (hargs : ¬ ArrayDenied alloc ap)
    (h : SendsOnlyBuilt alloc command type ap) : Buildable alloc command type ap := by
  obtain ⟨hnone, hsome⟩ := h true true ⟨[], [.error]⟩ none
  by_cases hbuilds : ∃ frame, Builds alloc command type ap frame
  · obtain ⟨frame, hframe⟩ := hbuilds
    obtain ⟨fuel, out, hcall, -⟩ := hsome frame hframe ⟨_, getAnswer_error _ _ _ _⟩
    exact buildable_of_externalCallVariadic hargs hcall
  · obtain ⟨fuel, hcall⟩ := hnone (not_exists.mp hbuilds)
    exact buildable_of_externalCallVariadic hargs hcall

variable (alloc command type ap) in
/-- **Nothing but the frame is sent exactly if it can be built, or there is no array for
the arguments.**  Any other call that gets a connection makes a fault. -/
theorem sendsOnlyBuilt_iff :
    SendsOnlyBuilt alloc command type ap ↔
      ArrayDenied alloc ap ∨ Buildable alloc command type ap := by
  constructor
  · intro h
    exact or_iff_not_imp_left.mpr fun hargs => buildable_of_sendsOnlyBuilt hargs h
  · rintro (hargs | hbuildable)
    · have hmalloc : ¬ mallocSucceeds (alloc .args) (16 * (countArgs 0 ap).toInt) = true :=
        fun hok => (malloc_args_iff alloc ap).mp hok hargs
      intro connected accepted clt ret
      refine ⟨fun _ => ⟨0, ?_⟩, fun frame hframe => absurd hframe.1 hmalloc⟩
      rw [externalCallVariadic, if_neg hmalloc]
    · exact sendsOnlyBuilt_of_buildable hbuildable

end

/-- A command that is a null pointer; a return type of 7; and one argument of type 7. -/
theorem not_sendsOnlyBuilt_null :
    ¬ SendsOnlyBuilt (fun _ => true) none 0 [] ∧
    ¬ SendsOnlyBuilt (fun _ => true) (some (CString.ofBytes [0x66])) 7 [] ∧
    ¬ SendsOnlyBuilt (fun _ => true) (some (CString.ofBytes [0x66])) 0
      [⟨7, .other 7 (by decide), by decide⟩] := by
  refine ⟨?_, ?_, ?_⟩
  · intro h
    have hbuildable := buildable_of_sendsOnlyBuilt (by decide) h
    obtain ⟨c, hc, -⟩ := hbuildable.sendable
    cases hc
  · intro h
    have hbuildable := buildable_of_sendsOnlyBuilt (by decide) h
    obtain ⟨c, -, hsendable⟩ := hbuildable.sendable
    exact absurd hsendable.type_exists (by decide)
  · intro h
    have hbuildable := buildable_of_sendsOnlyBuilt (by decide) h
    obtain ⟨c, -, hsendable⟩ := hbuildable.sendable
    exact absurd (hsendable.defined _ List.mem_cons_self) (RpcArg.not_defined_other _ _)

end RemoteProcedure
