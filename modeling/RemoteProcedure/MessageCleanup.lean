import RemoteProcedure.Cleanup
import RemoteProcedure.Request

/-!
# Where a new message is cleaned up

`create_message` jumps to `fail` when an allocation fails, or when there is no
array of arguments.  The loop there does not count on; `argv` may not have been
assigned; and a slot of an undefined type is never assigned, though the message is
returned.

## Main definitions

* `RpcArg.slot`, `Message.raw` — the pointers of a message that is returned.
* `UndoesItself` — what is asked of a call, however it ends.
* `BlocksGranted` — there is a block for each of some arguments.

## Main results

* `createMessage_of_args` — what becomes of the arguments.
* `undoesItself_iff` — **which calls of `create_message` undo themselves when they
  fail, and return a message that can be freed when they do not.**
-/

namespace RemoteProcedure

open Machine

/-- The pointer `data` of the copy of an argument. -/
def RpcArg.slot : RpcArg → Ptr Unit
  | .void => .null
  | .int _ => .own ()
  | .str _ => .own ()
  -- nothing is assigned for an undefined type
  | .other _ _ => .junk

/-- The pointers of a message that was created. -/
def Message.raw (m : Message) : RawMessage :=
  ⟨.own (), some m.argc, if m.argv = [] then .null else .own (m.argv.map RpcArg.slot)⟩

/-- The message holds what the call was given. -/
structure CopyOf (command : Option CString) (returnType : Byte) (argc : CInt)
    (argv : Option (ArgArray argc)) (m : Message) : Prop where
  command : command.map CString.bytes = some m.command
  returnType : m.returnType = returnType
  argc : m.argc = argc
  argv : m.argv = argv.elim [] Subtype.val

/-- A call that returns -1 has freed each block it allocated, and a call that
returns 0 leaves a copy that `free_message` frees likewise. -/
def Settled (command : Option CString) (returnType : Byte) (argc : CInt)
    (argv : Option (ArgArray argc)) : Created → Prop
  | .rejected => True
  | .failed raw => FreesExactly (fun fuel => createFail fuel argc raw) raw.owned
  | .created m => CopyOf command returnType argc argv m ∧
      FreesExactly (fun fuel => freeMessage fuel m.raw) m.raw.owned

/-- The call stores inside its blocks, and is settled however it ends. -/
def UndoesItself (alloc : MsgBlock → Bool) (msg : Option Unit) (command : Option CString)
    (returnType : Byte) (argc : CInt) (argv : Option (ArgArray argc)) : Prop :=
  ∃ created, createMessage alloc (msg.map fun _ => .unset) command returnType argc argv =
    .ok created ∧ Settled command returnType argc argv created

/-! ### The arguments -/

/-- Each of the arguments from slot `i` on that needs a block gets it. -/
def BlocksGranted (alloc : MsgBlock → Bool) : ℕ → List RpcArg → Prop
  | _, [] => True
  | i, a :: as => (a.slot = .own () → alloc (.data i) = true) ∧ BlocksGranted alloc (i + 1) as

@[simp] theorem slot_eq_junk_iff (a : RpcArg) : a.slot = .junk ↔ ¬ a.Defined := by
  cases a with
  | void => exact iff_of_false (by simp [RpcArg.slot]) (not_not_intro (by decide))
  | int v => exact iff_of_false (by simp [RpcArg.slot]) (not_not_intro rfl)
  | str s => exact iff_of_false (by simp [RpcArg.slot]) (not_not_intro rfl)
  | other typ h => simp [RpcArg.slot]

theorem junk_notMem_slots_iff (args : List RpcArg) :
    .junk ∉ args.map RpcArg.slot ↔ ∀ a ∈ args, a.Defined := by
  simp

/-- One round of the loop of `create_message`. -/
theorem copyArgs_cons (alloc : MsgBlock → Bool) (i : ℕ) (a : RpcArg) (as : List RpcArg) :
    copyArgs alloc i (a :: as) =
      if a.slot = .own () → alloc (.data i) = true then
        consSlot a.slot a (copyArgs alloc (i + 1) as)
      else .error (.null :: as.map fun _ => .junk) := by
  cases a <;> simp [copyArgs, RpcArg.slot]

theorem copyArgs_of_granted {alloc : MsgBlock → Bool} {args : List RpcArg} : ∀ {i : ℕ},
    BlocksGranted alloc i args → copyArgs alloc i args = .ok ⟨args, rfl⟩ := by
  induction args with
  | nil => exact fun _ => rfl
  | cons a as ih =>
    rintro i ⟨hfirst, hrest⟩
    rw [copyArgs_cons, if_pos hfirst, ih hrest]
    rfl

theorem copyArgs_of_denied {alloc : MsgBlock → Bool} {args : List RpcArg} : ∀ {i : ℕ},
    ¬ BlocksGranted alloc i args → ∃ slots, copyArgs alloc i args = .error slots := by
  induction args with
  | nil => exact fun h => absurd trivial h
  | cons a as ih =>
    intro i h
    rw [copyArgs_cons]
    split_ifs with hfirst
    · obtain ⟨slots, hslots⟩ := ih fun hrest => h ⟨hfirst, hrest⟩
      rw [hslots]
      exact ⟨_, rfl⟩
    · exact ⟨_, rfl⟩

/-! ### The ways a call can go -/

section

variable {alloc : MsgBlock → Bool} {command : CString} {returnType : Byte} {argc : CInt}

theorem createMessage_of_refused {msg : Option Unit} {command : Option CString}
    (h : msg = none ∨ command = none ∨ typeExists returnType = false)
    (argv : Option (ArgArray argc)) :
    createMessage alloc (msg.map fun _ => .unset) command returnType argc argv = .ok .rejected := by
  cases msg <;> cases command <;> simp_all [createMessage]

/-- The block of the command is as large as it takes. -/
theorem malloc_command (hcommand : alloc .command = true) (hlen : command.length + 1 < 2 ^ 31) :
    mallocSucceeds (alloc .command) (BitVec.ofNat 32 command.length + 1 : CInt).toInt = true ∧
      ¬ (BitVec.ofNat 32 command.length + 1 : CInt).toInt < (command.length : ℤ) + 1 := by
  rw [toInt_ofNat_add_one hlen, hcommand]
  exact ⟨mallocSucceeds_of_nonneg (by omega), by omega⟩

/-- Without a block for the command, or with one that is too small for it. -/
theorem createMessage_of_noCommand (htype : typeExists returnType = true)
    (h : ¬ (alloc .command = true ∧ command.length + 1 < 2 ^ 31)) (argv : Option (ArgArray argc)) :
    createMessage alloc (some .unset) (some command) returnType argc argv =
        .ok (.failed ⟨.null, none, .junk⟩) ∨
      createMessage alloc (some .unset) (some command) returnType argc argv =
        .error .outOfRange := by
  rw [createMessage]
  simp only [htype, Bool.true_eq_false, if_false]
  cases hmalloc : mallocSucceeds (alloc .command)
      (BitVec.ofNat 32 command.length + 1 : CInt).toInt with
  | false => exact .inl rfl
  | true =>
    have hgranted : alloc .command = true := by
      simp only [mallocSucceeds, Bool.and_eq_true] at hmalloc
      exact hmalloc.1
    have hbound := toInt_lt_two_pow (BitVec.ofNat 32 command.length + 1)
    have hlong : ¬ command.length + 1 < 2 ^ 31 := fun hlen => h ⟨hgranted, hlen⟩
    simp only [Bool.true_eq_false, if_false]
    rw [dif_pos (by omega)]
    exact .inr rfl

variable (hcommand : alloc .command = true) (hlen : command.length + 1 < 2 ^ 31)
  (htype : typeExists returnType = true)
include hcommand hlen htype

/-- Without arguments only the command is copied. -/
theorem createMessage_of_nonpos (hargc : ¬ 0 < argc.toInt) (argv : Option (ArgArray argc)) :
    ∃ m, createMessage alloc (some .unset) (some command) returnType argc argv =
        .ok (.created m) ∧
      CopyOf (some command) returnType argc argv m ∧ m.argv = [] := by
  obtain ⟨hmalloc, hfit⟩ := malloc_command hcommand hlen
  rw [createMessage]
  simp only [htype, hmalloc, Bool.true_eq_false, if_false, dif_neg hfit, dif_neg hargc]
  refine ⟨_, rfl, ⟨rfl, rfl, rfl, ?_⟩, rfl⟩
  cases argv with
  | none => rfl
  | some args =>
    have hlength := args.2
    show [] = args.1
    exact (List.length_eq_zero_iff.mp (by omega)).symm

theorem createMessage_of_null (hargc : 0 < argc.toInt) :
    createMessage alloc (some .unset) (some command) returnType argc none =
      .ok (.failed ⟨.own (), some argc, .junk⟩) := by
  obtain ⟨hmalloc, hfit⟩ := malloc_command hcommand hlen
  rw [createMessage]
  simp only [htype, hmalloc, Bool.true_eq_false, if_false, dif_neg hfit, dif_pos hargc]
  rfl

theorem createMessage_of_noArgv (hargc : 0 < argc.toInt) (args : ArgArray argc)
    (hdenied : alloc .argv = false) :
    createMessage alloc (some .unset) (some command) returnType argc (some args) =
      .ok (.failed ⟨.own (), some argc, .null⟩) := by
  obtain ⟨hmalloc, hfit⟩ := malloc_command hcommand hlen
  rw [createMessage]
  simp only [htype, hmalloc, Bool.true_eq_false, if_false, dif_neg hfit, dif_pos hargc, hdenied,
    if_true]

/-- **With arguments they are copied, if each has its block.** -/
theorem createMessage_of_args (hargc : 0 < argc.toInt) (args : ArgArray argc)
    (hargv : alloc .argv = true) :
    (BlocksGranted alloc 0 args.1 ∧ ∃ m,
        createMessage alloc (some .unset) (some command) returnType argc (some args) =
          .ok (.created m) ∧ CopyOf (some command) returnType argc (some args) m) ∨
      ¬ BlocksGranted alloc 0 args.1 ∧ ∃ slots,
        createMessage alloc (some .unset) (some command) returnType argc (some args) =
          .ok (.failed ⟨.own (), some argc, .own slots⟩) := by
  obtain ⟨hmalloc, hfit⟩ := malloc_command hcommand hlen
  rw [createMessage]
  simp only [htype, hmalloc, Bool.true_eq_false, if_false, dif_neg hfit, dif_pos hargc, hargv]
  by_cases hgranted : BlocksGranted alloc 0 args.1
  · rw [copyArgs_of_granted hgranted]
    exact .inl ⟨hgranted, _, rfl, rfl, rfl, rfl, rfl⟩
  · obtain ⟨slots, hslots⟩ := copyArgs_of_denied hgranted
    rw [hslots]
    exact .inr ⟨hgranted, slots, rfl⟩

end

/-! ### What is left behind -/

/-- A pointer `argv` that was not assigned is looked at. -/
theorem not_freesExactly_junk (command : Ptr Unit) (argc : CInt) (argc' : Option CInt)
    (owned : List MsgBlock) :
    ¬ FreesExactly (fun fuel => createFail fuel argc ⟨command, argc', .junk⟩) owned := by
  rintro ⟨fuel, freed, h, -⟩
  cases command <;> cases h

/-- **A message that was created is freed exactly when its types are defined.** -/
theorem freesExactly_raw_iff (m : Message) :
    FreesExactly (fun fuel => freeMessage fuel m.raw) m.raw.owned ↔ ∀ a ∈ m.argv, a.Defined := by
  have hlength := m.argv_length
  unfold Message.raw
  split_ifs with hargv
  · rw [hargv, List.length_nil] at hlength
    rw [hargv]
    have hnonpos : ¬ 0 < m.argc.toInt := by omega
    have hend : freeMessage 0 ⟨.own (), some m.argc, .null⟩ = some (.ok [.command]) := by
      simp [freeMessage, hnonpos]
    exact iff_of_true (freesExactly_of_perm hend (List.Perm.refl _))
      fun a ha => absurd ha List.not_mem_nil
  · rw [freesExactly_freeMessage_iff (by rw [List.length_map, hlength]), junk_notMem_slots_iff]

/-- What a call is asked is asked of the way it ends. -/
theorem undoesItself_of_eq {alloc : MsgBlock → Bool} {command : Option CString} {returnType : Byte}
    {argc : CInt} {argv : Option (ArgArray argc)} {created : Created}
    (h : createMessage alloc (some .unset) command returnType argc argv = .ok created) :
    UndoesItself alloc (some ()) command returnType argc argv ↔
      Settled command returnType argc argv created := by
  constructor
  · rintro ⟨created', hcreated, hsettled⟩
    have heq := hcreated.symm.trans h
    cases heq
    exact hsettled
  · intro hsettled
    exact ⟨created, h, hsettled⟩

/-- A call with a block for its command. -/
theorem undoesItself_of_command {alloc : MsgBlock → Bool} {command : CString} {returnType : Byte}
    (hcommand : alloc .command = true) (hlen : command.length + 1 < 2 ^ 31)
    (htype : typeExists returnType = true) (argc : CInt) (argv : Option (ArgArray argc)) :
    UndoesItself alloc (some ()) (some command) returnType argc argv ↔
      ¬ 0 < argc.toInt ∨ ∃ args, argv = some args ∧
        (alloc .argv = false ∨ BlocksGranted alloc 0 args.1 ∧ ∀ a ∈ args.1, a.Defined) := by
  by_cases hargc : 0 < argc.toInt
  · rw [or_iff_right (not_not_intro hargc)]
    cases argv with
    | none =>
      rw [undoesItself_of_eq (createMessage_of_null hcommand hlen htype hargc)]
      exact iff_of_false (not_freesExactly_junk _ _ _ _) (by simp)
    | some args =>
      simp only [Option.some.injEq, exists_eq_left']
      cases hargv : alloc .argv with
      | false =>
        rw [undoesItself_of_eq (createMessage_of_noArgv hcommand hlen htype hargc args hargv)]
        have hend : createFail 0 argc ⟨.own (), some argc, .null⟩ = some (.ok [.command]) := rfl
        exact iff_of_true (freesExactly_of_perm hend (List.Perm.refl _)) (.inl rfl)
      | true =>
        rw [or_iff_right (by decide)]
        rcases createMessage_of_args hcommand hlen htype hargc args hargv with
          ⟨hgranted, m, hm, hcopy⟩ | ⟨hdenied, slots, hslots⟩
        · rw [undoesItself_of_eq hm, Settled, freesExactly_raw_iff, and_iff_right hcopy,
            and_iff_right hgranted, hcopy.argv]
          exact Iff.rfl
        · rw [undoesItself_of_eq hslots]
          exact iff_of_false (not_freesExactly_createFail hargc _ rfl _) fun h => hdenied h.1
  · obtain ⟨m, hm, hcopy, hnil⟩ := createMessage_of_nonpos hcommand hlen htype hargc argv
    rw [undoesItself_of_eq hm]
    refine iff_of_true ⟨hcopy, ?_⟩ (.inl hargc)
    rw [freesExactly_raw_iff, hnil]
    exact fun a ha => absurd ha List.not_mem_nil

/-- **The calls of `create_message` that undo themselves**: those that are refused;
and those with a block for a command shorter than 2^31 - 1 bytes, and with no
arguments, or no block for the array, or with blocks for all of them and types that
are all defined. -/
theorem undoesItself_iff (alloc : MsgBlock → Bool) (msg : Option Unit) (command : Option CString)
    (returnType : Byte) (argc : CInt) (argv : Option (ArgArray argc)) :
    UndoesItself alloc msg command returnType argc argv ↔
      (msg = none ∨ command = none ∨ typeExists returnType = false) ∨
      ∃ c, command = some c ∧ (alloc .command = true ∧ c.length + 1 < 2 ^ 31) ∧
        (¬ 0 < argc.toInt ∨ ∃ args, argv = some args ∧
          (alloc .argv = false ∨ BlocksGranted alloc 0 args.1 ∧ ∀ a ∈ args.1, a.Defined)) := by
  by_cases hrefused : msg = none ∨ command = none ∨ typeExists returnType = false
  · exact iff_of_true ⟨.rejected, createMessage_of_refused hrefused argv, trivial⟩ (.inl hrefused)
  rw [or_iff_right hrefused]
  simp only [not_or] at hrefused
  obtain ⟨hmsg, hnull, htype⟩ := hrefused
  rw [Bool.not_eq_false] at htype
  obtain ⟨⟨⟩, rfl⟩ := Option.ne_none_iff_exists'.mp hmsg
  obtain ⟨c, rfl⟩ := Option.ne_none_iff_exists'.mp hnull
  simp only [Option.some.injEq, exists_eq_left']
  by_cases hc : alloc .command = true ∧ c.length + 1 < 2 ^ 31
  · rw [and_iff_right hc]
    exact undoesItself_of_command hc.1 hc.2 htype argc argv
  · refine iff_of_false ?_ fun h => hc h.1
    rcases createMessage_of_noCommand htype hc argv with hfailed | hfault
    · rw [undoesItself_of_eq hfailed]
      exact not_freesExactly_junk _ _ _ _
    · rintro ⟨created, hcreated, -⟩
      have heq := hcreated.symm.trans hfault
      cases heq

/-- A call with two integers, the second of which has no block: the loop frees that
of the first twice.  And with one argument of type 7, which `free_message` looks at. -/
theorem not_undoesItself_two :
    ¬ UndoesItself (fun b => b ≠ .data 1) (some ()) (some (CString.ofBytes [0x66])) rpcTyVoid 2
      (some ⟨[.int 1, .int 2], by decide⟩) ∧
    ¬ UndoesItself allGranted (some ()) (some (CString.ofBytes [0x66])) rpcTyVoid 1
      (some ⟨[.other 7 (by decide)], by decide⟩) := by
  constructor
  · rintro ⟨created, hcreated, hsettled⟩
    cases hcreated
    exact not_freesExactly_createFail (by decide) _ rfl _ hsettled
  · rintro ⟨created, hcreated, hsettled⟩
    cases hcreated
    exact absurd ((freesExactly_raw_iff _).mp hsettled.2) (by simp)

end RemoteProcedure
