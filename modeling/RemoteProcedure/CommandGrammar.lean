import RemoteProcedure.ClientSend
import RemoteProcedure.CommandLine

/-!
# The grammar of a command

The help of the client gives the words of a command as
`CMD -ret -TYP [-TYP1 ARG1 ... -TYPN ARGN]`.  `parse_command` takes some of them, and
others too: a word it does not know for the type of the result is `-void`, and of what
is no number it makes one.  It takes none behind another option, as it looks for `-ret`
at the third argument of the program.  And it copies each string to a block that is one
byte too small.

## Main definitions

* `CommandWords` — the grammar, and what its words say.
* `ParsesGrammar` — the words of the grammar make the message of `create_message`, and
  all others a command line error.
* `Agrees` — when they do.

## Main results

* `parseLoop_cases` — what becomes of the words that were checked.
* `parsesGrammar_iff` — **the parser accepts the grammar exactly for these vectors**.
-/

namespace RemoteProcedure

open Machine

/-! ### The grammar -/

/-- The words for the type of a result. -/
inductive ReturnWord : CString → Byte → Prop where
  | int : ReturnWord wordInt rpcTyInt
  | str : ReturnWord wordStr rpcTyStr
  | void : ReturnWord wordVoid rpcTyVoid

/-- Pairs of a type and an argument, and the arguments they stand for. -/
inductive ArgWords : List CString → List RpcArg → Prop where
  | nil : ArgWords [] []
  | int {a : CString} {z : ℤ} {words : List CString} {args : List RpcArg}
      (hz : SignedNumeral a.bytes z) (hrange : InRange z) (h : ArgWords words args) :
      ArgWords (wordInt :: a :: words) (.int (BitVec.ofInt 32 z) :: args)
  | str {a : CString} {words : List CString} {args : List RpcArg} (h : ArgWords words args) :
      ArgWords (wordStr :: a :: words) (.str a :: args)

/-- The words of a command, with its name, the type of its result and its arguments. -/
inductive CommandWords : List CString → CString → Byte → List RpcArg → Prop where
  | mk {command t : CString} {typ : Byte} {words : List CString} {args : List RpcArg}
      (ht : ReturnWord t typ) (h : ArgWords words args) :
      CommandWords (command :: wordRet :: t :: words) command typ args

def InGrammar (words : List CString) : Prop :=
  ∃ command typ args, CommandWords words command typ args

/-- From the position of its name on, a command of the grammar makes the message that
`create_message` builds of what its words say, and any other words end the client with an
error about the command line. -/
def ParsesGrammar (roomy : ℕ → Bool) (argv : List CString) (currentCpt : ℕ) : Prop :=
  (∀ command typ args, CommandWords (argv.drop currentCpt) command typ args →
    ∃ (hargs : args.length = (BitVec.ofNat 32 args.length).toInt.toNat) (m : Message),
      createMessage allGranted (some .unset) (some command) typ (BitVec.ofNat 32 args.length)
        (some ⟨args, hargs⟩) = .ok (.created m) ∧
      parseCommand allGranted roomy argv currentCpt = .ok (.ok m)) ∧
  (¬ InGrammar (argv.drop currentCpt) →
    ∃ e, parseCommand allGranted roomy argv currentCpt = .ok (.error e) ∧ e ≠ .malloc)

/-! ### When it is accepted -/

/-- One of the three words for a type. -/
def IsTypeWord (t : CString) : Prop := t = wordInt ∨ t = wordStr ∨ t = wordVoid

/-- Pairs of a type and an argument, with perhaps one more `-void` behind them. -/
inductive ParamWords : List CString → Prop where
  | nil : ParamWords []
  | last : ParamWords [wordVoid]
  | pair {t a : CString} {words : List CString} (ht : IsTypeWord t) (h : ParamWords words) :
      ParamWords (t :: a :: words)

/-- One of the types is `-void`. -/
def HasVoid : List CString → Prop
  | [] => False
  | [t] => t = wordVoid
  | t :: _ :: words => t = wordVoid ∨ HasVoid words

/-- The blocks of the strings in front of the first `-void` have room for their NUL. -/
def StringsRoom (roomy : ℕ → Bool) : List CString → Prop
  | t :: a :: words =>
    t = wordVoid ∨ (t = wordStr → roomy a.length = true) ∧ StringsRoom roomy words
  | _ => True

/-- The arguments behind `-int` are decimal integers in the range of `int`. -/
def IntsDecimal : List CString → Prop
  | t :: a :: words =>
    (t = wordInt → ∃ z, SignedNumeral a.bytes z ∧ InRange z) ∧ IntsDecimal words
  | _ => True

/-- The type of the result, and the types and arguments behind it, are those of the
grammar. -/
def WellTyped (t : CString) (words : List CString) : Prop :=
  IsTypeWord t ∧ ¬ HasVoid words ∧ IntsDecimal words

/-- The words behind the option are too few, or are no pairs of a type and an argument;
or else there is room for the name, and
* if the command comes first and has its `-ret`, there is room for its strings, and it
  names a `-void`, or is well typed and its name is not too long for `create_message`;
* if it does not come first or has no `-ret`, it lacks that or is not well typed. -/
def Agrees (roomy : ℕ → Bool) (argv : List CString) (cpt : ℕ) : Prop :=
  ∀ command ret t words, argv.drop (cpt + 1) = command :: ret :: t :: words → ParamWords words →
    (command.length < 2 ^ 31 ∧ roomy command.length = true) ∧
    if cpt = 1 ∧ ret = wordRet then
      StringsRoom roomy words ∧
        (HasVoid words ∨ WellTyped t words ∧ command.length + 1 < 2 ^ 31)
    else ¬ (ret = wordRet ∧ WellTyped t words)

/-! ### The check -/

theorem isTypeCommand_iff (t : CString) : isTypeCommand t = true ↔ IsTypeWord t := by
  simp [isTypeCommand, IsTypeWord, or_assoc]

theorem returnedType_eq_void_iff {t : CString} (h : IsTypeWord t) :
    returnedType t = rpcTyVoid ↔ t = wordVoid := by
  rcases h with rfl | rfl | rfl <;> decide

/-- The check counts the words it lets through. -/
theorem checkLoop_of_params {words : List CString} (h : ParamWords words) :
    ∀ (cpt : ℕ) (nbArg : CInt), checkLoop cpt nbArg words =
      .ok (nbArg + BitVec.ofNat 32 ((words.length + 1) / 2)) := by
  induction h with
  | nil =>
    intro cpt nbArg
    exact congrArg Except.ok (BitVec.add_zero nbArg).symm
  | last => exact fun _ _ => rfl
  | @pair t a words ht h ih =>
    intro cpt nbArg
    have hcount : ((t :: a :: words).length + 1) / 2 = 1 + (words.length + 1) / 2 := by
      simp only [List.length_cons]
      omega
    rw [checkLoop, (isTypeCommand_iff t).mpr ht, if_neg (by decide), ih, hcount, BitVec.ofNat_add,
      BitVec.add_assoc]
    rfl

/-- **It lets no others through.** -/
theorem checkLoop_of_not (words : List CString) : ∀ (cpt : ℕ) (nbArg : CInt),
    ¬ ParamWords words → ∃ e, checkLoop cpt nbArg words = .error e ∧ e ≠ .malloc := by
  induction words using List.twoStepInduction with
  | nil => exact fun _ _ h => absurd .nil h
  | singleton t =>
    intro cpt nbArg h
    rw [checkLoop]
    cases ht : isTypeCommand t with
    | false => exact ⟨_, if_pos rfl, by simp⟩
    | true =>
      have hvoid : returnedType t ≠ rpcTyVoid := by
        intro hvoid
        rw [(returnedType_eq_void_iff ((isTypeCommand_iff t).mp ht)).mp hvoid] at h
        exact h .last
      rw [if_neg (by decide), if_pos hvoid]
      exact ⟨_, rfl, by simp⟩
  | cons_cons t a words ih _ =>
    intro cpt nbArg h
    rw [checkLoop]
    cases ht : isTypeCommand t with
    | false => exact ⟨_, if_pos rfl, by simp⟩
    | true =>
      rw [if_neg (by decide)]
      exact ih _ _ fun hwords => h (.pair ((isTypeCommand_iff t).mp ht) hwords)

/-! ### The arguments -/

/-- The arguments `parse_command` makes of the pairs in front of a `-void`. -/
def convertArgs : List CString → List RpcArg
  | t :: a :: words =>
    (if t = wordInt then .int (atoi a.bytes) else .str a) :: convertArgs words
  | _ => []

/-- How the words that were checked are parsed. -/
inductive ParsedArgs (roomy : ℕ → Bool) (words : List CString) (n : ℕ) :
    Checked (Except CommandExit { l : List RpcArg // l.length = n }) → Prop where
  /-- A string overflows its block. -/
  | overflow (hroom : ¬ StringsRoom roomy words) : ParsedArgs roomy words n (.error .outOfRange)
  | void (hroom : StringsRoom roomy words) (hvoid : HasVoid words) :
      ParsedArgs roomy words n (.ok (.error .voidParameter))
  | filled (hroom : StringsRoom roomy words) (hvoid : ¬ HasVoid words)
      (hlen : (convertArgs words).length = n) :
      ParsedArgs roomy words n (.ok (.ok ⟨convertArgs words, hlen⟩))

variable {roomy : ℕ → Bool} {words : List CString}

/-- A pair in front of the others. -/
theorem ParsedArgs.cons {t a : CString} {n : ℕ}
    {rest : Checked (Except CommandExit { l : List RpcArg // l.length = n })}
    (hrest : ParsedArgs roomy words n rest) (ht : t ≠ wordVoid)
    (hroom : t = wordStr → roomy a.length = true) :
    ParsedArgs roomy (t :: a :: words) (n + 1)
      (rest.map (consArg (if t = wordInt then .int (atoi a.bytes) else .str a))) := by
  have hroom_iff : StringsRoom roomy (t :: a :: words) ↔ StringsRoom roomy words := by
    rw [StringsRoom, or_iff_right ht, and_iff_right hroom]
  have hvoid_iff : HasVoid (t :: a :: words) ↔ HasVoid words := by
    rw [HasVoid, or_iff_right ht]
  cases hrest with
  | overflow hnot => exact .overflow fun h => hnot (hroom_iff.mp h)
  | void hwords hvoid => exact .void (hroom_iff.mpr hwords) (hvoid_iff.mpr hvoid)
  | filled hwords hvoid hlen =>
    exact .filled (hroom_iff.mpr hwords) (fun h => hvoid (hvoid_iff.mp h)) (congrArg Nat.succ hlen)

/-- A pair of `-int`. -/
theorem parseLoop_int (roomy : ℕ → Bool) (n argCpt : ℕ) (a : CString) (words : List CString) :
    parseLoop allGranted roomy (n + 1) argCpt (wordInt :: a :: words) =
      (parseLoop allGranted roomy n (argCpt + 1) words).map (consArg (.int (atoi a.bytes))) := by
  rw [parseLoop, returnedType_wordInt, if_pos rfl]
  cases parseLoop allGranted roomy n (argCpt + 1) words <;> rfl

/-- A pair of `-str`. -/
theorem parseLoop_str (n argCpt : ℕ) {a : CString} (words : List CString) :
    parseLoop allGranted roomy (n + 1) argCpt (wordStr :: a :: words) =
      if roomy a.length = false then .error .outOfRange
      else (parseLoop allGranted roomy n (argCpt + 1) words).map (consArg (.str a)) := by
  rw [parseLoop, returnedType_wordStr, if_neg (by decide), if_pos rfl]
  simp only [allGranted_eq, Bool.true_eq_false, if_false]
  cases parseLoop allGranted roomy n (argCpt + 1) words <;> rfl

/-- A pair of `-void`. -/
theorem parseLoop_void (roomy : ℕ → Bool) (n argCpt : ℕ) (a : CString) (words : List CString) :
    parseLoop allGranted roomy (n + 1) argCpt (wordVoid :: a :: words) =
      .ok (.error .voidParameter) := by
  rw [parseLoop, returnedType_wordVoid, if_neg (by decide), if_neg (by decide)]

/-- **What becomes of the words that were checked**: a string overflows its block; or a
`-void` ends the client; or each pair is an argument. -/
theorem parseLoop_cases (roomy : ℕ → Bool) (h : ParamWords words) : ∀ {n : ℕ} (argCpt : ℕ),
    n = (words.length + 1) / 2 →
      ParsedArgs roomy words n (parseLoop allGranted roomy n argCpt words) := by
  induction h with
  | nil =>
    rintro n argCpt rfl
    have hroom : StringsRoom roomy [] := trivial
    exact .filled hroom id rfl
  | last =>
    rintro n argCpt rfl
    have hroom : StringsRoom roomy [wordVoid] := trivial
    exact .void hroom rfl
  | @pair t a words ht h ih =>
    intro n argCpt hn
    obtain ⟨m, rfl, hm⟩ : ∃ m, n = m + 1 ∧ m = (words.length + 1) / 2 := by
      refine ⟨_, ?_, rfl⟩
      simp only [List.length_cons] at hn
      omega
    have hrest := ih (argCpt + 1) hm
    rcases ht with rfl | rfl | rfl
    · rw [parseLoop_int]
      exact hrest.cons (by simp) (by simp)
    · rw [parseLoop_str]
      cases hroom : roomy a.length with
      | false =>
        apply ParsedArgs.overflow
        rw [StringsRoom]
        simp [hroom]
      | true => exact hrest.cons (by simp) fun _ => hroom
    · rw [parseLoop_void]
      exact .void (.inl rfl) (.inl rfl)

/-! ### The words of the grammar -/

/-- **The words of the grammar are checked, and are converted to what they say.** -/
theorem ArgWords.checked {args : List RpcArg} (h : ArgWords words args) :
    ParamWords words ∧ ¬ HasVoid words ∧ IntsDecimal words ∧ convertArgs words = args := by
  induction h with
  | nil => exact ⟨.nil, id, trivial, rfl⟩
  | int hz hrange h ih =>
    obtain ⟨hparams, hvoid, hints, hargs⟩ := ih
    refine ⟨.pair (.inl rfl) hparams, ?_, ⟨fun _ => ⟨_, hz, hrange⟩, hints⟩, ?_⟩
    · simpa [HasVoid] using hvoid
    · rw [convertArgs, if_pos rfl, hargs, atoi_of_signedNumeral hz hrange]
  | str h ih =>
    obtain ⟨hparams, hvoid, hints, hargs⟩ := ih
    refine ⟨.pair (.inr (.inl rfl)) hparams, ?_, ⟨by simp, hints⟩, ?_⟩
    · simpa [HasVoid] using hvoid
    · simp [convertArgs, hargs]

/-- Words that were checked are of the grammar if none is `-void` and the integers are
decimal. -/
theorem ParamWords.exists_args (h : ParamWords words) : ¬ HasVoid words → IntsDecimal words →
    ∃ args, ArgWords words args := by
  induction h with
  | nil => exact fun _ _ => ⟨[], .nil⟩
  | last => exact fun hvoid => absurd rfl hvoid
  | @pair t a words ht h ih =>
    intro hvoid hints
    rw [HasVoid, not_or] at hvoid
    obtain ⟨args, hargs⟩ := ih hvoid.2 hints.2
    rcases ht with rfl | rfl | rfl
    · obtain ⟨z, hz, hrange⟩ := hints.1 rfl
      exact ⟨_, .int hz hrange hargs⟩
    · exact ⟨_, .str hargs⟩
    · exact absurd rfl hvoid.1

theorem ReturnWord.returnedType {t : CString} {typ : Byte} (h : ReturnWord t typ) :
    returnedType t = typ ∧ typeExists typ = true := by
  cases h <;> decide

variable {argv : List CString} {cpt : ℕ} {command ret t third : CString}

theorem isTypeWord_iff_exists (t : CString) : IsTypeWord t ↔ ∃ typ, ReturnWord t typ := by
  constructor
  · rintro (rfl | rfl | rfl)
    · exact ⟨_, .int⟩
    · exact ⟨_, .str⟩
    · exact ⟨_, .void⟩
  · rintro ⟨typ, h⟩
    cases h with
    | int => exact .inl rfl
    | str => exact .inr (.inl rfl)
    | void => exact .inr (.inr rfl)

/-- **Words that were checked are of the grammar** if they are well typed, behind a
`-ret`. -/
theorem inGrammar_iff (hparams : ParamWords words) :
    InGrammar (command :: ret :: t :: words) ↔ ret = wordRet ∧ WellTyped t words := by
  constructor
  · rintro ⟨command', typ, args, ⟨ht, hargs⟩⟩
    obtain ⟨-, hvoid, hints, -⟩ := hargs.checked
    exact ⟨rfl, (isTypeWord_iff_exists t).mpr ⟨typ, ht⟩, hvoid, hints⟩
  · rintro ⟨rfl, htype, hvoid, hints⟩
    obtain ⟨typ, ht⟩ := (isTypeWord_iff_exists t).mp htype
    obtain ⟨args, hargs⟩ := hparams.exists_args hvoid hints
    exact ⟨command, typ, args, .mk ht hargs⟩

/-- Words of the grammar are checked. -/
theorem exists_of_inGrammar (h : InGrammar words) :
    ∃ command ret t rest, words = command :: ret :: t :: rest ∧ ParamWords rest := by
  obtain ⟨command, typ, args, ⟨ht, hargs⟩⟩ := h
  exact ⟨_, _, _, _, rfl, hargs.checked.1⟩

/-! ### The third argument -/

/-- Where `main` gets to behind the first option, the third argument is an option. -/
theorem third_of_reaches (h : Reaches argv cpt) :
    cpt = 1 ∨ cpt = 3 ∨ 3 < cpt ∧ ∃ cmd, argv[3]? = some cmd ∧ IsShutdown cmd := by
  induction h with
  | first => exact .inl rfl
  | @shutdown cpt cmd password h hcmd hshutdown hpassword ih =>
    rcases ih with rfl | rfl | ⟨hlt, hthird⟩
    · exact .inr (.inl rfl)
    · exact .inr (.inr ⟨by decide, cmd, hcmd, hshutdown⟩)
    · exact .inr (.inr ⟨by omega, hthird⟩)

/-- **The third argument is `-ret` for the command that comes first alone**, and if it is
the word behind the name. -/
theorem third_of_meets (h : MeetsCommand argv cpt)
    (hwords : argv.drop (cpt + 1) = command :: ret :: t :: words) :
    ∃ third, argv[3]? = some third ∧ (third = wordRet ↔ cpt = 1 ∧ ret = wordRet) := by
  obtain ⟨hreaches, cmd, hcmd, hcommand⟩ := h
  rcases third_of_reaches hreaches with rfl | rfl | ⟨hlt, third, hthird, hshutdown⟩
  · refine ⟨ret, ?_, ?_⟩
    · exact (getElem?_of_drop (getElem?_of_drop hwords).2).1
    · rw [and_iff_right rfl]
  · refine ⟨cmd, hcmd, iff_of_false ?_ fun h => absurd h.1 (by decide)⟩
    rcases hcommand with rfl | rfl <;> decide
  · refine ⟨third, hthird, iff_of_false ?_ fun h => absurd h.1 (by omega)⟩
    rcases hshutdown with rfl | rfl <;> decide

/-! ### The message -/

/-- How a command is parsed whose words were checked. -/
inductive ParsedCommand (roomy : ℕ → Bool) (command third t : CString) (words : List CString) :
    Checked (Except CommandExit Message) → Prop where
  /-- The name overflows its block, or has none. -/
  | noRoom {r : Checked (Except CommandExit Message)}
      (hroom : ¬ (command.length < 2 ^ 31 ∧ roomy command.length = true))
      (hr : ∀ parsed, r = .ok parsed → parsed = .error .malloc) :
      ParsedCommand roomy command third t words r
  | noRet (hroom : command.length < 2 ^ 31 ∧ roomy command.length = true)
      (hthird : third ≠ wordRet) :
      ParsedCommand roomy command third t words (.ok (.error (.commandLine 2)))
  | overflow (hroom : command.length < 2 ^ 31 ∧ roomy command.length = true)
      (hthird : third = wordRet) (hstr : ¬ StringsRoom roomy words) :
      ParsedCommand roomy command third t words (.error .outOfRange)
  | void (hroom : command.length < 2 ^ 31 ∧ roomy command.length = true)
      (hthird : third = wordRet) (hstr : StringsRoom roomy words) (hvoid : HasVoid words) :
      ParsedCommand roomy command third t words (.ok (.error .voidParameter))
  | filled (hroom : command.length < 2 ^ 31 ∧ roomy command.length = true)
      (hthird : third = wordRet) (hstr : StringsRoom roomy words) (hvoid : ¬ HasVoid words)
      {m : Message} (hcommand : m.command = command.bytes)
      (htype : m.returnType = returnedType t)
      (hargc : m.argc = BitVec.ofNat 32 ((words.length + 1) / 2))
      (hargv : m.argv = convertArgs words) :
      ParsedCommand roomy command third t words (.ok (.ok m))

theorem argAt_of_getElem? {i : ℕ} {s : CString} (h : argv[i]? = some s) :
    argAt argv i = .ok s := by
  rw [argAt, h]

/-- The check of words of which there are three at least. -/
theorem checkCommand_of_words (hwords : argv.drop cpt = command :: ret :: t :: words) :
    checkCommand argv cpt = checkLoop (cpt + 3) 0 words := by
  have hlen := congrArg List.length hwords
  rw [List.length_drop, List.length_cons, List.length_cons, List.length_cons] at hlen
  have hdrop := (getElem?_of_drop (getElem?_of_drop (getElem?_of_drop hwords).2).2).2
  rw [checkCommand, if_neg (by omega), hdrop]

/-- **How a command is parsed.** -/
theorem parseCommand_cases (hargc : argv.length < 2 ^ 31)
    (hwords : argv.drop cpt = command :: ret :: t :: words) (hparams : ParamWords words)
    (hthird : argv[3]? = some third) :
    ParsedCommand roomy command third t words (parseCommand allGranted roomy argv cpt) := by
  have hlen := congrArg List.length hwords
  rw [List.length_drop, List.length_cons, List.length_cons, List.length_cons] at hlen
  obtain ⟨hcommand, hwords₁⟩ := getElem?_of_drop hwords
  obtain ⟨hret, hwords₂⟩ := getElem?_of_drop hwords₁
  obtain ⟨ht, hwords₃⟩ := getElem?_of_drop hwords₂
  have hcheck : checkCommand argv cpt = .ok (BitVec.ofNat 32 ((words.length + 1) / 2)) := by
    rw [checkCommand_of_words hwords, checkLoop_of_params hparams]
    exact congrArg Except.ok (BitVec.zero_add _)
  have hcount : (BitVec.ofNat 32 ((words.length + 1) / 2)).toInt = ((words.length + 1) / 2 : ℕ) :=
    toInt_ofNat_of_lt (by omega)
  have hargs : mallocSucceeds (allGranted .argv)
      (16 * (BitVec.ofNat 32 ((words.length + 1) / 2)).toInt) = true := by
    rw [hcount]
    exact mallocSucceeds_of_nonneg (by omega)
  rw [parseCommand, hcheck]
  simp only [hargs, Bool.true_eq_false, and_false, if_false, argAt_of_getElem? hcommand,
    Checked.ok_bind]
  by_cases hroom : command.length < 2 ^ 31 ∧ roomy command.length = true
  · have hlength : (command.bytes.length : ℤ) = (BitVec.ofNat 32 command.length).toInt :=
      (toInt_ofNat_of_lt hroom.1).symm
    have hmalloc : mallocSucceeds (allGranted .command) (BitVec.ofNat 32 command.length).toInt =
        true := mallocSucceeds_of_nonneg (by omega)
    rw [hmalloc, if_neg (by decide), dif_pos ⟨hlength, hroom.2⟩]
    simp only [argAt_of_getElem? ht, argAt_of_getElem? hthird, Checked.ok_bind]
    by_cases hret' : third = wordRet
    · rw [if_neg (not_not_intro hret'), hwords₃]
      have hn : (BitVec.ofNat 32 ((words.length + 1) / 2)).toInt.toNat = (words.length + 1) / 2 :=
        by omega
      have hloop := parseLoop_cases roomy hparams 0 hn
      generalize parseLoop allGranted roomy (BitVec.ofNat 32 ((words.length + 1) / 2)).toInt.toNat 0
        words = filled at hloop ⊢
      cases hloop with
      | overflow hstr => exact .overflow hroom hret' hstr
      | void hstr hvoid => exact .void hroom hret' hstr hvoid
      | filled hstr hvoid hlen => exact .filled hroom hret' hstr hvoid rfl rfl rfl rfl
    · rw [if_pos hret']
      exact .noRet hroom hret'
  · apply ParsedCommand.noRoom hroom
    intro parsed hparsed
    split_ifs at hparsed with hmalloc hfit
    · cases hparsed
      rfl
    · have hbound := toInt_lt_two_pow (BitVec.ofNat 32 command.length)
      exact absurd ⟨show command.bytes.length < 2 ^ 31 by omega, hfit.2⟩ hroom

/-! ### The vectors that agree -/

/-- Words that are refused by the check are not of the grammar, and are reported. -/
theorem parsesGrammar_of_refused
    (h : ¬ ∃ command ret t words, argv.drop cpt = command :: ret :: t :: words ∧
      ParamWords words) : ParsesGrammar roomy argv cpt := by
  have hout : ¬ InGrammar (argv.drop cpt) := by
    intro hin
    exact h (exists_of_inGrammar hin)
  refine ⟨fun command typ args hwords => absurd ⟨command, typ, args, hwords⟩ hout, fun _ => ?_⟩
  obtain ⟨e, hcheck, he⟩ : ∃ e, checkCommand argv cpt = .error e ∧ e ≠ .malloc := by
    by_cases hlen : argv.length ≤ cpt + 2
    · exact ⟨_, if_pos hlen, by simp⟩
    · obtain ⟨command, ret, t, words, hwords⟩ : ∃ command ret t words,
          argv.drop cpt = command :: ret :: t :: words := by
        rw [List.drop_eq_getElem_cons (by omega), List.drop_eq_getElem_cons (by omega),
          List.drop_eq_getElem_cons (by omega)]
        exact ⟨_, _, _, _, rfl⟩
      rw [checkCommand_of_words hwords]
      exact checkLoop_of_not words _ _ fun hparams => h ⟨command, ret, t, words, hwords, hparams⟩
  refine ⟨e, ?_, he⟩
  rw [parseCommand, hcheck]

/-- **A message that is parsed is that of `create_message`.** -/
theorem created_of_filled {m : Message} {typ : Byte} {args : List RpcArg}
    (hargc : argv.length < 2 ^ 31) (hwords : argv.drop cpt = command :: ret :: t :: words)
    (hlen : command.length + 1 < 2 ^ 31) (ht : ReturnWord t typ) (hargs : ArgWords words args)
    (hcommand : m.command = command.bytes) (htype : m.returnType = returnedType t)
    (hcount : m.argc = BitVec.ofNat 32 ((words.length + 1) / 2))
    (hargv : m.argv = convertArgs words) :
    ∃ hlength : args.length = (BitVec.ofNat 32 args.length).toInt.toNat,
      createMessage allGranted (some .unset) (some command) typ (BitVec.ofNat 32 args.length)
        (some ⟨args, hlength⟩) = .ok (.created m) := by
  obtain ⟨hreturned, hexists⟩ := ht.returnedType
  rw [hargs.checked.2.2.2] at hargv
  have hdrop := congrArg List.length hwords
  rw [List.length_drop, List.length_cons, List.length_cons, List.length_cons] at hdrop
  have hlength := m.argv_length
  have hhalf : (BitVec.ofNat 32 ((words.length + 1) / 2)).toInt = ((words.length + 1) / 2 : ℕ) :=
    toInt_ofNat_of_lt (by omega)
  rw [hargv, hcount, hhalf, Int.toNat_natCast] at hlength
  have hint : args.length = (BitVec.ofNat 32 args.length).toInt.toNat := by
    rw [toInt_ofNat_of_lt (by omega), Int.toNat_natCast]
  refine ⟨hint, ?_⟩
  rw [createMessage_allGranted .unset hexists ⟨args, hint⟩ hlen]
  refine congrArg (fun m => Except.ok (Created.created m)) (Message.ext ?_ hcommand.symm ?_ ?_
    hargv.symm)
  · rw [commandLength_eq_ofNat m, hcommand]
    rfl
  · rw [htype, hreturned]
    rfl
  · rw [hcount, ← hlength]
    rfl

/-- Of a command that ends the client nothing but its being outside the grammar is
asked. -/
theorem parsesGrammar_iff_of_exit {e : CommandExit} (he : e ≠ .malloc)
    (hparse : parseCommand allGranted roomy argv cpt = .ok (.error e)) :
    ParsesGrammar roomy argv cpt ↔ ¬ InGrammar (argv.drop cpt) := by
  constructor
  · rintro ⟨haccepts, -⟩ ⟨command, typ, args, hwords⟩
    obtain ⟨-, m, -, hm⟩ := haccepts command typ args hwords
    have heq := hparse.symm.trans hm
    cases heq
  · intro hout
    exact ⟨fun command typ args hwords => absurd ⟨command, typ, args, hwords⟩ hout,
      fun _ => ⟨e, hparse, he⟩⟩

/-- A command without room is never parsed right. -/
theorem not_parsesGrammar_of_noRoom
    (hparse : ∀ parsed, parseCommand allGranted roomy argv cpt = .ok parsed →
      parsed = .error .malloc) : ¬ ParsesGrammar roomy argv cpt := by
  rintro ⟨haccepts, hrejects⟩
  by_cases hin : InGrammar (argv.drop cpt)
  · obtain ⟨command, typ, args, hwords⟩ := hin
    obtain ⟨-, m, -, hm⟩ := haccepts command typ args hwords
    have heq := hparse _ hm
    cases heq
  · obtain ⟨e, he, hne⟩ := hrejects hin
    have heq := hparse _ he
    cases heq
    exact hne rfl

/-- A message that is parsed is right if its words are of the grammar, and its name is
not too long for `create_message`. -/
theorem parsesGrammar_iff_of_filled {m : Message} (hargc : argv.length < 2 ^ 31)
    (hwords : argv.drop cpt = command :: ret :: t :: words)
    (hcommand : m.command = command.bytes) (htype : m.returnType = returnedType t)
    (hcount : m.argc = BitVec.ofNat 32 ((words.length + 1) / 2))
    (hargv : m.argv = convertArgs words)
    (hparse : parseCommand allGranted roomy argv cpt = .ok (.ok m)) :
    ParsesGrammar roomy argv cpt ↔
      InGrammar (command :: ret :: t :: words) ∧ command.length + 1 < 2 ^ 31 := by
  rw [ParsesGrammar, hwords]
  constructor
  · rintro ⟨haccepts, hrejects⟩
    by_cases hin : InGrammar (command :: ret :: t :: words)
    · refine ⟨hin, ?_⟩
      obtain ⟨command', typ, args, hin⟩ := hin
      obtain ⟨hlength, m', hm', -⟩ := haccepts command' typ args hin
      obtain ⟨c, hc, -, -, hlen, -⟩ := blocks_of_created hm'
      cases hc
      obtain ⟨-, -⟩ := hin
      exact hlen
    · obtain ⟨e, he, -⟩ := hrejects hin
      have heq := hparse.symm.trans he
      cases heq
  · rintro ⟨hin, hlen⟩
    refine ⟨?_, fun hout => absurd hin hout⟩
    rintro command' typ args ⟨ht, hargs⟩
    obtain ⟨hlength, hcreated⟩ := created_of_filled hargc hwords hlen ht hargs hcommand htype hcount
      hargv
    exact ⟨hlength, m, hcreated, hparse⟩

theorem agrees_iff (hwords : argv.drop (cpt + 1) = command :: ret :: t :: words)
    (hparams : ParamWords words) :
    Agrees roomy argv cpt ↔
      (command.length < 2 ^ 31 ∧ roomy command.length = true) ∧
      if cpt = 1 ∧ ret = wordRet then
        StringsRoom roomy words ∧
          (HasVoid words ∨ WellTyped t words ∧ command.length + 1 < 2 ^ 31)
      else ¬ (ret = wordRet ∧ WellTyped t words) := by
  constructor
  · intro h
    exact h command ret t words hwords hparams
  · intro h command' ret' t' words' hwords' _
    have heq := hwords.symm.trans hwords'
    cases heq
    exact h

/-- **The parser accepts the grammar exactly for these vectors.** -/
theorem parsesGrammar_iff (roomy : ℕ → Bool) (hargc : argv.length < 2 ^ 31)
    (h : MeetsCommand argv cpt) : ParsesGrammar roomy argv (cpt + 1) ↔ Agrees roomy argv cpt := by
  by_cases hchecked : ∃ command ret t words, argv.drop (cpt + 1) = command :: ret :: t :: words ∧
      ParamWords words
  · obtain ⟨command, ret, t, words, hwords, hparams⟩ := hchecked
    obtain ⟨third, hthird, hret⟩ := third_of_meets h hwords
    have hparsed : ParsedCommand roomy command third t words
        (parseCommand allGranted roomy argv (cpt + 1)) :=
      parseCommand_cases hargc hwords hparams hthird
    rw [agrees_iff hwords hparams]
    generalize hparse : parseCommand allGranted roomy argv (cpt + 1) = parsed at hparsed
    cases hparsed with
    | noRoom hroom hr =>
      refine iff_of_false (not_parsesGrammar_of_noRoom ?_) fun hagrees => hroom hagrees.1
      rw [hparse]
      exact hr
    | noRet hroom hne =>
      rw [parsesGrammar_iff_of_exit (by decide) hparse, hwords, inGrammar_iff hparams,
        and_iff_right hroom, if_neg fun hfirst => hne (hret.mpr hfirst)]
    | overflow hroom heq hstr =>
      rw [if_pos (hret.mp heq)]
      refine iff_of_false (not_parsesGrammar_of_noRoom ?_) fun hagrees => hstr hagrees.2.1
      intro parsed hok
      cases hparse.symm.trans hok
    | void hroom heq hstr hvoid =>
      rw [parsesGrammar_iff_of_exit (by decide) hparse, hwords, inGrammar_iff hparams,
        and_iff_right hroom, if_pos (hret.mp heq)]
      exact iff_of_true (fun htyped => htyped.2.2.1 hvoid) ⟨hstr, .inl hvoid⟩
    | filled hroom heq hstr hvoid hcommand htype hcount hargv =>
      rw [parsesGrammar_iff_of_filled hargc hwords hcommand htype hcount hargv hparse,
        inGrammar_iff hparams, and_iff_right (hret.mp heq).2, and_iff_right hroom,
        if_pos (hret.mp heq), and_iff_right hstr, or_iff_right hvoid]
  · refine iff_of_true (parsesGrammar_of_refused hchecked) ?_
    intro command ret t words hwords hparams
    exact absurd ⟨command, ret, t, words, hwords, hparams⟩ hchecked

/-- A vector of literals. -/
def vector (l : List String) : List CString := l.map literal

/-- `./client -c f -ret -int`, with room for the NUL. -/
theorem parsesGrammar_iff_f :
    ParsesGrammar (fun _ => true) (vector ["./client", "-c", "f", "-ret", "-int"]) 2 ↔
      Agrees (fun _ => true) (vector ["./client", "-c", "f", "-ret", "-int"]) 1 :=
  parsesGrammar_iff _ (by decide) ⟨.first, literal "-c", rfl, .inl rfl⟩

/-- The same without room, as C has it; and with room, `-foo` for the type of the result,
and a command behind another option. -/
theorem not_parsesGrammar_f :
    (MeetsCommand (vector ["./client", "-c", "f", "-ret", "-int"]) 1 ∧
      ¬ ParsesGrammar (fun _ => false) (vector ["./client", "-c", "f", "-ret", "-int"]) 2) ∧
    (MeetsCommand (vector ["./client", "-c", "f", "-ret", "-foo"]) 1 ∧
      ¬ ParsesGrammar (fun _ => true) (vector ["./client", "-c", "f", "-ret", "-foo"]) 2) ∧
    MeetsCommand (vector ["./client", "-s", "admin", "-c", "f", "-ret", "-int"]) 3 ∧
      ¬ ParsesGrammar (fun _ => true)
        (vector ["./client", "-s", "admin", "-c", "f", "-ret", "-int"]) 4 := by
  refine ⟨⟨⟨.first, literal "-c", rfl, .inl rfl⟩, ?_⟩, ⟨⟨.first, literal "-c", rfl, .inl rfl⟩, ?_⟩,
    ⟨.shutdown .first rfl (.inl rfl) rfl, literal "-c", rfl, .inl rfl⟩, ?_⟩
  · apply not_parsesGrammar_of_noRoom
    intro parsed h
    cases h
  · have hout : ¬ InGrammar ((vector ["./client", "-c", "f", "-ret", "-foo"]).drop 2) := by
      intro hin
      have htyped := (inGrammar_iff ParamWords.nil).mp hin
      exact absurd ((isTypeCommand_iff _).mpr htyped.2.1) (by decide)
    rintro ⟨-, hrejects⟩
    obtain ⟨e, he, -⟩ := hrejects hout
    cases he
  · have hparse : parseCommand allGranted (fun _ => true)
        (vector ["./client", "-s", "admin", "-c", "f", "-ret", "-int"]) 4 =
          .ok (.error (.commandLine 2)) := rfl
    rw [parsesGrammar_iff_of_exit (by decide) hparse]
    exact not_not_intro ⟨_, _, _, .mk .int .nil⟩

end RemoteProcedure
