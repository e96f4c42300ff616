import RemoteProcedure.Machine.Atoi
import RemoteProcedure.Documentation
import RemoteProcedure.Request

/-!
# The command line of the client

`main` walks over its arguments until it meets an option that ends it.  A command is
checked by one walk over the words behind it and built by another, which looks for
`-ret` at the third argument of the program, wherever the command is.

An argument vector is the list of its strings; a position in it is a natural number.
The blocks that a string is copied to are asked for without room for its NUL.  C gives a
block no more bytes than that; whether an allocator does is a parameter.

## Main definitions

* `checkCommand`, `parseCommand`, `clientMain` — the functions of the source.
* `MeetsCommand` — the positions at which `main` meets a command.

## Main results

* `clientMain_command_iff` — `main` ends in a command exactly where it meets one.
-/

namespace RemoteProcedure

open Machine

/-! ### Words -/

/-- A string literal. -/
def literal (s : String) : CString := CString.ofBytes (ascii s)

def wordInt : CString := literal "-int"
def wordStr : CString := literal "-str"
def wordVoid : CString := literal "-void"
def wordRet : CString := literal "-ret"

/-- `is_type_command`. -/
def isTypeCommand (cmd : CString) : Bool :=
  decide (cmd = wordInt) || decide (cmd = wordStr) || decide (cmd = wordVoid)

/-- `returned_type`, which takes every other word for `-void`. -/
def returnedType (cmd : CString) : Byte :=
  if cmd = wordInt then rpcTyInt else if cmd = wordStr then rpcTyStr else rpcTyVoid

@[simp] theorem wordInt_ne_wordVoid : wordInt ≠ wordVoid := by decide

@[simp] theorem wordStr_ne_wordVoid : wordStr ≠ wordVoid := by decide

@[simp] theorem wordInt_ne_wordStr : wordInt ≠ wordStr := by decide

@[simp] theorem wordStr_ne_wordInt : wordStr ≠ wordInt := by decide

@[simp] theorem returnedType_wordInt : returnedType wordInt = rpcTyInt := rfl

@[simp] theorem returnedType_wordStr : returnedType wordStr = rpcTyStr := rfl

@[simp] theorem returnedType_wordVoid : returnedType wordVoid = rpcTyVoid := rfl

/-- The ways to end the client while a command is parsed. -/
inductive CommandExit where
  /-- `command_line_error(pos)`. -/
  | commandLine (pos : ℕ) : CommandExit
  /-- "Argument type (%s) is not correct.", and `command_line_error(pos)`. -/
  | argumentType (word : CString) (pos : ℕ) : CommandExit
  /-- "Void is not allowed as parameter type." -/
  | voidParameter : CommandExit
  /-- `perror("malloc()")`. -/
  | malloc : CommandExit
  deriving DecidableEq

/-! ### The check -/

/-- The loop of `check_command` over the words from position `cpt` on. -/
def checkLoop (cpt : ℕ) (nbArg : CInt) : List CString → Except CommandExit CInt
  | [] => .ok nbArg
  | [t] =>
    if isTypeCommand t = false then .error (.argumentType t cpt)
    else if returnedType t ≠ rpcTyVoid then .error (.commandLine (cpt + 1))
    else .ok (nbArg + 1)
  | t :: _ :: words =>
    if isTypeCommand t = false then .error (.argumentType t cpt)
    else checkLoop (cpt + 2) (nbArg + 1) words

/-- `check_command`. -/
def checkCommand (argv : List CString) (currentCpt : ℕ) : Except CommandExit CInt :=
  if argv.length ≤ currentCpt + 2 then .error (.commandLine argv.length)
  else checkLoop (currentCpt + 3) 0 (argv.drop (currentCpt + 3))

/-! ### The message -/

/-- `argv[i]`, as it is read: a null pointer is behind the last string. -/
def argAt (argv : List CString) (i : ℕ) : Checked CString :=
  match argv[i]? with
  | some s => .ok s
  | none => if i = argv.length then .error .nullPointer else .error .outOfRange

/-- Put an argument in front of the others, unless the client has ended. -/
def consArg {n : ℕ} (a : RpcArg) :
    Except CommandExit { l : List RpcArg // l.length = n } →
      Except CommandExit { l : List RpcArg // l.length = n + 1 }
  | .error e => .error e
  | .ok l => .ok ⟨a :: l.1, length_cons_eq a l⟩

/-- The loop of `parse_command`, which fills the `n` entries of the array that are left,
from entry `argCpt` on; `roomy n` says that a block of `n` bytes has one more. -/
def parseLoop (alloc : MsgBlock → Bool) (roomy : ℕ → Bool) : (n argCpt : ℕ) → List CString →
    Checked (Except CommandExit { l : List RpcArg // l.length = n })
  | 0, _, [] => .ok (.ok ⟨[], List.length_nil⟩)
  -- behind the end of the array
  | 0, _, _ :: _ => .error .outOfRange
  | _ + 1, _, [] => .error .uninitialised
  | n + 1, argCpt, t :: words =>
    if returnedType t = rpcTyInt then
      match words with
      | [] => .error .nullPointer
      | a :: words =>
        if alloc (.data argCpt) = false then .ok (.error .malloc)
        else do
          let rest ← parseLoop alloc roomy n (argCpt + 1) words
          return consArg (.int (atoi a.bytes)) rest
    else if returnedType t = rpcTyStr then
      match words with
      | [] => .error .nullPointer
      | a :: words =>
        if alloc (.data argCpt) = false then .ok (.error .malloc)
        -- `strcpy` of the string with its NUL
        else if roomy a.length = false then .error .outOfRange
        else do
          let rest ← parseLoop alloc roomy n (argCpt + 1) words
          return consArg (.str a) rest
    else .ok (.error .voidParameter)

theorem length_of_argArray {argc : CInt} (args : ArgArray argc) :
    args.1.length = argc.toInt.toNat := args.2

/-- `parse_command`: the message it fills in, unless it ends the client. -/
def parseCommand (alloc : MsgBlock → Bool) (roomy : ℕ → Bool) (argv : List CString)
    (currentCpt : ℕ) : Checked (Except CommandExit Message) :=
  match checkCommand argv currentCpt with
  | .error e => .ok (.error e)
  | .ok nbArg =>
    -- an entry of the array takes 16 bytes
    if nbArg ≠ 0 ∧ mallocSucceeds (alloc .argv) (16 * nbArg.toInt) = false then
      .ok (.error .malloc)
    else do
      let command ← argAt argv currentCpt
      let commandLength : CInt := BitVec.ofNat 32 command.length
      if mallocSucceeds (alloc .command) commandLength.toInt = false then return .error .malloc
      -- the NUL has no room of its own, nor has what a truncated length leaves out
      else if hroom : (command.bytes.length : ℤ) = commandLength.toInt ∧
          roomy command.length = true then do
        let ret ← argAt argv (currentCpt + 2)
        let third ← argAt argv 3
        if third ≠ wordRet then return .error (.commandLine 2)
        else
          let filled ← parseLoop alloc roomy nbArg.toInt.toNat 0 (argv.drop (currentCpt + 3))
          return filled.map fun args =>
            { commandLength, command := command.bytes, returnType := returnedType ret
              argc := nbArg, argv := args.1, command_length := hroom.1
              argv_length := length_of_argArray args }
      else .error .outOfRange

/-! ### The options -/

def IsList (cmd : CString) : Prop := cmd = literal "-l" ∨ cmd = literal "--list"
def IsShutdown (cmd : CString) : Prop := cmd = literal "-s" ∨ cmd = literal "--shutdown"
def IsHelp (cmd : CString) : Prop := cmd = literal "-h" ∨ cmd = literal "--help"
def IsCommand (cmd : CString) : Prop := cmd = literal "-c" ∨ cmd = literal "--command"

instance (cmd : CString) : Decidable (IsList cmd) := inferInstanceAs (Decidable (_ ∨ _))
instance (cmd : CString) : Decidable (IsShutdown cmd) := inferInstanceAs (Decidable (_ ∨ _))
instance (cmd : CString) : Decidable (IsHelp cmd) := inferInstanceAs (Decidable (_ ∨ _))
instance (cmd : CString) : Decidable (IsCommand cmd) := inferInstanceAs (Decidable (_ ∨ _))

/-- What `main` comes to in the end. -/
inductive ClientEnd where
  /-- It has the documentation printed. -/
  | documentation : ClientEnd
  /-- "Expected password for shutdown command." -/
  | noPassword : ClientEnd
  | help : ClientEnd
  /-- A command was parsed, and is sent if there is a message. -/
  | command (parsed : Except CommandExit Message) : ClientEnd
  /-- "Unknown command", of this name. -/
  | unknown (cmd : CString) : ClientEnd
  | success : ClientEnd
  deriving DecidableEq

/-- The loop of `main` over the words from position `cpt` on: the passwords it calls
`call_shutdown` with, and how it ends. -/
def mainLoop (alloc : MsgBlock → Bool) (roomy : ℕ → Bool) (argv : List CString) :
    (cpt : ℕ) → List CString → Checked (List CString × ClientEnd)
  | _, [] => .ok ([], .success)
  | cpt, cmd :: words =>
    if IsList cmd then .ok ([], .documentation)
    else if IsShutdown cmd then
      match words with
      | [] => .ok ([], .noPassword)
      | password :: words => do
        let (passwords, stop) ← mainLoop alloc roomy argv (cpt + 2) words
        return (password :: passwords, stop)
    else if IsHelp cmd then .ok ([], .help)
    else if IsCommand cmd then do
      let parsed ← parseCommand alloc roomy argv (cpt + 1)
      return ([], .command parsed)
    else .ok ([], .unknown cmd)

/-- `main`. -/
def clientMain (alloc : MsgBlock → Bool) (roomy : ℕ → Bool) (argv : List CString) :
    Checked (List CString × ClientEnd) :=
  mainLoop alloc roomy argv 1 (argv.drop 1)

/-- The positions at which `main` looks for an option: the first, and those behind a
password. -/
inductive Reaches (argv : List CString) : ℕ → Prop where
  | first : Reaches argv 1
  | shutdown {cpt : ℕ} {cmd password : CString} (h : Reaches argv cpt)
      (hcmd : argv[cpt]? = some cmd) (hshutdown : IsShutdown cmd)
      (hpassword : argv[cpt + 1]? = some password) : Reaches argv (cpt + 2)

/-- `main` meets a command at a position. -/
def MeetsCommand (argv : List CString) (cpt : ℕ) : Prop :=
  Reaches argv cpt ∧ ∃ cmd, argv[cpt]? = some cmd ∧ IsCommand cmd

/-! ### Where `main` ends -/

theorem drop_of_getElem? {α : Type} {l : List α} {i : ℕ} {a : α} (h : l[i]? = some a) :
    l.drop i = a :: l.drop (i + 1) := by
  obtain ⟨hi, rfl⟩ := List.getElem?_eq_some_iff.mp h
  exact List.drop_eq_getElem_cons hi

theorem getElem?_of_drop {α : Type} {l t : List α} {i : ℕ} {a : α} (h : l.drop i = a :: t) :
    l[i]? = some a ∧ l.drop (i + 1) = t := by
  constructor
  · rw [← List.head?_drop, h]
    rfl
  · rw [← List.tail_drop, h]
    rfl

section

variable {alloc : MsgBlock → Bool} {roomy : ℕ → Bool} {argv : List CString} {cpt : ℕ}

theorem not_isList_of_isShutdown {cmd : CString} (h : IsShutdown cmd) : ¬ IsList cmd := by
  rcases h with rfl | rfl <;> decide

theorem not_of_isCommand {cmd : CString} (h : IsCommand cmd) :
    ¬ IsList cmd ∧ ¬ IsShutdown cmd ∧ ¬ IsHelp cmd := by
  rcases h with rfl | rfl <;> decide

/-- **`main` goes on from each position it reaches.** -/
theorem clientMain_of_reaches (alloc : MsgBlock → Bool) (roomy : ℕ → Bool)
    (h : Reaches argv cpt) :
    ∃ passwords, clientMain alloc roomy argv =
      (mainLoop alloc roomy argv cpt (argv.drop cpt)).map fun r => (passwords ++ r.1, r.2) := by
  induction h with
  | first =>
    refine ⟨[], ?_⟩
    rw [clientMain]
    cases mainLoop alloc roomy argv 1 (argv.drop 1) <;> rfl
  | @shutdown cpt cmd password h hcmd hshutdown hpassword ih =>
    obtain ⟨passwords, hmain⟩ := ih
    refine ⟨passwords ++ [password], ?_⟩
    rw [hmain, drop_of_getElem? hcmd, drop_of_getElem? hpassword, mainLoop,
      if_neg (not_isList_of_isShutdown hshutdown), if_pos hshutdown]
    cases mainLoop alloc roomy argv (cpt + 2) (argv.drop (cpt + 1 + 1)) with
    | error e => rfl
    | ok r =>
      show Except.ok (passwords ++ password :: r.1, r.2) = .ok (passwords ++ [password] ++ r.1, r.2)
      rw [List.append_assoc, List.singleton_append]

/-- A loop that ends in a command has met one. -/
theorem meetsCommand_of_mainLoop {parsed : Except CommandExit Message} (cpt : ℕ)
    (words : List CString) : ∀ {passwords : List CString}, Reaches argv cpt →
      argv.drop cpt = words →
        mainLoop alloc roomy argv cpt words = .ok (passwords, .command parsed) →
          ∃ cpt', MeetsCommand argv cpt' ∧
            parseCommand alloc roomy argv (cpt' + 1) = .ok parsed := by
  induction cpt, words using mainLoop.induct with
  | case1 cpt =>
    intro passwords _ _ h
    cases h
  | case2 cpt cmd words hlist =>
    intro passwords _ _ h
    unfold mainLoop at h
    rw [if_pos hlist] at h
    cases h
  | case3 cpt cmd hlist hshutdown =>
    intro passwords _ _ h
    rw [mainLoop, if_neg hlist, if_pos hshutdown] at h
    cases h
  | case4 cpt cmd hlist hshutdown password words ih =>
    intro passwords hreaches hwords h
    rw [mainLoop, if_neg hlist, if_pos hshutdown, Checked.bind_eq_ok] at h
    obtain ⟨⟨passwords', stop⟩, hrest, heq⟩ := h
    cases heq
    obtain ⟨hcmd, hnext⟩ := getElem?_of_drop hwords
    obtain ⟨hpassword, hlast⟩ := getElem?_of_drop hnext
    exact ih (hreaches.shutdown hcmd hshutdown hpassword) hlast hrest
  | case5 cpt cmd words hlist hshutdown hhelp =>
    intro passwords _ _ h
    unfold mainLoop at h
    rw [if_neg hlist, if_neg hshutdown, if_pos hhelp] at h
    cases h
  | case6 cpt cmd words hlist hshutdown hhelp hcommand =>
    intro passwords hreaches hwords h
    unfold mainLoop at h
    rw [if_neg hlist, if_neg hshutdown, if_neg hhelp, if_pos hcommand, Checked.bind_eq_ok] at h
    obtain ⟨parsed', hparse, heq⟩ := h
    cases heq
    exact ⟨cpt, ⟨hreaches, cmd, (getElem?_of_drop hwords).1, hcommand⟩, hparse⟩
  | case7 cpt cmd words hlist hshutdown hhelp hcommand =>
    intro passwords _ _ h
    unfold mainLoop at h
    rw [if_neg hlist, if_neg hshutdown, if_neg hhelp, if_neg hcommand] at h
    cases h

/-- **`main` ends in a command exactly where it meets one**, and with what is parsed
there. -/
theorem clientMain_command_iff {parsed : Except CommandExit Message} :
    (∃ passwords, clientMain alloc roomy argv = .ok (passwords, .command parsed)) ↔
      ∃ cpt, MeetsCommand argv cpt ∧ parseCommand alloc roomy argv (cpt + 1) = .ok parsed := by
  constructor
  · rintro ⟨passwords, h⟩
    exact meetsCommand_of_mainLoop 1 _ .first rfl h
  · rintro ⟨cpt, ⟨hreaches, cmd, hcmd, hcommand⟩, hparse⟩
    obtain ⟨hlist, hshutdown, hhelp⟩ := not_of_isCommand hcommand
    obtain ⟨passwords, hmain⟩ := clientMain_of_reaches alloc roomy hreaches
    refine ⟨passwords ++ [], ?_⟩
    rw [hmain, drop_of_getElem? hcmd]
    unfold mainLoop
    rw [if_neg hlist, if_neg hshutdown, if_neg hhelp, if_pos hcommand, hparse]
    rfl

end

end RemoteProcedure
