import Mathlib.Data.List.Induction
import Mathlib.Logic.Function.Basic
import RemoteProcedure.Data

/-!
# The function registry

`s_mapper.c`: a server keeps its functions in a linked list, the newest first,
beside a counter and a flag that says whether the list head has been set up.
Names may repeat.  Lookup, existence test and removal each walk the list on
their own.

A function pointer is an element of a type `F` about which nothing is assumed.

## Main definitions

* `FunctionT`, `FunctionMapper`, `Memory` — the structures of the source.
* `createFunction`, `addFunction`, `existFunction`, `getFunction`,
  `removeFunction`, `clearMapper` — its functions.
* `Stacks` — what the registry is for: a stack of mappers for each name.

## Main results

* `stacks_run` — the list refines the stacks, over any sequence of operations.
* `getFunction_run` — **the registry is a stack for each name**.
-/

namespace RemoteProcedure

open Machine

variable {F : Type}

def functionNameLength : ℕ := 255
def maxDescriptionLength : ℕ := 1023
def maxParameters : ℕ := 255

/-- `struct function_t`. -/
structure FunctionT (F : Type) where
  returnType : Byte
  argc : CInt
  /-- The types of the parameters, as many as `argc` says. -/
  argv : List Byte
  funPtr : F
  argv_length : argv.length = argc.toInt.toNat
  /-- They fit the array. -/
  argv_le : argv.length ≤ maxParameters

/-- `struct function_mapper`. -/
structure FunctionMapper (F : Type) where
  nameLength : ℕ
  name : CString
  descriptionLength : ℕ
  /-- The description, unless it was never set. -/
  description : Option CString
  /-- The field `fun`. -/
  function : FunctionT F
  nameLength_eq : nameLength = name.length
  /-- The name fits its array, with its NUL. -/
  name_le : name.length ≤ functionNameLength
  descriptionLength_eq : descriptionLength = description.elim 0 CString.length
  description_le : ∀ d ∈ description, d.length ≤ maxDescriptionLength

/-! ### `create_function` -/

/-- The loop that reads `n` parameter types off the variable arguments. -/
def readParams : (n : ℕ) → List CInt → Checked { l : List Byte // l.length = n }
  | 0, _ => .ok ⟨[], List.length_nil⟩
  -- `va_arg` beyond the last argument
  | _ + 1, [] => .error .outOfRange
  | n + 1, p :: ps => do
    let l ← readParams n ps
    return ⟨intToChar p :: l.1, length_cons_eq _ l⟩

/-- All the types that are given are read. -/
theorem readParams_of_length {ap : List CInt} {n : ℕ} (hn : ap.length = n) :
    readParams n ap = .ok ⟨ap.map intToChar, (List.length_map _).trans hn⟩ := by
  subst hn
  induction ap with
  | nil => rfl
  | cons p ps ih =>
    show readParams (ps.length + 1) (p :: ps) =
      .ok ⟨intToChar p :: ps.map intToChar, congrArg Nat.succ (List.length_map _)⟩
    rw [readParams, ih]
    rfl

/-- `create_function`: an error code, or 0 and the mapper.  A description or a
parameter list too long for its array overflows it. -/
def createFunction (mapper : Option Unit) (name : CString) (returnType : Byte)
    (description : Option CString) (funPtr : F) (argc : CInt) (ap : List CInt) :
    Checked (Except CInt (FunctionMapper F)) :=
  match mapper with
  | none => .ok (.error (-1))
  | some _ =>
    if hname : functionNameLength < name.length then .ok (.error (-2))
    else if typeExists returnType = false then .ok (.error (-3))
    else if hdesc : ∀ d ∈ description, d.length ≤ maxDescriptionLength then do
      let argv ← readParams argc.toInt.toNat ap
      if hargv : argv.1.length ≤ maxParameters then
        return .ok
          { nameLength := name.length, name
            descriptionLength := description.elim 0 CString.length, description
            function := { returnType, argc, argv := argv.1, funPtr
                          argv_length := argv.2, argv_le := hargv }
            nameLength_eq := rfl
            name_le := Nat.le_of_not_lt hname
            descriptionLength_eq := rfl
            description_le := hdesc }
      else .error .outOfRange
    else .error .outOfRange

/-- **A call in bounds makes the mapper it is asked for.** -/
theorem exists_createFunction {name : CString} {returnType : Byte} {description : Option CString}
    (funPtr : F) {argc : CInt} {ap : List CInt} (hap : ap.length = argc.toInt.toNat)
    (hname : name.length ≤ functionNameLength) (htype : typeExists returnType = true)
    (hdesc : ∀ d ∈ description, d.length ≤ maxDescriptionLength)
    (hparams : ap.length ≤ maxParameters) :
    ∃ f, createFunction (some ()) name returnType description funPtr argc ap = .ok (.ok f) ∧
      f.name = name ∧ f.description = description ∧ f.function.returnType = returnType ∧
      f.function.argc = argc ∧ f.function.argv = ap.map intToChar ∧
      f.function.funPtr = funPtr := by
  have hread := readParams_of_length hap
  have hmap : (ap.map intToChar).length ≤ maxParameters := by rwa [List.length_map]
  refine ⟨⟨name.length, name, description.elim 0 CString.length, description,
    ⟨returnType, argc, ap.map intToChar, funPtr, (List.length_map _).trans hap, hmap⟩,
    rfl, hname, rfl, hdesc⟩, ?_, rfl, rfl, rfl, rfl, rfl, rfl⟩
  rw [createFunction]
  simp only [dif_neg (Nat.not_lt.mpr hname), htype, Bool.true_eq_false, if_false, dif_pos hdesc,
    hread, Checked.ok_bind, dif_pos hmap, Checked.pure_eq]

/-! ### The list and its operations -/

/-- `struct memory`. -/
structure Memory (F : Type) where
  size : ℕ
  initialized : Bool
  /-- The list, its head first. -/
  fmap : List (FunctionMapper F)

/-- A memory whose bytes are all zero. -/
def Memory.zero : Memory F := ⟨0, false, []⟩

/-- `add_function`, with what it returns. -/
def addFunction (granted : Bool) (memory : Option (Memory F)) (mapper : FunctionMapper F) :
    CInt × Option (Memory F) :=
  match memory with
  | none => (-1, none)
  | some memory =>
    let memory := if memory.initialized then memory
      else { memory with fmap := [], initialized := true }
    if granted then (0, some { memory with fmap := mapper :: memory.fmap, size := memory.size + 1 })
    else (-1, some memory)

/-- The loop of `exist_function`. -/
def existLoop (funName : CString) : List (FunctionMapper F) → CInt
  | [] => 0
  | f :: fmap => if funName = f.name then 1 else existLoop funName fmap

/-- `exist_function`. -/
def existFunction (memory : Option (Memory F)) (funName : CString) : CInt :=
  match memory with
  | none => -1
  | some memory => existLoop funName memory.fmap

/-- The loop of `get_function`. -/
def getLoop (funName : CString) : List (FunctionMapper F) → Option (FunctionMapper F)
  | [] => none
  | f :: fmap => if funName = f.name then some f else getLoop funName fmap

/-- `get_function`. -/
def getFunction (memory : Option (Memory F)) (funName : CString) : Option (FunctionMapper F) :=
  match memory with
  | none => none
  | some memory => getLoop funName memory.fmap

/-- The loop of `remove_function`: the list without the node it stops at, if it
stops at one. -/
def removeLoop (funName : CString) :
    List (FunctionMapper F) → Option (List (FunctionMapper F))
  | [] => none
  | f :: fmap => if funName = f.name then some fmap else (removeLoop funName fmap).map (f :: ·)

/-- `remove_function`, with what it returns. -/
def removeFunction (memory : Option (Memory F)) (funName : CString) :
    CInt × Option (Memory F) :=
  match memory with
  | none => (-1, none)
  | some memory =>
    match removeLoop funName memory.fmap with
    | some fmap => (0, some { memory with fmap, size := memory.size - 1 })
    | none => (-1, some memory)

/-- `clear_mapper`, which follows the pointer untested. -/
def clearMapper (memory : Option (Memory F)) : Checked (Memory F) :=
  match memory with
  | none => .error .nullPointer
  | some memory => .ok { memory with fmap := [], size := 0 }

/-! ### The three walks stop at the same node -/

theorem existLoop_eq (name : CString) (l : List (FunctionMapper F)) :
    existLoop name l = if (getLoop name l).isSome then 1 else 0 := by
  induction l with
  | nil => rfl
  | cons f l ih =>
    rw [existLoop, getLoop]
    split_ifs with h h' h'
    · rfl
    · exact absurd rfl h'
    · rw [ih, if_pos h']
    · rw [ih, if_neg h']

/-- The removal walk stops where the lookup walk does, and takes out that node
alone. -/
theorem removeLoop_eq (name : CString) (l : List (FunctionMapper F)) :
    (getLoop name l = none ∧ removeLoop name l = none) ∨
      ∃ pre f post, l = pre ++ f :: post ∧ f.name = name ∧ (∀ g ∈ pre, g.name ≠ name) ∧
        getLoop name l = some f ∧ removeLoop name l = some (pre ++ post) := by
  induction l with
  | nil => exact .inl ⟨rfl, rfl⟩
  | cons f l ih =>
    rw [getLoop, removeLoop]
    by_cases h : name = f.name
    · rw [if_pos h, if_pos h]
      exact .inr ⟨[], f, l, rfl, h.symm, fun g hg => absurd hg List.not_mem_nil, rfl, rfl⟩
    · rw [if_neg h, if_neg h]
      rcases ih with ⟨hget, hremove⟩ | ⟨pre, g, post, rfl, hg, hpre, hget, hremove⟩
      · exact .inl ⟨hget, by rw [hremove]; rfl⟩
      · refine .inr ⟨f :: pre, g, post, rfl, hg, ?_, hget, by rw [hremove]; rfl⟩
        intro g' hg'
        rcases List.mem_cons.mp hg' with rfl | hg'
        · exact fun hname => h hname.symm
        · exact hpre g' hg'

/-! ### A stack for each name -/

/-- What the registry is for: under each name, the mappers of that name, the
newest first. -/
abbrev Stacks (F : Type) := CString → List (FunctionMapper F)

/-- One operation on a registry. -/
inductive Op (F : Type) where
  | add (mapper : FunctionMapper F) : Op F
  | remove (name : CString) : Op F
  | clear : Op F

/-- The operation on the stacks. -/
def Stacks.step (s : Stacks F) : Op F → Stacks F
  | .add f => Function.update s f.name (f :: s f.name)
  | .remove name => Function.update s name (s name).tail
  | .clear => fun _ => []

/-- The operation on the list, when allocations succeed. -/
def Memory.step (memory : Memory F) : Op F → Memory F
  | .add f => ((addFunction true (some memory) f).2).getD memory
  | .remove name => ((removeFunction (some memory) name).2).getD memory
  | .clear =>
    match clearMapper (some memory) with
    | .ok memory => memory
    | .error _ => memory

/-- A sequence of operations on the stacks, empty at first. -/
def Stacks.run (ops : List (Op F)) : Stacks F := ops.foldl Stacks.step fun _ => []

/-- A sequence of operations on a memory that is zero at first. -/
def Memory.run (ops : List (Op F)) : Memory F := ops.foldl Memory.step .zero

/-- The stacks a list shows. -/
def Memory.stacks (memory : Memory F) : Stacks F := fun name =>
  memory.fmap.filter (·.name = name)

theorem getLoop_eq_head? (name : CString) (l : List (FunctionMapper F)) :
    getLoop name l = (l.filter (·.name = name)).head? := by
  induction l with
  | nil => rfl
  | cons f l ih =>
    rw [getLoop, List.filter_cons]
    by_cases h : name = f.name
    · rw [if_pos h, if_pos (decide_eq_true h.symm)]
      rfl
    · rw [if_neg h, if_neg (by simpa using fun h' => h h'.symm), ih]

/-- What the operations keep: the counter counts the list, and a list that was
never set up is empty. -/
structure Memory.Wf (memory : Memory F) : Prop where
  size_eq : memory.size = memory.fmap.length
  initialized : memory.initialized = false → memory.fmap = []

theorem Memory.wf_zero : (Memory.zero : Memory F).Wf := ⟨rfl, fun _ => rfl⟩

theorem Memory.step_add {memory : Memory F} (h : memory.Wf) (f : FunctionMapper F) :
    memory.step (.add f) = ⟨memory.size + 1, true, f :: memory.fmap⟩ := by
  rcases memory with ⟨size, initialized, fmap⟩
  cases initialized with
  | true => rfl
  | false =>
    obtain rfl : fmap = [] := h.initialized rfl
    rfl

/-- Removal either finds nothing and changes nothing, or takes out one node. -/
theorem removeFunction_eq (memory : Memory F) (name : CString) :
    (getFunction (some memory) name = none ∧
      removeFunction (some memory) name = (-1, some memory)) ∨
    ∃ pre f post, memory.fmap = pre ++ f :: post ∧ f.name = name ∧
      (∀ g ∈ pre, g.name ≠ name) ∧ getFunction (some memory) name = some f ∧
      removeFunction (some memory) name =
        (0, some { memory with fmap := pre ++ post, size := memory.size - 1 }) := by
  rcases removeLoop_eq name memory.fmap with ⟨hget, hremove⟩ |
    ⟨pre, f, post, hfmap, hname, hpre, hget, hremove⟩
  · refine .inl ⟨hget, ?_⟩
    rw [removeFunction]
    simp only [hremove]
  · refine .inr ⟨pre, f, post, hfmap, hname, hpre, hget, ?_⟩
    rw [removeFunction]
    simp only [hremove]

/-- **One operation keeps the counter and the flag right.** -/
theorem Memory.Wf.step {memory : Memory F} (h : memory.Wf) (op : Op F) :
    (memory.step op).Wf := by
  cases op with
  | add f =>
    rw [Memory.step_add h]
    constructor
    · rw [h.size_eq]
      rfl
    · intro hinit
      cases hinit
  | clear => exact ⟨rfl, fun _ => rfl⟩
  | remove name =>
    rw [Memory.step]
    rcases removeFunction_eq memory name with ⟨-, hremove⟩ |
      ⟨pre, f, post, hfmap, -, -, -, hremove⟩
    · rw [hremove]
      exact h
    · rw [hremove]
      constructor
      · have hsize := h.size_eq
        rw [hfmap, List.length_append, List.length_cons] at hsize
        show memory.size - 1 = (pre ++ post).length
        rw [List.length_append]
        omega
      · intro hinit
        have hnil := h.initialized hinit
        rw [hfmap] at hnil
        exact absurd hnil (by simp)

/-- **One operation on the list is that operation on the stacks.** -/
theorem Memory.stacks_step {memory : Memory F} (h : memory.Wf) (op : Op F) :
    (memory.step op).stacks = memory.stacks.step op := by
  funext name
  cases op with
  | add f =>
    rw [Memory.step_add h, Memory.stacks, Stacks.step, List.filter_cons]
    by_cases hname : f.name = name
    · subst hname
      rw [if_pos (decide_eq_true rfl), Function.update_self]
      rfl
    · rw [if_neg (by simpa using hname), Function.update_of_ne fun h' => hname h'.symm]
      rfl
  | clear => rfl
  | remove other =>
    rw [Memory.step, Stacks.step]
    rcases removeFunction_eq memory other with ⟨hget, hremove⟩ |
      ⟨pre, f, post, hfmap, hf, hpre, -, hremove⟩
    · -- nothing is found because the stack is empty
      have hempty : memory.stacks other = [] := by
        rw [← List.head?_eq_none_iff]
        exact (getLoop_eq_head? other memory.fmap).symm.trans hget
      rw [hremove, hempty, List.tail_nil, ← hempty, Function.update_eq_self]
      rfl
    · have hnone : pre.filter (·.name = other) = [] := by
        rw [List.filter_eq_nil_iff]
        intro g hg
        simpa using hpre g hg
      have hafter : Memory.stacks ((removeFunction (some memory) other).2.getD memory) name =
          pre.filter (·.name = name) ++ post.filter (·.name = name) := by
        rw [hremove]
        exact List.filter_append _ _
      rw [hafter]
      by_cases hname : name = other
      · subst hname
        rw [Function.update_self, hnone, Memory.stacks, hfmap, List.filter_append, hnone,
          List.filter_cons, if_pos (decide_eq_true hf)]
        rfl
      · rw [Function.update_of_ne hname, Memory.stacks, hfmap, List.filter_append,
          List.filter_cons, if_neg (by simpa [hf] using fun h' => hname h'.symm)]

/-- **The list refines the stacks**, over any sequence of operations. -/
theorem Memory.stacks_run (ops : List (Op F)) :
    (Memory.run ops).Wf ∧ (Memory.run ops).stacks = Stacks.run ops := by
  induction ops using List.reverseRecOn with
  | nil => exact ⟨Memory.wf_zero, rfl⟩
  | append_singleton ops op ih =>
    obtain ⟨hwf, hstacks⟩ := ih
    have hrun : Memory.run (ops ++ [op]) = (Memory.run ops).step op := by
      rw [Memory.run, List.foldl_append]
      rfl
    have hspec : Stacks.run (ops ++ [op]) = (Stacks.run ops).step op := by
      rw [Stacks.run, List.foldl_append]
      rfl
    rw [hrun, hspec, ← hstacks]
    exact ⟨hwf.step op, Memory.stacks_step hwf op⟩

/-! ### The registry -/

theorem getFunction_eq_head? (memory : Memory F) (name : CString) :
    getFunction (some memory) name = (memory.stacks name).head? :=
  getLoop_eq_head? name memory.fmap

theorem existFunction_eq (memory : Memory F) (name : CString) :
    existFunction (some memory) name = if (getFunction (some memory) name).isSome then 1 else 0 :=
  existLoop_eq name memory.fmap

theorem getLoop_eq_find? (name : CString) (l : List (FunctionMapper F)) :
    getLoop name l = l.find? fun f => f.name = name := by
  induction l with
  | nil => rfl
  | cons f l ih =>
    rw [getLoop, List.find?_cons]
    by_cases h : name = f.name
    · rw [if_pos h, decide_eq_true h.symm]
    · rw [if_neg h, decide_eq_false fun h' => h h'.symm, ih]

theorem mem_of_getFunction {memory : Memory F} {name : CString} {f : FunctionMapper F}
    (h : getFunction (some memory) name = some f) : f ∈ memory.fmap := by
  rw [getFunction, getLoop_eq_find?] at h
  exact List.mem_of_find?_eq_some h

/-- **The registry is a stack for each name**, after any sequence of operations:
lookup shows the top, existence agrees with it, removal pops it and touches
nothing else, and the counter counts the list. -/
theorem getFunction_run (ops : List (Op F)) (name : CString) :
    getFunction (some (Memory.run ops)) name = (Stacks.run ops name).head? ∧
    (match getFunction (some (Memory.run ops)) name with
      | none =>
        existFunction (some (Memory.run ops)) name = 0 ∧
        removeFunction (some (Memory.run ops)) name = (-1, some (Memory.run ops))
      | some f =>
        existFunction (some (Memory.run ops)) name = 1 ∧
        ∃ pre post, (Memory.run ops).fmap = pre ++ f :: post ∧
          removeFunction (some (Memory.run ops)) name =
            (0, some { Memory.run ops with fmap := pre ++ post, size := (pre ++ post).length }) ∧
          ∀ other, getFunction (removeFunction (some (Memory.run ops)) name).2 other =
            if other = name then (Stacks.run ops name).tail.head?
            else getFunction (some (Memory.run ops)) other) ∧
    (Memory.run ops).size = (Memory.run ops).fmap.length := by
  obtain ⟨hwf, hstacks⟩ := Memory.stacks_run ops
  set memory := Memory.run ops
  have hget : ∀ other, getFunction (some memory) other = (Stacks.run ops other).head? := by
    intro other
    rw [← hstacks]
    exact getFunction_eq_head? memory other
  refine ⟨hget name, ?_, hwf.size_eq⟩
  rw [existFunction_eq]
  rcases removeFunction_eq memory name with ⟨hnone, hremove⟩ |
    ⟨pre, f, post, hfmap, -, -, hsome, hremove⟩
  · rw [hnone]
    exact ⟨rfl, hremove⟩
  · rw [hsome]
    have hsize : memory.size - 1 = (pre ++ post).length := by
      rw [hwf.size_eq, hfmap, List.length_append, List.length_append, List.length_cons]
      omega
    rw [hsize] at hremove
    refine ⟨rfl, pre, post, hfmap, hremove, ?_⟩
    intro other
    -- the memory after the removal shows the stacks after it
    have hstep := congrFun (Memory.stacks_step hwf (.remove name)) other
    rw [Memory.step, hremove] at hstep
    rw [hremove, getFunction_eq_head?]
    refine (congrArg List.head? hstep).trans ?_
    rw [Stacks.step, hstacks, hget]
    by_cases hother : other = name
    · subst hother
      rw [Function.update_self, if_pos rfl]
    · rw [Function.update_of_ne hother, if_neg hother]

end RemoteProcedure
