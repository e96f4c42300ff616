import RemoteProcedure.Documentation

/-!
# The default functions

`add_default_functions` registers eleven functions in the memory it is given, each by
`create_function` into one buffer, which is set to zero again, and `add_function`.
Three of them it adds to the global `function_memory` instead.

A memory is at an address `R`, and the functions are at addresses `F`.

## Main definitions

* `addBinaryOperator`, `addDefaultFunctions` — the functions of the source.
* `defaultFunctions` — what they register, as it is declared.
* `FillsOnly` — the memory that is given gets all of them, and no other memory gets
  any.

## Main results

* `registers_addDefaultFunctions` — what is added, and where.
* `fillsOnly_iff` — **the memory that is given is filled, and no other, exactly if it
  is the global one**.
-/

namespace RemoteProcedure

open Machine

/-- The functions of `s_defaults.c`. -/
inductive DefaultFunction where
  | documentation | concat | identity | shutdown | plus | minus | multiplication | division
  | power | square | stringLength
  deriving DecidableEq, Repr

variable {R F : Type} [DecidableEq R]

/-! ### Registering one function -/

theorem length_empty : 0 = (CString.ofBytes []).length := rfl

/-- A description that is not set has no length, -/
theorem length_no_description : 0 = (none : Option CString).elim 0 CString.length := rfl

/-- and fits. -/
theorem no_description_le : ∀ d ∈ (none : Option CString), d.length ≤ maxDescriptionLength :=
  fun d hd => absurd hd (Option.not_mem_none d)

/-- A mapper whose bytes are all zero. -/
def FunctionMapper.blank (null : F) : FunctionMapper F where
  nameLength := 0
  name := CString.ofBytes []
  descriptionLength := 0
  description := none
  function :=
    { returnType := 0
      argc := 0
      argv := []
      funPtr := null
      argv_length := length_nil_eq
      argv_le := Nat.zero_le _ }
  nameLength_eq := length_empty
  name_le := Nat.zero_le _
  descriptionLength_eq := length_no_description
  description_le := no_description_le

/-- `add_function(memory, map)`, with an allocation that succeeds, on the memory at an
address. -/
def addFunctionAt (memories : R → Memory F) (memory : R) (map : FunctionMapper F) :
    R → Memory F :=
  match (addFunction true (some (memories memory)) map).2 with
  | some after => Function.update memories memory after
  | none => memories

/-- `memset` of the buffer, `create_function` into it, and `add_function` of what it
then holds: neither result is looked at. -/
def register (null : F) (memories : R → Memory F) (memory : R) (name : String)
    (returnType : Byte) (description : String) (ptr : F) (argc : CInt) (types : List Byte) :
    Checked (R → Memory F) := do
  let map := FunctionMapper.blank null
  let created ← createFunction (some ()) (CString.ofBytes (ascii name)) returnType
    (some (CString.ofBytes (ascii description))) ptr argc (types.map charToInt)
  match created with
  | .ok map => return addFunctionAt memories memory map
  | .error _ => return addFunctionAt memories memory map

/-- `add_binary_operator`. -/
def addBinaryOperator (null : F) (memories : R → Memory F) (memory : R) (f : F)
    (name descr : String) : Checked (R → Memory F) :=
  register null memories memory name rpcTyInt descr f 2 [rpcTyInt, rpcTyInt]

/-- `add_default_functions`, with the address of each function, and that of the global
memory. -/
def addDefaultFunctions (null : F) (address : DefaultFunction → F) (functionMemory : R)
    (memories : R → Memory F) (memory : R) : Checked (R → Memory F) := do
  let memories ← register null memories memory "documentation" rpcTyStr
    "return the documentation of all saved functions." (address .documentation) 0 []
  let memories ← register null memories memory "concat" rpcTyStr "concatenate twe strings"
    (address .concat) 2 [rpcTyStr, rpcTyStr]
  let memories ← register null memories functionMemory "identity" rpcTyStr "return the same str"
    (address .identity) 1 [rpcTyStr]
  let memories ← register null memories memory "shutdown" rpcTyVoid "Shutdown the server"
    (address .shutdown) 1 [rpcTyStr]
  let memories ← addBinaryOperator null memories memory (address .plus) "plus" "plus functions"
  let memories ← addBinaryOperator null memories memory (address .minus) "minus" "minus functions"
  let memories ← addBinaryOperator null memories memory (address .multiplication) "multiplication"
    "multiplication functions"
  let memories ← addBinaryOperator null memories memory (address .division) "division"
    "division functions"
  let memories ← addBinaryOperator null memories memory (address .power) "power" "power functions"
  let memories ← register null memories functionMemory "square" rpcTyInt "square function"
    (address .square) 1 [rpcTyInt]
  register null memories functionMemory "string_length" rpcTyInt "string_length function"
    (address .stringLength) 1 [rpcTyStr]

/-! ### What is declared -/

/-- A function as it is declared. -/
structure Declaration (F : Type) where
  name : CString
  returnType : Byte
  params : List Byte
  funPtr : F
  deriving DecidableEq

/-- What a mapper declares. -/
def FunctionMapper.declaration (f : FunctionMapper F) : Declaration F :=
  ⟨f.name, f.function.returnType, f.function.argv, f.function.funPtr⟩

/-- The declarations of `s_defaults.c`, in the order of their registration. -/
def defaultFunctions : List (Declaration DefaultFunction) :=
  [⟨.ofBytes (ascii "documentation"), rpcTyStr, [], .documentation⟩,
    ⟨.ofBytes (ascii "concat"), rpcTyStr, [rpcTyStr, rpcTyStr], .concat⟩,
    ⟨.ofBytes (ascii "identity"), rpcTyStr, [rpcTyStr], .identity⟩,
    ⟨.ofBytes (ascii "shutdown"), rpcTyVoid, [rpcTyStr], .shutdown⟩,
    ⟨.ofBytes (ascii "plus"), rpcTyInt, [rpcTyInt, rpcTyInt], .plus⟩,
    ⟨.ofBytes (ascii "minus"), rpcTyInt, [rpcTyInt, rpcTyInt], .minus⟩,
    ⟨.ofBytes (ascii "multiplication"), rpcTyInt, [rpcTyInt, rpcTyInt], .multiplication⟩,
    ⟨.ofBytes (ascii "division"), rpcTyInt, [rpcTyInt, rpcTyInt], .division⟩,
    ⟨.ofBytes (ascii "power"), rpcTyInt, [rpcTyInt, rpcTyInt], .power⟩,
    ⟨.ofBytes (ascii "square"), rpcTyInt, [rpcTyInt], .square⟩,
    ⟨.ofBytes (ascii "string_length"), rpcTyInt, [rpcTyStr], .stringLength⟩]

/-- A declaration with the address of its function. -/
def Declaration.at (address : DefaultFunction → F) (d : Declaration DefaultFunction) :
    Declaration F :=
  ⟨d.name, d.returnType, d.params, address d.funPtr⟩

/-- The list of a memory; one that was not set up has none, whatever its bytes are. -/
def Memory.list (memory : Memory F) : List (FunctionMapper F) :=
  if memory.initialized then memory.fmap else []

/-- The memory that is given gets all the functions, the newest first, in front of what
it had, and counts them; and every other memory stays as it is. -/
def FillsOnly (null : F) (address : DefaultFunction → F) (functionMemory : R)
    (memories : R → Memory F) (memory : R) : Prop :=
  ∃ after, addDefaultFunctions null address functionMemory memories memory = .ok after ∧
    (∃ added : List (FunctionMapper F),
      added.map FunctionMapper.declaration = (defaultFunctions.map (.at address)).reverse ∧
      (after memory).fmap = added ++ (memories memory).list) ∧
    (after memory).size = (memories memory).size + defaultFunctions.length ∧
    ∀ other, other ≠ memory → after other = memories other

/-! ### One registration -/

theorem intToChar_charToInt (c : Byte) : intToChar (charToInt c) = c := by
  revert c
  decide

/-- The memory a mapper is added to. -/
theorem addFunctionAt_self (memories : R → Memory F) (r : R) (map : FunctionMapper F) :
    addFunctionAt memories r map r = ⟨(memories r).size + 1, true, map :: (memories r).list⟩ := by
  generalize hmemory : memories r = memory
  obtain ⟨size, initialized, fmap⟩ := memory
  cases initialized <;> simp [addFunctionAt, addFunction, Memory.list, hmemory]

/-- The other memories. -/
theorem addFunctionAt_of_ne (memories : R → Memory F) {r other : R} (h : other ≠ r)
    (map : FunctionMapper F) : addFunctionAt memories r map other = memories other := by
  unfold addFunctionAt addFunction
  simp only [if_true, Function.update_of_ne h]

/-! ### A sequence of additions -/

/-- Additions one after the other, each to the memory at an address. -/
def addAll (memories : R → Memory F) (adds : List (R × FunctionMapper F)) : R → Memory F :=
  adds.foldl (fun memories add => addFunctionAt memories add.1 add.2) memories

/-- **An address counts what is added to it.** -/
theorem size_addAll (adds : List (R × FunctionMapper F)) (memories : R → Memory F) (r : R) :
    (addAll memories adds r).size = (memories r).size + (adds.map Prod.fst).count r := by
  induction adds generalizing memories with
  | nil => rfl
  | cons add adds ih =>
    show (addAll (addFunctionAt memories add.1 add.2) adds r).size = _
    rw [ih, List.map_cons]
    by_cases h : add.1 = r
    · subst h
      rw [addFunctionAt_self, List.count_cons_self]
      show (memories add.1).size + 1 + _ = _
      omega
    · rw [addFunctionAt_of_ne _ (Ne.symm h), List.count_cons_of_ne h]

/-- An address that nothing is added to is left alone. -/
theorem addAll_of_ne {adds : List (R × FunctionMapper F)} {other : R}
    (h : ∀ r ∈ adds.map Prod.fst, other ≠ r) (memories : R → Memory F) :
    addAll memories adds other = memories other := by
  induction adds generalizing memories with
  | nil => rfl
  | cons add adds ih =>
    rw [List.map_cons, List.forall_mem_cons] at h
    show addAll (addFunctionAt memories add.1 add.2) adds other = _
    rw [ih h.2, addFunctionAt_of_ne _ h.1]

/-- **Where everything is added to one address, it is in its list, the newest first.** -/
theorem list_addAll {adds : List (R × FunctionMapper F)} {r : R}
    (h : ∀ r' ∈ adds.map Prod.fst, r' = r) (memories : R → Memory F) :
    (addAll memories adds r).list = (adds.map Prod.snd).reverse ++ (memories r).list := by
  induction adds generalizing memories with
  | nil => rfl
  | cons add adds ih =>
    rw [List.map_cons, List.forall_mem_cons] at h
    obtain ⟨rfl, h⟩ := h
    show (addAll (addFunctionAt memories add.1 add.2) adds add.1).list = _
    rw [ih h, addFunctionAt_self, List.map_cons, List.reverse_cons, List.append_assoc]
    rfl

/-- A memory that something was added to is set up. -/
theorem initialized_addAll (memories : R → Memory F) {adds : List (R × FunctionMapper F)} {r : R}
    (h : r ∈ adds.map Prod.fst) : (addAll memories adds r).initialized = true := by
  induction adds using List.reverseRecOn with
  | nil => exact absurd h List.not_mem_nil
  | append_singleton adds add ih =>
    rw [addAll, List.foldl_append]
    show (addFunctionAt (addAll memories adds) add.1 add.2 r).initialized = true
    by_cases hadd : add.1 = r
    · subst hadd
      rw [addFunctionAt_self]
    · rw [List.map_append, List.mem_append] at h
      rw [addFunctionAt_of_ne _ (Ne.symm hadd)]
      exact ih (h.resolve_right fun h => hadd (List.mem_singleton.mp h).symm)

/-! ### Registrations -/

/-- What is registered fits a mapper, and its types exist. -/
structure InBounds (name : String) (returnType : Byte) (description : String) (argc : CInt)
    (types : List Byte) : Prop where
  name_le : (CString.ofBytes (ascii name)).length ≤ functionNameLength
  typeExists : typeExists returnType = true
  description_le : (CString.ofBytes (ascii description)).length ≤ maxDescriptionLength
  argc_eq : types.length = argc.toInt.toNat
  params_le : types.length ≤ maxParameters

instance {name : String} {returnType : Byte} {description : String} {argc : CInt}
    {types : List Byte} : Decidable (InBounds name returnType description argc types) :=
  decidable_of_iff
    ((CString.ofBytes (ascii name)).length ≤ functionNameLength ∧ typeExists returnType = true ∧
      (CString.ofBytes (ascii description)).length ≤ maxDescriptionLength ∧
      types.length = argc.toInt.toNat ∧ types.length ≤ maxParameters)
    ⟨fun ⟨h₁, h₂, h₃, h₄, h₅⟩ => ⟨h₁, h₂, h₃, h₄, h₅⟩,
      fun h => ⟨h.name_le, h.typeExists, h.description_le, h.argc_eq, h.params_le⟩⟩

/-- Part of a program adds functions of these declarations at these addresses, in this
order, to whatever the memories hold. -/
def Registers (program : (R → Memory F) → Checked (R → Memory F)) (addresses : List R)
    (declarations : List (Declaration F)) : Prop :=
  ∃ adds : List (R × FunctionMapper F),
    adds.map Prod.fst = addresses ∧
    (adds.map Prod.snd).map FunctionMapper.declaration = declarations ∧
    ∀ memories, program memories = .ok (addAll memories adds)

variable {null : F} {r : R} {name : String} {returnType : Byte} {description : String} {ptr : F}
  {argc : CInt} {types : List Byte}

/-- **A registration in bounds adds the function it is given.** -/
theorem registers_register (null : F) (r : R) (ptr : F)
    (h : InBounds name returnType description argc types) :
    Registers (fun memories => register null memories r name returnType description ptr argc types)
      [r] [⟨.ofBytes (ascii name), returnType, types, ptr⟩] := by
  have htypes : (types.map charToInt).map intToChar = types := by
    rw [List.map_map]
    exact List.map_id'' intToChar_charToInt types
  have hlen : (types.map charToInt).length = types.length := List.length_map _
  have hdesc : ∀ d ∈ some (CString.ofBytes (ascii description)),
      d.length ≤ maxDescriptionLength := by
    rintro d ⟨⟩
    exact h.description_le
  obtain ⟨map, hcreate, hname, -, htype, -, hargv, hptr⟩ :=
    exists_createFunction ptr (hlen.trans h.argc_eq) h.name_le h.typeExists hdesc
      (hlen ▸ h.params_le)
  refine ⟨[(r, map)], rfl, ?_, ?_⟩
  · show [map.declaration] = _
    rw [FunctionMapper.declaration, hname, htype, hargv, htypes, hptr]
  · intro memories
    simp only [register, hcreate, Checked.ok_bind]
    rfl

/-- A registration, and what comes after it. -/
theorem Registers.cons {rest : (R → Memory F) → Checked (R → Memory F)} {addresses : List R}
    {declarations : List (Declaration F)} (hrest : Registers rest addresses declarations)
    (h : InBounds name returnType description argc types) :
    Registers
      (fun memories => register null memories r name returnType description ptr argc types >>= rest)
      (r :: addresses) (⟨.ofBytes (ascii name), returnType, types, ptr⟩ :: declarations) := by
  obtain ⟨adds, haddresses, hdeclarations, hadds⟩ := hrest
  obtain ⟨first, hfirst, hdeclaration, hregister⟩ :=
    registers_register null r ptr h
  refine ⟨first ++ adds, ?_, ?_, ?_⟩
  · rw [List.map_append, hfirst, haddresses]
    rfl
  · rw [List.map_append, List.map_append, hdeclaration, hdeclarations]
    rfl
  · intro memories
    have hregister := hregister memories
    simp only at hregister
    simp only [hregister, Checked.ok_bind, hadds, addAll, List.foldl_append]

/-- The addresses `add_default_functions` adds to: three times that of the global
memory. -/
def defaultAddresses (functionMemory memory : R) : List R :=
  [memory, memory, functionMemory, memory, memory, memory, memory, memory, memory,
    functionMemory, functionMemory]

/-- **`add_default_functions` adds the functions it declares.** -/
theorem registers_addDefaultFunctions (null : F) (address : DefaultFunction → F)
    (functionMemory memory : R) :
    Registers (fun memories => addDefaultFunctions null address functionMemory memories memory)
      (defaultAddresses functionMemory memory) (defaultFunctions.map (.at address)) := by
  -- all but the last are followed by another
  iterate 10 refine Registers.cons ?_ (by decide)
  exact registers_register null functionMemory (address .stringLength) (by decide)

/-! ### The memory that is given -/

/-- **The memory that is given is filled, and no other, exactly if it is the global
one.**  Elsewhere three functions go to the global memory. -/
theorem fillsOnly_iff (null : F) (address : DefaultFunction → F) (functionMemory : R)
    (memories : R → Memory F) (memory : R) :
    FillsOnly null address functionMemory memories memory ↔ memory = functionMemory := by
  obtain ⟨adds, haddresses, hdeclarations, hadds⟩ :=
    registers_addDefaultFunctions null address functionMemory memory
  have hsize (other : R) := size_addAll adds memories other
  rw [haddresses] at hsize
  constructor
  · rintro ⟨after, hafter, -, -, hothers⟩
    obtain rfl := Except.ok.inj ((hadds memories).symm.trans hafter)
    by_contra hne
    -- the global memory has counted one at least
    have hglobal := hsize functionMemory
    rw [hothers functionMemory (Ne.symm hne)] at hglobal
    have hmem : functionMemory ∈ defaultAddresses functionMemory memory := by
      simp [defaultAddresses]
    have := List.count_pos_iff.mpr hmem
    omega
  · rintro rfl
    have hsame : ∀ r ∈ adds.map Prod.fst, r = memory := by
      rw [haddresses]
      simp [defaultAddresses]
    have hmem : memory ∈ adds.map Prod.fst := by
      rw [haddresses]
      simp [defaultAddresses]
    have hlist := list_addAll hsame memories
    rw [Memory.list, if_pos (initialized_addAll memories hmem)] at hlist
    refine ⟨addAll memories adds, hadds memories, ⟨_, ?_, hlist⟩, ?_, ?_⟩
    · rw [List.map_reverse, hdeclarations]
    · rw [hsize, defaultAddresses]
      simp [defaultFunctions]
    · intro other hother
      refine addAll_of_ne ?_ memories
      intro r hr
      rw [hsame r hr]
      exact hother

/-- A second registry: `identity`, `square` and `string_length` go to the global one. -/
theorem not_fillsOnly_second :
    ¬ FillsOnly DefaultFunction.documentation id true (fun _ => Memory.zero) false := by
  rintro ⟨after, hafter, -, -, hothers⟩
  obtain ⟨adds, haddresses, -, hadds⟩ :=
    registers_addDefaultFunctions DefaultFunction.documentation id true false
  obtain rfl := Except.ok.inj ((hadds fun _ => Memory.zero).symm.trans hafter)
  have hsize := size_addAll adds (fun _ => (Memory.zero : Memory DefaultFunction)) true
  rw [haddresses, hothers true (by decide)] at hsize
  exact absurd hsize (by decide)

end RemoteProcedure
