import RemoteProcedure.DefaultBodies
import RemoteProcedure.DocumentationSafety
import RemoteProcedure.RemoteCall

/-!
# The server starts

`main` fills the global memory and generates the documentation before it enters its
loop.  The documentation is a variable that a function of the registry reads; what is
generated does not depend on the addresses of the functions, so the text can be known
before the functions are.

## Main definitions

* `startup` — `main`, up to `loop_server`.
* `FunctionMapper.relocate`, `Memory.relocate` — the same functions at other addresses.
* `Started` — a server whose functions read the documentation that it has generated.

## Main results

* `generateDocumentation_relocate` — **the documentation does not depend on the
  addresses.**
* `exists_started` — **a server that gets its memory starts.**
* `registry_of_started` — its registry is that of the functions that are declared.
-/

namespace RemoteProcedure

open Machine

variable {F G : Type}

/-! ### Functions at other addresses -/

/-- A mapper of the function at another address. -/
def FunctionMapper.relocate (g : F → G) (f : FunctionMapper F) : FunctionMapper G where
  nameLength := f.nameLength
  name := f.name
  descriptionLength := f.descriptionLength
  description := f.description
  function :=
    { returnType := f.function.returnType
      argc := f.function.argc
      argv := f.function.argv
      funPtr := g f.function.funPtr
      argv_length := f.function.argv_length
      argv_le := f.function.argv_le }
  nameLength_eq := f.nameLength_eq
  name_le := f.name_le
  descriptionLength_eq := f.descriptionLength_eq
  description_le := f.description_le

/-- A memory of the functions at other addresses. -/
def Memory.relocate (g : F → G) (memory : Memory F) : Memory G :=
  ⟨memory.size, memory.initialized, memory.fmap.map (.relocate g)⟩

theorem documentationPuts_relocate (g : F → G) (fmap : List (FunctionMapper F)) :
    documentationPuts (fmap.map (.relocate g)) = documentationPuts fmap := by
  rw [documentationPuts, List.flatMap_map]
  rfl

theorem documentationLength_relocate (g : F → G) (fmap : List (FunctionMapper F)) :
    documentationLength (fmap.map (.relocate g)) = documentationLength fmap := by
  rw [documentationLength, List.map_map]
  rfl

/-- **The documentation does not depend on the addresses.** -/
theorem generateDocumentation_relocate (g : F → G) (granted : Bool)
    (docString : Option (Block Byte)) (size : Option CInt) (memory : Memory F) :
    generateDocumentation granted docString size (memory.relocate g) =
      generateDocumentation granted docString size memory := by
  have hsize : documentationSize (memory.relocate g) = documentationSize memory := by
    rw [documentationSize_eq, documentationSize_eq, Memory.relocate,
      documentationLength_relocate]
  have hputs : documentationPuts (memory.relocate g).fmap = documentationPuts memory.fmap :=
    documentationPuts_relocate g memory.fmap
  simp only [generateDocumentation, hsize, hputs]

theorem createFunction_relocate (g : F → G) (mapper : Option Unit) (name : CString)
    (returnType : Byte) (description : Option CString) (ptr : F) (argc : CInt) (ap : List CInt) :
    createFunction mapper name returnType description (g ptr) argc ap =
      (createFunction mapper name returnType description ptr argc ap).map
        (Except.map (.relocate g)) := by
  unfold createFunction
  cases mapper with
  | none => rfl
  | some u =>
    simp only
    split_ifs
    · rfl
    · rfl
    · cases readParams argc.toInt.toNat ap with
      | error e => rfl
      | ok argv =>
        simp only [Checked.ok_bind]
        split_ifs
        · rfl
        · rfl
    · rfl

/-- The memories of the functions at other addresses. -/
def relocateAll {R : Type} (g : F → G) (memories : R → Memory F) : R → Memory G :=
  fun r => (memories r).relocate g

variable {R : Type} [DecidableEq R]

theorem addFunctionAt_relocate (g : F → G) (memories : R → Memory F) (memory : R)
    (map : FunctionMapper F) :
    addFunctionAt (relocateAll g memories) memory (map.relocate g) =
      relocateAll g (addFunctionAt memories memory map) := by
  funext r
  by_cases hr : r = memory
  · subst hr
    have hlist : (relocateAll g memories r).list = (memories r).list.map (.relocate g) := by
      cases hinit : (memories r).initialized <;>
        simp [relocateAll, Memory.relocate, Memory.list, hinit]
    show _ = (addFunctionAt memories r map r).relocate g
    rw [addFunctionAt_self, addFunctionAt_self, hlist]
    rfl
  · show _ = (addFunctionAt memories memory map r).relocate g
    rw [addFunctionAt_of_ne _ hr, addFunctionAt_of_ne _ hr]
    rfl

theorem register_relocate (g : F → G) (null : F) (memories : R → Memory F) (memory : R)
    (name : String) (returnType : Byte) (description : String) (ptr : F) (argc : CInt)
    (types : List Byte) :
    register (g null) (relocateAll g memories) memory name returnType description (g ptr) argc
        types =
      (register null memories memory name returnType description ptr argc types).map
        (relocateAll g) := by
  have hblank : FunctionMapper.blank (g null) = (FunctionMapper.blank null).relocate g := rfl
  simp only [register, createFunction_relocate, hblank]
  cases createFunction (some ()) (CString.ofBytes (ascii name)) returnType
    (some (CString.ofBytes (ascii description))) ptr argc (types.map charToInt) with
  | error e => rfl
  | ok created =>
    cases created with
    | error e => exact congrArg Except.ok (addFunctionAt_relocate g memories memory _)
    | ok map => exact congrArg Except.ok (addFunctionAt_relocate g memories memory map)

omit [DecidableEq R] in
/-- A sequence of registrations, at other addresses. -/
theorem bind_relocate (g : F → G) {x : Checked (R → Memory F)} {y : Checked (R → Memory G)}
    {k : (R → Memory F) → Checked (R → Memory F)} {l : (R → Memory G) → Checked (R → Memory G)}
    (hx : y = x.map (relocateAll g))
    (hk : ∀ memories, l (relocateAll g memories) = (k memories).map (relocateAll g)) :
    y >>= l = (x >>= k).map (relocateAll g) := by
  subst hx
  cases x with
  | error e => rfl
  | ok memories => exact hk memories

/-- **What is registered does not depend on the addresses** either. -/
theorem addDefaultFunctions_relocate (g : F → G) (null : F) (address : DefaultFunction → F)
    (functionMemory : R) (memories : R → Memory F) (memory : R) :
    addDefaultFunctions (g null) (fun f => g (address f)) functionMemory (relocateAll g memories)
        memory =
      (addDefaultFunctions null address functionMemory memories memory).map (relocateAll g) := by
  unfold addDefaultFunctions addBinaryOperator
  iterate 10 refine bind_relocate g (register_relocate g _ _ _ _ _ _ _ _ _) fun memories => ?_
  exact register_relocate g _ _ _ _ _ _ _ _ _

/-! ### `main` -/

/-- `main`, up to `loop_server`. -/
def startup (granted : Bool) (null : F) (address : DefaultFunction → F) :
    Checked (Memory F × Generated) := do
  let memories ← addDefaultFunctions null address () (fun _ => .zero) ()
  let generated ← generateDocumentation granted none none (memories ())
  return (memories (), generated)

/-- The functions that are declared, without their addresses. -/
def defaultMemory : Memory (Option DefaultFunction) :=
  match addDefaultFunctions none some () (fun _ => .zero) () with
  | .ok memories => memories ()
  | .error _ => .zero

theorem defaultMemory_eq :
    addDefaultFunctions none some () (fun _ => .zero) () = .ok fun _ => defaultMemory := by
  obtain ⟨adds, -, -, hadds⟩ :=
    registers_addDefaultFunctions (none : Option DefaultFunction) some () ()
  have hok := hadds fun _ => .zero
  simp only at hok
  rw [hok, defaultMemory, hok]

/-- Each of them has a description. -/
theorem described_defaultMemory :
    ∀ f ∈ defaultMemory.fmap, 0 ≤ f.function.argc.toInt ∧ 0 < f.descriptionLength := by
  decide +kernel

/-- It is longer than the block of a client for a string, and shorter than that for the
documentation. -/
theorem documentationLength_defaultMemory :
    256 ≤ documentationLength defaultMemory.fmap ∧
      documentationLength defaultMemory.fmap < 2048 := by
  decide +kernel

/-- A server whose functions read the documentation that it has generated. -/
def Started (null : FunPtr)
    (memory : Memory FunPtr) (doc : Block Byte) : Prop :=
  startup true null (DefaultFunction.funPtr (some doc)) = .ok (memory, ⟨0, none, some doc⟩)

/-- What any server starts with, wherever its functions are. -/
theorem exists_startup : ∃ (doc : Block Byte) (text : CString),
    text.bytes = putText (documentationPuts defaultMemory.fmap) ∧
    (256 ≤ text.length ∧ text.length < 2048) ∧
    doc.Shows (text.bytes ++ [0]) ∧
    ∀ (F : Type) (null : F) (address : DefaultFunction → F), startup true null address =
      .ok (defaultMemory.relocate fun f => f.elim null address, ⟨0, none, some doc⟩) := by
  have hargc : ∀ f ∈ defaultMemory.fmap, 0 ≤ f.function.argc.toInt :=
    fun f hf => (described_defaultMemory f hf).1
  have hdesc : ∀ f ∈ defaultMemory.fmap, 0 < f.descriptionLength :=
    fun f hf => (described_defaultMemory f hf).2
  have hbounds := documentationLength_defaultMemory
  have hshort : documentationLength defaultMemory.fmap < 2 ^ 31 := by omega
  have hlen := (length_putText_documentationPuts hargc).2.mpr hdesc
  obtain ⟨-, doc, hdoc, hcontents⟩ :=
    generateDocumentation_of_described hargc hdesc hshort none none
  refine ⟨doc, ⟨putText (documentationPuts defaultMemory.fmap), zero_notMem_putText hargc⟩, rfl,
    ?_, ?_, ?_⟩
  · rw [← hlen] at hbounds
    exact hbounds
  · have hcells := Block.contents_eq_some_iff.mp hcontents
    have hcount := congrArg List.length hcells
    rw [List.length_map, List.length_map] at hcount
    rw [Block.Shows, ← hcount, List.take_length, hcells]
  · intro F null address
    have hadd := addDefaultFunctions_relocate (fun f => f.elim null address) none some ()
      (fun _ => .zero) ()
    rw [defaultMemory_eq] at hadd
    have hmemory : addDefaultFunctions null address () (fun _ => .zero) () =
        .ok fun _ => defaultMemory.relocate fun f => f.elim null address := hadd
    rw [startup, hmemory, Checked.ok_bind, generateDocumentation_relocate, hdoc]
    rfl

/-- **A server that gets its memory starts**: the text is known before the functions that
read it. -/
theorem exists_started (null : FunPtr) :
    ∃ memory doc, Started null memory doc := by
  obtain ⟨doc, -, -, -, -, hstart⟩ := exists_startup
  exact ⟨_, doc, hstart FunPtr null (DefaultFunction.funPtr (some doc))⟩

/-! ### The registry of a server -/

/-- The memory to which functions were added one after the other. -/
theorem addAll_eq_registry (adds : List (Unit × FunctionMapper FunPtr)) :
    addAll (fun _ => .zero) adds () = registry (adds.map Prod.snd) := by
  have hstep : ∀ (memories : Unit → Memory FunPtr) map,
      addFunctionAt memories () map () = (memories ()).step (.add map) := by
    intro memories map
    cases hinit : (memories ()).initialized <;>
      simp [addFunctionAt, addFunction, Memory.step, hinit]
  have hfold : ∀ memories : Unit → Memory FunPtr, addAll memories adds () =
      ((adds.map Prod.snd).map Op.add).foldl Memory.step (memories ()) := by
    induction adds with
    | nil => exact fun _ => rfl
    | cons add adds ih =>
      intro memories
      rw [List.map_cons, List.map_cons, List.foldl_cons, ← hstep]
      exact ih _
  exact hfold _

variable {null : FunPtr}
  {memory : Memory FunPtr} {doc : Block Byte}

/-- **The registry of a server is that of the functions that are declared**, and the
documentation is its text. -/
theorem registry_of_started (h : Started null memory doc) :
    ∃ (adds : List (FunctionMapper FunPtr)) (text : CString),
      memory = registry adds ∧
      adds.map FunctionMapper.declaration =
        defaultFunctions.map (.at (DefaultFunction.funPtr (some doc))) ∧
      (∀ f ∈ adds, 0 ≤ f.function.argc.toInt) ∧
      text.bytes = putText (documentationPuts memory.fmap) ∧
      (256 ≤ text.length ∧ text.length < 2048) ∧
      doc.Shows (text.bytes ++ [0]) := by
  obtain ⟨doc', text, htext, hlen, hshows, hstart⟩ := exists_startup
  have hsame := Except.ok.inj
    ((hstart FunPtr null (DefaultFunction.funPtr (some doc))).symm.trans h)
  obtain ⟨hmemory, hgenerated⟩ := Prod.mk.inj hsame
  obtain rfl : doc' = doc := Option.some.inj (congrArg Generated.docString hgenerated)
  obtain ⟨adds, -, hdeclarations, hadds⟩ :=
    registers_addDefaultFunctions null (DefaultFunction.funPtr (some doc')) () ()
  have hadded := hadds fun _ => .zero
  simp only at hadded
  rw [Started, startup, hadded, Checked.ok_bind, Checked.bind_eq_ok] at h
  obtain ⟨generated, -, h⟩ := h
  have hadds' : addAll (fun _ => .zero) adds () = memory := (Prod.mk.inj (Except.ok.inj h)).1
  have hregistry : memory = registry (adds.map Prod.snd) := by
    rw [← hadds', addAll_eq_registry]
  refine ⟨adds.map Prod.snd, text, hregistry, hdeclarations, ?_, ?_, hlen, hshows⟩
  · intro f hf
    have hmem : f ∈ memory.fmap := by
      rw [hregistry, fmap_registry]
      exact List.mem_reverse.mpr hf
    rw [← hmemory] at hmem
    obtain ⟨g, hg, rfl⟩ := List.mem_map.mp hmem
    exact (described_defaultMemory g hg).1
  · rw [htext, ← hmemory, Memory.relocate, documentationPuts_relocate]

end RemoteProcedure
