import RemoteProcedure.Machine.Queue
import RemoteProcedure.RemoteCall

/-!
# The function mapper on the heap

The functions of `s_mapper.c` with their pointers: a node comes from `malloc`, is linked
into the list by the macros of `sys/queue.h`, found by a walk along its pointers, and
given back.  A walk along pointers need not end, so the loops have fuel.

## Main definitions

* `HeapMemory` — a `struct memory`, and the nodes that are allocated.
* `HeapMemory.addFunction`, `HeapMemory.existFunction`, `HeapMemory.getFunction`,
  `HeapMemory.removeFunction`, `HeapMemory.clearMapper` — the functions of the source.
* `HeapMemory.Refines` — the memory that it shows.

## Main results

* `HeapMemory.serveAll_of_run` — **any sequence of calls ends without a fault, and shows what
  it does on the list**; nothing is allocated but the nodes of the list.
-/

namespace RemoteProcedure

open Machine

variable {F : Type}

/-- A `struct memory`, and the nodes that are allocated. -/
structure HeapMemory (F : Type) where
  size : ℕ
  initialized : Bool
  fmap : Queue (FunctionMapper F)

namespace HeapMemory

def zero : HeapMemory F := ⟨0, false, .empty⟩

/-! ### The functions -/

/-- `add_function`, with the block that `malloc` answers with; the links of the mapper are
copied with it. -/
def addFunction (memory : HeapMemory F) (copy : Option ℕ) (fmList : Option ℕ × Link)
    (mapper : FunctionMapper F) : Checked (CInt × HeapMemory F) :=
  let memory := if memory.initialized then memory
    else { memory with fmap := memory.fmap.listInit, initialized := true }
  match copy with
  | none => .ok (-1, memory)
  | some copy => do
    let fmap := memory.fmap.malloc copy ⟨mapper, fmList.1, fmList.2⟩
    let fmap ← fmap.listInsertHead copy
    return (0, { memory with fmap, size := memory.size + 1 })

/-- The loop over the nodes from `fmap` on: the one that has the name. -/
def searchLoop (list : Queue (FunctionMapper F)) (funName : CString) :
    (fuel : ℕ) → (fmap : Option ℕ) → Option (Checked (Option ℕ))
  | 0, _ => none
  | _ + 1, none => some (.ok none)
  | fuel + 1, some fmap =>
    match list.get fmap with
    | .error e => some (.error e)
    | .ok f =>
      if funName = f.value.name then some (.ok (some fmap))
      else searchLoop list funName fuel f.leNext

/-- The search of a whole list. -/
def search (memory : HeapMemory F) (fuel : ℕ) (funName : CString) : Option (Checked (Option ℕ)) :=
  searchLoop memory.fmap funName fuel memory.fmap.lhFirst

/-- `exist_function`. -/
def existFunction (memory : HeapMemory F) (fuel : ℕ) (funName : CString) : Option (Checked CInt) :=
  (memory.search fuel funName).map fun found => found.map fun fmap => if fmap.isSome then 1 else 0

/-- `get_function`. -/
def getFunction (memory : HeapMemory F) (fuel : ℕ) (funName : CString) :
    Option (Checked (Option ℕ)) :=
  memory.search fuel funName

/-- `remove_function`. -/
def removeFunction (memory : HeapMemory F) (fuel : ℕ) (funName : CString) :
    Option (Checked (CInt × HeapMemory F)) :=
  (memory.search fuel funName).map fun found => do
    match ← found with
    | none => return (-1, memory)
    | some p =>
      let fmap ← memory.fmap.listRemove p
      let fmap ← fmap.free p
      return (0, { memory with fmap, size := memory.size - 1 })

/-- The loop of `clear_mapper`. -/
def clearLoop : (fuel : ℕ) → Queue (FunctionMapper F) → (fmap : Option ℕ) →
    Option (Checked (Queue (FunctionMapper F)))
  | 0, _, _ => none
  | _ + 1, list, none => some (.ok list)
  | fuel + 1, list, some fmap =>
    match list.get fmap, list.free fmap with
    | .ok f, .ok list => clearLoop fuel list f.leNext
    | .error e, _ => some (.error e)
    | _, .error e => some (.error e)

/-- `clear_mapper`. -/
def clearMapper (memory : HeapMemory F) (fuel : ℕ) : Option (Checked (HeapMemory F)) :=
  (clearLoop fuel memory.fmap memory.fmap.lhFirst).map fun list => list.map fun list =>
    { memory with fmap := list.listInit, size := 0 }

/-! ### Calls -/

/-- A call of one of them. -/
inductive Op (F : Type) where
  /-- With the block that `malloc` answers with, and the links of the mapper. -/
  | add (copy : Option ℕ) (fmList : Option ℕ × Link) (mapper : FunctionMapper F) : Op F
  | exist (funName : CString) : Op F
  | get (funName : CString) : Op F
  | remove (funName : CString) : Op F
  | clear : Op F

/-- What the caller gets to see. -/
inductive Answer (F : Type) where
  | int (i : CInt) : Answer F
  /-- The mapper behind the pointer, if it is not null. -/
  | mapper (f : Option (FunctionMapper F)) : Answer F
  | nothing : Answer F

/-- A call, and what its caller sees. -/
def step (memory : HeapMemory F) (fuel : ℕ) : Op F → Option (Checked (Answer F × HeapMemory F))
  | .add copy fmList mapper =>
    some ((memory.addFunction copy fmList mapper).map fun r => (.int r.1, r.2))
  | .exist funName =>
    (memory.existFunction fuel funName).map fun r => r.map fun i => (.int i, memory)
  | .get funName =>
    (memory.getFunction fuel funName).map fun r => do
      match ← r with
      | none => return (.mapper none, memory)
      | some p =>
        let f ← memory.fmap.get p
        return (.mapper (some f.value), memory)
  | .remove funName =>
    (memory.removeFunction fuel funName).map fun r => r.map fun r => (.int r.1, r.2)
  | .clear => (memory.clearMapper fuel).map fun r => r.map fun memory => (.nothing, memory)

/-- Calls one after the other. -/
def run (fuel : ℕ) : HeapMemory F → List (Op F) → Option (Checked (List (Answer F) × HeapMemory F))
  | memory, [] => some (.ok ([], memory))
  | memory, op :: ops =>
    match memory.step fuel op with
    | none => none
    | some (.error e) => some (.error e)
    | some (.ok (answer, memory)) =>
      (run fuel memory ops).map fun r => r.map fun r => (answer :: r.1, r.2)

/-- `malloc` answers with a block that is not in use. -/
def Fresh (memory : HeapMemory F) : Op F → Prop
  | .add (some copy) _ _ => memory.fmap.element copy = none
  | _ => True

/-- It does so in all the calls. -/
def AllFresh (fuel : ℕ) : HeapMemory F → List (Op F) → Prop
  | _, [] => True
  | memory, op :: ops =>
    memory.Fresh op ∧
      ∀ answer next, memory.step fuel op = some (.ok (answer, next)) → AllFresh fuel next ops

end HeapMemory

/-- The call on a memory with a list. -/
def Memory.serve (memory : Memory F) : HeapMemory.Op F → HeapMemory.Answer F × Memory F
  | .add copy _ mapper =>
    let r := addFunction copy.isSome (some memory) mapper
    (.int r.1, r.2.getD memory)
  | .exist funName => (.int (existFunction (some memory) funName), memory)
  | .get funName => (.mapper (getFunction (some memory) funName), memory)
  | .remove funName =>
    let r := removeFunction (some memory) funName
    (.int r.1, r.2.getD memory)
  | .clear => (.nothing, (clearMapper (some memory)).toOption.getD memory)

/-- Calls one after the other. -/
def Memory.serveAll : Memory F → List (HeapMemory.Op F) → List (HeapMemory.Answer F) × Memory F
  | memory, [] => ([], memory)
  | memory, op :: ops =>
    let (answer, memory) := memory.serve op
    let (answers, memory) := memory.serveAll ops
    (answer :: answers, memory)

namespace HeapMemory

/-- The memory whose list the pointers make; nothing else is allocated. -/
structure Refines (heap : HeapMemory F) (memory : Memory F) : Prop where
  size : heap.size = memory.size
  initialized : heap.initialized = memory.initialized
  /-- A list that was not set up is empty. -/
  unset : memory.initialized = false → memory.fmap = []
  fmap : ∃ nodes, heap.fmap.Holds nodes [] ∧ nodes.map Prod.snd = memory.fmap

theorem refines_zero : (zero : HeapMemory F).Refines .zero :=
  ⟨rfl, rfl, fun _ => rfl, [], Queue.holds_empty, rfl⟩

variable {heap : HeapMemory F} {memory : Memory F} {nodes : List (ℕ × FunctionMapper F)}
  {list : Queue (FunctionMapper F)} {loose : List ℕ} {name : CString}

/-! ### The loops -/

/-- **The search stops at the first node of the name.** -/
theorem searchLoop_eq {post : List (ℕ × FunctionMapper F)} : ∀ {fuel : ℕ}
    (pre : List (ℕ × FunctionMapper F)), list.Holds (pre ++ post) loose → post.length < fuel →
      searchLoop list name fuel (post.head?.map Prod.fst) =
        some (.ok ((post.find? fun node => node.2.name = name).map Prod.fst)) := by
  induction post with
  | nil =>
    rintro (_ | fuel) pre - hfuel
    · omega
    · rfl
  | cons node post ih =>
    obtain ⟨p, f⟩ := node
    rintro (_ | fuel) pre h hfuel
    · omega
    obtain ⟨l, he⟩ := h.element_eq
    have hfuel' : post.length < fuel := by simpa using hfuel
    have hrest := ih (pre ++ [(p, f)]) (by simpa using h) hfuel'
    simp only [List.head?_cons, Option.map_some, searchLoop, Queue.get_of_element he,
      List.find?_cons]
    by_cases hname : name = f.name
    · simp [hname]
    · have hne : f.name ≠ name := fun h' => hname h'.symm
      simp only [if_neg hname, hrest, decide_eq_false hne]

theorem search_eq (h : heap.fmap.Holds nodes loose) {fuel : ℕ} (hfuel : nodes.length < fuel) :
    heap.search fuel name =
      some (.ok ((nodes.find? fun node => node.2.name = name).map Prod.fst)) := by
  rw [search, h.lhFirst_eq]
  exact searchLoop_eq [] h hfuel

/-- **The loop frees every node once.** -/
theorem clearLoop_eq : ∀ {nodes : List (ℕ × FunctionMapper F)} {fuel : ℕ}
    {list : Queue (FunctionMapper F)} {l : Link} {fmap : Option ℕ}, list.Seg l fmap nodes none →
      (nodes.map Prod.fst).Nodup → nodes.length < fuel →
      ∃ list', clearLoop fuel list fmap = some (.ok list') ∧
        (∀ p ∈ nodes.map Prod.fst, list'.element p = none) ∧
        ∀ p ∉ nodes.map Prod.fst, list'.element p = list.element p
  | [], 0, _, _, _, _, _, hfuel => absurd hfuel (Nat.not_lt_zero _)
  | [], _ + 1, list, _, _, hseg, _, _ => by
    obtain rfl := hseg
    exact ⟨list, rfl, by simp⟩
  | _ :: _, 0, _, _, _, _, _, hfuel => absurd hfuel (Nat.not_lt_zero _)
  | (p, f) :: nodes, fuel + 1, list, l, fmap, hseg, hnodup, hfuel => by
    obtain ⟨rfl, next, he, hrest⟩ := hseg
    simp only [List.map_cons, List.nodup_cons] at hnodup
    have hother : ∀ r, r ≠ p → Function.update list.element p none r = list.element r :=
      fun r hr => Function.update_of_ne hr _ _
    have hrest' : Queue.Seg { list with element := Function.update list.element p none }
        (.next p) next nodes none := by
      refine hrest.congr fun r hr => hother r ?_
      rintro rfl
      exact hnodup.1 hr
    have hfuel' : nodes.length < fuel := by simpa using hfuel
    obtain ⟨list', hloop, hfreed, hkept⟩ := clearLoop_eq hrest' hnodup.2 hfuel'
    refine ⟨list', ?_, ?_, ?_⟩
    · have hfree : list.free p =
          .ok { list with element := Function.update list.element p none } := by
        simp [Queue.free, Queue.get_of_element he]
      simp [clearLoop, Queue.get_of_element he, hfree, hloop]
    · intro r hr
      rcases List.mem_cons.mp hr with rfl | hr
      · rw [hkept _ hnodup.1]
        simp
      · exact hfreed r hr
    · intro r hr
      rw [List.map_cons, List.mem_cons, not_or] at hr
      rw [hkept r hr.2]
      exact hother r hr.1

/-! ### One call -/

/-- The list is freed, and nothing else. -/
theorem holds_clear (h : list.Holds nodes loose) {fuel : ℕ} (hfuel : nodes.length < fuel) :
    ∃ list', clearLoop fuel list list.lhFirst = some (.ok list') ∧
      list'.listInit.Holds [] loose := by
  have hnodup := List.nodup_append.mp h.nodup
  obtain ⟨list', hloop, hfreed, hkept⟩ := clearLoop_eq h.seg hnodup.1 hfuel
  refine ⟨list', hloop, rfl, hnodup.2.1, ?_⟩
  intro p
  show (list'.element p).isSome = true ↔ p ∈ [] ++ loose
  rw [List.nil_append]
  by_cases hp : p ∈ nodes.map Prod.fst
  · rw [hfreed p hp]
    simp only [Option.isSome_none, Bool.false_eq_true, false_iff]
    exact fun hloose => hnodup.2.2 p hp p hloose rfl
  · rw [hkept p hp, h.allocated, List.mem_append, or_iff_right hp]

/-- What is found on the list. -/
theorem find?_snd (nodes : List (ℕ × FunctionMapper F)) (name : CString) :
    (nodes.find? fun node => node.2.name = name).map Prod.snd =
      getLoop name (nodes.map Prod.snd) := by
  rw [getLoop_eq_find?, List.find?_map]
  rfl

theorem removeLoop_of_split {pre post : List (FunctionMapper F)} {f : FunctionMapper F}
    (hpre : ∀ g ∈ pre, g.name ≠ name) (hf : f.name = name) :
    removeLoop name (pre ++ f :: post) = some (pre ++ post) := by
  induction pre with
  | nil => simp [removeLoop, hf]
  | cons g pre ih =>
    have hg : name ≠ g.name := fun h => hpre g (by simp) h.symm
    simp [removeLoop, hg, ih fun g' hg' => hpre g' (by simp [hg'])]

theorem refines_add (h : heap.Refines memory) {copy : Option ℕ} {fmList : Option ℕ × Link}
    {mapper : FunctionMapper F} (hfresh : heap.Fresh (.add copy fmList mapper)) :
    ∃ heap', heap.addFunction copy fmList mapper =
        .ok ((RemoteProcedure.addFunction copy.isSome (some memory) mapper).1, heap') ∧
      heap'.Refines
        ((RemoteProcedure.addFunction copy.isSome (some memory) mapper).2.getD memory) := by
  obtain ⟨hsize, hinit, hunset, nodes, hnodes, hfmap⟩ := h
  obtain ⟨size, initialized, fmap⟩ := heap
  obtain ⟨size', initialized', fmap'⟩ := memory
  simp only at hsize hinit hunset hnodes hfmap
  subst hsize hinit hfmap
  -- a list that is set up first was empty
  obtain ⟨list, hlist, hholds⟩ : ∃ list : Queue (FunctionMapper F),
      (if initialized then (⟨size, initialized, fmap⟩ : HeapMemory F)
        else ⟨size, true, fmap.listInit⟩) = ⟨size, true, list⟩ ∧ list.Holds nodes [] ∧
      list.element = fmap.element := by
    cases initialized with
    | true => exact ⟨fmap, rfl, hnodes, rfl⟩
    | false =>
      obtain rfl : nodes = [] := List.map_eq_nil_iff.mp (hunset rfl)
      exact ⟨fmap.listInit, rfl, ⟨rfl, List.nodup_nil, hnodes.allocated⟩, rfl⟩
  obtain ⟨hholds, helement⟩ := hholds
  have hlist' : (if initialized then (⟨size, initialized, nodes.map Prod.snd⟩ : Memory F)
      else ⟨size, true, []⟩) = ⟨size, true, nodes.map Prod.snd⟩ := by
    cases initialized with
    | true => rfl
    | false => rw [hunset rfl]; rfl
  cases copy with
  | none =>
    refine ⟨⟨size, true, list⟩, ?_, ?_⟩
    · simp [addFunction, hlist, RemoteProcedure.addFunction]
    · simp only [RemoteProcedure.addFunction, Option.isSome_none, Bool.false_eq_true, if_false,
        hlist', Option.getD_some]
      exact ⟨rfl, rfl, fun hno => Bool.noConfusion hno, nodes, hholds, rfl⟩
  | some copy =>
    have hfree : list.element copy = none := by
      rw [helement]
      exact hfresh
    set e : Element (FunctionMapper F) := ⟨mapper, fmList.1, fmList.2⟩ with he
    obtain ⟨list', hinsert, hholds'⟩ :=
      (hholds.malloc hfree e).insertHead (Queue.element_set_self list copy e)
    refine ⟨⟨size + 1, true, list'⟩, ?_, ?_⟩
    · simp [addFunction, hlist, RemoteProcedure.addFunction, ← he, hinsert]
    · simp only [RemoteProcedure.addFunction, Option.isSome_some, if_true, hlist',
        Option.getD_some]
      exact ⟨rfl, rfl, fun hno => Bool.noConfusion hno, _, hholds', rfl⟩

theorem refines_remove (h : heap.Refines memory) {fuel : ℕ} (hfuel : memory.fmap.length < fuel) :
    ∃ heap', heap.removeFunction fuel name =
        some (.ok ((RemoteProcedure.removeFunction (some memory) name).1, heap')) ∧
      heap'.Refines ((RemoteProcedure.removeFunction (some memory) name).2.getD memory) := by
  have hkept := h
  obtain ⟨hsize, hinit, hunset, nodes, hnodes, hfmap⟩ := h
  have hlen : nodes.length < fuel := by
    rw [← hfmap, List.length_map] at hfuel
    exact hfuel
  have hsnd := find?_snd nodes name
  rw [removeFunction, search_eq hnodes hlen]
  cases hfind : nodes.find? fun node => node.2.name = name with
  | none =>
    rw [hfind, hfmap] at hsnd
    have hremove : removeLoop name memory.fmap = none := by
      rcases removeLoop_eq name memory.fmap with ⟨-, hremove⟩ | ⟨_, f, _, _, _, _, hget, _⟩
      · exact hremove
      · rw [← hsnd] at hget
        cases hget
    exact ⟨heap, by simp [RemoteProcedure.removeFunction, hremove],
      by simpa [RemoteProcedure.removeFunction, hremove] using hkept⟩
  | some node =>
    obtain ⟨hname, pre, post, rfl, hpre⟩ := List.find?_eq_some_iff_append.mp hfind
    obtain ⟨p, f⟩ := node
    obtain ⟨list, hlink, hunlinked, -⟩ := hnodes.remove
    obtain ⟨list', hfree, hholds⟩ := hunlinked.free
    have hremove : removeLoop name memory.fmap = some ((pre ++ post).map Prod.snd) := by
      rw [← hfmap, List.map_append, List.map_cons, List.map_append]
      refine removeLoop_of_split ?_ (by simpa using hname)
      intro g hg
      obtain ⟨node, hnode, rfl⟩ := List.mem_map.mp hg
      simpa using hpre node hnode
    refine ⟨{ heap with fmap := list', size := heap.size - 1 }, ?_, ?_⟩
    · simp [RemoteProcedure.removeFunction, hremove, hlink, hfree]
    · simp only [RemoteProcedure.removeFunction, hremove, Option.getD_some]
      refine ⟨by simp [hsize], hinit, ?_, pre ++ post, hholds, rfl⟩
      intro hno
      have hnil := hunset hno
      rw [← hfmap] at hnil
      simp at hnil

/-- **Every call does on the heap what it does on the list**, without a fault. -/
theorem step_refines (h : heap.Refines memory) {op : Op F} (hfresh : heap.Fresh op) {fuel : ℕ}
    (hfuel : memory.fmap.length < fuel) :
    ∃ heap', heap.step fuel op = some (.ok ((memory.serve op).1, heap')) ∧
      heap'.Refines (memory.serve op).2 := by
  have hkept := h
  cases op with
  | add copy fmList mapper =>
    obtain ⟨heap', hadd, hrefines⟩ := refines_add h hfresh
    exact ⟨heap', by simp [step, hadd, Except.map, Memory.serve], hrefines⟩
  | remove name =>
    obtain ⟨heap', hremove, hrefines⟩ := refines_remove h hfuel
    exact ⟨heap', by simp [step, hremove, Except.map, Memory.serve], hrefines⟩
  | exist name =>
    obtain ⟨-, -, -, nodes, hnodes, hfmap⟩ := h
    have hlen : nodes.length < fuel := by
      rw [← hfmap, List.length_map] at hfuel
      exact hfuel
    have hsnd := find?_snd nodes name
    have hsome : ((nodes.find? fun node => node.2.name = name).map Prod.fst).isSome =
        (getLoop name memory.fmap).isSome := by
      rw [← hfmap, ← hsnd, Option.isSome_map, Option.isSome_map]
    refine ⟨heap, ?_, hkept⟩
    rw [step, existFunction, search_eq hnodes hlen]
    simp only [Memory.serve, RemoteProcedure.existFunction, existLoop_eq, ← hsome, Except.map,
      Option.map_some]
  | get name =>
    obtain ⟨-, -, -, nodes, hnodes, hfmap⟩ := h
    have hlen : nodes.length < fuel := by
      rw [← hfmap, List.length_map] at hfuel
      exact hfuel
    have hsnd := find?_snd nodes name
    refine ⟨heap, ?_, hkept⟩
    rw [step, getFunction, search_eq hnodes hlen]
    simp only [Memory.serve, RemoteProcedure.getFunction, ← hfmap, ← hsnd]
    cases hfind : nodes.find? fun node => node.2.name = name with
    | none => simp
    | some node =>
      obtain ⟨-, pre, post, rfl, -⟩ := List.find?_eq_some_iff_append.mp hfind
      obtain ⟨l, he⟩ := hnodes.element_eq
      simp [Queue.get_of_element he]
  | clear =>
    obtain ⟨hsize, hinit, hunset, nodes, hnodes, hfmap⟩ := h
    have hlen : nodes.length < fuel := by
      rw [← hfmap, List.length_map] at hfuel
      exact hfuel
    obtain ⟨list', hclear, hholds⟩ := holds_clear hnodes hlen
    refine ⟨{ heap with fmap := list'.listInit, size := 0 }, ?_, rfl, hinit, fun _ => rfl, [],
      hholds, rfl⟩
    simp [step, clearMapper, hclear, Except.map, Memory.serve]

/-! ### Runs -/

theorem length_serve_le (memory : Memory F) (op : Op F) :
    (memory.serve op).2.fmap.length ≤ memory.fmap.length + 1 := by
  obtain ⟨size, initialized, fmap⟩ := memory
  cases op with
  | add copy fmList mapper =>
    cases copy <;> cases initialized <;>
      simp [Memory.serve, RemoteProcedure.addFunction]
  | remove name =>
    rcases removeLoop_eq name fmap with ⟨-, hremove⟩ | ⟨pre, f, post, rfl, -, -, -, hremove⟩
    · simp [Memory.serve, RemoteProcedure.removeFunction, hremove]
    · simp only [Memory.serve, RemoteProcedure.removeFunction, hremove, Option.getD_some,
        List.length_append, List.length_cons]
      omega
  | exist name => exact Nat.le_succ _
  | get name => exact Nat.le_succ _
  | clear => exact Nat.zero_le _

/-- **Any sequence of calls does on the heap what it does on the list**: it ends without
a fault, its callers see the same, and nothing is allocated but the nodes of the list. -/
theorem serveAll_of_run {ops : List (Op F)} :
    ∀ {heap : HeapMemory F} {memory : Memory F} {fuel : ℕ},
    heap.Refines memory → memory.fmap.length + ops.length < fuel → heap.AllFresh fuel ops →
      ∃ heap', heap.run fuel ops = some (.ok ((memory.serveAll ops).1, heap')) ∧
        heap'.Refines (memory.serveAll ops).2 := by
  induction ops with
  | nil => exact fun h _ _ => ⟨_, rfl, h⟩
  | cons op ops ih =>
    intro heap memory fuel h hfuel hfresh
    have hlen := length_serve_le memory op
    rw [List.length_cons] at hfuel
    obtain ⟨next, hstep, hnext⟩ := step_refines h hfresh.1 (show memory.fmap.length < fuel by omega)
    obtain ⟨heap', hrun, hrefines⟩ := ih hnext (by omega) (hfresh.2 _ next hstep)
    refine ⟨heap', ?_, hrefines⟩
    rw [run, hstep]
    simp [hrun, Except.map, Memory.serveAll]

/-- A function is added twice, found, removed once, and everything is freed. -/
def opsF : List (Op FunPtr) :=
  [.add (some 7) (none, .first) mapperF, .add (some 3) (some 9, .next 9) mapperF, .get mapperF.name,
    .remove mapperF.name, .add none (none, .first) mapperF, .clear]

theorem serveAll_of_run_opsF :
    ∃ heap', run 7 zero opsF = some (.ok ((Memory.zero.serveAll opsF).1, heap')) ∧
      heap'.Refines (Memory.zero.serveAll opsF).2 := by
  have hfresh : AllFresh 7 zero opsF := by
    refine ⟨rfl, ?_⟩
    rintro _ _ ⟨⟩
    refine ⟨rfl, ?_⟩
    rintro _ _ ⟨⟩
    refine ⟨trivial, ?_⟩
    rintro _ _ ⟨⟩
    refine ⟨trivial, ?_⟩
    rintro _ _ ⟨⟩
    refine ⟨trivial, ?_⟩
    rintro _ _ ⟨⟩
    exact ⟨trivial, fun _ _ _ => trivial⟩
  exact serveAll_of_run refines_zero (by decide) hfresh

end HeapMemory

end RemoteProcedure
