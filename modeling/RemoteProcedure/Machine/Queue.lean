import Mathlib.Data.List.Nodup
import Mathlib.Logic.Function.Basic
import RemoteProcedure.Machine.Memory

/-!
# Lists of `sys/queue.h`

A list of `LIST_HEAD` runs through the elements themselves: each has a pointer to the
next element, and one to the field that points to it.  The macros store through both, in
elements which must be allocated; an access to another one is a fault.

An address is a natural number.  What the list is for is a list of addresses and values;
beside it stand the elements that are allocated but not in the list.

## Main definitions

* `Queue`, `Queue.listInit`, `Queue.listInsertHead`, `Queue.listRemove` — the head, the
  elements, and the macros.
* `Queue.malloc`, `Queue.free` — elements come and go.
* `Queue.Holds` — the list that the pointers make, and what is allocated beside it.

## Main results

* `Holds.insertHead`, `Holds.remove` — **the macros insert at the head, and remove from
  anywhere**, without a fault.
* `Holds.element_eq` — each element leads to the next.
-/

namespace Machine

/-- A field that holds a pointer to an element. -/
inductive Link where
  /-- `lh_first` of the head. -/
  | first : Link
  /-- `le_next` of an element. -/
  | next (p : ℕ) : Link
  deriving DecidableEq, Repr

/-- The field behind these elements. -/
def Link.after {α : Type} (l : Link) : List (ℕ × α) → Link
  | [] => l
  | (p, _) :: nodes => Link.after (.next p) nodes

/-- An element, with its value. -/
structure Element (α : Type) where
  value : α
  leNext : Option ℕ
  lePrev : Link

/-- The head of a list, and the elements that are allocated. -/
structure Queue (α : Type) where
  lhFirst : Option ℕ
  element : ℕ → Option (Element α)

namespace Queue

variable {α : Type}

/-! ### The macros -/

/-- The element at an address. -/
def get (q : Queue α) (p : ℕ) : Checked (Element α) :=
  match q.element p with
  | some e => .ok e
  | none => .error .freed

def set (q : Queue α) (p : ℕ) (e : Element α) : Queue α :=
  { q with element := Function.update q.element p (some e) }

/-- Store a pointer in a field. -/
def setLink (q : Queue α) (l : Link) (next : Option ℕ) : Checked (Queue α) :=
  match l with
  | .first => .ok { q with lhFirst := next }
  | .next p => do
    let e ← q.get p
    return q.set p { e with leNext := next }

/-- Store where the pointer to an element is, if there is one. -/
def setPrev (q : Queue α) (p : Option ℕ) (l : Link) : Checked (Queue α) :=
  match p with
  | none => .ok q
  | some p => do
    let e ← q.get p
    return q.set p { e with lePrev := l }

/-- `LIST_INIT`. -/
def listInit (q : Queue α) : Queue α := { q with lhFirst := none }

/-- `LIST_INSERT_HEAD`. -/
def listInsertHead (q : Queue α) (p : ℕ) : Checked (Queue α) := do
  let q ← q.setLink (.next p) q.lhFirst
  let q ← q.setPrev q.lhFirst (.next p)
  let q ← q.setLink .first (some p)
  q.setPrev (some p) .first

/-- `LIST_REMOVE`. -/
def listRemove (q : Queue α) (p : ℕ) : Checked (Queue α) := do
  let e ← q.get p
  let q ← q.setPrev e.leNext e.lePrev
  let e ← q.get p
  q.setLink e.lePrev e.leNext

/-! ### Allocation -/

/-- A block that was not in use, with what is stored in it. -/
def malloc (q : Queue α) (p : ℕ) (e : Element α) : Queue α := q.set p e

def free (q : Queue α) (p : ℕ) : Checked (Queue α) := do
  let _ ← q.get p
  return { q with element := Function.update q.element p none }

/-! ### What the pointers make -/

/-- The elements from `cur` up to `stop`, where the first is behind the field `l`. -/
def Seg (q : Queue α) : Link → Option ℕ → List (ℕ × α) → Option ℕ → Prop
  | _, cur, [], stop => cur = stop
  | l, cur, (p, a) :: nodes, stop =>
    cur = some p ∧ ∃ next, q.element p = some ⟨a, next, l⟩ ∧ Seg q (.next p) next nodes stop

variable {q q' : Queue α} {l l' : Link} {cur stop mid : Option ℕ} {p : ℕ} {a : α}
  {nodes pre post : List (ℕ × α)} {loose : List ℕ}

@[simp] theorem seg_nil : q.Seg l cur [] stop ↔ cur = stop := Iff.rfl

@[simp] theorem seg_cons : q.Seg l cur ((p, a) :: nodes) stop ↔
    cur = some p ∧ ∃ next, q.element p = some ⟨a, next, l⟩ ∧ q.Seg (.next p) next nodes stop :=
  Iff.rfl

/-- Elements one behind the other, and the pointer at the seam. -/
theorem seg_append : q.Seg l cur (pre ++ post) stop ↔
    ∃ mid, q.Seg l cur pre mid ∧ q.Seg (l.after pre) mid post stop := by
  induction pre generalizing l cur with
  | nil => simp [Link.after]
  | cons node pre ih =>
    obtain ⟨p, a⟩ := node
    simp only [List.cons_append, seg_cons, ih, Link.after]
    constructor
    · rintro ⟨rfl, next, he, mid, hpre, hpost⟩
      exact ⟨mid, ⟨rfl, next, he, hpre⟩, hpost⟩
    · rintro ⟨mid, ⟨rfl, next, he, hpre⟩, hpost⟩
      exact ⟨rfl, next, he, mid, hpre, hpost⟩

theorem after_append : l.after (pre ++ post) = (l.after pre).after post := by
  induction pre generalizing l with
  | nil => rfl
  | cons node pre ih =>
    obtain ⟨p, a⟩ := node
    exact ih

/-- Only the elements of a segment matter to it. -/
theorem Seg.congr (h : q.Seg l cur nodes stop)
    (heq : ∀ p ∈ nodes.map Prod.fst, q'.element p = q.element p) : q'.Seg l cur nodes stop := by
  induction nodes generalizing l cur with
  | nil => exact h
  | cons node nodes ih =>
    obtain ⟨p, a⟩ := node
    obtain ⟨rfl, next, he, hrest⟩ := h
    have hhead : q'.element p = some ⟨a, next, l⟩ := by
      rw [heq p (by simp), he]
    exact ⟨rfl, next, hhead, ih hrest fun r hr => heq r (by simp [hr])⟩

@[simp] theorem element_set_self (q : Queue α) (p : ℕ) (e : Element α) :
    (q.set p e).element p = some e := Function.update_self _ _ _

theorem element_set_of_ne {r : ℕ} (h : r ≠ p) (e : Element α) :
    (q.set p e).element r = q.element r := Function.update_of_ne h _ _

@[simp] theorem lhFirst_set (q : Queue α) (p : ℕ) (e : Element α) :
    (q.set p e).lhFirst = q.lhFirst := rfl

theorem get_of_element {e : Element α} (h : q.element p = some e) : q.get p = .ok e := by
  simp [get, h]

/-- The same elements are allocated. -/
def SameBlocks (q q' : Queue α) : Prop :=
  ∀ p, (q'.element p).isSome = (q.element p).isSome

theorem sameBlocks_set {e e' : Element α} (h : q.element p = some e) :
    q.SameBlocks (q.set p e') := by
  intro r
  by_cases hr : r = p
  · rw [hr, h]
    simp
  · rw [element_set_of_ne hr]

theorem SameBlocks.trans {q'' : Queue α} (h : q.SameBlocks q') (h' : q'.SameBlocks q'') :
    q.SameBlocks q'' := fun p => (h' p).trans (h p)

/-! ### Stores in a segment -/

/-- A store in the last field of the elements lets them end elsewhere. -/
theorem Seg.setLink (h : q.Seg .first q.lhFirst nodes stop)
    (hnodup : (nodes.map Prod.fst).Nodup) (stop' : Option ℕ) :
    ∃ q', q.setLink (Link.first.after nodes) stop' = .ok q' ∧
      q'.Seg .first q'.lhFirst nodes stop' ∧
      (∀ p ∉ nodes.map Prod.fst, q'.element p = q.element p) ∧ q.SameBlocks q' := by
  rcases List.eq_nil_or_concat nodes with rfl | ⟨init, ⟨r, b⟩, rfl⟩
  · exact ⟨_, rfl, rfl, fun _ _ => rfl, fun _ => rfl⟩
  · rw [List.concat_eq_append] at h hnodup ⊢
    obtain ⟨mid, hinit, rfl, next, hr, -⟩ := seg_append.mp h
    rw [List.map_append, List.map_singleton, List.nodup_append] at hnodup
    have hout : r ∉ init.map Prod.fst := fun hmem => hnodup.2.2 r hmem r (by simp) rfl
    refine ⟨q.set r ⟨b, stop', Link.first.after init⟩, ?_, ?_, ?_, sameBlocks_set hr⟩
    · simp [after_append, Link.after, Queue.setLink, get_of_element hr]
    · refine seg_append.mpr ⟨some r, ?_, rfl, stop', element_set_self q r _, rfl⟩
      refine hinit.congr fun p hp => element_set_of_ne ?_ _
      rintro rfl
      exact hout hp
    · intro p hp
      refine element_set_of_ne ?_ _
      rintro rfl
      simp at hp

/-- A store in the first element lets another field point to them. -/
theorem Seg.setPrev (h : q.Seg l cur nodes stop) (hnodup : (nodes.map Prod.fst).Nodup)
    (hstop : stop = none) (l' : Link) :
    ∃ q', q.setPrev cur l' = .ok q' ∧ q'.lhFirst = q.lhFirst ∧ q'.Seg l' cur nodes stop ∧
      (∀ p ∉ nodes.map Prod.fst, q'.element p = q.element p) ∧ q.SameBlocks q' := by
  subst hstop
  cases nodes with
  | nil =>
    obtain rfl : cur = none := h
    exact ⟨q, rfl, rfl, rfl, fun _ _ => rfl, fun _ => rfl⟩
  | cons node nodes =>
    obtain ⟨p, a⟩ := node
    obtain ⟨rfl, next, hp, hrest⟩ := h
    simp only [List.map_cons, List.nodup_cons] at hnodup
    refine ⟨q.set p ⟨a, next, l'⟩, ?_, rfl, ⟨rfl, next, element_set_self q p _, ?_⟩, ?_,
      sameBlocks_set hp⟩
    · simp [Queue.setPrev, get_of_element hp]
    · refine hrest.congr fun r hr => element_set_of_ne ?_ _
      rintro rfl
      exact hnodup.1 hr
    · intro r hr
      refine element_set_of_ne ?_ _
      rintro rfl
      simp at hr

/-! ### The list -/

/-- The list that the pointers make, and the elements that are allocated beside it. -/
structure Holds (q : Queue α) (nodes : List (ℕ × α)) (loose : List ℕ) : Prop where
  seg : q.Seg .first q.lhFirst nodes none
  nodup : (nodes.map Prod.fst ++ loose).Nodup
  allocated : ∀ p, (q.element p).isSome = true ↔ p ∈ nodes.map Prod.fst ++ loose

/-- No list, and nothing allocated. -/
def empty : Queue α := ⟨none, fun _ => none⟩

theorem holds_empty : (empty : Queue α).Holds [] [] :=
  ⟨rfl, List.nodup_nil, by simp [empty]⟩

theorem Holds.of_perm {loose' : List ℕ} (h : q.Holds nodes loose) {nodes' : List (ℕ × α)}
    (hseg : q'.Seg .first q'.lhFirst nodes' none) (hblocks : q.SameBlocks q')
    (hperm : (nodes.map Prod.fst ++ loose).Perm (nodes'.map Prod.fst ++ loose')) :
    q'.Holds nodes' loose' :=
  ⟨hseg, hperm.nodup_iff.mp h.nodup, fun p => by rw [hblocks p, h.allocated, hperm.mem_iff]⟩

/-- An element that is allocated is beside the list at first. -/
theorem Holds.malloc (h : q.Holds nodes loose) (hp : q.element p = none) (e : Element α) :
    (q.malloc p e).Holds nodes (p :: loose) := by
  have hout : p ∉ nodes.map Prod.fst ++ loose := by
    rw [← h.allocated, hp]
    simp
  refine ⟨?_, ?_, ?_⟩
  · refine h.seg.congr fun r hr => element_set_of_ne ?_ e
    rintro rfl
    exact hout (List.mem_append_left _ hr)
  · rw [List.perm_middle.nodup_iff]
    exact List.nodup_cons.mpr ⟨hout, h.nodup⟩
  · intro r
    rw [List.perm_middle.mem_iff, List.mem_cons, ← h.allocated]
    by_cases hr : r = p
    · simp [hr, Queue.malloc]
    · rw [Queue.malloc, element_set_of_ne hr]
      simp [hr]

/-- **An element beside the list goes to its head.** -/
theorem Holds.insertHead (h : q.Holds nodes (p :: loose)) {e : Element α}
    (he : q.element p = some e) :
    ∃ q', q.listInsertHead p = .ok q' ∧ q'.Holds ((p, e.value) :: nodes) loose := by
  have hnodup := h.nodup
  rw [List.perm_middle.nodup_iff, List.nodup_cons, List.mem_append, not_or] at hnodup
  obtain ⟨⟨hout, -⟩, hrest⟩ := hnodup
  have hnodes := (List.nodup_append.mp hrest).1
  -- its pointer to the next
  set q₁ := q.set p { e with leNext := q.lhFirst } with hq₁
  have hseg₁ : q₁.Seg .first q.lhFirst nodes none := by
    refine h.seg.congr fun r hr => element_set_of_ne ?_ _
    rintro rfl
    exact hout hr
  -- the pointer back to it
  obtain ⟨q₂, hprev, hfirst₂, hseg₂, hother₂, hblocks₂⟩ := hseg₁.setPrev hnodes rfl (.next p)
  have hp₂ : q₂.element p = some { e with leNext := q.lhFirst } := by
    rw [hother₂ p hout, hq₁, element_set_self]
  -- the head, and its pointer back to the head
  refine ⟨({ q₂ with lhFirst := some p } : Queue α).set p ⟨e.value, q.lhFirst, .first⟩, ?_, ?_⟩
  · have hget : ({ q₂ with lhFirst := some p } : Queue α).get p =
        .ok { e with leNext := q.lhFirst } := get_of_element hp₂
    have hset : q.setLink (.next p) q.lhFirst = .ok q₁ := by
      simp [setLink, get_of_element he, ← hq₁]
    have hlast : ({ q₂ with lhFirst := some p } : Queue α).setPrev (some p) .first =
        .ok (({ q₂ with lhFirst := some p } : Queue α).set p ⟨e.value, q.lhFirst, .first⟩) := by
      simp [setPrev, hget]
    rw [listInsertHead, hset, Checked.ok_bind, show q₁.lhFirst = q.lhFirst from rfl, hprev]
    exact hlast
  · refine h.of_perm ⟨rfl, q.lhFirst, element_set_self _ _ _, ?_⟩ ?_ ?_
    · refine hseg₂.congr fun r hr => element_set_of_ne ?_ _
      rintro rfl
      exact hout hr
    · have hsame : q₂.SameBlocks
          (({ q₂ with lhFirst := some p } : Queue α).set p ⟨e.value, q.lhFirst, .first⟩) :=
        sameBlocks_set (q := { q₂ with lhFirst := some p }) hp₂
      exact ((sameBlocks_set he).trans hblocks₂).trans hsame
    · simp

/-- **An element is taken out of the list**, wherever it is, and stays as it is. -/
theorem Holds.remove (h : q.Holds (pre ++ (p, a) :: post) loose) :
    ∃ q', q.listRemove p = .ok q' ∧ q'.Holds (pre ++ post) (p :: loose) ∧
      q'.element p = q.element p := by
  have hnodup := h.nodup
  simp only [List.map_append, List.map_cons, List.append_assoc, List.cons_append] at hnodup
  rw [List.perm_middle.nodup_iff, List.nodup_cons] at hnodup
  obtain ⟨hout, hrest⟩ := hnodup
  rw [List.mem_append, List.mem_append, not_or, not_or] at hout
  rw [← List.append_assoc, List.nodup_append, List.nodup_append] at hrest
  obtain ⟨⟨hpre, hpost, hdisjoint⟩, -, -⟩ := hrest
  have hseg := h.seg
  rw [seg_append] at hseg
  obtain ⟨mid, hseg, rfl, next, hp, htail⟩ := hseg
  -- the pointer back to the element
  obtain ⟨q₁, hprev, hfirst₁, htail₁, hother₁, hblocks₁⟩ :=
    htail.setPrev hpost rfl (Link.first.after pre)
  have hp₁ := (hother₁ p hout.2.1).trans hp
  have hseg₁ : q₁.Seg .first q₁.lhFirst pre (some p) := by
    rw [hfirst₁]
    exact hseg.congr fun r hr => hother₁ r fun hmem => hdisjoint r hr r hmem rfl
  -- the pointer to it
  obtain ⟨q₂, hlink, hseg₂, hother₂, hblocks₂⟩ := hseg₁.setLink hpre next
  refine ⟨q₂, ?_, h.of_perm (seg_append.mpr ⟨next, hseg₂, ?_⟩) (hblocks₁.trans hblocks₂) ?_,
    (hother₂ p hout.1).trans (hother₁ p hout.2.1)⟩
  · simp [listRemove, get_of_element hp, hprev, get_of_element hp₁, hlink]
  · exact htail₁.congr fun r hr => hother₂ r fun hmem => hdisjoint r hmem r hr rfl
  · simp only [List.map_append, List.map_cons, List.append_assoc, List.cons_append]
    have hmoved : (p :: ((pre.map Prod.fst ++ post.map Prod.fst) ++ loose)).Perm
        ((pre.map Prod.fst ++ post.map Prod.fst) ++ p :: loose) := List.perm_middle.symm
    rw [List.append_assoc, List.append_assoc] at hmoved
    exact List.perm_middle.trans hmoved

/-- An element beside the list is given back. -/
theorem Holds.free (h : q.Holds nodes (p :: loose)) :
    ∃ q', q.free p = .ok q' ∧ q'.Holds nodes loose := by
  have hnodup := h.nodup
  rw [List.perm_middle.nodup_iff, List.nodup_cons] at hnodup
  obtain ⟨e, he⟩ := Option.isSome_iff_exists.mp ((h.allocated p).mpr (by simp))
  have hother : ∀ r, r ≠ p → Function.update q.element p none r = q.element r :=
    fun r hr => Function.update_of_ne hr _ _
  refine ⟨{ q with element := Function.update q.element p none }, ?_, ?_, hnodup.2, ?_⟩
  · simp [Queue.free, get_of_element he]
  · refine h.seg.congr fun r hr => hother r ?_
    rintro rfl
    exact hnodup.1 (List.mem_append_left _ hr)
  · intro r
    by_cases hr : r = p
    · subst hr
      simp only [Function.update_self, Option.isSome_none, Bool.false_eq_true, false_iff]
      exact hnodup.1
    · simp only [hother r hr]
      rw [h.allocated, List.perm_middle.mem_iff, List.mem_cons, or_iff_right hr]

/-! ### Walks -/

/-- **Each element leads to the next.** -/
theorem Holds.element_eq (h : q.Holds (pre ++ (p, a) :: post) loose) :
    ∃ l, q.element p = some ⟨a, (post.head?).map Prod.fst, l⟩ := by
  obtain ⟨mid, -, rfl, next, hp, hpost⟩ := seg_append.mp h.seg
  refine ⟨Link.first.after pre, ?_⟩
  cases post with
  | nil => simp [hp, show next = none from hpost]
  | cons node post => simp [hp, show next = some node.1 from hpost.1]

/-- The head leads to the first. -/
theorem Holds.lhFirst_eq (h : q.Holds nodes loose) :
    q.lhFirst = (nodes.head?).map Prod.fst := by
  cases nodes with
  | nil => exact h.seg
  | cons node nodes => exact h.seg.1

end Queue

end Machine
