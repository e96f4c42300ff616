import Mathlib.Data.List.Basic
import RemoteProcedure.DocumentationSafety

/-!
# Where the documentation renders the registry

A line is written for each field of a function.  The number of parameters is
written by `sprintf`, and the cursor is then moved on by `int_size`, which counts
no digit for zero.

## Main definitions

* `renderRegistry` — what the documentation is meant to say.
* `DocumentationRenders` — the string that is returned is the rendering.

## Main results

* `length_renderRegistry` — the rendering is one byte longer than counted for each
  function without parameters.
* `documentationRenders_iff` — **the documentation renders the registry exactly if
  every function has a parameter**, within the range of `int`.
-/

namespace RemoteProcedure

open Machine

variable {F : Type}

/-- A line with a header. -/
def renderLine (header text : List Byte) : List Byte := header ++ text ++ [charNewline]

/-- The block for a function, with a blank line behind the types of its parameters. -/
def renderFunction (f : FunctionMapper F) : List Byte :=
  renderLine hdNameString f.name.bytes ++
  renderLine hdDocString (f.description.elim [] CString.bytes) ++
  renderLine hdRetTypeString (getType f.function.returnType) ++
  renderLine hdNbParamString (sprintfInt f.function.argc) ++
  if 0 < f.function.argc.toInt then
    renderLine hdParamTypes ([charComma].intercalate (f.function.argv.map getType)) ++
      [charNewline]
  else []

/-- One block for each function, and a new line. -/
def renderRegistry (fmap : List (FunctionMapper F)) : List Byte :=
  fmap.flatMap renderFunction ++ [charNewline]

/-- With memory to be had, the string that `get_documentation` returns is the
rendering, and its NUL is the last byte of the block. -/
def DocumentationRenders (memory : Memory F) : Prop :=
  ∀ (docString : Option (Block Byte)) (size : Option CInt), ∃ g blk,
    generateDocumentation true docString size memory = .ok g ∧ g.status = 0 ∧
      getDocumentation g.docString = some blk ∧
        blk.contents = some (renderRegistry memory.fmap ++ [0])

/-! ### The rendering as a text with its numbers -/

/-- Commas between the types, and a new line behind the last. -/
theorem flatten_paramFields {ts : List Byte} : ts ≠ [] →
    (paramFields ts).flatten = [charComma].intercalate (ts.map getType) ++ [charNewline] := by
  induction ts with
  | nil =>
    intro h
    exact absurd rfl h
  | cons t ts ih =>
    intro _
    rw [paramFields, List.flatten_cons, List.flatten_cons, List.map_cons]
    by_cases hlast : ts = []
    · subst hlast
      rw [if_pos rfl, List.map_nil, List.intercalate_singleton, paramFields, List.flatten_nil,
        List.append_nil]
    · have hmap : ts.map getType ≠ [] := fun hnil => hlast (List.map_eq_nil_iff.mp hnil)
      rw [if_neg hlast, ih hlast, List.intercalate_cons_of_ne_nil hmap]
      simp

/-- The block for a described function is its text with the whole number. -/
theorem renderFunction_eq {f : FunctionMapper F} (h : 0 < f.descriptionLength) :
    renderFunction f = functionText (sprintfInt f.function.argc) f := by
  have hafter : (fieldsAfter f).flatten = if 0 < f.function.argc.toInt then
      renderLine hdParamTypes ([charComma].intercalate (f.function.argv.map getType)) ++
        [charNewline] else [] := by
    unfold fieldsAfter
    split_ifs with hpos
    · have hne : f.function.argv ≠ [] := by
        intro hnil
        have hlen := f.function.argv_length
        rw [hnil, List.length_nil] at hlen
        omega
      rw [List.flatten_append, List.flatten_cons, flatten_paramFields hne, renderLine]
      simp
    · rfl
  rw [renderFunction, ← hafter, functionText]
  simp [fieldsBefore, renderLine, descriptionText, h]

/-- The rendering is at least as long as the first pass counts, and exactly as long
when every function has a parameter. -/
theorem length_renderRegistry {fmap : List (FunctionMapper F)}
    (hargc : ∀ f ∈ fmap, 0 ≤ f.function.argc.toInt)
    (hdesc : ∀ f ∈ fmap, 0 < f.descriptionLength) :
    documentationLength fmap ≤ (renderRegistry fmap).length ∧
      ((renderRegistry fmap).length = documentationLength fmap ↔
        ∀ f ∈ fmap, 0 < f.function.argc.toInt) := by
  rw [renderRegistry, List.length_append, List.length_singleton, documentationLength]
  induction fmap with
  | nil => simp
  | cons f fmap ih =>
    obtain ⟨hf, hfmap⟩ := List.forall_mem_cons.mp hargc
    obtain ⟨hfdesc, hdesc⟩ := List.forall_mem_cons.mp hdesc
    obtain ⟨hle, heq⟩ := ih hfmap hdesc
    have hlen := length_functionText (sprintfInt f.function.argc) f
    rw [if_neg (by omega), ← renderFunction_eq hfdesc] at hlen
    rw [List.forall_mem_cons, ← heq, List.flatMap_cons, List.length_append, List.map_cons,
      List.sum_cons]
    rcases Int.lt_or_eq_of_le hf with hpos | hzero
    · have hdigits := length_sprintfInt f.function.argc hpos
      omega
    · have hi : f.function.argc = 0 := BitVec.eq_of_toInt_eq hzero.symm
      have hone : (sprintfInt 0).length = 1 := by decide
      rw [hi, intSize_zero, hone] at hlen
      omega

/-- **Where every function has a parameter the second pass writes the rendering.** -/
theorem putText_eq_renderRegistry {fmap : List (FunctionMapper F)}
    (hdesc : ∀ f ∈ fmap, 0 < f.descriptionLength) (hpos : ∀ f ∈ fmap, 0 < f.function.argc.toInt) :
    putText (documentationPuts fmap) = renderRegistry fmap := by
  rw [putText_documentationPuts, renderRegistry]
  congr 1
  apply List.flatMap_congr
  intro f hf
  have hnumber : argcText f.function.argc = sprintfInt f.function.argc := by
    rw [argcText, List.take_left' (length_sprintfInt _ (hpos f hf))]
  rw [renderFunction_eq (hdesc f hf), hnumber]

/-! ### The string that is returned -/

/-- The string is what the second pass writes, within the range of `int`. -/
theorem documentationRenders_iff_putText {memory : Memory F}
    (hargc : ∀ f ∈ memory.fmap, 0 ≤ f.function.argc.toInt)
    (hdesc : ∀ f ∈ memory.fmap, 0 < f.descriptionLength) :
    DocumentationRenders memory ↔ documentationLength memory.fmap < 2 ^ 31 ∧
      putText (documentationPuts memory.fmap) = renderRegistry memory.fmap := by
  constructor
  · intro h
    obtain ⟨g, blk, hg, hstatus, hdoc, hcontents⟩ := h none none
    rcases generateDocumentation_cases hargc hg with ⟨hone, -⟩ | ⟨-, hroom⟩
    · rw [hstatus] at hone
      exact absurd hone (by decide)
    · obtain ⟨-, hshort⟩ := (length_putText_le_iff hargc).mp hroom
      obtain ⟨-, blk', hg', hcontents'⟩ :=
        generateDocumentation_of_described hargc hdesc hshort none none
      rw [hg'] at hg
      cases hg
      cases hdoc
      rw [hcontents'] at hcontents
      exact ⟨hshort, List.append_cancel_right (Option.some.inj hcontents)⟩
  · rintro ⟨hshort, hrender⟩ docString size
    obtain ⟨-, blk, hblk, hcontents⟩ :=
      generateDocumentation_of_described hargc hdesc hshort docString size
    rw [hrender] at hcontents
    exact ⟨_, blk, hblk, rfl, rfl, hcontents⟩

/-- **The documentation renders a described registry** exactly if every function has
a parameter and the rendering is shorter than 2^31 bytes. -/
theorem documentationRenders_iff {memory : Memory F}
    (hargc : ∀ f ∈ memory.fmap, 0 ≤ f.function.argc.toInt)
    (hdesc : ∀ f ∈ memory.fmap, 0 < f.descriptionLength) :
    DocumentationRenders memory ↔ (∀ f ∈ memory.fmap, 0 < f.function.argc.toInt) ∧
      (renderRegistry memory.fmap).length < 2 ^ 31 := by
  have hlen := (length_putText_documentationPuts hargc).2.mpr hdesc
  obtain ⟨-, hiff⟩ := length_renderRegistry hargc hdesc
  rw [documentationRenders_iff_putText hargc hdesc]
  constructor
  · rintro ⟨hshort, hrender⟩
    rw [hrender] at hlen
    exact ⟨hiff.mp hlen, by omega⟩
  · rintro ⟨hpos, hshort⟩
    have := hiff.mpr hpos
    exact ⟨by omega, putText_eq_renderRegistry hdesc hpos⟩

/-- A registry with one function, `"f"` with an `int` and the description `"d"`. -/
theorem documentationRenders_iff_int :
    ∃ f memory, createFunction (some ()) (CString.ofBytes [0x66]) rpcTyVoid
      (some (CString.ofBytes [0x64])) () 1 [1] = .ok (.ok f) ∧
      addFunction true (some Memory.zero) f = (0, some memory) ∧
      (DocumentationRenders memory ↔ (∀ f ∈ memory.fmap, 0 < f.function.argc.toInt) ∧
        (renderRegistry memory.fmap).length < 2 ^ 31) :=
  ⟨_, _, rfl, rfl, documentationRenders_iff (by decide) (by decide)⟩

/-- A registry with one function without parameters: its line says no number. -/
theorem not_documentationRenders_noParams :
    ∃ f memory, createFunction (some ()) (CString.ofBytes [0x66]) rpcTyVoid
      (some (CString.ofBytes [0x64])) () 0 [] = .ok (.ok f) ∧
      addFunction true (some Memory.zero) f = (0, some memory) ∧
      ¬ DocumentationRenders memory := by
  refine ⟨_, _, rfl, rfl, ?_⟩
  intro h
  obtain ⟨-, hrender⟩ := (documentationRenders_iff_putText (by decide) (by decide)).mp h
  exact absurd hrender (by decide +kernel)

end RemoteProcedure
