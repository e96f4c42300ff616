import RemoteProcedure.Documentation

/-!
# Where the documentation fits its size

The first pass counts nothing for a missing description, in whose place the
second pass writes a text of its own, and it counts in an `int`, which wraps.

## Main definitions

* `DocumentationFits` — no store leaves the block, and the NUL is its last byte.
* `SizeRefused` — the size is one for which no block is asked, or none can be
  allocated.

## Main results

* `documentationFits_iff` — **the documentation fits its size exactly if every
  function has a description and the size does not wrap**, or wraps to a refused one.
-/

namespace RemoteProcedure

open Machine

variable {F : Type}

/-- Whatever the allocation does, no store leaves the block; and when 0 is returned
the text ends with its NUL at the offset that is also the size handed out. -/
def DocumentationFits (memory : Memory F) : Prop :=
  ∀ (granted : Bool) (docString : Option (Block Byte)) (size : Option CInt), ∃ g,
    generateDocumentation granted docString size memory = .ok g ∧
      (g.status = 0 → g.size = size.map (fun _ => documentationSize memory) ∧
        ∃ blk text, g.docString = some blk ∧ blk.contents = some (text ++ [0]) ∧ 0 ∉ text ∧
          (text.length : ℤ) = (documentationSize memory).toInt)

/-- The size wraps to zero, or to a negative one below -1. -/
def SizeRefused (length : ℕ) : Prop :=
  length % 2 ^ 32 = 0 ∨ 2 ^ 31 ≤ length % 2 ^ 32 ∧ length % 2 ^ 32 + 1 < 2 ^ 32

/-! ### No NUL before the end -/

theorem zero_notMem_descriptionText (f : FunctionMapper F) : (0 : Byte) ∉ descriptionText f := by
  unfold descriptionText
  split_ifs
  · cases f.description with
    | none => exact List.not_mem_nil
    | some d => exact d.nulFree
  · decide

theorem zero_notMem_paramFields (ts : List Byte) : ∀ l ∈ paramFields ts, (0 : Byte) ∉ l := by
  induction ts with
  | nil => exact fun l hl => absurd hl List.not_mem_nil
  | cons t ts ih =>
    rw [paramFields, List.forall_mem_cons, List.forall_mem_cons]
    refine ⟨zero_notMem_getType t, ?_, ih⟩
    split_ifs <;> decide

/-- The text of a function has no NUL, if its number has none. -/
theorem zero_notMem_functionText {number : List Byte} (h : 0 ∉ number) (f : FunctionMapper F) :
    0 ∉ functionText number f := by
  have hbefore : ∀ l ∈ fieldsBefore f, (0 : Byte) ∉ l := by
    simp only [fieldsBefore, List.forall_mem_cons]
    refine ⟨by decide, f.name.nulFree, by decide, by decide, zero_notMem_descriptionText f,
      by decide, by decide, zero_notMem_getType _, by decide, by decide, ?_⟩
    exact fun l hl => absurd hl List.not_mem_nil
  have hafter : ∀ l ∈ fieldsAfter f, (0 : Byte) ∉ l := by
    unfold fieldsAfter
    split_ifs
    · rw [List.cons_append, List.forall_mem_cons, List.forall_mem_append]
      refine ⟨by decide, zero_notMem_paramFields _, ?_⟩
      rw [List.forall_mem_singleton]
      decide
    · exact fun l hl => absurd hl List.not_mem_nil
  rw [functionText, List.mem_append, List.mem_append, List.mem_append, List.mem_flatten,
    List.mem_flatten]
  rintro ((⟨l, hl, hzero⟩ | hnumber | hline) | ⟨l, hl, hzero⟩)
  · exact hbefore l hl hzero
  · exact h hnumber
  · exact absurd hline (by decide)
  · exact hafter l hl hzero

/-- What is left of a number is part of it. -/
theorem zero_notMem_argcText {argc : CInt} (h : 0 ≤ argc.toInt) : 0 ∉ argcText argc := by
  rw [argcText, List.take_append_of_le_length (intSize_le_length_sprintfInt h)]
  exact fun hmem => zero_notMem_sprintfInt h (List.mem_of_mem_take hmem)

/-- **The text has no NUL of its own.** -/
theorem zero_notMem_putText {fmap : List (FunctionMapper F)}
    (h : ∀ f ∈ fmap, 0 ≤ f.function.argc.toInt) : 0 ∉ putText (documentationPuts fmap) := by
  rw [putText_documentationPuts, List.mem_append, List.mem_flatMap]
  rintro (⟨f, hf, hzero⟩ | hline)
  · exact zero_notMem_functionText (zero_notMem_argcText (h f hf)) f hzero
  · exact absurd hline (by decide)

/-! ### The size -/

/-- The text is as long as the size says exactly if it is described and the size
does not wrap. -/
theorem length_putText_le_iff {memory : Memory F}
    (h : ∀ f ∈ memory.fmap, 0 ≤ f.function.argc.toInt) :
    ((putText (documentationPuts memory.fmap)).length : ℤ) < (documentationSize memory).toInt + 1 ↔
      (∀ f ∈ memory.fmap, 0 < f.descriptionLength) ∧ documentationLength memory.fmap < 2 ^ 31 := by
  obtain ⟨hle, hiff⟩ := length_putText_documentationPuts h
  have hsize := toInt_ofNat_le (documentationLength memory.fmap)
  have hbound := toInt_lt_two_pow (BitVec.ofNat 32 (documentationLength memory.fmap))
  rw [documentationSize_eq, ← hiff]
  constructor
  · intro hlt
    omega
  · rintro ⟨hlen, hshort⟩
    rw [toInt_ofNat_of_lt hshort]
    omega

/-- These are the sizes for which nothing is written. -/
theorem sizeRefused_iff (memory : Memory F) :
    (documentationSize memory = 0 ∨
        malloc (α := Byte) true ((documentationSize memory).toInt + 1) = none) ↔
      SizeRefused (documentationLength memory.fmap) := by
  have hzero : documentationSize memory = 0 ↔ documentationLength memory.fmap % 2 ^ 32 = 0 := by
    rw [documentationSize_eq, ← BitVec.toNat_inj, BitVec.toNat_ofNat]
    rfl
  rw [hzero, malloc_eq_none_iff, SizeRefused, documentationSize_eq, BitVec.toInt_eq_toNat_cond,
    BitVec.toNat_ofNat]
  split <;> omega

/-- A described registry whose size does not wrap is written as a whole. -/
theorem generateDocumentation_of_described {memory : Memory F}
    (hargc : ∀ f ∈ memory.fmap, 0 ≤ f.function.argc.toInt)
    (hdesc : ∀ f ∈ memory.fmap, 0 < f.descriptionLength)
    (hshort : documentationLength memory.fmap < 2 ^ 31) (docString : Option (Block Byte))
    (size : Option CInt) :
    ((putText (documentationPuts memory.fmap)).length : ℤ) = (documentationSize memory).toInt ∧
      ∃ blk : Block Byte, generateDocumentation true docString size memory =
          .ok ⟨0, size.map fun _ => documentationSize memory, some blk⟩ ∧
        blk.contents = some (putText (documentationPuts memory.fmap) ++ [0]) := by
  have htext := (length_putText_documentationPuts hargc).2.mpr hdesc
  have hsize : (documentationSize memory).toInt = documentationLength memory.fmap := by
    rw [documentationSize_eq, toInt_ofNat_of_lt hshort]
  have hzero : documentationSize memory ≠ 0 := by
    intro hzero
    rw [hzero, documentationLength] at hsize
    exact absurd hsize (Int.ne_of_lt (Int.natCast_pos.mpr (Nat.succ_pos _)))
  obtain ⟨blk, hblk, hlen, hshows⟩ := generateDocumentation_of_lt hargc hzero
    ((length_putText_le_iff hargc).mpr ⟨hdesc, hshort⟩) docString size
  refine ⟨by omega, blk, hblk, hshows.contents ?_⟩
  rw [List.length_append, List.length_singleton]
  omega

/-- Without a block 1 is returned. -/
theorem generateDocumentation_of_none {memory : Memory F} {granted : Bool}
    (h : documentationSize memory = 0 ∨
      malloc (α := Byte) granted ((documentationSize memory).toInt + 1) = none)
    (docString : Option (Block Byte)) (size : Option CInt) :
    ∃ g, generateDocumentation granted docString size memory = .ok g ∧ g.status = 1 := by
  simp only [generateDocumentation]
  split_ifs with hzero
  · exact ⟨_, rfl, rfl⟩
  · rw [h.resolve_left hzero]
    exact ⟨_, rfl, rfl⟩

/-- **The documentation of a registry fits its size** exactly if every function has
a description that is not empty and the size stays in the range of `int`, or if it
wraps to one for which nothing is written. -/
theorem documentationFits_iff {memory : Memory F}
    (hargc : ∀ f ∈ memory.fmap, 0 ≤ f.function.argc.toInt) :
    DocumentationFits memory ↔
      ((∀ f ∈ memory.fmap, 0 < f.descriptionLength) ∧ documentationLength memory.fmap < 2 ^ 31) ∨
        SizeRefused (documentationLength memory.fmap) := by
  constructor
  · intro h
    obtain ⟨g, hg, -⟩ := h true none none
    rcases generateDocumentation_cases hargc hg with ⟨-, hrefused⟩ | ⟨-, hroom⟩
    · exact .inr ((sizeRefused_iff memory).mp hrefused)
    · exact .inl ((length_putText_le_iff hargc).mp hroom)
  · intro h granted docString size
    have hnone : ∀ g : Generated, g.status = 1 → g.status ≠ 0 := by
      intro g hstatus
      rw [hstatus]
      decide
    cases granted with
    | false =>
      have hmalloc : malloc (α := Byte) false ((documentationSize memory).toInt + 1) = none := rfl
      obtain ⟨g, hg, hstatus⟩ := generateDocumentation_of_none (.inr hmalloc) docString size
      exact ⟨g, hg, fun hzero => absurd hzero (hnone g hstatus)⟩
    | true =>
      rcases h with ⟨hdesc, hshort⟩ | hrefused
      · obtain ⟨hlen, blk, hblk, hcontents⟩ :=
          generateDocumentation_of_described hargc hdesc hshort docString size
        exact ⟨_, hblk, fun _ => ⟨rfl, blk, _, rfl, hcontents, zero_notMem_putText hargc, hlen⟩⟩
      · obtain ⟨g, hg, hstatus⟩ :=
          generateDocumentation_of_none ((sizeRefused_iff memory).mpr hrefused) docString size
        exact ⟨g, hg, fun hzero => absurd hzero (hnone g hstatus)⟩

/-- A registry with one function, `"f"` with no parameters and the description
`"d"`. -/
theorem documentationFits_iff_described :
    ∃ f memory, createFunction (some ()) (CString.ofBytes [0x66]) rpcTyVoid
      (some (CString.ofBytes [0x64])) () 0 [] = .ok (.ok f) ∧
      addFunction true (some Memory.zero) f = (0, some memory) ∧
      (∀ f ∈ memory.fmap, 0 ≤ f.function.argc.toInt) ∧
      (DocumentationFits memory ↔
        ((∀ f ∈ memory.fmap, 0 < f.descriptionLength) ∧
          documentationLength memory.fmap < 2 ^ 31) ∨
        SizeRefused (documentationLength memory.fmap)) :=
  ⟨_, _, rfl, rfl, by decide, documentationFits_iff (by decide)⟩

/-- A registry with one function that has no description: the twenty bytes written
in its place are not counted. -/
theorem not_documentationFits_undescribed :
    ∃ f memory, createFunction (some ()) (CString.ofBytes [0x66]) rpcTyVoid none () 0 [] =
        .ok (.ok f) ∧
      addFunction true (some Memory.zero) f = (0, some memory) ∧ ¬ DocumentationFits memory := by
  refine ⟨_, _, rfl, rfl, ?_⟩
  intro h
  obtain ⟨g, hg, -⟩ := h true none none
  rcases generateDocumentation_cases (by decide) hg with ⟨-, hnone⟩ | ⟨-, hroom⟩
  · exact absurd hnone (by decide +kernel)
  · exact absurd ((length_putText_le_iff (by decide)).mp hroom).1 (by decide)

end RemoteProcedure
