import Mathlib.Data.List.Basic
import RemoteProcedure.Machine.Cursor
import RemoteProcedure.Mapper

/-!
# What `create_function` stores

The fields of a `struct function_mapper` are arrays of a fixed size, one behind the
other.  `create_function` tests the length of the name and the return type before it
stores anything, and nothing else: neither the length of the description, nor the
number of parameters, nor their types.

## Main definitions

* `MapperMemory` — the structure as memory.
* `createFunctionIn` — `create_function`, store by store.
* `MapperMemory.Holds` — the memory holds a mapper.
* `StoresCompletely` — a complete descriptor is stored, or nothing.

## Main results

* `createFunctionIn_refines` — store by store, it makes the mapper of
  `createFunction`.
* `storesCompletely_iff` — **a call stores a complete descriptor or nothing exactly
  if it is refused, or its description, its parameters and their types are in
  bounds**.
-/

namespace RemoteProcedure

open Machine

/-! ### Arrays in a structure -/

/-- An array of `n` cells. -/
abbrev Field (n : ℕ) := { blk : Block Byte // blk.length = n }

/-- Store a run of bytes in an array. -/
def Field.store {n : ℕ} (field : Field n) (off : ℕ) (l : List Byte) : Checked (Field n) :=
  match h : field.1.store off l with
  | .ok blk => .ok ⟨blk, (Block.length_store h).1.trans field.2⟩
  | .error e => .error e

theorem Field.store_eq_ok_iff {n : ℕ} {field field' : Field n} {off : ℕ} {l : List Byte} :
    field.store off l = .ok field' ↔ field.1.store off l = .ok field'.1 := by
  unfold Field.store
  split
  · next blk h =>
    constructor
    · rintro ⟨⟩
      exact h
    · intro h'
      exact congrArg Except.ok (Subtype.ext (Except.ok.inj (h.symm.trans h')))
  · next e h =>
    refine iff_of_false (fun h' => absurd h'.symm (Checked.ok_ne_error _ _)) ?_
    intro h'
    exact Checked.ok_ne_error _ _ (h'.symm.trans h)

/-- **A run behind what the array shows is stored, if there is room.** -/
theorem Field.store_of_shows {n : ℕ} {field : Field n} {l : List Byte} (h : field.1.Shows l)
    (l' : List Byte) (hroom : l.length + l'.length ≤ n) :
    ∃ field' : Field n, field.store l.length l' = .ok field' ∧ field'.1.Shows (l ++ l') := by
  obtain ⟨blk, hstore, hlen, hshows⟩ := h.store l' (by rw [field.2]; exact hroom)
  exact ⟨⟨blk, hlen.trans field.2⟩, Field.store_eq_ok_iff.mpr hstore, hshows⟩

/-- A run that is stored fits. -/
theorem Field.le_of_store {n : ℕ} {field field' : Field n} {off : ℕ} {l : List Byte}
    (hne : l ≠ []) (h : field.store off l = .ok field') : off + l.length ≤ n := by
  have hfit := (Block.length_store (Field.store_eq_ok_iff.mp h)).2 hne
  rwa [field.2] at hfit

/-! ### `create_function`, store by store -/

variable {F : Type}

/-- A `struct function_mapper` in memory. -/
structure MapperMemory (F : Type) where
  nameLength : ℕ
  name : Field (functionNameLength + 1)
  descriptionLength : ℕ
  description : Field (maxDescriptionLength + 1)
  returnType : Byte
  argc : CInt
  argv : Field maxParameters
  funPtr : F

/-- The loop over the `n` parameter types from `cpt` on. -/
def storeParams : (n cpt : ℕ) → List CInt → Field maxParameters → Checked (Field maxParameters)
  | 0, _, _, argv => .ok argv
  -- `va_arg` beyond the last argument
  | _ + 1, _, [], _ => .error .outOfRange
  | n + 1, cpt, p :: ps, argv => do
    let argv ← argv.store cpt [intToChar p]
    storeParams n (cpt + 1) ps argv

/-- The description, with its length. -/
def storeDescription (mapper : MapperMemory F) : Option CString → Checked (MapperMemory F)
  | none => .ok { mapper with descriptionLength := 0 }
  | some d => do
    let description ← mapper.description.store 0 (d.bytes ++ [0])
    return { mapper with descriptionLength := d.length, description }

/-- `create_function`: what it returns, and the mapper then. -/
def createFunctionIn (mapper : Option (MapperMemory F)) (name : CString) (returnType : Byte)
    (description : Option CString) (funPtr : F) (argc : CInt) (ap : List CInt) :
    Checked (CInt × Option (MapperMemory F)) :=
  match mapper with
  | none => .ok (-1, none)
  | some mapper =>
    if functionNameLength < name.length then .ok (-2, some mapper)
    else if typeExists returnType = false then .ok (-3, some mapper)
    else do
      let cells ← mapper.name.store 0 (name.bytes ++ [0])
      let mapper := { mapper with nameLength := name.length, name := cells, returnType, argc }
      let mapper ← storeDescription mapper description
      let argv ← storeParams argc.toInt.toNat 0 ap mapper.argv
      return (0, some { mapper with argv, funPtr })

/-- The memory holds a mapper: its strings with their NUL, and the rest of its
fields. -/
structure MapperMemory.Holds (mapper : MapperMemory F) (f : FunctionMapper F) : Prop where
  nameLength : mapper.nameLength = f.nameLength
  name : mapper.name.1.Shows (f.name.bytes ++ [0])
  descriptionLength : mapper.descriptionLength = f.descriptionLength
  description : ∀ d ∈ f.description, mapper.description.1.Shows (d.bytes ++ [0])
  returnType : mapper.returnType = f.function.returnType
  argc : mapper.argc = f.function.argc
  argv : mapper.argv.1.Shows f.function.argv
  funPtr : mapper.funPtr = f.function.funPtr

/-! ### The stores -/

/-- **The parameters are stored one behind the other**, if there is room for them. -/
theorem storeParams_of_le (ap : List CInt) : ∀ {l : List Byte} {argv : Field maxParameters},
    argv.1.Shows l → l.length + ap.length ≤ maxParameters →
      ∃ argv', storeParams ap.length l.length ap argv = .ok argv' ∧
        argv'.1.Shows (l ++ ap.map intToChar) := by
  induction ap with
  | nil =>
    intro l argv h _
    exact ⟨argv, rfl, by rwa [List.map_nil, List.append_nil]⟩
  | cons p ps ih =>
    intro l argv h hroom
    rw [List.length_cons] at hroom
    obtain ⟨argv₁, h₁, hshows₁⟩ := Field.store_of_shows h [intToChar p]
      (by rw [List.length_singleton]; omega)
    have hlen : (l ++ [intToChar p]).length = l.length + 1 := by
      rw [List.length_append, List.length_singleton]
    obtain ⟨argv₂, h₂, hshows₂⟩ := ih hshows₁ (by omega)
    refine ⟨argv₂, ?_, ?_⟩
    · rw [hlen] at h₂
      rw [List.length_cons, storeParams, h₁, Checked.ok_bind, h₂]
    · rwa [List.append_assoc] at hshows₂

/-- Parameters that are stored fit. -/
theorem le_of_storeParams (ap : List CInt) : ∀ {cpt : ℕ} {argv argv' : Field maxParameters},
    storeParams ap.length cpt ap argv = .ok argv' → ap ≠ [] →
      cpt + ap.length ≤ maxParameters := by
  induction ap with
  | nil => exact fun _ hne => absurd rfl hne
  | cons p ps ih =>
    intro cpt argv argv' h _
    rw [List.length_cons, storeParams, Checked.bind_eq_ok] at h
    obtain ⟨argv₁, h₁, hrest⟩ := h
    have hfirst := Field.le_of_store (List.cons_ne_nil _ _) h₁
    rw [List.length_singleton] at hfirst
    rw [List.length_cons]
    by_cases hps : ps = []
    · subst hps
      exact hfirst
    · have := ih hrest hps
      omega

/-- A string is stored with its NUL, if there is room for both. -/
theorem exists_store_string {n : ℕ} (field : Field n) {s : CString} (h : s.length + 1 ≤ n) :
    ∃ field' : Field n, field.store 0 (s.bytes ++ [0]) = .ok field' ∧
      field'.1.Shows (s.bytes ++ [0]) := by
  apply Field.store_of_shows (Block.shows_nil field.1)
  rw [List.length_nil, List.length_append, List.length_singleton, Nat.zero_add]
  exact h

/-- A string that is stored has room. -/
theorem length_le_of_store {n : ℕ} {field field' : Field n} {s : CString}
    (h : field.store 0 (s.bytes ++ [0]) = .ok field') : s.length + 1 ≤ n := by
  have hfit := Field.le_of_store (List.append_ne_nil_of_right_ne_nil _ (List.cons_ne_nil _ _)) h
  rwa [List.length_append, List.length_singleton, Nat.zero_add] at hfit

section

variable {mapper : MapperMemory F} {name : CString} {returnType : Byte}
  {description : Option CString} {funPtr : F} {argc : CInt} {ap : List CInt}

theorem exists_storeDescription (mapper : MapperMemory F)
    (h : ∀ d ∈ description, d.length ≤ maxDescriptionLength) :
    ∃ cells : Field (maxDescriptionLength + 1),
      storeDescription mapper description = .ok { mapper with
        descriptionLength := description.elim 0 CString.length, description := cells } ∧
      ∀ d ∈ description, cells.1.Shows (d.bytes ++ [0]) := by
  cases description with
  | none => exact ⟨mapper.description, rfl, fun d hd => absurd hd (Option.not_mem_none d)⟩
  | some d =>
    obtain ⟨cells, hstore, hshows⟩ := exists_store_string mapper.description
      (Nat.succ_le_succ (h d rfl))
    refine ⟨cells, ?_, ?_⟩
    · rw [storeDescription, hstore]
      rfl
    · rintro d' ⟨⟩
      exact hshows

/-- **A call that is in bounds stores all of its descriptor.** -/
theorem createFunctionIn_of_bounds (mapper : MapperMemory F) (funPtr : F)
    (hap : ap.length = argc.toInt.toNat)
    (hname : name.length ≤ functionNameLength) (htype : typeExists returnType = true)
    (hdesc : ∀ d ∈ description, d.length ≤ maxDescriptionLength)
    (hparams : ap.length ≤ maxParameters) :
    ∃ mapper', createFunctionIn (some mapper) name returnType description funPtr argc ap =
        .ok (0, some mapper') ∧
      mapper'.nameLength = name.length ∧ mapper'.name.1.Shows (name.bytes ++ [0]) ∧
      mapper'.descriptionLength = description.elim 0 CString.length ∧
      (∀ d ∈ description, mapper'.description.1.Shows (d.bytes ++ [0])) ∧
      mapper'.returnType = returnType ∧ mapper'.argc = argc ∧
      mapper'.argv.1.Shows (ap.map intToChar) ∧ mapper'.funPtr = funPtr := by
  obtain ⟨cells, hcells, hshows⟩ := exists_store_string mapper.name (Nat.succ_le_succ hname)
  obtain ⟨text, htext, htexts⟩ := exists_storeDescription
    { mapper with nameLength := name.length, name := cells, returnType, argc } hdesc
  obtain ⟨argv, hargv, hargvs⟩ := storeParams_of_le ap (Block.shows_nil mapper.argv.1)
    (by rwa [List.length_nil, Nat.zero_add])
  rw [hap, List.length_nil] at hargv
  refine ⟨⟨name.length, cells, description.elim 0 CString.length, text, returnType, argc, argv,
    funPtr⟩, ?_, rfl, hshows, rfl, htexts, rfl, rfl, hargvs, rfl⟩
  rw [createFunctionIn]
  simp only [if_neg (Nat.not_lt.mpr hname), htype, Bool.true_eq_false, if_false, hcells,
    Checked.ok_bind, htext, hargv, Checked.pure_eq]

/-- **A call that ends and was not refused was in bounds.** -/
theorem bounds_of_createFunctionIn (hap : ap.length = argc.toInt.toNat)
    (hname : name.length ≤ functionNameLength) (htype : typeExists returnType = true)
    {code : CInt} {mapper' : Option (MapperMemory F)}
    (h : createFunctionIn (some mapper) name returnType description funPtr argc ap =
      .ok (code, mapper')) :
    (∀ d ∈ description, d.length ≤ maxDescriptionLength) ∧ ap.length ≤ maxParameters := by
  rw [createFunctionIn] at h
  simp only [if_neg (Nat.not_lt.mpr hname), htype, Bool.true_eq_false, if_false,
    Checked.bind_eq_ok] at h
  obtain ⟨cells, -, mapper₁, hdescription, argv, hargv, -⟩ := h
  constructor
  · rintro d ⟨⟩
    rw [storeDescription, Checked.bind_eq_ok] at hdescription
    obtain ⟨text, htext, -⟩ := hdescription
    exact Nat.le_of_succ_le_succ (length_le_of_store htext)
  · rw [← hap] at hargv
    by_cases hne : ap = []
    · rw [hne]
      exact Nat.zero_le _
    · have := le_of_storeParams ap hargv hne
      omega

/-- A call that is refused stores nothing. -/
theorem createFunctionIn_of_refused (mapper : Option (MapperMemory F))
    (description : Option CString) (funPtr : F) (argc : CInt) (ap : List CInt)
    (h : mapper = none ∨ functionNameLength < name.length ∨ typeExists returnType = false) :
    ∃ code : CInt, code.toInt < 0 ∧
      createFunctionIn mapper name returnType description funPtr argc ap = .ok (code, mapper) ∧
      createFunction (mapper.map fun _ => ()) name returnType description funPtr argc ap =
        .ok (.error code) := by
  cases mapper with
  | none => exact ⟨-1, by decide, rfl, rfl⟩
  | some mapper =>
    rw [createFunctionIn, Option.map_some, createFunction]
    by_cases hname : functionNameLength < name.length
    · exact ⟨-2, by decide, if_pos hname, dif_pos hname⟩
    · have htype : typeExists returnType = false := by
        rcases h with hnull | hlong | htype
        · cases hnull
        · exact absurd hlong hname
        · exact htype
      refine ⟨-3, by decide, ?_, ?_⟩
      · simp only [if_neg hname, if_pos htype]
      · simp only [dif_neg hname, if_pos htype]

/-- **Store by store, `create_function` makes the mapper of the model**, and leaves the
memory as it was when it refuses to. -/
theorem createFunctionIn_refines (mapper : Option (MapperMemory F))
    (hap : ap.length = argc.toInt.toNat) :
    match createFunction (mapper.map fun _ => ()) name returnType description funPtr argc ap with
    | .ok (.ok f) => ∃ mapper', createFunctionIn mapper name returnType description funPtr argc ap =
        .ok (0, some mapper') ∧ mapper'.Holds f
    | .ok (.error code) =>
      createFunctionIn mapper name returnType description funPtr argc ap = .ok (code, mapper)
    | .error _ => ∀ out, createFunctionIn mapper name returnType description funPtr argc ap ≠
        .ok out := by
  by_cases hrefused : mapper = none ∨ functionNameLength < name.length ∨
      typeExists returnType = false
  · obtain ⟨code, -, hin, hcreate⟩ := createFunctionIn_of_refused mapper description funPtr argc ap
      hrefused
    rw [hcreate]
    exact hin
  simp only [not_or] at hrefused
  obtain ⟨hmapper, hname, htype⟩ := hrefused
  obtain ⟨mapper, rfl⟩ := Option.ne_none_iff_exists'.mp hmapper
  rw [Bool.not_eq_false] at htype
  have hread := readParams_of_length hap
  rw [Option.map_some, createFunction]
  simp only [dif_neg hname, htype, Bool.true_eq_false, if_false, hread, Checked.ok_bind]
  by_cases hdesc : ∀ d ∈ description, d.length ≤ maxDescriptionLength
  · rw [dif_pos hdesc]
    by_cases hparams : ap.length ≤ maxParameters
    · rw [dif_pos (by rwa [List.length_map])]
      obtain ⟨mapper', hin, hnl, hn, hdl, hd, hret, hargc, hargv, hptr⟩ :=
        createFunctionIn_of_bounds mapper funPtr hap (Nat.le_of_not_lt hname) htype hdesc
          hparams
      exact ⟨mapper', hin, hnl, hn, hdl, hd, hret, hargc, hargv, hptr⟩
    · rw [dif_neg (by rwa [List.length_map])]
      rintro ⟨code, mapper'⟩ hin
      exact hparams (bounds_of_createFunctionIn hap (Nat.le_of_not_lt hname) htype hin).2
  · rw [dif_neg hdesc]
    rintro ⟨code, mapper'⟩ hin
    exact hdesc (bounds_of_createFunctionIn hap (Nat.le_of_not_lt hname) htype hin).1

end

/-! ### Complete descriptors -/

/-- What is asked of a mapper that a call returned 0 for: the lengths are those of the
strings it shows, and there are `argc` parameters, which fit, of types that exist. -/
structure MapperMemory.Complete (mapper : MapperMemory F) (name : CString)
    (description : Option CString) : Prop where
  nameLength : mapper.nameLength = name.length
  name : mapper.name.1.Shows (name.bytes ++ [0])
  descriptionLength : mapper.descriptionLength = description.elim 0 CString.length
  description : ∀ d ∈ description, mapper.description.1.Shows (d.bytes ++ [0])
  argc_nonneg : 0 ≤ mapper.argc.toInt
  argc_le : mapper.argc.toInt ≤ maxParameters
  argv : ∃ argv : List Byte, mapper.argv.1.Shows argv ∧ argv.length = mapper.argc.toInt.toNat ∧
    ∀ typ ∈ argv, typeExists typ = true

/-- No store leaves its field; a call that returns 0 has stored a complete descriptor,
and one that returns a negative value nothing at all. -/
def StoresCompletely (mapper : Option (MapperMemory F)) (name : CString) (returnType : Byte)
    (description : Option CString) (funPtr : F) (argc : CInt) (ap : List CInt) : Prop :=
  ∃ (code : CInt) (mapper' : Option (MapperMemory F)),
    createFunctionIn mapper name returnType description funPtr argc ap = .ok (code, mapper') ∧
    (code = 0 → ∃ m, mapper' = some m ∧ m.Complete name description) ∧
    (code.toInt < 0 → mapper' = mapper)

/-- A block shows one list of each length. -/
theorem shows_unique {α : Type} {blk : Block α} {l l' : List α} (h : blk.Shows l)
    (h' : blk.Shows l') (hlen : l.length = l'.length) : l = l' := by
  unfold Block.Shows at h h'
  rw [hlen, h'] at h
  exact (List.map_injective_iff.mpr (Option.some_injective α) h).symm

/-- A call that was not refused, and stores a complete descriptor, is in bounds. -/
theorem bounds_of_storesCompletely {mapper : MapperMemory F} {name : CString} {returnType : Byte}
    {description : Option CString} {funPtr : F} {argc : CInt} {ap : List CInt}
    (hap : ap.length = argc.toInt.toNat) (hname : name.length ≤ functionNameLength)
    (htype : typeExists returnType = true)
    (h : StoresCompletely (some mapper) name returnType description funPtr argc ap) :
    (∀ d ∈ description, d.length ≤ maxDescriptionLength) ∧
      (0 ≤ argc.toInt ∧ argc.toInt ≤ maxParameters) ∧
      ∀ p ∈ ap, typeExists (intToChar p) = true := by
  obtain ⟨code, mapper', hin, hcomplete, -⟩ := h
  obtain ⟨hdesc, hparams⟩ := bounds_of_createFunctionIn hap hname htype hin
  obtain ⟨m, hm, -, -, -, -, -, hargc, hargv, -⟩ :=
    createFunctionIn_of_bounds mapper funPtr hap hname htype hdesc hparams
  rw [hm] at hin
  cases hin
  obtain ⟨m', ⟨⟩, hcomplete⟩ := hcomplete rfl
  have hnonneg := hcomplete.argc_nonneg
  have hle := hcomplete.argc_le
  rw [hargc] at hnonneg hle
  refine ⟨hdesc, ⟨hnonneg, hle⟩, ?_⟩
  intro p hp
  -- the types that are shown are those that were given
  obtain ⟨argv, hshows, hlen, htypes⟩ := hcomplete.argv
  have hsame : argv = ap.map intToChar :=
    shows_unique hshows hargv (by rw [hlen, hargc, List.length_map, hap])
  exact htypes _ (hsame ▸ List.mem_map_of_mem hp)

/-- **A call of `create_function` stores a complete descriptor or nothing** exactly if it
is refused, or its description and its parameters fit, their number is not negative,
and the types of all of them exist. -/
theorem storesCompletely_iff (mapper : Option (MapperMemory F)) (name : CString)
    (returnType : Byte) (description : Option CString) (funPtr : F) {argc : CInt} {ap : List CInt}
    (hap : ap.length = argc.toInt.toNat) :
    StoresCompletely mapper name returnType description funPtr argc ap ↔
      (mapper = none ∨ functionNameLength < name.length ∨ typeExists returnType = false) ∨
      (∀ d ∈ description, d.length ≤ maxDescriptionLength) ∧
        (0 ≤ argc.toInt ∧ argc.toInt ≤ maxParameters) ∧
        ∀ p ∈ ap, typeExists (intToChar p) = true := by
  by_cases hrefused : mapper = none ∨ functionNameLength < name.length ∨
      typeExists returnType = false
  · obtain ⟨code, hcode, hin, -⟩ := createFunctionIn_of_refused mapper description funPtr argc ap
      hrefused
    refine iff_of_true ⟨code, mapper, hin, ?_, fun _ => rfl⟩ (.inl hrefused)
    rintro rfl
    exact absurd hcode (by decide)
  rw [or_iff_right hrefused]
  simp only [not_or] at hrefused
  obtain ⟨hmapper, hname, htype⟩ := hrefused
  obtain ⟨mapper, rfl⟩ := Option.ne_none_iff_exists'.mp hmapper
  rw [Bool.not_eq_false] at htype
  have hname := Nat.le_of_not_lt hname
  constructor
  · exact bounds_of_storesCompletely hap hname htype
  · rintro ⟨hdesc, ⟨hnonneg, hle⟩, htypes⟩
    obtain ⟨m, hm, hnl, hn, hdl, hd, -, hargc, hargv, -⟩ :=
      createFunctionIn_of_bounds mapper funPtr hap hname htype hdesc (by omega)
    refine ⟨0, some m, hm, ?_, fun hneg => absurd hneg (by decide)⟩
    intro _
    refine ⟨m, rfl, hnl, hn, hdl, hd, by rwa [hargc], by rwa [hargc], ap.map intToChar, hargv, ?_,
      ?_⟩
    · rw [List.length_map, hargc, hap]
    · intro typ htyp
      obtain ⟨p, hp, rfl⟩ := List.mem_map.mp htyp
      exact htypes p hp

/-- A mapper whose bytes are all zero. -/
def MapperMemory.zero (null : F) : MapperMemory F where
  nameLength := 0
  name := ⟨List.replicate (functionNameLength + 1) [0], List.length_replicate⟩
  descriptionLength := 0
  description := ⟨List.replicate (maxDescriptionLength + 1) [0], List.length_replicate⟩
  returnType := 0
  argc := 0
  argv := ⟨List.replicate maxParameters [0], List.length_replicate⟩
  funPtr := null

/-- A function of a string and an integer. -/
theorem storesCompletely_iff_two :
    StoresCompletely (some (.zero ())) (CString.ofBytes [0x66]) rpcTyInt none () 2 [2, 1] ↔
      (some (MapperMemory.zero ()) = none ∨ functionNameLength < (CString.ofBytes [0x66]).length ∨
        typeExists rpcTyInt = false) ∨
      (∀ d ∈ (none : Option CString), d.length ≤ maxDescriptionLength) ∧
        (0 ≤ (2 : CInt).toInt ∧ (2 : CInt).toInt ≤ maxParameters) ∧
        ∀ p ∈ ([2, 1] : List CInt), typeExists (intToChar p) = true :=
  storesCompletely_iff _ _ _ _ _ (by decide)

/-- A description of 1024 letters `d`. -/
def longDescription : CString where
  bytes := List.replicate 1024 0x64
  nulFree := fun h => absurd (List.eq_of_mem_replicate h) (by decide)

/-- That description is stored beyond its field; and 0 is returned for -1 parameters,
and for one of type 7. -/
theorem not_storesCompletely_long :
    ¬ StoresCompletely (some (.zero ())) (CString.ofBytes [0x66]) rpcTyInt (some longDescription)
      () 0 [] ∧
    ¬ StoresCompletely (some (.zero ())) (CString.ofBytes [0x66]) rpcTyInt none () (-1) [] ∧
    ¬ StoresCompletely (some (.zero ())) (CString.ofBytes [0x66]) rpcTyInt none () 1 [7] := by
  refine ⟨?_, ?_, ?_⟩
  · intro h
    have hdesc := (bounds_of_storesCompletely rfl (by decide) rfl h).1 longDescription rfl
    have hlen : longDescription.length = 1024 := List.length_replicate
    exact absurd (hlen ▸ hdesc) (by decide)
  · intro h
    exact absurd (bounds_of_storesCompletely (by decide) (by decide) rfl h).2.1.1 (by decide)
  · intro h
    have htypes := (bounds_of_storesCompletely (by decide) (by decide) rfl h).2.2
    exact absurd (htypes 7 List.mem_cons_self) (by decide)

end RemoteProcedure
