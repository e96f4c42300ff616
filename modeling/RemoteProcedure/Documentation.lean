import RemoteProcedure.Machine.Cursor
import RemoteProcedure.Machine.Decimal
import RemoteProcedure.Mapper

/-!
# The documentation of a registry

`s_specials.c`: a first pass over the registry computes the size of a text, and a
second one writes the text into a block of that size.  The two are written by
hand, field by field; the second also moves its cursor by lengths that it
computes apart from what it stores.

## Main definitions

* `intSize`, `typeSize`, `getType`, `documentationSize`,
  `generateDocumentation` — the functions of the source.
* `documentationPuts` — the stores of the second pass.
* `documentationLength` — the size of the first pass, before it wraps.

## Main results

* `documentationSize_eq` — the first pass computes `documentationLength`.
* `length_putText_documentationPuts` — **how long the text of the second pass is**.
* `generateDocumentation_of_lt`, `generateDocumentation_cases` — the second pass
  stays inside a block exactly if the block is longer than the text.
-/

namespace RemoteProcedure

open Machine

variable {F : Type}

/-- The bytes of a string literal. -/
def ascii (s : String) : List Byte := s.toList.map fun c => BitVec.ofNat 8 c.toNat

def hdNameString : List Byte := ascii "NAME: "
def hdDocString : List Byte := ascii "DOC: "
def noDocString : List Byte := ascii "- no documentation -"
def hdRetTypeString : List Byte := ascii "RETURNED TYPE: "
def hdNbParamString : List Byte := ascii "NUMBER OF PARAMETERS: "
def hdParamTypes : List Byte := ascii "PARAMETERS TYPE: "
def hdTypStr : List Byte := ascii "<str>"
def hdTypInt : List Byte := ascii "<int>"
def hdTypVoid : List Byte := ascii "<void>"
def hdTypUnknown : List Byte := ascii "<unknown>"

def charNewline : Byte := 10
def charComma : Byte := 44

/-! ### The first pass -/

/-- `int_size`: how many divisions by ten take `i` to zero. -/
def intSize (i : CInt) : ℕ := decimalLength i

/-- `type_size`. -/
def typeSize (type : Byte) : ℕ :=
  if type = rpcTyVoid then hdTypVoid.length
  else if type = rpcTyInt then hdTypInt.length
  else if type = rpcTyStr then hdTypStr.length
  else hdTypUnknown.length

/-- `get_type`. -/
def getType (type : Byte) : List Byte :=
  if type = rpcTyVoid then hdTypVoid
  else if type = rpcTyInt then hdTypInt
  else if type = rpcTyStr then hdTypStr
  else hdTypUnknown

/-- The loop of `documentation_size` over the parameters. -/
def paramsSize (size : CInt) : List Byte → CInt
  | [] => size
  -- one more for the comma or the new line
  | t :: ts => paramsSize (size + BitVec.ofNat 32 (typeSize t) + 1) ts

/-- The loop of `documentation_size`. -/
def documentationSizeLoop (size : CInt) : List (FunctionMapper F) → CInt
  | [] => size + 1
  | f :: fmap =>
    let size := size + BitVec.ofNat 32 (hdNameString.length + f.nameLength + 1)
    let size := size + BitVec.ofNat 32 (hdDocString.length + f.descriptionLength + 1)
    let size := size +
      BitVec.ofNat 32 (hdRetTypeString.length + typeSize f.function.returnType + 1)
    let size := size + BitVec.ofNat 32 (hdNbParamString.length + intSize f.function.argc + 1)
    let size := if 0 < f.function.argc.toInt then
      paramsSize (size + BitVec.ofNat 32 hdParamTypes.length) f.function.argv + 1 else size
    documentationSizeLoop size fmap

/-- `documentation_size`. -/
def documentationSize (memory : Memory F) : CInt := documentationSizeLoop 0 memory.fmap

/-! ### The second pass -/

/-- What `sprintf` makes of `"%d"`. -/
def sprintfInt (i : CInt) : List Byte := ascii (toString i.toInt)

/-- The stores of the loop over the parameters. -/
def paramPuts : List Byte → List (Put Byte)
  | [] => []
  -- the last one is followed by a new line
  | t :: ts => ⟨(getType t).take (typeSize t), typeSize t⟩ ::
      .whole [if ts = [] then charNewline else charComma] :: paramPuts ts

/-- The number of parameters: the NUL that `sprintf` stores is stored over. -/
def argcPuts (argc : CInt) : List (Put Byte) :=
  [⟨sprintfInt argc ++ [0], intSize argc⟩, .whole [charNewline]]

/-- The stores of the round for one function, each with what `cpt` moves on by. -/
def functionPuts (f : FunctionMapper F) : List (Put Byte) :=
  [.whole hdNameString, ⟨f.name.bytes.take f.nameLength, f.nameLength⟩, .whole [charNewline],
    .whole hdDocString,
    if 0 < f.descriptionLength then
      ⟨(f.description.elim [] CString.bytes).take f.descriptionLength, f.descriptionLength⟩
    else .whole noDocString,
    .whole [charNewline], .whole hdRetTypeString,
    ⟨(getType f.function.returnType).take (typeSize f.function.returnType),
      typeSize f.function.returnType⟩,
    .whole [charNewline], .whole hdNbParamString] ++
  argcPuts f.function.argc ++
  if 0 < f.function.argc.toInt then
    .whole hdParamTypes :: paramPuts f.function.argv ++ [.whole [charNewline]]
  else []

/-- The stores of the loop, and the new line behind it. -/
def documentationPuts (fmap : List (FunctionMapper F)) : List (Put Byte) :=
  fmap.flatMap functionPuts ++ [.whole [charNewline]]

/-- What a call of `generate_documentation` returns and leaves behind. -/
structure Generated where
  status : CInt
  /-- What `size` points to, if it is not null. -/
  size : Option CInt
  /-- The variable `__doc_string`. -/
  docString : Option (Block Byte)

/-- `generate_documentation`. -/
def generateDocumentation (granted : Bool) (docString : Option (Block Byte)) (size : Option CInt)
    (memory : Memory F) : Checked Generated :=
  let generatedSize := documentationSize memory
  let size := size.map fun _ => generatedSize
  -- as a `size_t` it is not negative, and -1 is followed by 0
  if generatedSize = 0 then .ok ⟨1, size, docString⟩
  else
    match malloc granted (generatedSize.toInt + 1) with
    | none => .ok ⟨1, size, none⟩
    | some blk => do
      let (blk, cpt) ← putAll (documentationPuts memory.fmap) blk 0
      let blk ← blk.store cpt [0]
      return ⟨0, size, some blk⟩

/-- `get_documentation`. -/
def getDocumentation (docString : Option (Block Byte)) : Option (Block Byte) := docString

/-! ### The pieces -/

theorem typeSize_eq (type : Byte) : typeSize type = (getType type).length := by
  unfold typeSize getType
  split_ifs <;> rfl

/-- The texts of the source have no NUL. -/
theorem zero_notMem_getType (type : Byte) : (0 : Byte) ∉ getType type := by
  unfold getType
  split_ifs <;> decide

theorem length_ascii (s : String) : (ascii s).length = s.toList.length := List.length_map _

theorem toList_toString_of_nonneg {i : CInt} (h : 0 ≤ i.toInt) :
    (toString i.toInt).toList = Nat.toDigits 10 i.toInt.toNat := by
  rw [← Int.toNat_of_nonneg h]
  exact Nat.toList_repr

/-- **The digits of a positive `int`** are as many as `int_size` counts. -/
theorem length_sprintfInt (i : CInt) : 0 < i.toInt → (sprintfInt i).length = intSize i := by
  rw [sprintfInt, length_ascii, intSize]
  induction i using divisionInduction with
  | zero =>
    intro h
    exact absurd h (by decide)
  | step i hne ih =>
    intro h
    have hdiv : (i.sdiv 10).toInt = i.toInt / 10 := by
      rw [toInt_sdiv_ten, Int.tdiv_eq_ediv_of_nonneg (by omega)]
    rw [toList_toString_of_nonneg (by omega), decimalLength_of_ne_zero hne]
    rcases Nat.lt_or_ge i.toInt.toNat 10 with hone | hmore
    · have hzero : i.sdiv 10 = 0 := by
        apply BitVec.eq_of_toInt_eq
        rw [hdiv]
        exact Int.ediv_eq_zero_of_lt (by omega) (by omega)
      rw [hzero, Nat.toDigits_of_lt_base hone]
      simp
    · have hrest := ih (by omega)
      rw [toList_toString_of_nonneg (by omega), hdiv] at hrest
      rw [Nat.toDigits_of_base_le (by decide) hmore, List.length_append, ← hrest,
        List.length_singleton]
      congr 3
      omega

/-- No digit is a NUL. -/
theorem zero_notMem_sprintfInt {i : CInt} (h : 0 ≤ i.toInt) : (0 : Byte) ∉ sprintfInt i := by
  rw [sprintfInt, ascii, toList_toString_of_nonneg h, List.mem_map]
  rintro ⟨c, hc, hzero⟩
  have hdigit := Nat.isDigit_of_mem_toDigits (by decide) (by decide) hc
  have hlo : 48 ≤ c.toNat := by
    simp only [Char.isDigit, Bool.and_eq_true, decide_eq_true_eq] at hdigit
    exact hdigit.1
  have hhi : c.toNat ≤ 57 := by
    simp only [Char.isDigit, Bool.and_eq_true, decide_eq_true_eq] at hdigit
    exact hdigit.2
  have hbyte := congrArg BitVec.toNat hzero
  rw [BitVec.toNat_ofNat, Nat.mod_eq_of_lt (by omega)] at hbyte
  have : (0 : Byte).toNat = 0 := rfl
  omega

/-! ### The text of the second pass -/

/-- The types of the parameters, each followed by a comma or a new line. -/
def paramFields : List Byte → List (List Byte)
  | [] => []
  | t :: ts => getType t :: [if ts = [] then charNewline else charComma] :: paramFields ts

/-- The description, or that there is none. -/
def descriptionText (f : FunctionMapper F) : List Byte :=
  if 0 < f.descriptionLength then f.description.elim [] CString.bytes else noDocString

/-- The text of a function in front of its number of parameters. -/
def fieldsBefore (f : FunctionMapper F) : List (List Byte) :=
  [hdNameString, f.name.bytes, [charNewline], hdDocString, descriptionText f, [charNewline],
    hdRetTypeString, getType f.function.returnType, [charNewline], hdNbParamString]

/-- The text of a function behind the line of its number of parameters. -/
def fieldsAfter (f : FunctionMapper F) : List (List Byte) :=
  if 0 < f.function.argc.toInt then
    hdParamTypes :: paramFields f.function.argv ++ [[charNewline]]
  else []

/-- What is left of the number of parameters: as much as `int_size` counts. -/
def argcText (argc : CInt) : List Byte := (sprintfInt argc ++ [0]).take (intSize argc)

/-- The text of a function, with a text for its number of parameters. -/
def functionText (number : List Byte) (f : FunctionMapper F) : List Byte :=
  (fieldsBefore f).flatten ++ (number ++ [charNewline]) ++ (fieldsAfter f).flatten

theorem paramPuts_eq (ts : List Byte) : paramPuts ts = (paramFields ts).map Put.whole := by
  induction ts with
  | nil => rfl
  | cons t ts ih =>
    rw [paramPuts, whole_of_length (typeSize_eq t).symm, ih]
    rfl

theorem length_description (f : FunctionMapper F) :
    (f.description.elim [] CString.bytes).length = f.descriptionLength := by
  rw [f.descriptionLength_eq]
  cases f.description with
  | none => rfl
  | some d => rfl

/-- **The round for a function stores whole fields**, but for the number. -/
theorem functionPuts_eq (f : FunctionMapper F) :
    functionPuts f = (fieldsBefore f).map Put.whole ++ argcPuts f.function.argc ++
      (fieldsAfter f).map Put.whole := by
  have hdesc : (if 0 < f.descriptionLength then
      ⟨(f.description.elim [] CString.bytes).take f.descriptionLength, f.descriptionLength⟩
      else Put.whole noDocString) = Put.whole (descriptionText f) := by
    unfold descriptionText
    split_ifs
    · exact whole_of_length (length_description f)
    · rfl
  rw [functionPuts, hdesc, whole_of_length f.nameLength_eq.symm,
    whole_of_length (typeSize_eq _).symm,
    fieldsAfter]
  split_ifs
  · rw [paramPuts_eq]
    simp [fieldsBefore, argcPuts, Put.whole]
  · rfl

/-- The text that the round for a function leaves. -/
theorem putText_functionPuts (f : FunctionMapper F) :
    putText (functionPuts f) = functionText (argcText f.function.argc) f := by
  rw [functionPuts_eq, putText_append, putText_append, putText_map_whole, putText_map_whole]
  rfl

theorem putText_documentationPuts (fmap : List (FunctionMapper F)) :
    putText (documentationPuts fmap) =
      (fmap.flatMap fun f => functionText (argcText f.function.argc) f) ++ [charNewline] := by
  rw [documentationPuts, putText_append]
  congr 1
  induction fmap with
  | nil => rfl
  | cons f fmap ih =>
    rw [List.flatMap_cons, putText_append, ih, List.flatMap_cons, putText_functionPuts]

/-! ### The length of the text -/

/-- What the first pass counts for a function. -/
def functionLength (f : FunctionMapper F) : ℕ :=
  hdNameString.length + f.nameLength + 1 + (hdDocString.length + f.descriptionLength + 1) +
  (hdRetTypeString.length + typeSize f.function.returnType + 1) +
  (hdNbParamString.length + intSize f.function.argc + 1) + (fieldsAfter f).flatten.length

/-- What the first pass counts, before it wraps. -/
def documentationLength (fmap : List (FunctionMapper F)) : ℕ := (fmap.map functionLength).sum + 1

theorem paramsSize_eq (ts : List Byte) : ∀ size : CInt,
    paramsSize size ts = size + BitVec.ofNat 32 (paramFields ts).flatten.length := by
  induction ts with
  | nil => intro size; simp [paramsSize, paramFields]
  | cons t ts ih =>
    intro size
    have hlen : (paramFields (t :: ts)).flatten.length =
        typeSize t + 1 + (paramFields ts).flatten.length := by
      rw [typeSize_eq, paramFields, List.flatten_cons, List.flatten_cons, List.length_append,
        List.length_append, List.length_singleton, Nat.add_assoc]
    rw [paramsSize, ih, hlen, BitVec.ofNat_add, BitVec.ofNat_add]
    grind

/-- One round of the first pass. -/
theorem documentationSizeLoop_cons (size : CInt) (f : FunctionMapper F)
    (fmap : List (FunctionMapper F)) :
    documentationSizeLoop size (f :: fmap) =
      documentationSizeLoop (size + BitVec.ofNat 32 (functionLength f)) fmap := by
  rw [documentationSizeLoop]
  congr 1
  unfold functionLength fieldsAfter
  split_ifs
  · have hlen : (hdParamTypes :: paramFields f.function.argv ++ [[charNewline]]).flatten.length =
        hdParamTypes.length + (paramFields f.function.argv).flatten.length + 1 := by
      simp
      omega
    rw [paramsSize_eq, hlen]
    simp only [BitVec.ofNat_add]
    grind
  · simp only [List.flatten_nil, List.length_nil, BitVec.ofNat_add]
    grind

/-- **The first pass counts `documentationLength`**, modulo the width of an `int`. -/
theorem documentationSize_eq (memory : Memory F) :
    documentationSize memory = BitVec.ofNat 32 (documentationLength memory.fmap) := by
  have hloop : ∀ (fmap : List (FunctionMapper F)) (size : CInt),
      documentationSizeLoop size fmap = size + BitVec.ofNat 32 (documentationLength fmap) := by
    intro fmap
    induction fmap with
    | nil => intro size; rfl
    | cons f fmap ih =>
      intro size
      have hlen :
          documentationLength (f :: fmap) = functionLength f + documentationLength fmap := by
        rw [documentationLength, documentationLength, List.map_cons, List.sum_cons, Nat.add_assoc]
      rw [documentationSizeLoop_cons, ih, hlen, BitVec.ofNat_add]
      grind
  rw [documentationSize, hloop]
  exact BitVec.zero_add _

theorem intSize_zero : intSize 0 = 0 := decimalLength_zero

/-- The number is not shorter than `int_size` counts. -/
theorem intSize_le_length_sprintfInt {i : CInt} (h : 0 ≤ i.toInt) :
    intSize i ≤ (sprintfInt i).length := by
  rcases Int.lt_or_eq_of_le h with hpos | hzero
  · exact Nat.le_of_eq (length_sprintfInt i hpos).symm
  · have hi : i = 0 := BitVec.eq_of_toInt_eq hzero.symm
    rw [hi, intSize_zero]
    exact Nat.zero_le _

theorem length_argcText {argc : CInt} (h : 0 ≤ argc.toInt) :
    (argcText argc).length = intSize argc := by
  have := intSize_le_length_sprintfInt h
  rw [argcText, List.length_take_of_le]
  rw [List.length_append]
  omega

/-- **The second pass writes what the first counted**, apart from the number, and
twenty bytes more for a function without a description. -/
theorem length_functionText (number : List Byte) (f : FunctionMapper F) :
    (functionText number f).length + intSize f.function.argc =
      functionLength f + number.length +
        if f.descriptionLength = 0 then noDocString.length else 0 := by
  have hdesc : (descriptionText f).length =
      f.descriptionLength + if f.descriptionLength = 0 then noDocString.length else 0 := by
    rw [descriptionText]
    split_ifs
    · omega
    · rw [length_description]
      omega
    · omega
    · omega
  have hname : f.nameLength = f.name.bytes.length := f.nameLength_eq
  rw [functionText, functionLength, hname, typeSize_eq]
  simp only [fieldsBefore, List.flatten_cons, List.flatten_nil, List.length_append, List.length_nil,
    hdesc, List.length_singleton]
  omega

/-- The text is at least as long as the first pass counts, and exactly as long when
every function has a description. -/
theorem length_putText_documentationPuts {fmap : List (FunctionMapper F)}
    (h : ∀ f ∈ fmap, 0 ≤ f.function.argc.toInt) :
    documentationLength fmap ≤ (putText (documentationPuts fmap)).length ∧
      ((putText (documentationPuts fmap)).length = documentationLength fmap ↔
        ∀ f ∈ fmap, 0 < f.descriptionLength) := by
  rw [putText_documentationPuts, List.length_append, List.length_singleton, documentationLength]
  have hnoDoc : noDocString.length = 20 := by decide
  induction fmap with
  | nil => simp
  | cons f fmap ih =>
    obtain ⟨hf, hfmap⟩ := List.forall_mem_cons.mp h
    obtain ⟨hle, heq⟩ := ih hfmap
    have hlen := length_functionText (argcText f.function.argc) f
    rw [length_argcText hf, hnoDoc] at hlen
    rw [List.forall_mem_cons, ← heq, List.flatMap_cons, List.length_append, List.map_cons,
      List.sum_cons]
    split_ifs at hlen <;> omega

/-! ### The reach of the stores -/

theorem contiguous_argcPuts {argc : CInt} (h : 0 ≤ argc.toInt) : Contiguous (argcPuts argc) := by
  have hle := intSize_le_length_sprintfInt h
  rw [argcPuts, contiguous_cons]
  refine ⟨?_, contiguous_map_whole [[charNewline]]⟩
  simp only [List.length_append]
  omega

/-- The NUL that `sprintf` stores is at most one cell behind the line. -/
theorem putExtent_argcPuts {argc : CInt} (h : 0 ≤ argc.toInt) :
    putExtent (argcPuts argc) ≤ (putText (argcPuts argc)).length + 1 := by
  have htext : (putText (argcPuts argc)).length = intSize argc + 1 := by
    have hputText : putText (argcPuts argc) = argcText argc ++ [charNewline] := rfl
    rw [hputText, List.length_append, length_argcText h]
    rfl
  have hextent :
      putExtent (argcPuts argc) = max ((sprintfInt argc).length + 1) (intSize argc + 1) := by
    rw [argcPuts, putExtent, List.length_append]
    rfl
  rw [htext, hextent]
  rcases Int.lt_or_eq_of_le h with hpos | hzero
  · rw [length_sprintfInt argc hpos]
    omega
  · have hargc : argc = 0 := BitVec.eq_of_toInt_eq hzero.symm
    have hone : (sprintfInt 0).length = 1 := by decide
    rw [hargc, hone]
    omega

theorem contiguous_functionPuts {f : FunctionMapper F} (h : 0 ≤ f.function.argc.toInt) :
    Contiguous (functionPuts f) := by
  rw [functionPuts_eq, contiguous_append, contiguous_append]
  exact ⟨⟨contiguous_map_whole _, contiguous_argcPuts h⟩, contiguous_map_whole _⟩

theorem putExtent_functionPuts {f : FunctionMapper F} (h : 0 ≤ f.function.argc.toInt) :
    putExtent (functionPuts f) ≤ (putText (functionPuts f)).length + 1 := by
  have hargc := putExtent_argcPuts h
  rw [functionPuts_eq, List.append_assoc, putExtent_append (contiguous_map_whole _),
    putExtent_append (contiguous_argcPuts h), putText_append, putText_append, putExtent_map_whole,
    putExtent_map_whole, putText_map_whole, putText_map_whole, List.length_append,
    List.length_append]
  omega

theorem contiguous_documentationPuts {fmap : List (FunctionMapper F)}
    (h : ∀ f ∈ fmap, 0 ≤ f.function.argc.toInt) : Contiguous (documentationPuts fmap) := by
  rw [documentationPuts, contiguous_append]
  refine ⟨?_, contiguous_map_whole [[charNewline]]⟩
  intro p hp
  obtain ⟨f, hf, hp⟩ := List.mem_flatMap.mp hp
  exact contiguous_functionPuts (h f hf) p hp

/-- **The stores reach no further than the text**, whose last byte is a new line. -/
theorem putExtent_documentationPuts {fmap : List (FunctionMapper F)}
    (h : ∀ f ∈ fmap, 0 ≤ f.function.argc.toInt) :
    putExtent (documentationPuts fmap) ≤ (putText (documentationPuts fmap)).length := by
  induction fmap with
  | nil => exact Nat.le_refl 1
  | cons f fmap ih =>
    obtain ⟨hf, hfmap⟩ := List.forall_mem_cons.mp h
    have hrest := ih hfmap
    have hextent := putExtent_functionPuts hf
    have hsplit : documentationPuts (f :: fmap) = functionPuts f ++ documentationPuts fmap := by
      rw [documentationPuts, List.flatMap_cons, List.append_assoc]
      rfl
    have hpos : 0 < (putText (documentationPuts fmap)).length := by
      rw [putText_documentationPuts, List.length_append]
      exact Nat.succ_pos _
    rw [hsplit, putExtent_append (contiguous_functionPuts hf), putText_append, List.length_append]
    omega

/-- **A block longer than the text takes it**, and a NUL behind it. -/
theorem generateDocumentation_of_lt {memory : Memory F}
    (h : ∀ f ∈ memory.fmap, 0 ≤ f.function.argc.toInt) (hne : documentationSize memory ≠ 0)
    (hroom : ((putText (documentationPuts memory.fmap)).length : ℤ) <
      (documentationSize memory).toInt + 1) (docString : Option (Block Byte)) (size : Option CInt) :
    ∃ blk : Block Byte, generateDocumentation true docString size memory =
        .ok ⟨0, size.map fun _ => documentationSize memory, some blk⟩ ∧
      (blk.length : ℤ) = (documentationSize memory).toInt + 1 ∧
        blk.Shows (putText (documentationPuts memory.fmap) ++ [0]) := by
  have hextent := putExtent_documentationPuts h
  have hmalloc : malloc (α := Byte) true ((documentationSize memory).toInt + 1) = _ :=
    malloc_of_nonneg (by omega)
  have hlen := length_of_malloc hmalloc
  obtain ⟨blk₁, hputs, hlen₁, hshows₁⟩ := putAll_of_extent (contiguous_documentationPuts h)
    (Block.shows_nil (Block.filled [] ((documentationSize memory).toInt + 1).toNat))
    (by rw [List.length_nil]; omega)
  rw [List.nil_append] at hputs hshows₁
  obtain ⟨blk₂, hnul, hlen₂, hshows₂⟩ := hshows₁.store [0] (by rw [List.length_singleton]; omega)
  refine ⟨blk₂, ?_, by rw [hlen₂, hlen₁, hlen], hshows₂⟩
  have hstart : putAll (documentationPuts memory.fmap)
      (Block.filled [] ((documentationSize memory).toInt + 1).toNat) 0 = _ := hputs
  simp only [generateDocumentation, if_neg hne, hmalloc, hstart, Checked.ok_bind, hnul,
    Checked.pure_eq]

/-- **A run without a fault has no block, or one longer than the text.** -/
theorem generateDocumentation_cases {memory : Memory F}
    (h : ∀ f ∈ memory.fmap, 0 ≤ f.function.argc.toInt) {granted : Bool}
    {docString : Option (Block Byte)} {size : Option CInt} {g : Generated}
    (hg : generateDocumentation granted docString size memory = .ok g) :
    g.status = 1 ∧ (documentationSize memory = 0 ∨
        malloc (α := Byte) granted ((documentationSize memory).toInt + 1) = none) ∨
      g.status = 0 ∧ ((putText (documentationPuts memory.fmap)).length : ℤ) <
        (documentationSize memory).toInt + 1 := by
  simp only [generateDocumentation] at hg
  split_ifs at hg with hzero
  · cases hg
    exact .inl ⟨rfl, .inl hzero⟩
  · cases hmalloc : malloc (α := Byte) granted ((documentationSize memory).toInt + 1) with
    | none =>
      rw [hmalloc] at hg
      cases hg
      exact .inl ⟨rfl, .inr rfl⟩
    | some blk =>
      have hlen := length_of_malloc hmalloc
      simp only [hmalloc] at hg
      rw [Checked.bind_eq_ok] at hg
      obtain ⟨⟨blk₁, cpt⟩, hputs, hg⟩ := hg
      obtain ⟨-, hlen₁, hcpt⟩ :=
        extent_le_of_putAll (contiguous_documentationPuts h) (Nat.zero_le _) hputs
      rw [Checked.bind_eq_ok] at hg
      obtain ⟨blk₂, hnul, hg⟩ := hg
      have hroom := (Block.length_store hnul).2 (List.cons_ne_nil 0 [])
      cases hg
      rw [List.length_singleton, hlen₁] at hroom
      exact .inr ⟨rfl, by omega⟩

end RemoteProcedure
