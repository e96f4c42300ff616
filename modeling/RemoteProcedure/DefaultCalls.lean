import Mathlib.Data.List.Nodup
import RemoteProcedure.Startup

/-!
# Calls of the default functions

A remote call of a default function returns what the function is meant to return, as
long as C defines it; a call of anything else is refused.

## Main results

* `externalCall_default` — **a call of a default function returns its value, and any other
  call fails** without calling anything.
-/

namespace RemoteProcedure

open Machine

variable {F : Type}

/-! ### The functions that are declared -/

/-- What the functions of `s_defaults.c` return. -/
def DefaultFunction.returns : DefaultFunction → Byte
  | .documentation => rpcTyStr
  | .concat => rpcTyStr
  | .identity => rpcTyStr
  | .shutdown => rpcTyVoid
  | _ => rpcTyInt

/-- Does this call of a default function send `SIGUSR1` to the server?  Of these only
`shutdown` returns nothing. -/
def raisesSignal (c : Call) : Bool :=
  match c.function.funPtr, c.args with
  | .voidFun _, [.str password] => shutdown password
  | _, _ => false

theorem returns_of_declared : ∀ d ∈ defaultFunctions, d.returnType = d.funPtr.returns := by
  decide

theorem typeExists_of_declared : ∀ d ∈ defaultFunctions, typeExists d.returnType = true := by
  decide

theorem name_of_declared : ∀ d ∈ defaultFunctions, d.name.length ≤ 14 := by
  decide

/-- No two have the same name. -/
theorem nodup_declared : (defaultFunctions.map Declaration.name).Nodup := by
  decide

section

variable {docString : Option (Block Byte)}

theorem returns_funPtr (f : DefaultFunction) : (f.funPtr docString).returns = f.returns := by
  cases f <;> rfl

/-- Through its pointer a function has the value that C defines, and no other. -/
theorem apply_funPtr (f : DefaultFunction) (ds : List Data) :
    (f.funPtr docString).apply ds = f.value docString ds := by
  have hstr : ∀ o : Option CString, (o.map some).join = o := fun o => by cases o <;> rfl
  cases f <;>
    simp only [DefaultFunction.funPtr, FunPtr.apply, DefaultFunction.value, hstr]

end

/-! ### Arguments that a function takes -/

/-- What a function is meant for are arguments of the types it is declared with. -/
theorem params_of_meaning {text : CString} {d : Declaration DefaultFunction}
    (hd : d ∈ defaultFunctions) {args : List RpcArg} {v : RpcArg}
    (h : DefaultFunction.Meaning text d.funPtr args v) :
    args.map RpcArg.typ = d.params ∧ args.length ≤ 2 ∧ ∀ a ∈ args, a.Defined := by
  simp only [defaultFunctions, List.mem_cons, List.not_mem_nil, or_false] at hd
  rcases hd with rfl | rfl | rfl | rfl | rfl | rfl | rfl | rfl | rfl | rfl | rfl <;>
    cases h <;> simp [RpcArg.typ, RpcArg.Defined] <;> decide

/-- The value is a string that is not much longer than the arguments, or the
documentation. -/
theorem length_of_meaning {text : CString} {f : DefaultFunction} {args : List RpcArg}
    {s : CString} (h : DefaultFunction.Meaning text f args (.str s)) (htext : text.length < 2048)
    (hstr : ∀ s, .str s ∈ args → s.length ≤ 127) : s.length < 2048 := by
  cases h with
  | documentation => exact htext
  | concat s s2 =>
    have hs := hstr s (by simp)
    have hs2 := hstr s2 (by simp)
    rw [CString.length_append]
    omega
  | identity c =>
    have hs := hstr s (by simp)
    omega

theorem length_encodeArg_le {a : RpcArg} (ha : a.Defined)
    (hstr : ∀ s, a = .str s → s.length ≤ 127) : (encodeArg a).length ≤ 129 := by
  cases a with
  | void => decide
  | int i =>
    have := length_integerChars i
    simp only [encodeArg, List.length_cons, length_encodeInteger]
    omega
  | str s =>
    have := hstr s rfl
    have hwire := length_wire s
    simp only [encodeArg, List.length_cons]
    omega
  | other typ h => exact absurd ha (RpcArg.not_defined_other typ h)

theorem length_encodeArgs_le {args : List RpcArg} (hdefined : ∀ a ∈ args, a.Defined)
    (hstr : ∀ s, .str s ∈ args → s.length ≤ 127) :
    (encodeArgs args).length ≤ 129 * args.length := by
  induction args with
  | nil => exact Nat.le_refl 0
  | cons a args ih =>
    have hrest := ih (fun b hb => hdefined b (List.mem_cons_of_mem a hb))
      fun s hs => hstr s (List.mem_cons_of_mem a hs)
    have hfirst := length_encodeArg_le (hdefined a List.mem_cons_self) (by
      rintro s rfl
      exact hstr s List.mem_cons_self)
    simp only [encodeArgs, List.flatMap_cons, List.length_append, List.length_cons] at hrest ⊢
    omega

/-- A declared function can be called. -/
theorem sendable_of_declared {d : Declaration DefaultFunction} (hd : d ∈ defaultFunctions)
    {args : List RpcArg} (hdefined : ∀ a ∈ args, a.Defined) (hcount : args.length ≤ 2)
    (hstr : ∀ s, .str s ∈ args → s.length ≤ 127) : Sendable d.name d.returnType args := by
  refine ⟨typeExists_of_declared d hd, hdefined, ?_⟩
  have hlen := length_encodeArgs_le hdefined hstr
  have hshort := name_of_declared d hd
  omega

/-! ### The registry -/

/-- `create_function` makes any mapper of a type that exists. -/
theorem createFunction_self (f : FunctionMapper F)
    (htype : typeExists f.function.returnType = true) :
    createFunction (some ()) f.name f.function.returnType f.description f.function.funPtr
      f.function.argc (f.function.argv.map charToInt) = .ok (.ok f) := by
  have hlen : (f.function.argv.map charToInt).length = f.function.argv.length :=
    List.length_map _
  obtain ⟨g, hg, hname, hdesc, hreturn, hargc, hargv, hptr⟩ :=
    exists_createFunction f.function.funPtr (hlen.trans f.function.argv_length) f.name_le htype
      f.description_le (hlen ▸ f.function.argv_le)
  rw [List.map_map, List.map_id'' (f := intToChar ∘ charToInt) intToChar_charToInt] at hargv
  have hnameLength : g.nameLength = f.nameLength := by
    rw [g.nameLength_eq, f.nameLength_eq, hname]
  have hdescLength : g.descriptionLength = f.descriptionLength := by
    rw [g.descriptionLength_eq, f.descriptionLength_eq, hdesc]
  rw [hg]
  rcases f with ⟨_, _, _, _, ⟨_, _, _, _, _, _⟩, _, _, _, _⟩
  rcases g with ⟨_, _, _, _, ⟨_, _, _, _, _, _⟩, _, _, _, _⟩
  simp only at hname hdesc hreturn hargc hargv hptr hnameLength hdescLength
  subst hname hdesc hreturn hargc hargv hptr hnameLength hdescLength
  rfl

/-- The newest function of a name is the only one, if no two have the same. -/
theorem newest_eq_some {adds : List (FunctionMapper FunPtr)}
    (hnodup : (adds.map FunctionMapper.name).Nodup) {f : FunctionMapper FunPtr} (hf : f ∈ adds)
    {argc : CInt} {args : ArgArray argc} (hargc : f.function.argc = argc)
    (hargv : f.function.argv = args.1.map RpcArg.typ) :
    newest adds f.name f.function.returnType args = some f := by
  have hfind : (adds.reverse.find? fun g => g.name = f.name) = some f := by
    cases hfound : adds.reverse.find? fun g => g.name = f.name with
    | none =>
      have hne := List.find?_eq_none.mp hfound f (List.mem_reverse.mpr hf)
      simp at hne
    | some g =>
      have hname : g.name = f.name := by simpa using List.find?_some hfound
      have hg := List.mem_reverse.mp (List.mem_of_find?_eq_some hfound)
      rw [List.inj_on_of_nodup_map hnodup hg hf hname]
  rw [newest, hfind]
  exact Option.filter_eq_some_iff.mpr ⟨rfl, by simp [hargc, hargv]⟩

section

variable {null : FunPtr}
  {memory : Memory FunPtr} {doc : Block Byte} {adds : List (FunctionMapper FunPtr)}

/-- What is declared of a function of the registry. -/
theorem declared_of_mem (hadds : adds.map FunctionMapper.declaration =
      defaultFunctions.map (.at (DefaultFunction.funPtr (some doc))))
    {f : FunctionMapper FunPtr} (hf : f ∈ adds) :
    ∃ d ∈ defaultFunctions, f.name = d.name ∧ f.function.returnType = d.returnType ∧
      f.function.argv = d.params ∧ f.function.funPtr = d.funPtr.funPtr (some doc) := by
  have hmem : f.declaration ∈ adds.map FunctionMapper.declaration := List.mem_map_of_mem hf
  rw [hadds] at hmem
  obtain ⟨d, hd, heq⟩ := List.mem_map.mp hmem
  refine ⟨d, hd, ?_, ?_, ?_, ?_⟩
  · exact (congrArg Declaration.name heq).symm
  · exact (congrArg Declaration.returnType heq).symm
  · exact (congrArg Declaration.params heq).symm
  · exact (congrArg Declaration.funPtr heq).symm

/-- The function that was declared is in the registry. -/
theorem mem_of_declared (hadds : adds.map FunctionMapper.declaration =
      defaultFunctions.map (.at (DefaultFunction.funPtr (some doc))))
    {d : Declaration DefaultFunction} (hd : d ∈ defaultFunctions) :
    ∃ f ∈ adds, f.name = d.name ∧ f.function.returnType = d.returnType ∧
      f.function.argv = d.params ∧ f.function.funPtr = d.funPtr.funPtr (some doc) := by
  have hmem : d.at (DefaultFunction.funPtr (some doc)) ∈
      adds.map FunctionMapper.declaration := by
    rw [hadds]
    exact List.mem_map_of_mem hd
  obtain ⟨f, hf, heq⟩ := List.mem_map.mp hmem
  refine ⟨f, hf, ?_, ?_, ?_, ?_⟩
  · exact congrArg Declaration.name heq
  · exact congrArg Declaration.returnType heq
  · exact congrArg Declaration.params heq
  · exact congrArg Declaration.funPtr heq

theorem nodup_names (hadds : adds.map FunctionMapper.declaration =
      defaultFunctions.map (.at (DefaultFunction.funPtr (some doc)))) :
    (adds.map FunctionMapper.name).Nodup := by
  have hnames : adds.map FunctionMapper.name = defaultFunctions.map Declaration.name := by
    have := congrArg (List.map Declaration.name) hadds
    rw [List.map_map, List.map_map] at this
    exact this
  rw [hnames]
  exact nodup_declared

/-- All of them are as `create_function` makes them. -/
theorem registered_of_declared (hadds : adds.map FunctionMapper.declaration =
      defaultFunctions.map (.at (DefaultFunction.funPtr (some doc)))) :
    ∀ f ∈ adds, f.Registered := by
  intro f hf
  obtain ⟨d, hd, -, hreturn, -, hptr⟩ := declared_of_mem hadds hf
  have htype : typeExists f.function.returnType = true := by
    rw [hreturn]
    exact typeExists_of_declared d hd
  refine ⟨_, _, _, _, _, _, createFunction_self f htype, ?_⟩
  rw [hptr, returns_funPtr, hreturn, returns_of_declared d hd]

/-! ### Calls -/

/-- A call of a default function returns its value, wherever C defines one: the `int`
that the operation should have, the two strings one behind the other, and so on. -/
theorem externalCall_of_meaning (h : Started null memory doc) {text : CString}
    (hdoc : doc.Shows (text.bytes ++ [0])) {d : Declaration DefaultFunction}
    (hd : d ∈ defaultFunctions) {argc : CInt} {args : ArgArray argc} (hargc : 0 ≤ argc.toInt)
    (hstr : ∀ s, .str s ∈ args.1 → s.length ≤ 127) {v : RpcArg}
    (hv : DefaultFunction.Meaning text d.funPtr args.1 v) (cell : Option Data) :
    ∃ call : Call, call.function.funPtr = d.funPtr.funPtr (some doc) ∧
      call.args = args.1.map RpcArg.data ∧
      remoteCall true memory d.name d.returnType args cell = .ok ⟨0, v.assign cell, [call]⟩ := by
  obtain ⟨adds, text', rfl, hadds, hcounts, -, htext, hdoc'⟩ := registry_of_started h
  obtain rfl : text' = text := Except.ok.inj
    ((string_of_shows hdoc').symm.trans (string_of_shows hdoc))
  obtain ⟨f, hf, hname, hreturn, hargv, hptr⟩ := mem_of_declared hadds hd
  obtain ⟨hparams, hcount, hdefined⟩ := params_of_meaning hd hv
  have hvalue : f.function.funPtr.apply (args.1.map RpcArg.data) = some v := by
    rw [hptr, apply_funPtr]
    exact DefaultFunction.value_of_meaning hdoc hv
  have hargc' : f.function.argc = argc := by
    have hf₀ := hcounts f hf
    have hflen := f.function.argv_length
    have hlen := args.2
    rw [hargv, ← hparams, List.length_map] at hflen
    exact BitVec.eq_of_toInt_eq (by omega)
  have hnewest : newest adds d.name d.returnType args = some f := by
    rw [← hname, ← hreturn]
    exact newest_eq_some (nodup_names hadds) hf hargc' (hargv.trans hparams.symm)
  have hsendable := sendable_of_declared hd hdefined hcount hstr
  refine ⟨⟨f.function, args.1.map RpcArg.data⟩, hptr, rfl, ?_⟩
  rw [externalCall_eq_localCall (registered_of_declared hadds) hargc hstr hsendable ?_ ?_ cell,
    localCall, hnewest]
  · simp only [hvalue]
  · intro g hg
    rw [hnewest] at hg
    obtain rfl := Option.some.inj hg
    rw [hvalue]
    rfl
  · intro g s hg hs
    rw [hnewest] at hg
    obtain rfl := Option.some.inj hg
    rw [hvalue] at hs
    obtain rfl := Option.some.inj hs
    have := length_of_meaning hv htext.2 hstr
    omega

/-- Any other call fails without calling anything: its name is not declared, or not
with these types. -/
theorem externalCall_of_undeclared (h : Started null memory doc) {command : CString}
    {returnType : Byte} {argc : CInt} {args : ArgArray argc} (hargc : 0 ≤ argc.toInt)
    (hstr : ∀ s, .str s ∈ args.1 → s.length ≤ 127) (hsend : Sendable command returnType args.1)
    (hd : ∀ d ∈ defaultFunctions, d.name = command → d.params = args.1.map RpcArg.typ →
      d.returnType ≠ returnType) (cell : Option Data) :
    remoteCall true memory command returnType args cell = .ok ⟨-1, cell, []⟩ := by
  obtain ⟨adds, text, rfl, hadds, -, -, -, -⟩ := registry_of_started h
  have hnewest : newest adds command returnType args = none := by
    cases hf : newest adds command returnType args with
    | none => rfl
    | some f =>
      obtain ⟨d, hdmem, hname, hreturn, hargv, -⟩ := declared_of_mem hadds (mem_of_newest hf)
      rw [newest, Option.filter_eq_some_iff, decide_eq_true_iff] at hf
      obtain ⟨hfind, -, hparams, htype⟩ := hf
      have hcommand : f.name = command := by simpa using List.find?_some hfind
      exact absurd (hreturn.symm.trans htype)
        (hd d hdmem (hname.symm.trans hcommand) (hargv.symm.trans hparams))
  have hnone : ∀ f, newest adds command returnType args ≠ some f := by
    rw [hnewest]
    exact fun f => (Option.some_ne_none f).symm
  rw [externalCall_eq_localCall (registered_of_declared hadds) hargc hstr hsend
    (fun f hf => absurd hf (hnone f)) (fun f s hf => absurd hf (hnone f)) cell, localCall, hnewest]

/-- **What a call of a server with the default functions comes to**: the value that the
function should have, where there is one, and an error if there is no such function. -/
theorem externalCall_default (h : Started null memory doc) {text : CString}
    (hdoc : doc.Shows (text.bytes ++ [0])) {command : CString} {returnType : Byte} {argc : CInt}
    {args : ArgArray argc} (hargc : 0 ≤ argc.toInt) (hstr : ∀ s, .str s ∈ args.1 → s.length ≤ 127)
    (hsend : Sendable command returnType args.1) (cell : Option Data) :
    (∀ d ∈ defaultFunctions, d.name = command → d.returnType = returnType →
      ∀ v, DefaultFunction.Meaning text d.funPtr args.1 v →
        ∃ call : Call, call.function.funPtr = d.funPtr.funPtr (some doc) ∧
          call.args = args.1.map RpcArg.data ∧
          remoteCall true memory command returnType args cell = .ok ⟨0, v.assign cell, [call]⟩) ∧
    ((∀ d ∈ defaultFunctions, d.name = command → d.params = args.1.map RpcArg.typ →
      d.returnType ≠ returnType) →
      remoteCall true memory command returnType args cell = .ok ⟨-1, cell, []⟩) := by
  refine ⟨?_, fun hd => externalCall_of_undeclared h hargc hstr hsend hd cell⟩
  rintro d hd rfl rfl v hv
  exact externalCall_of_meaning h hdoc hd hargc hstr hv cell

def twoAndThree : ArgArray 2 := ⟨[.int 2, .int 3], rfl⟩

/-- Two and three are five. -/
theorem externalCall_default_plus :
    ∃ (memory : Memory FunPtr) (doc : Block Byte) (call : Call),
      Started (.voidFun fun _ => some ()) memory doc ∧
      remoteCall true memory (.ofBytes (ascii "plus")) rpcTyInt twoAndThree (some (.int 0)) =
        .ok ⟨0, some (.int 5), [call]⟩ := by
  obtain ⟨memory, doc, hstart⟩ :=
    exists_started (.voidFun fun _ => some ())
  obtain ⟨_, text, -, -, -, -, -, hdoc⟩ := registry_of_started hstart
  have hplus : (⟨.ofBytes (ascii "plus"), rpcTyInt, [rpcTyInt, rpcTyInt], .plus⟩ :
      Declaration DefaultFunction) ∈ defaultFunctions := by decide
  have hstr : ∀ s, .str s ∈ twoAndThree.1 → s.length ≤ 127 := by simp [twoAndThree]
  have hv : DefaultFunction.Meaning text .plus twoAndThree.1 (.int 5) := .plus (by decide)
  have hsend := sendable_of_declared hplus (params_of_meaning hplus hv).2.2 (by decide) hstr
  obtain ⟨call, -, -, hcall⟩ := (externalCall_default hstart hdoc (by decide) hstr hsend
    (some (.int 0))).1 _ hplus rfl rfl _ hv
  exact ⟨memory, doc, call, hstart, hcall⟩

end

end RemoteProcedure
