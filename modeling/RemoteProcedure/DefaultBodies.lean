import RemoteProcedure.Machine.Arithmetic
import RemoteProcedure.Machine.Text
import RemoteProcedure.Defaults
import RemoteProcedure.Dispatch

/-!
# What the default functions compute

The bodies of the functions of `s_defaults.c`.  An `int` operation that overflows has no
result, nor has a division by zero; a string is copied into a block of its own.

## Main definitions

* `documentation`, `concat`, `identity`, `plus`, `minus`, `multiplication`, `division`,
  `power`, `square`, `stringLength`, `shutdown` — the functions of the source.
* `DefaultFunction.value` — what a function makes of the data pointers it gets.
* `Meaning` — what it should make of its arguments.

## Main results

* `power_of_nonneg` — **the loop of `power` overflows exactly if the power does.**
* `value_eq_some_iff` — **each function computes what it should**, and has no other result.
-/

namespace RemoteProcedure

open Machine

/-! ### Functions that return a string -/

/-- `documentation`. -/
def documentation (granted : Bool) (docString : Option (Block Byte)) :
    Checked (Option CString) :=
  match getDocumentation docString with
  | none => .error .nullPointer
  | some doc => do
    let n ← strlen doc
    match malloc granted (n + 1 : ℕ) with
    | none => return none
    | some res =>
      let res ← strcpy res (← doc.string)
      return some (← res.string)

/-- `concat`. -/
def concat (granted : Bool) (s s2 : CString) : Checked (Option CString) :=
  match malloc granted (s.length + s2.length + 1 : ℕ) with
  | none => return none
  | some newStr => do
    let newStr ← strcpy newStr s
    let newStr ← strcat newStr s2
    return some (← newStr.string)

/-- `identity`. -/
def identity (granted : Bool) (c : CString) : Checked (Option CString) :=
  match malloc granted (c.length + 1 : ℕ) with
  | none => return none
  | some s => do
    let s ← strcpy s c
    return some (← s.string)

/-! ### Functions that return an `int` -/

/-- `plus`. -/
def plus (a b : CInt) : Option CInt := addInt a b

/-- `minus`. -/
def minus (a b : CInt) : Option CInt := subInt a b

/-- `multiplication`. -/
def multiplication (a b : CInt) : Option CInt := mulInt a b

/-- `division`. -/
def division (a b : CInt) : Option CInt := divInt a b

/-- The loop of `power`.  Behind its test `--cpt` does not overflow. -/
def powerLoop (a : CInt) (cpt res : CInt) : Option CInt :=
  if 1 < cpt.toInt then do
    let res ← mulInt res a
    powerLoop a (cpt - 1) res
  else some res
termination_by cpt.toInt.toNat
decreasing_by
  rw [toInt_sub_one (by omega)]
  omega

/-- `power`. -/
def power (a b : CInt) : Option CInt := if b = 0 then some 1 else powerLoop a b a

/-- `square`. -/
def square (a : CInt) : Option CInt := power a 2

/-- `string_length`: `strlen` returns a `size_t`. -/
def stringLength (s : CString) : CInt := BitVec.ofNat 32 s.length

/-- `shutdown`: does it send `SIGUSR1` to the server? -/
def shutdown (password : CString) : Bool := decide (password = .ofBytes (ascii "admin"))

/-! ### The strings -/

/-- **The two strings, one behind the other.** -/
theorem concat_eq (granted : Bool) (s s2 : CString) :
    concat granted s s2 = .ok (if granted then some (s.append s2) else none) := by
  cases granted with
  | false => rfl
  | true =>
    obtain ⟨blk, hmalloc, hlen⟩ := exists_malloc (s.length + s2.length + 1)
    obtain ⟨blk₁, hcpy, hlen₁, hshows₁⟩ := strcpy_of_room (show s.length < blk.length by omega)
    obtain ⟨blk₂, hcat, -, hshows₂⟩ :=
      strcat_of_room hshows₁ (show s.length + s2.length < blk₁.length by omega)
    simp only [concat, hmalloc, hcpy, hcat, string_of_shows hshows₂, Checked.ok_bind,
      Checked.pure_eq, if_true]

/-- **A copy of the string.** -/
theorem identity_eq (granted : Bool) (c : CString) :
    identity granted c = .ok (if granted then some c else none) := by
  cases granted with
  | false => rfl
  | true =>
    obtain ⟨blk, hmalloc, hlen⟩ := exists_malloc (c.length + 1)
    obtain ⟨blk₁, hcpy, -, hshows⟩ := strcpy_of_room (show c.length < blk.length by omega)
    simp only [identity, hmalloc, hcpy, string_of_shows hshows, Checked.ok_bind, Checked.pure_eq,
      if_true]

/-- **A copy of the documentation**, which has to be there. -/
theorem documentation_eq (granted : Bool) {doc : Block Byte} {text : CString}
    (h : doc.Shows (text.bytes ++ [0])) :
    documentation granted (some doc) = .ok (if granted then some text else none) := by
  have hlen : strlen doc = .ok text.length := by
    rw [strlen, text_of_shows text.nulFree h]
    rfl
  cases granted with
  | false =>
    simp only [documentation, getDocumentation, hlen, Checked.ok_bind]
    rfl
  | true =>
    obtain ⟨blk, hmalloc, hroom⟩ := exists_malloc (text.length + 1)
    obtain ⟨blk₁, hcpy, -, hshows⟩ := strcpy_of_room (show text.length < blk.length by omega)
    simp only [documentation, getDocumentation, hlen, hmalloc, string_of_shows h, hcpy,
      string_of_shows hshows, Checked.ok_bind, Checked.pure_eq, if_true]

/-! ### Powers -/

theorem inRange_pow_of_le {a : ℤ} {k n : ℕ} (hkn : k ≤ n) (h : InRange (a ^ n)) :
    InRange (a ^ k) := by
  induction n, hkn using Nat.le_induction with
  | base => exact h
  | succ n hkn ih => exact ih (inRange_pow_of_succ h)

/-- **The loop multiplies what is left of the power**, unless the power overflows: then one
of the products does. -/
theorem powerLoop_eq (a : CInt) {n : ℕ} : ∀ {k : ℕ} {cpt res : CInt}, (cpt.toInt - 1).toNat = n →
    res.toInt = a.toInt ^ k → powerLoop a cpt res = exactly (a.toInt ^ (k + n)) := by
  induction n with
  | zero =>
    intro k cpt res hcpt hres
    rw [powerLoop, if_neg (by omega), Nat.add_zero, ← hres, exactly_toInt]
  | succ n ih =>
    intro k cpt res hcpt hres
    have hdec : ((cpt - 1).toInt - 1).toNat = n := by
      rw [toInt_sub_one (by omega)]
      omega
    have hpow : a.toInt ^ (k + 1) = res.toInt * a.toInt := by rw [pow_succ, hres]
    have hend : k + (n + 1) = k + 1 + n := by omega
    rw [powerLoop, if_pos (by omega), mulInt, ← hpow, hend]
    cases hmul : exactly (a.toInt ^ (k + 1)) with
    | none =>
      have hover : ¬ InRange (a.toInt ^ (k + 1 + n)) := by
        intro h
        rw [exactly, if_pos (inRange_pow_of_le (Nat.le_add_right _ _) h)] at hmul
        cases hmul
      rw [exactly_of_not_inRange hover]
      rfl
    | some res' => exact ih hdec (exactly_eq_some_iff.mp hmul)

/-- **`power` overflows exactly if the power does.** -/
theorem power_of_nonneg {a b : CInt} (h : 0 ≤ b.toInt) :
    power a b = exactly (a.toInt ^ b.toInt.toNat) := by
  rw [power]
  split_ifs with hb
  · rw [hb]
    exact (exactly_eq_some_iff.mpr (pow_zero _).symm).symm
  · have hne := toInt_ne_zero hb
    have hone : a.toInt = a.toInt ^ 1 := (pow_one _).symm
    rw [powerLoop_eq a rfl hone]
    congr 2
    omega

/-- With a negative exponent it returns its first argument. -/
theorem power_of_neg {a b : CInt} (h : b.toInt < 0) : power a b = some a := by
  have hb : b ≠ 0 := by
    rintro rfl
    exact absurd h (by decide)
  rw [power, if_neg hb, powerLoop, if_neg (by omega)]

theorem square_eq (a : CInt) : square a = mulInt a a := by
  have htwo : (2 : CInt).toInt.toNat = 2 := rfl
  rw [square, power_of_nonneg (by decide), htwo, pow_two, mulInt]

theorem toInt_stringLength {s : CString} {c : CInt} (hlen : s.length < 2 ^ 31)
    (h : stringLength s = c) : c.toInt = s.length := by
  rw [← h, stringLength, toInt_ofNat_of_lt hlen]

/-- A length that is an `int` is returned as it is. -/
theorem stringLength_of_toInt {s : CString} {c : CInt} (h : c.toInt = s.length) :
    stringLength s = c := by
  have hlt := toInt_lt_two_pow c
  apply BitVec.eq_of_toInt_eq
  rw [toInt_stringLength (by omega) rfl, h]

/-! ### The functions as they are called -/

namespace DefaultFunction

/-- What a function that returns an `int` makes of the pointers it gets. -/
def intValue : DefaultFunction → List Data → Option CInt
  | .plus, [.int a, .int b] => RemoteProcedure.plus a b
  | .minus, [.int a, .int b] => RemoteProcedure.minus a b
  | .multiplication, [.int a, .int b] => RemoteProcedure.multiplication a b
  | .division, [.int a, .int b] => RemoteProcedure.division a b
  | .power, [.int a, .int b] => RemoteProcedure.power a b
  | .square, [.int a] => RemoteProcedure.square a
  | .stringLength, [.str s] => some (RemoteProcedure.stringLength s)
  | _, _ => none

/-- What one that returns a string makes of them. -/
def strValue (docString : Option (Block Byte)) : DefaultFunction → List Data → Option CString
  | .documentation, [] => (RemoteProcedure.documentation true docString).toOption.join
  | .concat, [.str s, .str s2] => (RemoteProcedure.concat true s s2).toOption.join
  | .identity, [.str c] => (RemoteProcedure.identity true c).toOption.join
  | _, _ => none

/-- `shutdown` returns nothing. -/
def shutdownValue : List Data → Option Unit
  | [.str _] => some ()
  | _ => none

/-- The value of a function, where C defines one. -/
def value (docString : Option (Block Byte)) (f : DefaultFunction) (args : List Data) :
    Option RpcArg :=
  match f with
  | .documentation => (strValue docString .documentation args).map .str
  | .concat => (strValue docString .concat args).map .str
  | .identity => (strValue docString .identity args).map .str
  | .shutdown => (shutdownValue args).map fun _ => .void
  | f => (f.intValue args).map .int

/-- The function behind its pointer.  A call that C does not define does not come back. -/
def funPtr (docString : Option (Block Byte)) : DefaultFunction → FunPtr
  | .documentation => .strFun fun args => (strValue docString .documentation args).map some
  | .concat => .strFun fun args => (strValue docString .concat args).map some
  | .identity => .strFun fun args => (strValue docString .identity args).map some
  | .shutdown => .voidFun shutdownValue
  | f => .intFun f.intValue

/-- What a function should make of its arguments, with this documentation. -/
inductive Meaning (text : CString) : DefaultFunction → List RpcArg → RpcArg → Prop where
  | documentation : Meaning text .documentation [] (.str text)
  | concat (s s2 : CString) : Meaning text .concat [.str s, .str s2] (.str (s.append s2))
  | identity (c : CString) : Meaning text .identity [.str c] (.str c)
  | shutdown (s : CString) : Meaning text .shutdown [.str s] .void
  | plus {a b c : CInt} (h : c.toInt = a.toInt + b.toInt) :
      Meaning text .plus [.int a, .int b] (.int c)
  | minus {a b c : CInt} (h : c.toInt = a.toInt - b.toInt) :
      Meaning text .minus [.int a, .int b] (.int c)
  | multiplication {a b c : CInt} (h : c.toInt = a.toInt * b.toInt) :
      Meaning text .multiplication [.int a, .int b] (.int c)
  /-- Rounded towards zero. -/
  | division {a b c : CInt} (hb : b ≠ 0) (h : c.toInt = a.toInt.tdiv b.toInt) :
      Meaning text .division [.int a, .int b] (.int c)
  | power {a b c : CInt} (hb : 0 ≤ b.toInt) (h : c.toInt = a.toInt ^ b.toInt.toNat) :
      Meaning text .power [.int a, .int b] (.int c)
  /-- There is no power to speak of. -/
  | powerNegative {a b : CInt} (hb : b.toInt < 0) : Meaning text .power [.int a, .int b] (.int a)
  | square {a c : CInt} (h : c.toInt = a.toInt * a.toInt) :
      Meaning text .square [.int a] (.int c)
  | stringLength {s : CString} {c : CInt} (h : c.toInt = s.length) :
      Meaning text .stringLength [.str s] (.int c)

variable {doc : Block Byte} {text : CString} {f : DefaultFunction} {args : List RpcArg} {v : RpcArg}

/-- Each function computes what it should. -/
theorem value_of_meaning (hdoc : doc.Shows (text.bytes ++ [0])) (h : Meaning text f args v) :
    f.value (some doc) (args.map RpcArg.data) = some v := by
  cases h with
  | documentation => simp [value, strValue, documentation_eq true hdoc, Except.toOption]
  | concat s s2 => simp [value, strValue, RpcArg.data, concat_eq, Except.toOption]
  | identity c => simp [value, strValue, RpcArg.data, identity_eq, Except.toOption]
  | shutdown s => rfl
  | plus h => exact congrArg (Option.map RpcArg.int) (addInt_eq_some_iff.mpr h)
  | minus h => exact congrArg (Option.map RpcArg.int) (subInt_eq_some_iff.mpr h)
  | multiplication h => exact congrArg (Option.map RpcArg.int) (mulInt_eq_some_iff.mpr h)
  | division hb h => exact congrArg (Option.map RpcArg.int) (divInt_eq_some_iff.mpr ⟨hb, h⟩)
  | power hb h =>
    exact congrArg (Option.map RpcArg.int) ((power_of_nonneg hb).trans (exactly_eq_some_iff.mpr h))
  | powerNegative hb => exact congrArg (Option.map RpcArg.int) (power_of_neg hb)
  | square h =>
    exact congrArg (Option.map RpcArg.int) ((square_eq _).trans (mulInt_eq_some_iff.mpr h))
  | stringLength h =>
    exact congrArg (fun c => some (RpcArg.int c)) (stringLength_of_toInt h)

/-- The argument with this pointer, if it is not null. -/
def argOfData : Data → RpcArg
  | .null => .void
  | .int i => .int i
  | .str s => .str s

/-- Pointers that are not null tell what they point to. -/
theorem eq_of_map_data {ds : List Data} (h : args.map RpcArg.data = ds) (hds : .null ∉ ds) :
    args = ds.map argOfData := by
  subst h
  induction args with
  | nil => rfl
  | cons a args ih =>
    have hrest := ih fun hmem => hds (List.mem_cons_of_mem _ hmem)
    rw [List.map_cons, List.map_cons, ← hrest]
    cases a with
    | void => exact absurd List.mem_cons_self hds
    | int i => rfl
    | str s => rfl
    | other typ h => exact absurd List.mem_cons_self hds

theorem meaning_of_intValue (text : CString) {ds : List Data} {c : CInt}
    (h : f.intValue ds = some c) (hds : args.map RpcArg.data = ds)
    (hlen : f = .stringLength → ∀ s, .str s ∈ args → s.length < 2 ^ 31) :
    Meaning text f args (.int c) := by
  unfold intValue at h
  split at h
  · obtain rfl := eq_of_map_data hds (by simp)
    exact .plus (addInt_eq_some_iff.mp h)
  · obtain rfl := eq_of_map_data hds (by simp)
    exact .minus (subInt_eq_some_iff.mp h)
  · obtain rfl := eq_of_map_data hds (by simp)
    exact .multiplication (mulInt_eq_some_iff.mp h)
  · obtain rfl := eq_of_map_data hds (by simp)
    obtain ⟨hb, h⟩ := divInt_eq_some_iff.mp h
    exact .division hb h
  · next a b =>
    obtain rfl := eq_of_map_data hds (by simp)
    rcases Int.lt_or_le b.toInt 0 with hb | hb
    · obtain rfl := Option.some.inj ((power_of_neg hb).symm.trans h)
      exact .powerNegative hb
    · exact .power hb (exactly_eq_some_iff.mp ((power_of_nonneg hb).symm.trans h))
  · obtain rfl := eq_of_map_data hds (by simp)
    exact .square (mulInt_eq_some_iff.mp ((square_eq _).symm.trans h))
  · next s =>
    obtain rfl := eq_of_map_data hds (by simp)
    exact .stringLength (toInt_stringLength (hlen rfl s List.mem_cons_self) (Option.some.inj h))
  · cases h

theorem meaning_of_strValue (hdoc : doc.Shows (text.bytes ++ [0])) {ds : List Data} {c : CString}
    (h : f.strValue (some doc) ds = some c) (hds : args.map RpcArg.data = ds) :
    Meaning text f args (.str c) := by
  unfold strValue at h
  split at h
  · obtain rfl := eq_of_map_data hds (by simp)
    rw [documentation_eq true hdoc] at h
    obtain rfl := Option.some.inj h
    exact .documentation
  · obtain rfl := eq_of_map_data hds (by simp)
    rw [concat_eq] at h
    obtain rfl := Option.some.inj h
    exact .concat _ _
  · obtain rfl := eq_of_map_data hds (by simp)
    rw [identity_eq] at h
    obtain rfl := Option.some.inj h
    exact .identity _
  · cases h

theorem meaning_of_shutdownValue (text : CString) {ds : List Data} {u : Unit}
    (h : shutdownValue ds = some u) (hds : args.map RpcArg.data = ds) :
    Meaning text .shutdown args .void := by
  unfold shutdownValue at h
  split at h
  · obtain rfl := eq_of_map_data hds (by simp)
    exact .shutdown _
  · cases h

/-- **Each function computes what it should**, and nothing where that is not an `int`, or
a division by zero.  The length of a string has to be an `int`. -/
theorem value_eq_some_iff (hdoc : doc.Shows (text.bytes ++ [0]))
    (hlen : f = .stringLength → ∀ s, .str s ∈ args → s.length < 2 ^ 31) :
    f.value (some doc) (args.map RpcArg.data) = some v ↔ Meaning text f args v := by
  refine ⟨?_, value_of_meaning hdoc⟩
  intro h
  unfold value at h
  split at h
  · obtain ⟨c, hc, rfl⟩ := Option.map_eq_some_iff.mp h
    exact meaning_of_strValue hdoc hc rfl
  · obtain ⟨c, hc, rfl⟩ := Option.map_eq_some_iff.mp h
    exact meaning_of_strValue hdoc hc rfl
  · obtain ⟨c, hc, rfl⟩ := Option.map_eq_some_iff.mp h
    exact meaning_of_strValue hdoc hc rfl
  · obtain ⟨u, hu, rfl⟩ := Option.map_eq_some_iff.mp h
    exact meaning_of_shutdownValue text hu rfl
  · obtain ⟨c, hc, rfl⟩ := Option.map_eq_some_iff.mp h
    exact meaning_of_intValue text hc rfl hlen

theorem value_eq_some_iff_power :
    power.value (some [[0]]) ([.int 2, .int 10].map RpcArg.data) = some (.int 1024) ↔
      Meaning (.ofBytes []) .power [.int 2, .int 10] (.int 1024) := by
  have hdoc : Block.Shows [[0]] ((CString.ofBytes []).bytes ++ [0]) := rfl
  exact value_eq_some_iff hdoc fun hno => DefaultFunction.noConfusion hno

end DefaultFunction

end RemoteProcedure
