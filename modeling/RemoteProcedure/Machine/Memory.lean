import Mathlib.Data.List.TakeWhile
import RemoteProcedure.Machine.Word

/-!
# Checked memory

A C program reads and writes objects of a known size, some of whose cells have
not been given a value yet.  The operations here make every access that C leaves
undefined a *fault*: a run of a model that returns `.ok` is a run without one.

Two views of an object are kept apart.  A `Buffer` is read: each cell holds a
value or nothing.  A `Block` is written: each cell holds the history of the
values stored there, so that "stored exactly once" can be said of it.

## Main definitions

* `Fault`, `Checked` — what a checked access can do wrong.
* `Buffer.read`, `Buffer.copy`, `Buffer.readInt` — checked reads.
* `Block.store`, `Block.contents` — checked writes, and what they leave; `Block.storeAt`
  takes the offset as an `int`.
* `malloc` — allocation, by the size the caller computed.
* `CString` — a string without a NUL, as a `char *` shows it.

## Main results

* `Buffer.copy_of_drop`, `Buffer.readInt_of_drop` — reading at an offset where a
  field starts gives the field.
* `Block.store_filled_of_le` — storing where the filled prefix ends extends it.
-/

namespace Machine

/-- An access that C does not define. -/
inductive Fault where
  /-- The access leaves the object. -/
  | outOfRange : Fault
  /-- The value of a cell is used before one was stored. -/
  | uninitialised : Fault
  /-- A null pointer is dereferenced. -/
  | nullPointer : Fault
  /-- A length is negative or exceeds what remains: only audited runs ask. -/
  | badLength : Fault
  /-- An assertion fails. -/
  | assertion : Fault
  /-- A function is called through a pointer to functions of another type. -/
  | wrongType : Fault
  /-- An object is used after it was freed. -/
  | freed : Fault
  /-- An operation overflows, or divides by zero. -/
  | arithmetic : Fault
  deriving DecidableEq, Repr

/-- A computation that stops at the first fault. -/
abbrev Checked := Except Fault

namespace Checked

variable {α β : Type}

@[simp] theorem ok_bind (a : α) (f : α → Checked β) : ((.ok a : Checked α) >>= f) = f a := rfl

@[simp] theorem error_bind (e : Fault) (f : α → Checked β) :
    ((.error e : Checked α) >>= f) = .error e := rfl

@[simp] theorem pure_eq (a : α) : (pure a : Checked α) = .ok a := rfl

theorem ok_ne_error (a : α) (e : Fault) : (.ok a : Checked α) ≠ .error e := by
  intro h
  cases h

/-- A sequence succeeds when both its parts do. -/
theorem bind_eq_ok {x : Checked α} {f : α → Checked β} {b : β} :
    (x >>= f) = .ok b ↔ ∃ a, x = .ok a ∧ f a = .ok b := by
  cases x with
  | error e => simp
  | ok a => simp

end Checked

/-! ### Reading -/

/-- An object as a reader sees it; a cell without a value was never stored. -/
abbrev Buffer (α : Type) := List (Option α)

namespace Buffer

variable {α : Type}

/-- The value at an offset. -/
def read (buf : Buffer α) (off : ℕ) : Checked α :=
  match buf[off]? with
  | none => .error .outOfRange
  | some none => .error .uninitialised
  | some (some a) => .ok a

/-- The `n` values from an offset on. -/
def readMany (buf : Buffer α) : (off n : ℕ) → Checked {l : List α // l.length = n}
  | _, 0 => .ok ⟨[], rfl⟩
  | off, n + 1 => do
    let a ← read buf off
    let l ← readMany buf (off + 1) n
    return ⟨a :: l.1, by simp [l.2]⟩

/-- `memcpy` out of a buffer.  A negative length converts to a `size_t` larger
than any object. -/
def copy (buf : Buffer α) (off : ℕ) (len : ℤ) : Checked {l : List α // (l.length : ℤ) = len} :=
  if h : 0 ≤ len then do
    let l ← readMany buf off len.toNat
    return ⟨l.1, by rw [l.2]; omega⟩
  else .error .outOfRange

/-- The `int` stored at an offset. -/
def readInt (buf : Buffer Byte) (off : ℕ) : Checked CInt := do
  let b₀ ← read buf off
  let b₁ ← read buf (off + 1)
  let b₂ ← read buf (off + 2)
  let b₃ ← read buf (off + 3)
  return intOfBytes b₀ b₁ b₂ b₃

/-- An object of `n` cells after `l` was received into it. -/
def received (l : List α) (n : ℕ) : Buffer α := l.map some ++ List.replicate (n - l.length) none

/-- In an audited run, a length that is used must be non-negative and within
what remains of the object. -/
def auditLength (audit : Bool) (len : ℤ) (remaining : ℕ) : Checked Unit :=
  if audit && !(decide (0 ≤ len) && decide (len ≤ remaining)) then .error .badLength else .ok ()

@[simp] theorem auditLength_false (len : ℤ) (remaining : ℕ) :
    auditLength false len remaining = .ok () := rfl

theorem auditLength_of_not {len : ℤ} {remaining : ℕ} (h : ¬ (0 ≤ len ∧ len ≤ remaining)) :
    auditLength true len remaining = .error .badLength := by
  rw [auditLength, ← Bool.decide_and, decide_eq_false h]
  rfl

theorem auditLength_of_le {len : ℤ} {remaining : ℕ} (audit : Bool) (h₀ : 0 ≤ len)
    (h : len ≤ remaining) : auditLength audit len remaining = .ok () := by
  simp [auditLength, h₀, h]

/-! Every read is described by what the buffer holds from its offset on. -/

theorem drop_add {buf a b : Buffer α} {off k : ℕ} (h : buf.drop off = a ++ b)
    (hk : a.length = k) : buf.drop (off + k) = b := by
  subst hk
  rw [← List.drop_drop, h, List.drop_left]

theorem drop_succ {buf rest : Buffer α} {c : Option α} {off : ℕ} (h : buf.drop off = c :: rest) :
    buf.drop (off + 1) = rest :=
  drop_add (a := [c]) h rfl

/-- Behind the first of some cells are the others. -/
theorem drop_cells {t : List α} {buf rest : Buffer α} {off k : ℕ}
    (h : buf.drop off = t.map some ++ rest) (hk : k ≤ t.length) :
    buf.drop (off + k) = (t.drop k).map some ++ rest := by
  rw [← List.drop_drop, h, List.drop_append_of_le_length (by rwa [List.length_map]), List.map_drop]

theorem read_eq_drop (buf : Buffer α) (off k : ℕ) : read buf (off + k) = read (buf.drop off) k := by
  unfold read
  rw [List.getElem?_drop]

theorem read_of_drop {buf rest : Buffer α} {a : α} {off : ℕ} (h : buf.drop off = some a :: rest) :
    read buf off = .ok a := by
  have := read_eq_drop buf off 0
  rw [h] at this
  exact this

/-- What reading the first of the cells does wrong, if it does. -/
def endFault : Buffer α → Option Fault
  | [] => some .outOfRange
  | none :: _ => some .uninitialised
  | some _ :: _ => none

theorem read_of_end {buf rest : Buffer α} {off : ℕ} {e : Fault} (h : buf.drop off = rest)
    (hend : endFault rest = some e) : read buf off = .error e := by
  have hread := read_eq_drop buf off 0
  rw [Nat.add_zero, h] at hread
  rw [hread]
  cases rest with
  | nil => cases hend; rfl
  | cons c rest =>
    cases c with
    | none => cases hend; rfl
    | some a => cases hend

theorem readMany_of_drop (l : List α) {n : ℕ} (hn : l.length = n) :
    ∀ {buf rest : Buffer α} {off : ℕ}, buf.drop off = l.map some ++ rest →
      readMany buf off n = .ok ⟨l, hn⟩ := by
  subst hn
  induction l with
  | nil => intro buf rest off _; rfl
  | cons a l ih =>
    intro buf rest off h
    have hread : read buf off = .ok a := read_of_drop h
    have htail := ih (drop_succ h)
    simp only [List.length_cons, readMany, hread, htail]
    rfl

/-- **Copying a field gives the field.** -/
theorem copy_of_drop {l : List α} {len : ℤ} (hlen : (l.length : ℤ) = len) {buf rest : Buffer α}
    {off : ℕ} (h : buf.drop off = l.map some ++ rest) : copy buf off len = .ok ⟨l, hlen⟩ := by
  have hmany := readMany_of_drop l (n := len.toNat) (by omega) h
  rw [copy, dif_pos (by omega), hmany]
  rfl

/-- As many cells as are there can be copied. -/
theorem copy_of_le {t : List α} {buf rest : Buffer α} {off : ℕ} {n : ℤ}
    (h : buf.drop off = t.map some ++ rest) (hlo : 0 ≤ n) (hhi : n ≤ t.length) :
    ∃ l : { l : List α // (l.length : ℤ) = n }, buf.copy off n = .ok l := by
  have hlen : (t.take n.toNat).length = n.toNat := List.length_take_of_le (by omega)
  have hcells : buf.drop off =
      (t.take n.toNat).map some ++ ((t.drop n.toNat).map some ++ rest) := by
    rw [← List.append_assoc, ← List.map_append, List.take_append_drop, h]
  exact ⟨⟨t.take n.toNat, by omega⟩, copy_of_drop (by omega) hcells⟩

theorem readInt_of_cells {b₀ b₁ b₂ b₃ : Byte} {buf rest : Buffer Byte} {off : ℕ}
    (h : buf.drop off = some b₀ :: some b₁ :: some b₂ :: some b₃ :: rest) :
    readInt buf off = .ok (intOfBytes b₀ b₁ b₂ b₃) := by
  have h₁ := drop_succ h
  have h₂ := drop_succ h₁
  have h₃ := drop_succ h₂
  rw [readInt, read_of_drop h, read_of_drop h₁, read_of_drop h₂, read_of_drop h₃]
  rfl

/-- **Reading an `int` field gives the field.** -/
theorem readInt_of_drop {i : CInt} {buf rest : Buffer Byte} {off : ℕ}
    (h : buf.drop off = (intBytes i).map some ++ rest) : readInt buf off = .ok i :=
  (readInt_of_cells h).trans (congrArg Except.ok (intOfBytes_intBytes i))

end Buffer

/-! Where the object ends, or a cell without a value follows, no read gets past. -/

namespace Buffer

variable {α : Type} {e : Fault}

theorem readMany_of_end (l : List α) : ∀ {n : ℕ} {buf rest : Buffer α} {off : ℕ}, l.length < n →
    buf.drop off = l.map some ++ rest → endFault rest = some e →
      readMany buf off n = .error e := by
  induction l with
  | nil =>
    intro n buf rest off hn h hend
    obtain ⟨n, rfl⟩ : ∃ n', n = n' + 1 := ⟨n - 1, by rw [List.length_nil] at hn; omega⟩
    rw [readMany, read_of_end h hend]
    rfl
  | cons a l ih =>
    intro n buf rest off hn h hend
    obtain ⟨n, rfl⟩ : ∃ n', n = n' + 1 := ⟨n - 1, by rw [List.length_cons] at hn; omega⟩
    rw [readMany, read_of_drop h, Checked.ok_bind,
      ih (by rw [List.length_cons] at hn; omega) (drop_succ h) hend]
    rfl

theorem copy_of_end {l : List α} {len : ℤ} (hlen : (l.length : ℤ) < len) {buf rest : Buffer α}
    {off : ℕ} (h : buf.drop off = l.map some ++ rest) (hend : endFault rest = some e) :
    copy buf off len = .error e := by
  rw [copy, dif_pos (by omega), readMany_of_end l (by omega) h hend]
  rfl

theorem readInt_of_end {l : List Byte} (hl : l.length < 4) {buf rest : Buffer Byte} {off : ℕ}
    (h : buf.drop off = l.map some ++ rest) (hend : endFault rest = some e) :
    readInt buf off = .error e := by
  match l, hl with
  | [], _ => rw [readInt, read_of_end h hend]; rfl
  | [b₀], _ =>
    have h₁ := drop_succ h
    rw [readInt, read_of_drop h, read_of_end h₁ hend]; rfl
  | [b₀, b₁], _ =>
    have h₁ := drop_succ h
    have h₂ := drop_succ h₁
    rw [readInt, read_of_drop h, read_of_drop h₁, read_of_end h₂ hend]; rfl
  | [b₀, b₁, b₂], _ =>
    have h₁ := drop_succ h
    have h₂ := drop_succ h₁
    have h₃ := drop_succ h₂
    rw [readInt, read_of_drop h, read_of_drop h₁, read_of_drop h₂, read_of_end h₃ hend]; rfl

/-- What was copied lies inside the cells. -/
theorem le_of_copy {t : List α} {buf rest : Buffer α} {off : ℕ} {n : ℤ}
    {l : { l : List α // (l.length : ℤ) = n }} (h : buf.drop off = t.map some ++ rest)
    (hend : endFault rest = some e) (hcopy : buf.copy off n = .ok l) : 0 ≤ n ∧ n ≤ t.length := by
  have hlen := l.2
  refine ⟨by omega, ?_⟩
  by_contra hlong
  rw [copy_of_end (by omega) h hend] at hcopy
  cases hcopy

/-- An `int` that was read lies inside the cells. -/
theorem cells_of_readInt {t : List Byte} {buf rest : Buffer Byte} {off : ℕ} {n : CInt}
    (h : buf.drop off = t.map some ++ rest) (hend : endFault rest = some e)
    (hread : readInt buf off = .ok n) :
    ∃ b₀ b₁ b₂ b₃ t', t = b₀ :: b₁ :: b₂ :: b₃ :: t' ∧ n = intOfBytes b₀ b₁ b₂ b₃ := by
  rcases t with _ | ⟨b₀, _ | ⟨b₁, _ | ⟨b₂, _ | ⟨b₃, t⟩⟩⟩⟩
  iterate 4
    rw [readInt_of_end (by simp) h hend] at hread
    cases hread
  rw [readInt_of_cells h] at hread
  cases hread
  exact ⟨b₀, b₁, b₂, b₃, t, rfl, rfl⟩

/-- An object in which less was received than it has room for has a hole. -/
theorem drop_received {l : List α} {n : ℕ} (h : l.length < n) :
    (received l n).drop 0 = l.map some ++ none :: List.replicate (n - l.length - 1) none := by
  rw [List.drop_zero, received, ← List.replicate_succ, Nat.sub_add_cancel (by omega)]

end Buffer

/-! ### Writing -/

/-- An object as a writer sees it: each cell lists the values stored in it, in
order, and a cell never stored has an empty list. -/
abbrev Block (α : Type) := List (List α)

namespace Block

variable {α : Type}

/-- Store one value. -/
def storeOne (blk : Block α) (off : ℕ) (a : α) : Checked (Block α) :=
  if off < blk.length then .ok (blk.modify off (· ++ [a])) else .error .outOfRange

/-- Store a run of values from an offset on: `memcpy` into the object. -/
def store (blk : Block α) (off : ℕ) : List α → Checked (Block α)
  | [] => .ok blk
  | a :: l => do
    let blk ← storeOne blk off a
    store blk (off + 1) l

/-- The cell behind a pointer to the object and an `int`; before its start there is none. -/
def place (cpt : CInt) : Checked ℕ :=
  if cpt.toInt < 0 then .error .outOfRange else .ok cpt.toInt.toNat

/-- A store at an `int` offset; one of no value leaves no trace. -/
def storeAt (blk : Block α) (cpt : CInt) : List α → Checked (Block α)
  | [] => .ok blk
  | a :: l => do
    store blk (← place cpt) (a :: l)

/-- The values an object holds, when every cell has one. -/
def contents (blk : Block α) : Option (List α) := blk.mapM List.getLast?

/-- The object whose first cells were stored once, with `l`, and whose last `k`
cells were not stored. -/
def filled (l : List α) (k : ℕ) : Block α := l.map ([·]) ++ List.replicate k []

@[simp] theorem length_filled (l : List α) (k : ℕ) : (filled l k).length = l.length + k := by
  simp [filled]

theorem filled_nil (k : ℕ) : filled ([] : List α) k = List.replicate k [] := rfl

/-- Cells stored once hold what was stored. -/
@[simp] theorem contents_map (l : List α) : contents (l.map ([·])) = some l := by
  induction l with
  | nil => rfl
  | cons a l ih =>
    simp only [contents, List.map_cons, List.mapM_cons] at ih ⊢
    rw [ih]
    rfl

@[simp] theorem contents_filled (l : List α) : contents (filled l 0) = some l := by
  rw [filled, List.replicate_zero, List.append_nil, contents_map]

theorem length_storeOne {blk blk' : Block α} {off : ℕ} {a : α}
    (h : storeOne blk off a = .ok blk') : blk'.length = blk.length ∧ off < blk.length := by
  unfold storeOne at h
  split at h
  · next hlt =>
    obtain rfl := Except.ok.inj h
    exact ⟨List.length_modify .., hlt⟩
  · cases h

/-- A run that was stored fits, and stores do not change the size. -/
theorem length_store {l : List α} : ∀ {blk blk' : Block α} {off : ℕ},
    store blk off l = .ok blk' →
      blk'.length = blk.length ∧ (l ≠ [] → off + l.length ≤ blk.length) := by
  induction l with
  | nil =>
    intro blk blk' off h
    obtain rfl := Except.ok.inj h
    exact ⟨rfl, fun hne => absurd rfl hne⟩
  | cons a l ih =>
    intro blk blk' off h
    rw [store, Checked.bind_eq_ok] at h
    obtain ⟨blk₁, h₁, h₂⟩ := h
    obtain ⟨hlen₁, hlt⟩ := length_storeOne h₁
    obtain ⟨hlen, hfit⟩ := ih h₂
    refine ⟨hlen.trans hlen₁, ?_⟩
    intro _
    cases l with
    | nil => simp only [List.length_singleton]; omega
    | cons b l =>
      have := hfit (List.cons_ne_nil b l)
      simp only [List.length_cons] at this ⊢
      omega

/-- Storing into an untouched cell in the middle of an object. -/
theorem storeOne_middle (pre post : Block α) (a : α) :
    storeOne (pre ++ [] :: post) pre.length a = .ok (pre ++ [a] :: post) := by
  have hlt : pre.length < (pre ++ [] :: post).length := by simp
  rw [storeOne, if_pos hlt, List.modify_eq_take_cons_drop hlt]
  simp [List.drop_append]

theorem store_middle (l : List α) : ∀ (pre post : Block α),
    store (pre ++ (List.replicate l.length [] ++ post)) pre.length l =
      .ok (pre ++ (l.map ([·]) ++ post)) := by
  induction l with
  | nil => intro pre post; rfl
  | cons a l ih =>
    intro pre post
    have hrest := ih (pre ++ [[a]]) post
    simp only [List.length_append, List.length_singleton, List.append_assoc,
      List.singleton_append] at hrest
    rw [store, List.length_cons, List.replicate_succ, List.cons_append, storeOne_middle]
    exact hrest

theorem store_filled (l₁ l₂ : List α) (k : ℕ) :
    store (filled l₁ (l₂.length + k)) l₁.length l₂ = .ok (filled (l₁ ++ l₂) k) := by
  have := store_middle l₂ (l₁.map ([·])) (List.replicate k [])
  simp only [List.length_map] at this
  simp only [filled, ← List.replicate_append_replicate, List.map_append, List.append_assoc, this]

/-- **Storing where the filled prefix ends extends it**, when there is room. -/
theorem store_filled_of_le {l₁ l₂ : List α} {off n : ℕ} (hoff : l₁.length = off)
    (hn : l₂.length ≤ n) :
    store (filled l₁ n) off l₂ = .ok (filled (l₁ ++ l₂) (n - l₂.length)) := by
  subst hoff
  obtain ⟨k, rfl⟩ := Nat.exists_eq_add_of_le hn
  rw [store_filled, Nat.add_sub_cancel_left]

theorem place_ofNat {n : ℕ} (h : n < 2 ^ 31) : place (BitVec.ofNat 32 n) = .ok n := by
  have hint := toInt_ofNat_of_lt h
  rw [place, if_neg (by omega), hint, Int.toNat_natCast]

/-- An offset that has wrapped points in front of the object. -/
theorem lt_of_place {n k : ℕ} (hn : n < 2 ^ 32) (h : place (BitVec.ofNat 32 n) = .ok k) :
    n < 2 ^ 31 ∧ k = n := by
  by_cases hlt : n < 2 ^ 31
  · exact ⟨hlt, Except.ok.inj (h.symm.trans (place_ofNat hlt))⟩
  · have hneg : (BitVec.ofNat 32 n).toInt < 0 := by
      rw [BitVec.toInt_eq_toNat_cond, BitVec.toNat_ofNat]
      split <;> omega
    rw [place, if_pos hneg] at h
    cases h

/-- At an offset that an `int` holds it is a store as any other. -/
theorem storeAt_ofNat {blk : Block α} {l : List α} {n : ℕ} (h : l ≠ [] → n < 2 ^ 31) :
    storeAt blk (BitVec.ofNat 32 n) l = store blk n l := by
  cases l with
  | nil => rfl
  | cons a l =>
    rw [storeAt, place_ofNat (h (List.cons_ne_nil a l))]
    rfl

/-- No other offset is stored at. -/
theorem store_of_storeAt {blk blk' : Block α} {l : List α} {n : ℕ} (hn : n < 2 ^ 32)
    (h : storeAt blk (BitVec.ofNat 32 n) l = .ok blk') :
    (l ≠ [] → n < 2 ^ 31) ∧ store blk n l = .ok blk' := by
  cases l with
  | nil => exact ⟨fun hne => absurd rfl hne, h⟩
  | cons a l =>
    rw [storeAt, Checked.bind_eq_ok] at h
    obtain ⟨k, hk, h⟩ := h
    obtain ⟨hlt, rfl⟩ := lt_of_place hn hk
    exact ⟨fun _ => hlt, h⟩

/-- What was stored had room, as had the offset in an `int`. -/
theorem length_storeAt {blk blk' : Block α} {l : List α} {n : ℕ} (hn : n < 2 ^ 32)
    (h : storeAt blk (BitVec.ofNat 32 n) l = .ok blk') :
    blk'.length = blk.length ∧ (l ≠ [] → n + l.length ≤ blk.length ∧ n < 2 ^ 31) := by
  obtain ⟨hlt, hstore⟩ := store_of_storeAt hn h
  obtain ⟨hlen, hfit⟩ := length_store hstore
  exact ⟨hlen, fun hne => ⟨hfit hne, hlt hne⟩⟩

theorem length_storeAt_one {blk blk' : Block α} {a : α} {n : ℕ} (hn : n < 2 ^ 32)
    (h : storeAt blk (BitVec.ofNat 32 n) [a] = .ok blk') :
    blk'.length = blk.length ∧ n + 1 ≤ blk.length ∧ n < 2 ^ 31 := by
  obtain ⟨hlen, hfit⟩ := length_storeAt hn h
  exact ⟨hlen, hfit (List.cons_ne_nil a [])⟩

theorem storeAt_filled_of_le {l₁ l₂ : List α} {off n : ℕ} (hoff : l₁.length = off)
    (hlt : l₂ ≠ [] → off < 2 ^ 31) (hn : l₂.length ≤ n) :
    storeAt (filled l₁ n) (BitVec.ofNat 32 off) l₂ =
      .ok (filled (l₁ ++ l₂) (n - l₂.length)) := by
  rw [storeAt_ofNat hlt, store_filled_of_le hoff hn]

end Block

/-- Does `malloc` succeed on a size computed in C's arithmetic.  A negative size
is converted to a `size_t` above `PTRDIFF_MAX`, which no allocation satisfies;
otherwise the allocator decides. -/
def mallocSucceeds (granted : Bool) (size : ℤ) : Bool := granted && decide (0 ≤ size)

/-- `malloc`: the block, none of whose cells is stored, or the null pointer. -/
def malloc {α : Type} (granted : Bool) (size : ℤ) : Option (Block α) :=
  if mallocSucceeds granted size then some (Block.filled [] size.toNat) else none

theorem mallocSucceeds_of_nonneg {size : ℤ} (h : 0 ≤ size) : mallocSucceeds true size = true := by
  simp [mallocSucceeds, h]

theorem malloc_of_nonneg {α : Type} {size : ℤ} (h : 0 ≤ size) :
    malloc (α := α) true size = some (Block.filled [] size.toNat) := by
  rw [malloc, if_pos (mallocSucceeds_of_nonneg h)]

theorem malloc_eq_none_iff {α : Type} {size : ℤ} :
    malloc (α := α) true size = none ↔ size < 0 := by
  rw [malloc, mallocSucceeds, Bool.true_and]
  split_ifs with h
  · exact iff_of_false not_false (by simpa using h)
  · exact iff_of_true rfl (by simpa using h)

theorem length_of_malloc {α : Type} {granted : Bool} {size : ℤ} {blk : Block α}
    (h : malloc granted size = some blk) : (blk.length : ℤ) = size := by
  unfold malloc at h
  split at h
  · next hok =>
    obtain rfl := Option.some.inj h
    simp only [mallocSucceeds, Bool.and_eq_true, decide_eq_true_eq] at hok
    rw [Block.length_filled, List.length_nil, zero_add]
    omega
  · cases h

/-! ### Strings -/

/-- A string as a `char *` shows it: the bytes before the first NUL. -/
structure CString where
  /-- The bytes, without the terminating NUL. -/
  bytes : List Byte
  /-- None of them ends the string. -/
  nulFree : 0 ∉ bytes
  deriving DecidableEq, Repr

namespace CString

/-- The string at the start of a byte array. -/
def ofBytes (l : List Byte) : CString where
  bytes := l.takeWhile (· ≠ 0)
  nulFree := fun h => by simpa using List.mem_takeWhile_imp h

/-- `strlen`. -/
def length (s : CString) : ℕ := s.bytes.length

@[ext] theorem ext {s t : CString} (h : s.bytes = t.bytes) : s = t := by
  cases s; cases t; cases h; rfl

theorem length_ofBytes_le (l : List Byte) : (ofBytes l).length ≤ l.length :=
  (List.takeWhile_prefix _).length_le

theorem ofBytes_of_nulFree {l : List Byte} (h : 0 ∉ l) : (ofBytes l).bytes = l := by
  rw [ofBytes, List.takeWhile_eq_self_iff]
  intro b hb
  simpa using fun hb0 : b = 0 => h (hb0 ▸ hb)

@[simp] theorem ofBytes_bytes (s : CString) : ofBytes s.bytes = s :=
  ext (ofBytes_of_nulFree s.nulFree)

end CString

end Machine
