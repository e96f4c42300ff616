import RemoteProcedure.Request

/-!
# Where the encoder stays inside its block

`serialize_message` stores into a block whose size `arg_size` computed.  An
argument of an undefined type makes `arg_size` return -1, which is added to the
size like any other number; the storing loop finds the undefined type only when
it gets there.  The offset it stores at is an `int`, which wraps to a negative one
close to the largest size.

## Main definitions

* `StoresInside` — no store leaves the block, and a frame is stored throughout.
* `Message.announced` — the bytes the size is computed for.

## Main results

* `storesInside_iff` — **the stores stay inside the block exactly of the messages
  that fit, and of those for which no block can be allocated**.
-/

namespace RemoteProcedure

open Machine

/-- Whatever the allocation does, no store leaves the block, on any path, and
each byte of a block that is returned was stored exactly once. -/
def StoresInside (m : Message) : Prop :=
  ∀ granted, ∃ res, serializeMessage granted (some m) = .ok res ∧
    ∀ blk n, res = some (blk, n) → ∃ l : List Byte, blk = l.map ([·])

/-- The number of bytes the size of a request is computed for. -/
def Message.announced (m : Message) : ℕ :=
  if ∀ a ∈ m.argv, a.Defined then (encodeRequest m).length
  -- the error of `arg_size` takes one off, and the arguments are not counted
  else m.command.length + 8

/-- The size wraps to one that no allocation satisfies. -/
def Message.Unallocatable (m : Message) : Prop :=
  2 ^ 31 ≤ m.announced % 2 ^ 32 ∧ m.announced % 2 ^ 32 + 4 < 2 ^ 32

/-! ### The size -/

/-- An undefined type anywhere makes `arg_size` return -1. -/
theorem argSizeLoop_of_undefined {args : List RpcArg} : (¬ ∀ a ∈ args, a.Defined) →
    ∀ size : CInt, argSizeLoop size args = -1 := by
  induction args with
  | nil =>
    intro h
    exact absurd (fun a ha => absurd ha List.not_mem_nil) h
  | cons a as ih =>
    intro h size
    rw [List.forall_mem_cons] at h
    by_cases ha : a.Defined
    · rw [argSizeLoop_cons ha, ih fun has => h ⟨ha, has⟩]
    · cases a with
      | other typ hother => rfl
      | _ => exact absurd rfl ha

/-- **The size is that of the announced bytes**, modulo the width of an `int`. -/
theorem size_eq_ofNat_announced (m : Message) :
    8 + m.commandLength + 1 + argSize m.argvPtr = BitVec.ofNat 32 m.announced := by
  unfold Message.announced
  split_ifs with hdef
  · exact size_eq_ofNat hdef
  · have hne : m.argv ≠ [] := by
      intro hnil
      rw [hnil] at hdef
      exact hdef fun a ha => absurd ha List.not_mem_nil
    rw [Message.argvPtr, if_neg hne, argSize, argSizeLoop_of_undefined hdef,
      commandLength_eq_ofNat, BitVec.ofNat_add]
    grind

/-- `malloc` gives no block exactly for these sizes. -/
theorem malloc_announced_eq_none_iff (m : Message) :
    malloc (α := Byte) true ((BitVec.ofNat 32 m.announced).toInt + 4) = none ↔
      m.Unallocatable := by
  rw [malloc_eq_none_iff, Message.Unallocatable, BitVec.toInt_eq_toNat_cond, BitVec.toNat_ofNat]
  split <;> omega

/-! ### The stores -/

/-- The loop gives up only at an undefined type. -/
theorem not_defined_of_serializeArgs {args : List RpcArg} : ∀ {blk : Block Byte} {cpt : CInt},
    serializeArgs args blk cpt = .ok none → ¬ ∀ a ∈ args, a.Defined := by
  induction args with
  | nil =>
    intro blk cpt h
    cases h
  | cons a as ih =>
    intro blk cpt h hdef
    rw [List.forall_mem_cons] at hdef
    obtain ⟨ha, has⟩ := hdef
    cases a with
    | void =>
      rw [serializeArgs, Checked.bind_eq_ok] at h
      obtain ⟨blk₁, -, hrest⟩ := h
      exact ih hrest has
    | int i =>
      rw [serializeArgs, Checked.bind_eq_ok] at h
      obtain ⟨blk₁, -, h⟩ := h
      rw [Checked.bind_eq_ok] at h
      obtain ⟨k, -, h⟩ := h
      rw [Checked.bind_eq_ok] at h
      obtain ⟨⟨blk₂, tmp⟩, -, hrest⟩ := h
      exact ih hrest has
    | str s =>
      rw [serializeArgs, Checked.bind_eq_ok] at h
      obtain ⟨blk₁, -, h⟩ := h
      rw [Checked.bind_eq_ok] at h
      obtain ⟨blk₂, -, h⟩ := h
      split at h
      · cases h
      · rw [Checked.bind_eq_ok] at h
        obtain ⟨blk₃, -, hrest⟩ := h
        exact ih hrest has
    | other typ hother => exact RpcArg.not_defined_other typ hother ha

/-- A block is one byte too small for the fields in front of an undefined type. -/
theorem fits_of_malloc {m : Message} {res : Option (Block Byte × CInt)}
    (halloc : ¬ m.Unallocatable) (h : serializeMessage true (some m) = .ok res) : m.Fits := by
  have hsize := size_eq_ofNat_announced m
  rcases serializeMessage_cases h with hmalloc | ⟨blk, filled, hlen, hroom, hargs, -⟩
  · rw [hsize, malloc_announced_eq_none_iff] at hmalloc
    exact absurd hmalloc halloc
  · cases filled with
    | some blk' => exact fits_of_serializeArgs hlen hroom hargs
    | none =>
      have hundef := not_defined_of_serializeArgs hargs
      have hle := toInt_ofNat_le m.announced
      rw [hsize] at hlen
      rw [Message.announced, if_neg hundef] at hle hlen
      push_cast at hle
      omega

/-- **The stores of `serialize_message` stay inside its block** exactly if the
message fits, or if its size wraps to one that is not allocated at all. -/
theorem storesInside_iff (m : Message) : StoresInside m ↔ m.Fits ∨ m.Unallocatable := by
  constructor
  · intro h
    obtain ⟨res, hres, -⟩ := h true
    by_cases halloc : m.Unallocatable
    · exact .inr halloc
    · exact .inl (fits_of_malloc halloc hres)
  · intro h granted
    cases granted with
    | false => exact ⟨none, rfl, fun blk n hsome => nomatch hsome⟩
    | true =>
      rcases h with hfits | halloc
      · refine ⟨_, serializeMessage_of_fits hfits, ?_⟩
        intro blk n hsome
        cases hsome
        exact ⟨requestFrame m, List.append_nil _⟩
      · refine ⟨none, ?_, fun blk n hsome => nomatch hsome⟩
        have hmalloc := (malloc_announced_eq_none_iff m).mpr halloc
        rw [serializeMessage, size_eq_ofNat_announced, hmalloc]

/-- A call with one argument of type 7: its type is stored behind the end of the
block. -/
theorem not_storesInside_seven :
    ∃ m, createMessage allGranted (some .unset) (some (CString.ofBytes [0x66])) rpcTyVoid 1
      (some ⟨[.other 7 (by decide)], by decide⟩) = .ok (.created m) ∧ ¬ StoresInside m := by
  refine ⟨_, rfl, ?_⟩
  intro h
  obtain ⟨res, hres, -⟩ := h true
  cases hres

end RemoteProcedure
