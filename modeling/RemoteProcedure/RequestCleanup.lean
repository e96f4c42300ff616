import RemoteProcedure.Cleanup
import RemoteProcedure.RequestLength

/-!
# Where a rejected request is cleaned up

`deserialize_message` jumps to `fail` from five places.  There it walks all the
slots that were announced, whichever of them it got to, and looks at `argv` even
when it never came to assign it.

## Main definitions

* `argsBuilt` — the bytes behind some arguments, when these could be built.
* `FailsAtLast` — the request fails for want of a block for all the arguments, or
  for the last of them.

## Main results

* `junk_notMem_iff` — the slots a failed loop leaves are all assigned exactly if it
  failed so.
* `freesExactly_iff_failsAtLast` — **a rejected request is cleaned up exactly, when
  it fails there and nowhere else.**
-/

namespace RemoteProcedure

open Machine

/-! ### What the loop has built -/

/-- The bytes behind the first `n` arguments, if these lie inside the bytes and each
has its block. -/
def argsBuilt (alloc : MsgBlock → Bool) : (n i : ℕ) → List Byte → Option (List Byte)
  | 0, _, t => some t
  | n + 1, i, t =>
    match scanArg t with
    | .field skip _ width =>
      if SlotGranted alloc i t ∧ skip + width ≤ t.length then
        argsBuilt alloc n (i + 1) (t.drop (skip + width))
      else none
    | _ => none

/-- Of the last of `n` arguments the type is defined, and those in front of it are
built. -/
def LastDefined (alloc : MsgBlock → Bool) (n i : ℕ) (t : List Byte) : Prop :=
  ∃ typ t', argsBuilt alloc (n - 1) i t = some (typ :: t') ∧ typeExists typ = true

/-- The number of the arguments and their bytes, if what is in front of them lies
inside the bytes and the command has its block. -/
def headerBuilt (alloc : MsgBlock → Bool) : List Byte → Option (CInt × List Byte)
  | b₀ :: b₁ :: b₂ :: b₃ :: t =>
    let commandLength := intOfBytes b₀ b₁ b₂ b₃
    if mallocSucceeds (alloc .command) (commandLength + 1).toInt = true ∧
        0 ≤ commandLength.toInt then
      match t.drop commandLength.toInt.toNat with
      | _ :: c₀ :: c₁ :: c₂ :: c₃ :: t' => some (intOfBytes c₀ c₁ c₂ c₃, t')
      | _ => none
    else none
  | _ => none

/-- The command of a request has its block; but there is none for the array of the
arguments, or else all the arguments but the last are built, and the type of the
last is defined. -/
def FailsAtLast (alloc : MsgBlock → Bool) (bytes : List Byte) : Prop :=
  ∃ argc t, headerBuilt alloc bytes = some (argc, t) ∧
    (alloc .argv = false ∨ LastDefined alloc argc.toInt.toNat 0 t)

section

variable {alloc : MsgBlock → Bool} {buf rest : Buffer Byte} {n i cpt : ℕ} {t : List Byte}
  {e : Fault}

@[simp] theorem argsBuilt_zero : argsBuilt alloc 0 i t = some t := rfl

theorem argsBuilt_of_field {skip width : ℕ} {len : ℤ} (hscan : scanArg t = .field skip len width)
    (hgranted : SlotGranted alloc i t) (hroom : skip + width ≤ t.length) (n : ℕ) :
    argsBuilt alloc (n + 1) i t = argsBuilt alloc n (i + 1) (t.drop (skip + width)) := by
  simp [argsBuilt, hscan, hgranted, hroom]

theorem argsBuilt_of_denied (h : ¬ SlotGranted alloc i t ∨ scanArg t = .negative) (n : ℕ) :
    argsBuilt alloc (n + 1) i t = none := by
  rcases h with hdenied | hscan
  · cases hscan : scanArg t <;> simp [argsBuilt, hscan, hdenied]
  · simp [argsBuilt, hscan]

theorem argsBuilt_of_undefined (h : scanArg t = .undefined) (n : ℕ) :
    argsBuilt alloc (n + 1) i t = none := by
  simp [argsBuilt, h]

theorem typeExists_of_undefined {typ : Byte} (h : scanArg (typ :: t) = .undefined) :
    typeExists typ = false := by
  obtain ⟨typ', t', ht, hvoid, hint, hstr⟩ := scanArg_eq_undefined h
  cases ht
  rw [← Bool.not_eq_true, typeExists_iff, not_or, not_or]
  exact ⟨hvoid, hint, hstr⟩

/-- **A loop that fails leaves no slot unassigned exactly if it fails at the last
one, whose type is defined.** -/
theorem junk_notMem_iff (n : ℕ) : ∀ {i cpt : ℕ} {t : List Byte} {slots : List (Ptr Unit)},
    buf.drop cpt = t.map some ++ rest → Buffer.endFault rest = some e →
      decodeArgs false alloc buf n i cpt = .ok (.fail slots) →
        slots.length = n ∧ (.junk ∉ slots ↔ LastDefined alloc n i t) := by
  induction n with
  | zero =>
    intro i cpt t slots _ _ hfail
    cases hfail
  | succ n ih =>
    intro i cpt t slots h hend hfail
    generalize hr : DecodedArgs.fail slots = r at hfail
    cases round_cases h hend hfail with
    | built hscan hroom hgranted hp a hrest =>
      rename_i r'
      cases r' with
      | done as cpt' => cases hr
      | fail slots' =>
        cases hr
        obtain ⟨hlen, hiff⟩ := ih (Buffer.drop_cells h hroom) hend hrest
        -- the slot that failed is behind this one
        obtain ⟨m, rfl⟩ : ∃ m, n = m + 1 := by
          cases n with
          | zero => cases hrest
          | succ m => exact ⟨m, rfl⟩
        simp [hlen, hiff, LastDefined, argsBuilt_of_field hscan hgranted hroom, hp.symm]
    | denied hdefined hdenied =>
      obtain ⟨typ, t', rfl, htype⟩ := hdefined
      cases hr
      cases n with
      | zero => simp [nullSlot, LastDefined, htype]
      | succ m => simp [nullSlot, LastDefined, argsBuilt_of_denied hdenied]
    | undefined hscan =>
      cases hr
      refine ⟨List.length_replicate, iff_of_false (by simp) ?_⟩
      rintro ⟨typ, t', hbuilt, htype⟩
      cases n with
      | zero =>
        cases hbuilt
        rw [typeExists_of_undefined hscan] at htype
        cases htype
      | succ m =>
        rw [Nat.add_sub_cancel, argsBuilt_of_undefined hscan] at hbuilt
        cases hbuilt

/-! ### The header -/

/-- A header that was read is built. -/
theorem headerBuilt_of_reads {bytes : List Byte} {commandLength argc : CInt} {returnType : Byte}
    {command : { l : List Byte // (l.length : ℤ) = commandLength.toInt }}
    (h : buf = bytes.map some ++ rest) (hend : Buffer.endFault rest = some e)
    (hreads : HeaderReads buf commandLength command returnType argc)
    (hgranted : mallocSucceeds (alloc .command) (commandLength + 1).toInt = true) :
    ∃ t, headerBuilt alloc bytes = some (argc, t) ∧
      buf.drop (4 + command.1.length + 5) = t.map some ++ rest := by
  obtain ⟨b₀, b₁, b₂, b₃, t, c₀, c₁, c₂, c₃, t', rfl, hn, hlength, ht, rfl, hfields⟩ :=
    header_of_reads h hend hreads
  have hlen : commandLength.toInt.toNat = command.1.length := by
    have := command.2
    omega
  refine ⟨t', ?_, hfields⟩
  rw [headerBuilt]
  simp only [← hn, hgranted, hlength.1, and_self, if_true, hlen, ht]

/-- Without a block for the command it is not. -/
theorem headerBuilt_of_denied {bytes : List Byte} {commandLength : CInt}
    (h : buf = bytes.map some ++ rest) (hend : Buffer.endFault rest = some e)
    (hread : buf.readInt 0 = .ok commandLength)
    (hdenied : mallocSucceeds (alloc .command) (commandLength + 1).toInt = false) :
    headerBuilt alloc bytes = none := by
  have h₀ : buf.drop 0 = bytes.map some ++ rest := h
  obtain ⟨b₀, b₁, b₂, b₃, t, rfl, rfl⟩ := Buffer.cells_of_readInt h₀ hend hread
  rw [headerBuilt]
  simp only [hdenied, Bool.false_eq_true, false_and, if_false]

end

/-! ### The requests that are rejected -/

/-- **A request that takes the way of `fail` is cleaned up exactly, in finitely many
steps, if and only if it fails for want of the array or at its last argument, for
want of a block.** -/
theorem freesExactly_iff_failsAtLast (size : CInt) {alloc : MsgBlock → Bool} {body : List Byte}
    {spare : Option Byte} {raw : RawMessage}
    (hfail : deserializeMessage false alloc (some .unset) size (some (body.map some ++ [spare])) =
      .ok (.failed raw)) :
    FreesExactly (fun fuel => deserializeFail fuel raw) raw.owned ↔
      FailsAtLast alloc (body ++ spare.toList) := by
  obtain ⟨rest, e, hcells, hend⟩ := cells_eq body spare
  generalize hd : Decoded.failed raw = d at hfail
  cases walk_cases hfail with
  | noCommand commandLength hdenied hread =>
    cases hd
    refine iff_of_false ?_ ?_
    · -- `argv` was not assigned
      rintro ⟨fuel, freed, h, -⟩
      cases h
    · rintro ⟨argc, t, hheader, -⟩
      rw [headerBuilt_of_denied hcells hend hread hdenied] at hheader
      cases hheader
  | noArgv hreads hgranted hargc hdenied =>
    cases hd
    obtain ⟨t, hheader, -⟩ := headerBuilt_of_reads hcells hend hreads hgranted
    have hend : ∀ argc, deserializeFail 0 ⟨.own (), some argc, .null⟩ = some (.ok [.command]) :=
      fun _ => rfl
    exact iff_of_true (freesExactly_of_perm (hend _) (List.Perm.refl _))
      ⟨_, t, hheader, .inl hdenied⟩
  | failed hreads hgranted hargv hargs =>
    cases hd
    obtain ⟨t, hheader, hfields⟩ := headerBuilt_of_reads hcells hend hreads hgranted
    obtain ⟨hlen, hiff⟩ := junk_notMem_iff _ hfields hend hargs
    rw [freesExactly_deserializeFail_iff hlen, hiff, FailsAtLast]
    simp only [hheader, Option.some.injEq, Prod.mk.injEq]
    constructor
    · intro hlast
      exact ⟨_, _, ⟨rfl, rfl⟩, .inr hlast⟩
    · rintro ⟨_, _, ⟨rfl, rfl⟩, hdenied | hlast⟩
      · -- then there is no argument that could fail
        have hzero : ¬ _ := fun hpos => hargv ⟨hpos, hdenied⟩
        rw [Int.toNat_of_nonpos (Int.not_lt.mp hzero)] at hargs
        cases hargs
      · exact hlast
  | done _ _ => cases hd

/-- A call of "f" with one string, for which there is no block. -/
theorem freesExactly_iff_failsAtLast_f :
    ∃ raw, deserializeMessage false (fun b => b ≠ .data 0) (some .unset) 13
      (some ([1, 0, 0, 0, 0x66, 0, 1, 0, 0, 0, 2, 1, 0x61].map some ++ [none])) =
        .ok (.failed raw) ∧
      (FreesExactly (fun fuel => deserializeFail fuel raw) raw.owned ↔
        FailsAtLast (fun b => b ≠ .data 0)
          ([1, 0, 0, 0, 0x66, 0, 1, 0, 0, 0, 2, 1, 0x61] ++ (none : Option Byte).toList)) :=
  ⟨_, rfl, freesExactly_iff_failsAtLast 13 rfl⟩

/-- A call of "f" with one argument of type 7, and all the blocks it asks for: the
slot of the argument is looked at. -/
theorem not_freesExactly_seven :
    ∃ raw, deserializeMessage false allGranted (some .unset) 11
      (some ([1, 0, 0, 0, 0x66, 0, 1, 0, 0, 0, 7].map some ++ [none])) = .ok (.failed raw) ∧
      ¬ FreesExactly (fun fuel => deserializeFail fuel raw) raw.owned := by
  refine ⟨_, rfl, ?_⟩
  rintro ⟨fuel, freed, h, -⟩
  cases fuel <;> cases h

end RemoteProcedure
