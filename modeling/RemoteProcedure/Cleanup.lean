import RemoteProcedure.Data

/-!
# Cleaning up a message

The labels `fail` of `deserialize_message` and of `create_message`, and
`free_message`, free the blocks of a message.  Each walks the slots up to `argc`
and looks at the pointer of each.  To look at a pointer that was never assigned is
a fault, and so is to free a block twice.

## Main definitions

* `freeSlots` — the loop, with the number of slots it moves on by.
* `deserializeFail`, `createFail`, `freeMessage` — the three clean-ups, as the
  blocks they free.
* `RawMessage.owned` — the blocks a message has.
* `FreesExactly` — a clean-up ends, and has freed each of these blocks once and no
  other.

## Main results

* `freesExactly_deserializeFail_iff` — **the clean-up of a request is exact when no
  slot was left unassigned.**
* `not_freesExactly_createFail` — that of a new message never is, when it has slots.
-/

namespace RemoteProcedure

open Machine

/-! ### The three clean-ups -/

/-- The loop over the slots, from slot `cpt` on; without a result when the fuel is
used up. -/
def freeSlots (stride : ℕ) (slots : List (Ptr Unit)) (argc : CInt) :
    (fuel cpt : ℕ) → (freed : List MsgBlock) → Option (Checked (List MsgBlock))
  | 0, _, _ => none
  | fuel + 1, cpt, freed =>
    if cpt < argc.toInt then
      match slots[cpt]? with
      | none => some (.error .outOfRange)
      | some .junk => some (.error .uninitialised)
      | some .null => freeSlots stride slots argc fuel (cpt + stride) freed
      | some (.own _) =>
        if .data cpt ∈ freed then some (.error .freed)
        else freeSlots stride slots argc fuel (cpt + stride) (freed ++ [.data cpt])
    else some (.ok freed)

/-- The tests of the pointers `command` and `argv`, and the loop between them. -/
def failPath (stride fuel : ℕ) (argc : Option CInt) (raw : RawMessage) :
    Option (Checked (List MsgBlock)) :=
  match raw.command with
  | .junk => some (.error .uninitialised)
  | command =>
    let freed := if command = .null then [] else [.command]
    match raw.argv with
    | .junk => some (.error .uninitialised)
    | .null => some (.ok freed)
    | .own slots =>
      match argc with
      | none => some (.error .uninitialised)
      | some argc => (freeSlots stride slots argc fuel 0 freed).map (·.map (· ++ [.argv]))

/-- The label `fail` of `deserialize_message`. -/
def deserializeFail (fuel : ℕ) (raw : RawMessage) : Option (Checked (List MsgBlock)) :=
  failPath 1 fuel raw.argc raw

/-- The label `fail` of `create_message`: the loop does not count `cpt` on. -/
def createFail (fuel : ℕ) (argc : CInt) (raw : RawMessage) : Option (Checked (List MsgBlock)) :=
  failPath 0 fuel (some argc) raw

/-- `free_message`, which frees a null pointer as it is. -/
def freeMessage (fuel : ℕ) (raw : RawMessage) : Option (Checked (List MsgBlock)) :=
  match raw.command, raw.argc with
  | .junk, _ => some (.error .uninitialised)
  | _, none => some (.error .uninitialised)
  | command, some argc =>
    let freed := if command = .null then [] else [.command]
    match raw.argv with
    | .junk => some (.error .uninitialised)
    | .null => if 0 < argc.toInt then some (.error .nullPointer) else some (.ok freed)
    | .own slots => (freeSlots 1 slots argc fuel 0 freed).map (·.map (· ++ [.argv]))

/-! ### The blocks of a message -/

/-- The blocks of the slots, from slot `i` on. -/
def ownedData (i : ℕ) : List (Ptr Unit) → List MsgBlock
  | [] => []
  | .own _ :: ps => .data i :: ownedData (i + 1) ps
  | _ :: ps => ownedData (i + 1) ps

/-- The blocks a message has. -/
def RawMessage.owned (raw : RawMessage) : List MsgBlock :=
  (match raw.command with
    | .own _ => [.command]
    | _ => []) ++
  match raw.argv with
  | .own slots => .argv :: ownedData 0 slots
  | _ => []

/-- With enough fuel the clean-up ends without a fault, and has freed each of these
blocks once, and no other. -/
def FreesExactly (cleanUp : ℕ → Option (Checked (List MsgBlock))) (owned : List MsgBlock) : Prop :=
  ∃ fuel freed, cleanUp fuel = some (.ok freed) ∧ freed.Nodup ∧ freed.Perm owned

theorem le_of_mem_ownedData {b : MsgBlock} {slots : List (Ptr Unit)} : ∀ {i : ℕ},
    b ∈ ownedData i slots → ∃ j, i ≤ j ∧ b = .data j := by
  induction slots with
  | nil =>
    intro i h
    cases h
  | cons p ps ih =>
    intro i h
    have hrest : b ∈ ownedData (i + 1) ps → ∃ j, i ≤ j ∧ b = .data j := by
      intro hmem
      obtain ⟨j, hj, hb⟩ := ih hmem
      exact ⟨j, Nat.le_of_succ_le hj, hb⟩
    cases p with
    | junk => exact hrest h
    | null => exact hrest h
    | own u =>
      rcases List.mem_cons.mp h with rfl | h
      · exact ⟨i, Nat.le_refl i, rfl⟩
      · exact hrest h

theorem nodup_ownedData (slots : List (Ptr Unit)) : ∀ i : ℕ, (ownedData i slots).Nodup := by
  induction slots with
  | nil => exact fun _ => List.nodup_nil
  | cons p ps ih =>
    intro i
    cases p with
    | junk => exact ih (i + 1)
    | null => exact ih (i + 1)
    | own u =>
      refine List.nodup_cons.mpr ⟨?_, ih (i + 1)⟩
      intro h
      obtain ⟨j, hj, hb⟩ := le_of_mem_ownedData h
      cases hb
      exact Nat.lt_irrefl i hj

/-- No block is listed twice. -/
theorem nodup_owned (raw : RawMessage) : raw.owned.Nodup := by
  have hargv : ∀ slots : List (Ptr Unit), (.argv :: ownedData 0 slots).Nodup := by
    intro slots
    refine List.nodup_cons.mpr ⟨?_, nodup_ownedData slots 0⟩
    intro h
    obtain ⟨j, -, hb⟩ := le_of_mem_ownedData h
    cases hb
  have hcommand : ∀ slots : List (Ptr Unit), (.command :: .argv :: ownedData 0 slots).Nodup := by
    intro slots
    refine List.nodup_cons.mpr ⟨?_, hargv slots⟩
    intro h
    obtain ⟨j, -, hb⟩ := le_of_mem_ownedData (List.mem_of_ne_of_mem (by decide) h)
    cases hb
  rcases raw with ⟨_ | _ | _, argc, _ | _ | slots⟩
  · exact List.nodup_nil
  · exact List.nodup_nil
  · exact hargv slots
  · exact List.nodup_nil
  · exact List.nodup_nil
  · exact hargv slots
  · exact List.pairwise_singleton _ _
  · exact List.pairwise_singleton _ _
  · exact hcommand slots

/-- What frees the blocks of a message frees none of them twice. -/
theorem freesExactly_of_perm {cleanUp : ℕ → Option (Checked (List MsgBlock))} {fuel : ℕ}
    {freed : List MsgBlock} {raw : RawMessage} (h : cleanUp fuel = some (.ok freed))
    (hperm : freed.Perm raw.owned) : FreesExactly cleanUp raw.owned :=
  ⟨fuel, freed, h, hperm.nodup_iff.mpr (nodup_owned raw), hperm⟩

/-! ### The loop -/

/-- **A loop that counts on ends, and frees the blocks of the slots**, when each of
them was assigned. -/
theorem freeSlots_of_assigned {rest : List (Ptr Unit)} : ∀ (front : List (Ptr Unit))
    {slots : List (Ptr Unit)} {argc : CInt} {fuel : ℕ} {freed : List MsgBlock},
      slots = front ++ rest → .junk ∉ rest → slots.length = argc.toInt.toNat →
      rest.length < fuel → (∀ j, front.length ≤ j → .data j ∉ freed) →
        freeSlots 1 slots argc fuel front.length freed =
          some (.ok (freed ++ ownedData front.length rest)) := by
  induction rest with
  | nil =>
    intro front slots argc fuel freed hslots _ hlen hfuel _
    obtain ⟨fuel, rfl⟩ := Nat.exists_eq_succ_of_ne_zero (Nat.ne_of_gt hfuel)
    rw [List.append_nil] at hslots
    subst hslots
    rw [freeSlots, if_neg (by omega), ownedData, List.append_nil]
  | cons p ps ih =>
    intro front slots argc fuel freed hslots hjunk hlen hfuel hfreed
    obtain ⟨fuel, rfl⟩ := Nat.exists_eq_succ_of_ne_zero (Nat.ne_of_gt (Nat.zero_lt_of_lt hfuel))
    have hroom := congrArg List.length hslots
    simp only [List.length_append, List.length_cons] at hroom hfuel
    have hslot : slots[front.length]? = some p := by
      rw [hslots, List.getElem?_append_right (Nat.le_refl _), Nat.sub_self]
      rfl
    have hnext : slots = (front ++ [p]) ++ ps := by
      rw [hslots, List.append_assoc, List.singleton_append]
    have hfront : (front ++ [p]).length = front.length + 1 := List.length_append
    simp only [List.mem_cons, not_or] at hjunk
    rw [freeSlots, if_pos (by omega), hslot]
    cases p with
    | junk => exact absurd rfl hjunk.1
    | null =>
      simp only
      rw [← hfront, ih _ hnext hjunk.2 hlen (by omega) fun j hj => hfreed j (by omega), hfront]
      rfl
    | own u =>
      simp only [if_neg (hfreed _ (Nat.le_refl _))]
      rw [← hfront, ih _ hnext hjunk.2 hlen (by omega), hfront, ownedData, List.append_assoc,
        List.singleton_append]
      intro j hj hmem
      rcases List.mem_append.mp hmem with hmem | hmem
      · exact hfreed j (by omega) hmem
      · cases List.mem_singleton.mp hmem
        omega

/-- A loop that counts on ends in any case. -/
theorem isSome_freeSlots {slots : List (Ptr Unit)} {argc : CInt} {fuel : ℕ} :
    ∀ {cpt : ℕ} {freed : List MsgBlock}, argc.toInt ≤ (cpt + fuel : ℕ) →
      (freeSlots 1 slots argc (fuel + 1) cpt freed).isSome := by
  induction fuel with
  | zero =>
    intro cpt freed h
    rw [freeSlots, if_neg (by omega)]
    rfl
  | succ fuel ih =>
    intro cpt freed h
    rw [freeSlots]
    by_cases hcpt : cpt < argc.toInt
    · rw [if_pos hcpt]
      split
      · rfl
      · rfl
      · exact ih (by omega)
      · split_ifs
        · rfl
        · exact ih (by omega)
    · rw [if_neg hcpt]
      rfl

/-- **A loop that ends without a fault has found every slot assigned.** -/
theorem assigned_of_freeSlots {slots : List (Ptr Unit)} {argc : CInt}
    {freed' : List MsgBlock} {fuel : ℕ} : ∀ {cpt : ℕ} {freed : List MsgBlock},
      freeSlots 1 slots argc fuel cpt freed = some (.ok freed') →
        ∀ j, cpt ≤ j → j < argc.toInt.toNat → slots[j]? ≠ some .junk := by
  induction fuel with
  | zero =>
    intro cpt freed h
    cases h
  | succ fuel ih =>
    intro cpt freed h j hj hlt
    rw [freeSlots, if_pos (by omega)] at h
    have hnext : ∀ freed, freeSlots 1 slots argc fuel (cpt + 1) freed = some (.ok freed') →
        slots[cpt]? ≠ some .junk → slots[j]? ≠ some .junk := by
      intro freed h hcpt
      rcases Nat.eq_or_lt_of_le hj with rfl | hj
      · exact hcpt
      · exact ih h j hj hlt
    split at h
    · cases h
    · cases h
    · next hslot => exact hnext _ h (by rw [hslot]; simp)
    · next hslot =>
      split_ifs at h with hdouble
      · cases h
      · exact hnext _ h (by rw [hslot]; simp)

/-- **A loop that does not count on never ends without a fault.** -/
theorem freeSlots_stuck {slots : List (Ptr Unit)} {argc : CInt} {cpt : ℕ} (h : cpt < argc.toInt)
    {freed' : List MsgBlock} {fuel : ℕ} : ∀ {freed : List MsgBlock},
      freeSlots 0 slots argc fuel cpt freed ≠ some (.ok freed') := by
  induction fuel with
  | zero =>
    intro freed hend
    cases hend
  | succ fuel ih =>
    intro freed hend
    rw [freeSlots, if_pos h] at hend
    split at hend
    · cases hend
    · cases hend
    · exact ih hend
    · split_ifs at hend with hdouble
      · cases hend
      · exact ih hend

/-! ### The clean-ups -/

/-- `free_message` ends, with the fuel that its slots take. -/
theorem isSome_freeMessage {raw : RawMessage} {fuel : ℕ}
    (h : ∀ argc slots, raw.argc = some argc → raw.argv = .own slots → argc.toInt ≤ fuel) :
    (freeMessage (fuel + 1) raw).isSome := by
  unfold freeMessage
  split
  · rfl
  · rfl
  · next argc hargc _ =>
    simp only
    split
    · rfl
    · split_ifs <;> rfl
    · next slots hargv =>
      rw [Option.isSome_map]
      exact isSome_freeSlots (by have := h argc slots hargc hargv; omega)

section

variable {slots : List (Ptr Unit)} {argc : CInt}

/-- A message all of whose slots are assigned is freed as a whole. -/
theorem freeSlots_eq_owned (hlen : slots.length = argc.toInt.toNat) (hjunk : .junk ∉ slots) :
    (freeSlots 1 slots argc (slots.length + 1) 0 [.command]).map (·.map (· ++ [.argv])) =
      some (.ok (.command :: ownedData 0 slots ++ [.argv])) := by
  have hloop : freeSlots 1 slots argc (slots.length + 1) 0 [.command] = _ :=
    freeSlots_of_assigned [] (List.nil_append slots).symm hjunk hlen (Nat.lt_succ_self _) (by simp)
  rw [hloop]
  rfl

/-- What goes on behind the loop goes on when the loop ended without a fault. -/
theorem exists_of_map_ok {r : Option (Checked (List MsgBlock))} {freed : List MsgBlock}
    (h : r.map (·.map (· ++ [.argv])) = some (.ok freed)) : ∃ freed₁, r = some (.ok freed₁) := by
  obtain ⟨res, rfl, hok⟩ := Option.map_eq_some_iff.mp h
  cases res with
  | error e => cases hok
  | ok freed₁ => exact ⟨freed₁, rfl⟩

theorem junk_notMem_of_freeSlots (hlen : slots.length = argc.toInt.toNat) {fuel : ℕ}
    {freed freed' : List MsgBlock}
    (h : (freeSlots 1 slots argc fuel 0 freed).map (·.map (· ++ [.argv])) = some (.ok freed')) :
    .junk ∉ slots := by
  intro hmem
  obtain ⟨freed₁, hloop⟩ := exists_of_map_ok h
  obtain ⟨j, hj, hjunk⟩ := List.mem_iff_getElem.mp hmem
  apply assigned_of_freeSlots hloop j (Nat.zero_le _) (by omega)
  rw [List.getElem?_eq_getElem hj, hjunk]

/-- **The clean-up of a request with slots is exact if and only if no slot was left
unassigned.** -/
theorem freesExactly_deserializeFail_iff (hlen : slots.length = argc.toInt.toNat) :
    FreesExactly (fun fuel => deserializeFail fuel ⟨.own (), some argc, .own slots⟩)
      (RawMessage.owned ⟨.own (), some argc, .own slots⟩) ↔ .junk ∉ slots := by
  constructor
  · rintro ⟨fuel, freed, h, -⟩
    exact junk_notMem_of_freeSlots hlen h
  · intro hjunk
    have hend : deserializeFail (slots.length + 1) ⟨.own (), some argc, .own slots⟩ =
        some (.ok (.command :: ownedData 0 slots ++ [.argv])) := freeSlots_eq_owned hlen hjunk
    exact freesExactly_of_perm hend ((List.perm_append_singleton _ _).cons _)

/-- With a command and slots, `free_message` does what that clean-up does. -/
theorem freeMessage_eq_deserializeFail (fuel : ℕ) :
    freeMessage fuel ⟨.own (), some argc, .own slots⟩ =
      deserializeFail fuel ⟨.own (), some argc, .own slots⟩ := rfl

theorem freesExactly_freeMessage_iff (hlen : slots.length = argc.toInt.toNat) :
    FreesExactly (fun fuel => freeMessage fuel ⟨.own (), some argc, .own slots⟩)
      (RawMessage.owned ⟨.own (), some argc, .own slots⟩) ↔ .junk ∉ slots := by
  simp only [freeMessage_eq_deserializeFail]
  exact freesExactly_deserializeFail_iff hlen

/-- **The clean-up of a new message with slots is never exact.** -/
theorem not_freesExactly_createFail (hargc : 0 < argc.toInt) (raw : RawMessage)
    (hargv : raw.argv = .own slots) (owned : List MsgBlock) :
    ¬ FreesExactly (fun fuel => createFail fuel argc raw) owned := by
  rintro ⟨fuel, freed, h, -⟩
  rcases raw with ⟨command, argc', argv⟩
  obtain rfl : argv = .own slots := hargv
  -- the null pointer and a block of the command lead to the same loop
  cases command with
  | junk => cases h
  | null =>
    obtain ⟨freed₁, hloop⟩ := exists_of_map_ok h
    exact freeSlots_stuck hargc hloop
  | own u =>
    obtain ⟨freed₁, hloop⟩ := exists_of_map_ok h
    exact freeSlots_stuck hargc hloop

end

end RemoteProcedure
