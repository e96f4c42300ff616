import RemoteProcedure.Machine.Memory

/-!
# Storing at a moving cursor

A text is put together by storing a piece, moving the cursor on, and storing the
next piece there.  How far the cursor moves is computed apart from the piece, so
it may stop short of its end, and the next piece goes over the rest.

## Main definitions

* `Put`, `putAll` — one such store, and a sequence of them.
* `putText` — the text that is left of a sequence.
* `putExtent` — how far its stores reach.
* `Block.Shows` — the values the first cells of an object hold.

## Main results

* `putAll_of_extent` — **with room for the extent the stores leave the text**.
* `extent_le_of_putAll` — without, one of them leaves the object.
-/

namespace Machine

variable {α : Type}

/-- A store at the cursor, and by how much the cursor then moves. -/
structure Put (α : Type) where
  bytes : List α
  advance : ℕ
  deriving DecidableEq, Repr

/-- A store after which the cursor moves behind what was stored. -/
def Put.whole (bytes : List α) : Put α := ⟨bytes, bytes.length⟩

/-- Make the stores one after the other, from a cursor on. -/
def putAll : List (Put α) → (blk : Block α) → (cpt : ℕ) → Checked (Block α × ℕ)
  | [], blk, cpt => .ok (blk, cpt)
  | p :: ps, blk, cpt => do
    let blk ← blk.store cpt p.bytes
    putAll ps blk (cpt + p.advance)

/-- What is left between the cursors. -/
def putText (ps : List (Put α)) : List α := ps.flatMap fun p => p.bytes.take p.advance

/-- How far behind the first cursor the stores reach. -/
def putExtent : List (Put α) → ℕ
  | [] => 0
  | p :: ps => max p.bytes.length (p.advance + putExtent ps)

/-- The cursor never moves beyond what was stored. -/
def Contiguous (ps : List (Put α)) : Prop := ∀ p ∈ ps, p.advance ≤ p.bytes.length

@[simp] theorem putText_nil : putText ([] : List (Put α)) = [] := rfl

@[simp] theorem putText_cons (p : Put α) (ps : List (Put α)) :
    putText (p :: ps) = p.bytes.take p.advance ++ putText ps := List.flatMap_cons

@[simp] theorem putText_append (ps qs : List (Put α)) :
    putText (ps ++ qs) = putText ps ++ putText qs := List.flatMap_append

theorem whole_of_length {l : List α} {n : ℕ} (h : l.length = n) : ⟨l.take n, n⟩ = Put.whole l := by
  subst h
  rw [List.take_length]
  rfl

theorem contiguous_cons {p : Put α} {ps : List (Put α)} :
    Contiguous (p :: ps) ↔ p.advance ≤ p.bytes.length ∧ Contiguous ps := List.forall_mem_cons

theorem contiguous_append {ps qs : List (Put α)} :
    Contiguous (ps ++ qs) ↔ Contiguous ps ∧ Contiguous qs := List.forall_mem_append

theorem putExtent_append {ps : List (Put α)} (hps : Contiguous ps) (qs : List (Put α)) :
    putExtent (ps ++ qs) = max (putExtent ps) ((putText ps).length + putExtent qs) := by
  induction ps with
  | nil => simp [putExtent]
  | cons p ps ih =>
    obtain ⟨hp, hps⟩ := contiguous_cons.mp hps
    rw [List.cons_append, putExtent, putExtent, ih hps, putText_cons, List.length_append,
      List.length_take_of_le hp]
    omega

/-! Where the cursor always moves behind what was stored, the pieces are the text. -/

theorem contiguous_map_whole (ls : List (List α)) : Contiguous (ls.map Put.whole) := by
  intro p hp
  obtain ⟨l, -, rfl⟩ := List.mem_map.mp hp
  exact Nat.le_refl _

theorem putText_map_whole (ls : List (List α)) : putText (ls.map Put.whole) = ls.flatten := by
  induction ls with
  | nil => rfl
  | cons l ls ih =>
    rw [List.map_cons, putText_cons, ih, List.flatten_cons]
    exact congrArg (· ++ ls.flatten) List.take_length

theorem putExtent_map_whole (ls : List (List α)) :
    putExtent (ls.map Put.whole) = ls.flatten.length := by
  induction ls with
  | nil => rfl
  | cons l ls ih =>
    rw [List.map_cons, putExtent, ih, List.flatten_cons, List.length_append]
    exact max_eq_right (Nat.le_add_right _ _)

namespace Block

/-- The first cells of an object hold these values. -/
def Shows (blk : Block α) (l : List α) : Prop := (blk.take l.length).map List.getLast? = l.map some

theorem shows_nil (blk : Block α) : blk.Shows [] := rfl

theorem Shows.of_append {blk : Block α} {l l' : List α} (h : blk.Shows (l ++ l')) :
    blk.Shows l := by
  have htake := congrArg (List.take l.length) h
  rwa [← List.map_take, List.take_take, List.map_append, List.length_append,
    Nat.min_eq_left (Nat.le_add_right _ _), List.take_left' (List.length_map _)] at htake

/-- Storing one value behind those that are held. -/
theorem Shows.storeOne {blk : Block α} {l : List α} (h : blk.Shows l) (a : α)
    (hroom : l.length < blk.length) :
    ∃ blk', blk.storeOne l.length a = .ok blk' ∧ blk'.length = blk.length ∧
      blk'.Shows (l ++ [a]) := by
  refine ⟨_, if_pos hroom, List.length_modify .., ?_⟩
  have htake : (blk.take l.length).length = l.length := List.length_take_of_le (Nat.le_of_lt hroom)
  have hcells : ((blk.modify l.length (· ++ [a])).take (l ++ [a]).length) =
      blk.take l.length ++ [blk[l.length] ++ [a]] := by
    rw [List.modify_eq_take_cons_drop hroom, List.length_append, List.length_singleton,
      List.take_append, htake, Nat.add_sub_cancel_left,
      List.take_of_length_le (by rw [htake]; omega)]
    rfl
  rw [Shows, hcells, List.map_append, h, List.map_append]
  simp

/-- **Storing a run behind the values that are held.** -/
theorem Shows.store (l' : List α) : ∀ {blk : Block α} {l : List α}, blk.Shows l →
    l.length + l'.length ≤ blk.length →
      ∃ blk', blk.store l.length l' = .ok blk' ∧ blk'.length = blk.length ∧
        blk'.Shows (l ++ l') := by
  induction l' with
  | nil =>
    intro blk l h _
    exact ⟨blk, rfl, rfl, by rwa [List.append_nil]⟩
  | cons a l' ih =>
    intro blk l h hroom
    rw [List.length_cons] at hroom
    obtain ⟨blk₁, h₁, hlen₁, hshows₁⟩ := h.storeOne a (by omega)
    have hlen : (l ++ [a]).length = l.length + 1 := by simp
    obtain ⟨blk₂, h₂, hlen₂, hshows₂⟩ := ih hshows₁ (by omega)
    refine ⟨blk₂, ?_, hlen₂.trans hlen₁, by rwa [List.append_assoc] at hshows₂⟩
    rw [Block.store, h₁, Checked.ok_bind, ← hlen, h₂]

theorem contents_eq_some_iff {blk : Block α} : ∀ {l : List α},
    blk.contents = some l ↔ blk.map List.getLast? = l.map some := by
  induction blk with
  | nil =>
    intro l
    cases l with
    | nil => exact iff_of_true rfl rfl
    | cons a l => simp [contents]
  | cons c blk ih =>
    intro l
    rw [contents, List.mapM_cons]
    cases l with
    | nil => simp [Option.bind_eq_some_iff]
    | cons a l =>
      rw [contents] at ih
      simp [Option.bind_eq_some_iff, ih]

/-- An object that shows as many values as it has cells holds those. -/
theorem Shows.contents {blk : Block α} {l : List α} (h : blk.Shows l)
    (hlen : blk.length = l.length) : blk.contents = some l := by
  rw [contents_eq_some_iff, ← h, List.take_of_length_le (Nat.le_of_eq hlen)]

end Block

/-- **With room for the extent the stores leave the text**, behind what was held. -/
theorem putAll_of_extent {ps : List (Put α)} : Contiguous ps → ∀ {blk : Block α} {l : List α},
    blk.Shows l → l.length + putExtent ps ≤ blk.length →
      ∃ blk', putAll ps blk l.length = .ok (blk', (l ++ putText ps).length) ∧
        blk'.length = blk.length ∧ blk'.Shows (l ++ putText ps) := by
  induction ps with
  | nil =>
    intro _ blk l h _
    refine ⟨blk, ?_, rfl, ?_⟩
    · rw [putText_nil, List.append_nil]
      rfl
    · rwa [putText_nil, List.append_nil]
  | cons p ps ih =>
    intro hps blk l h hroom
    obtain ⟨hp, hps⟩ := contiguous_cons.mp hps
    rw [putExtent] at hroom
    obtain ⟨blk₁, h₁, hlen₁, hshows₁⟩ := h.store p.bytes (by omega)
    -- what is behind the cursor stays, and may be stored over
    rw [← List.take_append_drop p.advance p.bytes, ← List.append_assoc] at hshows₁
    have hkept : blk₁.Shows (l ++ p.bytes.take p.advance) := hshows₁.of_append
    have hcursor : (l ++ p.bytes.take p.advance).length = l.length + p.advance := by
      rw [List.length_append, List.length_take_of_le hp]
    obtain ⟨blk₂, h₂, hlen₂, hshows₂⟩ := ih hps hkept (by omega)
    rw [List.append_assoc, ← putText_cons] at h₂ hshows₂
    refine ⟨blk₂, ?_, hlen₂.trans hlen₁, hshows₂⟩
    rw [putAll, h₁, Checked.ok_bind, ← hcursor, h₂]

/-- **Stores that stay in the object have room for their extent**, and leave the
cursor behind the text. -/
theorem extent_le_of_putAll {ps : List (Put α)} : Contiguous ps → ∀ {blk blk' : Block α}
    {cpt cpt' : ℕ}, cpt ≤ blk.length → putAll ps blk cpt = .ok (blk', cpt') →
      cpt + putExtent ps ≤ blk.length ∧ blk'.length = blk.length ∧
        cpt' = cpt + (putText ps).length := by
  induction ps with
  | nil =>
    intro _ blk blk' cpt cpt' hcpt h
    cases h
    exact ⟨hcpt, rfl, rfl⟩
  | cons p ps ih =>
    intro hps blk blk' cpt cpt' hcpt h
    obtain ⟨hp, hps⟩ := contiguous_cons.mp hps
    rw [putAll, Checked.bind_eq_ok] at h
    obtain ⟨blk₁, h₁, h⟩ := h
    obtain ⟨hlen₁, hfit₁⟩ := Block.length_store h₁
    have hend : cpt + p.bytes.length ≤ blk.length := by
      rcases eq_or_ne p.bytes [] with hnil | hne
      · rw [hnil]
        exact hcpt
      · exact hfit₁ hne
    obtain ⟨hroom, hlen, rfl⟩ := ih hps (by omega) h
    rw [putExtent, putText_cons, List.length_append, List.length_take_of_le hp]
    omega

end Machine
