import RemoteProcedure.Machine.Cursor

/-!
# Strings in memory

A string is read from an object up to its NUL, whatever lies behind it.  `strcpy` and
`strcat` do not know how large the object is that they store into.

## Main definitions

* `Block.text` — the bytes of an object in front of its first NUL.
* `strlen`, `strcpy`, `strcat` — the functions of the same names.
* `copyTo` — a string that is copied and read back.
* `CString.append` — a string behind another.

## Main results

* `strcpy_of_room`, `strcat_of_room` — **with room for the NUL the string is stored.**
* `text_of_shows` — and is read back.
-/

namespace Machine

namespace Block

/-- The bytes in front of the first NUL. -/
def text : Block Byte → Checked (List Byte)
  | [] => .error .outOfRange
  | cell :: blk =>
    match cell.getLast? with
    | none => .error .uninitialised
    | some c => if c = 0 then .ok [] else do
      let l ← text blk
      return c :: l

/-- The object as a `char *` shows it. -/
def string (blk : Block Byte) : Checked CString := do
  let l ← blk.text
  return .ofBytes l

end Block

/-- `strlen`. -/
def strlen (blk : Block Byte) : Checked ℕ := do
  let l ← blk.text
  return l.length

/-- `strcpy`. -/
def strcpy (dest : Block Byte) (src : CString) : Checked (Block Byte) :=
  dest.store 0 (src.bytes ++ [0])

/-- `strcat`. -/
def strcat (dest : Block Byte) (src : CString) : Checked (Block Byte) := do
  let n ← strlen dest
  dest.store n (src.bytes ++ [0])

/-- A string copied to a block of so many bytes, as it is read there. -/
def copyTo (n : ℕ) (src : CString) : Checked CString := do
  let dest ← strcpy (Block.filled [] n) src
  dest.string

/-- A string behind another. -/
def CString.append (s t : CString) : CString where
  bytes := s.bytes ++ t.bytes
  nulFree h := (List.mem_append.mp h).elim s.nulFree t.nulFree

@[simp] theorem CString.length_append (s t : CString) :
    (s.append t).length = s.length + t.length := List.length_append

/-- A block of the size that was asked for. -/
theorem exists_malloc (size : ℕ) : ∃ blk : Block Byte, malloc true size = some blk ∧
    blk.length = size := by
  have hmalloc := malloc_of_nonneg (α := Byte) (Int.natCast_nonneg size)
  have hlen := length_of_malloc hmalloc
  exact ⟨_, hmalloc, by omega⟩

/-- **What is in front of the NUL is read.** -/
theorem text_of_shows {l : List Byte} (hl : 0 ∉ l) : ∀ {blk : Block Byte},
    blk.Shows (l ++ [0]) → blk.text = .ok l := by
  induction l with
  | nil =>
    intro blk h
    cases blk with
    | nil => cases h
    | cons cell blk =>
      have hcell : cell.getLast? = some 0 := (List.cons.inj h).1
      simp [Block.text, hcell]
  | cons c l ih =>
    intro blk h
    have hc : c ≠ 0 := fun hc => hl (hc ▸ List.mem_cons_self)
    have hl : 0 ∉ l := fun hmem => hl (List.mem_cons_of_mem c hmem)
    cases blk with
    | nil => cases h
    | cons cell blk =>
      obtain ⟨hcell, hrest⟩ := List.cons.inj h
      have htext := ih hl hrest
      simp only [Block.text, hcell, htext, if_neg hc, Checked.ok_bind, Checked.pure_eq]

theorem string_of_shows {s : CString} {blk : Block Byte} (h : blk.Shows (s.bytes ++ [0])) :
    blk.string = .ok s := by
  simp [Block.string, text_of_shows s.nulFree h]

/-- **With room for the NUL the string is stored.** -/
theorem strcpy_of_room {dest : Block Byte} {src : CString} (h : src.length < dest.length) :
    ∃ dest', strcpy dest src = .ok dest' ∧ dest'.length = dest.length ∧
      dest'.Shows (src.bytes ++ [0]) := by
  have hroom : ([] : List Byte).length + (src.bytes ++ [0]).length ≤ dest.length := by
    rw [List.length_append]
    exact (Nat.zero_add _).trans_le h
  exact (Block.shows_nil dest).store _ hroom

theorem copyTo_of_room {n : ℕ} {src : CString} (h : src.length < n) : copyTo n src = .ok src := by
  obtain ⟨dest, hcpy, -, hshows⟩ :=
    strcpy_of_room (show src.length < (Block.filled ([] : List Byte) n).length by simpa using h)
  simp [copyTo, hcpy, string_of_shows hshows]

/-- **With room for both strings the second is stored behind the first.** -/
theorem strcat_of_room {dest : Block Byte} {s src : CString} (hs : dest.Shows (s.bytes ++ [0]))
    (h : s.length + src.length < dest.length) :
    ∃ dest', strcat dest src = .ok dest' ∧ dest'.length = dest.length ∧
      dest'.Shows ((s.append src).bytes ++ [0]) := by
  have hroom : s.bytes.length + (src.bytes ++ [0]).length ≤ dest.length := by
    rw [List.length_append]
    exact h
  obtain ⟨dest', hstore, hlen, hshows⟩ := hs.of_append.store _ hroom
  refine ⟨dest', ?_, hlen, ?_⟩
  · have hend : strlen dest = .ok s.bytes.length := by
      simp [strlen, text_of_shows s.nulFree hs]
    rw [strcat, hend]
    exact hstore
  · rwa [← List.append_assoc] at hshows

end Machine
