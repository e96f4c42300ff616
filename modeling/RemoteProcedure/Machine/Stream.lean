import RemoteProcedure.Machine.Memory

/-!
# Byte streams

A stream socket keeps the order of what is sent and nothing else: how much one
`recv` returns is up to the system.  The sequence of its decisions is part of
the socket here, so that a statement about every way a stream may be cut is a
statement about every such sequence.

## Main definitions

* `send` — one `send` of a block.
* `Socket` — what the peer sends before it closes, and the cuts to come.
* `Socket.recv`, `Socket.recvInto` — one `recv`, and one into an object.
* `Socket.ReadsWhole` — successive reads return all they ask for, or fail.
-/

namespace Machine

/-- `send` of as many values of a block as an `int` says: those that were sent,
or nothing when the call fails.  It fails on a null pointer, or as the system
decides. -/
def send {α : Type} (accepted : Bool) (blk : Option (Block α)) (size : Option CInt) :
    Checked (Option (List α)) :=
  match blk, size with
  | _, none => .error .uninitialised
  | none, some _ => .ok none
  | some blk, some size =>
    if accepted = false then .ok none
    else if sizeT size.toInt ≤ blk.length then
      match Block.contents (blk.take (sizeT size.toInt)) with
      | some l => .ok (some l)
      | none => .error .uninitialised
    else .error .outOfRange

/-- A block whose size is given right is sent as it is. -/
theorem send_of_contents {α : Type} {blk : Block α} {l : List α} {size : CInt}
    (h : blk.contents = some l) (hsize : size.toInt = blk.length) :
    send true (some blk) (some size) = .ok (some l) := by
  have hlt := toInt_lt_two_pow size
  have hlen : sizeT size.toInt = blk.length := by
    rw [hsize, sizeT_of_nonneg (by omega) (by omega)]
    omega
  rw [send, if_neg (by decide), hlen, if_pos (Nat.le_refl _), List.take_length, h]

/-- What the system decides for one `recv`. -/
inductive Cut where
  /-- At most `k + 1` values are returned. -/
  | chunk (k : ℕ) : Cut
  | error : Cut
  deriving DecidableEq, Repr

/-- The reading end of a connection. -/
structure Socket (α : Type) where
  /-- What the peer sends, all of it, before it closes. -/
  pending : List α
  /-- The decisions to come; after the last, nothing is cut. -/
  cuts : List Cut

namespace Socket

variable {α : Type}

/-- `recv`: nothing on an error, the empty list when the peer has closed. -/
def recv (sock : Socket α) (len : ℕ) : Option (List α) × Socket α :=
  match sock.cuts with
  | [] => (some (sock.pending.take len), ⟨sock.pending.drop len, []⟩)
  | .error :: cuts => (none, ⟨sock.pending, cuts⟩)
  | .chunk k :: cuts =>
    (some (sock.pending.take (min (k + 1) len)), ⟨sock.pending.drop (min (k + 1) len), cuts⟩)

/-- `recv` of up to `len` values into an object of `size` cells. -/
def recvInto (sock : Socket α) (len size : ℕ) : Checked (Option (Buffer α) × Socket α) :=
  match sock.recv len with
  | (none, sock) => .ok (none, sock)
  | (some l, sock) =>
    if l.length ≤ size then .ok (some (Buffer.received l size), sock) else .error .outOfRange

/-- How many values successive reads return; a failure ends the reading. -/
def readLengths (sock : Socket α) : List ℕ → List (Option ℕ)
  | [] => []
  | len :: lens =>
    match sock.recv len with
    | (none, _) => [none]
    | (some l, sock) => some l.length :: sock.readLengths lens

/-- Successive reads return all they ask for, up to a failure. -/
def ReadsWhole (sock : Socket α) : List ℕ → Prop
  | [] => True
  | len :: lens =>
    match sock.recv len with
    | (none, _) => True
    | (some l, sock) => l.length = len ∧ sock.ReadsWhole lens

/-- A `recv` fails because of a cut, or splits what is pending. -/
theorem recv_cases (sock : Socket α) (len : ℕ) :
    (∃ sock', sock.recv len = (none, sock') ∧ .error ∈ sock.cuts) ∨
    ∃ l sock', sock.recv len = (some l, sock') ∧ sock.pending = l ++ sock'.pending ∧
      l.length ≤ len ∧ ∀ c ∈ sock'.cuts, c ∈ sock.cuts := by
  obtain ⟨pending, cuts⟩ := sock
  cases cuts with
  | nil =>
    refine .inr ⟨_, _, rfl, (List.take_append_drop len pending).symm, List.length_take_le .., ?_⟩
    exact fun c hc => hc
  | cons c cuts =>
    cases c with
    | error => exact .inl ⟨_, rfl, List.mem_cons_self⟩
    | chunk k =>
      refine .inr ⟨_, _, rfl, (List.take_append_drop _ pending).symm, ?_,
        fun c hc => List.mem_cons_of_mem _ hc⟩
      exact (List.length_take_le ..).trans (Nat.min_le_right ..)

theorem recv_uncut (l rest : List α) :
    (⟨l ++ rest, []⟩ : Socket α).recv l.length = (some l, ⟨rest, []⟩) := by
  simp [recv]

theorem recvInto_of_recv {sock sock' : Socket α} {len size : ℕ} {l : List α}
    (h : sock.recv len = (some l, sock')) (hsize : l.length ≤ size) :
    sock.recvInto len size = .ok (some (Buffer.received l size), sock') := by
  rw [recvInto, h]
  exact if_pos hsize

theorem recvInto_of_recv_none {sock sock' : Socket α} {len : ℕ} (h : sock.recv len = (none, sock'))
    (size : ℕ) : sock.recvInto len size = .ok (none, sock') := by
  rw [recvInto, h]

end Socket

end Machine
