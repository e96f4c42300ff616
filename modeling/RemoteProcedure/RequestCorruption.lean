import RemoteProcedure.RequestScan

/-!
# Which requests arrive corrupted

The sender counts a string in full and announces the low byte of its length; the
receiver reads that byte as a signed `char`, and `read_msg` refuses a message
only when -1 is returned.  So a string of 128 bytes or more is either refused by
accident, or its tail is read as the arguments that follow it.  This module
decides which, from the arguments alone.

## Main definitions

* `refused` — the walk over leftover bytes cannot end in a dispatch.
* `safeArgs` — the first long string of the list, if any, gets the request
  refused.
* `DispatchedIntact` — whatever lies behind the frame in memory, the server
  dispatches the message that was sent or none.

## Main results

* `dispatchedIntact_iff` — **a message with a frame is never corrupted exactly
  when `safeArgs` holds of its arguments**.
-/

namespace RemoteProcedure

open Machine

/-- With `n` arguments left to read from the last bytes `t` of a frame, does the
walk fail, or end one byte before the end of the frame: that returns -1. -/
def refused : ℕ → List Byte → Bool
  | 0, t => decide (t.length = 1)
  | n + 1, t =>
    match scanArg t with
    | .short => false
    | .undefined | .negative => true
    | .field skip _ width =>
      decide (skip + width ≤ t.length) && refused n (t.drop (skip + width))

/-- No string of the list arrives as another one: the first whose length does
not fit a signed `char` has a negative length byte, or a tail that is refused. -/
def safeArgs : List RpcArg → Bool
  | [] => true
  | .str s :: as =>
    if s.length < 128 then safeArgs as
    else decide (128 ≤ s.length % 256) ||
      refused as.length ((wire s).drop (s.length % 256) ++ encodeArgs as)
  | .void :: as => safeArgs as
  | .int _ :: as => safeArgs as
  | .other _ _ :: as => safeArgs as

/-- Whatever the allocations do and whatever the memory behind the frame of `m`
holds, a message the server dispatches for it is `m`. -/
def DispatchedIntact (m : Message) : Prop :=
  ∀ (granted : Bool) (blk : Block Byte) (msgSize size : CInt) (body : List Byte),
    serializeMessage granted (some m) = .ok (some (blk, msgSize)) →
    blk.contents = some (intBytes size ++ body) →
    ∀ (alloc : MsgBlock → Bool) (raw : RawMessage) (memory : Buffer Byte) (d : Decoded)
      (m' : Message),
      deserializeMessage false alloc (some raw) size (some (body.map some ++ memory)) = .ok d →
      d.dispatched = some m' → m' = m

/-! ### Walking over leftover bytes -/

/-- **A refused walk is not dispatched**, whatever follows the bytes. -/
theorem cpt_of_refused (n : ℕ) : ∀ {t : List Byte}, refused n t = true →
    ∀ {alloc : MsgBlock → Bool} {buf memory : Buffer Byte} {i cpt cpt' : ℕ}
      {args : { l : List RpcArg // l.length = n }}, buf.drop cpt = t.map some ++ memory →
        decodeArgs false alloc buf n i cpt = .ok (.done args cpt') → cpt' + 1 = cpt + t.length := by
  induction n with
  | zero =>
    intro t ht alloc buf memory i cpt cpt' args _ hdone
    have hlen : t.length = 1 := of_decide_eq_true ht
    cases hdone
    omega
  | succ n ih =>
    intro t ht alloc buf memory i cpt cpt' args h hdone
    rw [refused] at ht
    cases hscan : scanArg t with
    | short => rw [hscan] at ht; cases ht
    | undefined =>
      rw [decodeArgs_of_undefined h hscan] at hdone
      cases hdone
    | negative =>
      exact absurd hdone (not_done_of_negative h hscan)
    | field skip len width =>
      rw [hscan, Bool.and_eq_true, decide_eq_true_eq] at ht
      obtain ⟨hroom, hrest⟩ := ht
      obtain ⟨as, has⟩ := done_of_field h hscan hroom hdone
      have hcpt := ih hrest (Buffer.drop_cells h hroom) has
      rw [List.length_drop] at hcpt
      omega

/-- Over zeros the walk reads void arguments. -/
theorem decodeArgs_zeros (n : ℕ) : ∀ {buf : Buffer Byte} {i cpt k : ℕ},
    buf.drop cpt = (List.replicate k (0 : Byte)).map some → n ≤ k →
      ∃ args, decodeArgs false allGranted buf n i cpt = .ok (.done args (cpt + n)) := by
  induction n with
  | zero => intro buf i cpt k _ _; exact ⟨_, rfl⟩
  | succ n ih =>
    intro buf i cpt k h hk
    obtain ⟨k, rfl⟩ : ∃ k', k = k' + 1 := ⟨k - 1, by omega⟩
    rw [List.replicate_succ, List.map_cons] at h
    obtain ⟨args, hargs⟩ := ih (i := i + 1) (Buffer.drop_succ h) (by omega)
    rw [decodeArgs_void h, hargs]
    exact ⟨_, congrArg Except.ok (by rw [Nat.add_right_comm]; rfl)⟩

theorem scanArg_bounds {t : List Byte} {skip width : ℕ} {len : ℤ}
    (h : scanArg t = .field skip len width) : skip ≤ 2 ∧ width ≤ 127 := by
  rcases scanArg_eq_field h with ⟨t', -, rfl, -, rfl⟩ | ⟨b, c, t', -, rfl, -, rfl⟩ |
    ⟨b, t', -, rfl, -, -, rfl⟩
  · omega
  · exact ⟨Nat.le_refl 2, integerWidth_le b c⟩
  · have hhi := toInt_byte_lt b
    omega

/-- A field stays one when bytes follow. -/
theorem scanArg_append_of_field {t : List Byte} {skip width : ℕ} {len : ℤ}
    (h : scanArg t = .field skip len width) (u : List Byte) :
    scanArg (t ++ u) = .field skip len width := by
  rcases scanArg_eq_field h with ⟨t', rfl, rfl, rfl, rfl⟩ | ⟨b, c, t', rfl, rfl, rfl, rfl⟩ |
    ⟨b, t', rfl, rfl, rfl, -, rfl⟩ <;> exact h

/-- Zeros complete a head that is cut short. -/
theorem scanArg_append_of_short {t : List Byte} (h : scanArg t = .short) (k : ℕ) :
    ∃ skip len width, scanArg (t ++ List.replicate (k + 2) 0) = .field skip len width ∧
      t.length ≤ skip + width := by
  rcases scanArg_eq_short h with rfl | rfl | ⟨len, rfl⟩ | rfl
  · exact ⟨1, 0, 0, rfl, Nat.zero_le _⟩
  · exact ⟨2, 0, 0, rfl, by simp⟩
  · exact ⟨2, len.toInt, integerWidth len 0, rfl, by simp⟩
  · exact ⟨2, 0, 0, rfl, by simp⟩

/-- A walk that crosses into zeros ends beyond the bytes. -/
theorem exists_done_of_crossing {n i cpt k skip width : ℕ} {len : ℤ} {t : List Byte}
    {buf : Buffer Byte} (h : buf.drop cpt = (t ++ List.replicate k 0).map some)
    (hscan : scanArg (t ++ List.replicate k 0) = .field skip len width)
    (hcross : t.length ≤ skip + width) (hk : n + 129 ≤ k) :
    ∃ args cpt', decodeArgs false allGranted buf (n + 1) i cpt = .ok (.done args cpt') ∧
      cpt + t.length ≤ cpt' ∧ cpt' ≤ cpt + t.length + n + 129 := by
  obtain ⟨hskip, hwidth⟩ := scanArg_bounds hscan
  have hcells : buf.drop cpt = (t ++ List.replicate k 0).map some ++ [] := by
    rw [h, List.append_nil]
  have hroom : skip + width ≤ (t ++ List.replicate k (0 : Byte)).length := by
    rw [List.length_append, List.length_replicate]
    omega
  have hzeros : buf.drop (cpt + (skip + width)) =
      (List.replicate (k - (skip + width - t.length)) (0 : Byte)).map some := by
    rw [← List.drop_drop, h, ← List.map_drop, List.drop_append, List.drop_of_length_le hcross,
      List.nil_append, List.drop_replicate]
  obtain ⟨as, has⟩ := decodeArgs_zeros n (i := i + 1) hzeros (by omega)
  obtain ⟨args, -, hargs, -⟩ := exists_done_of_field hcells hscan hroom has
  exact ⟨args, _, hargs, by omega, by omega⟩

/-- **A walk that is not refused is dispatched** when zeros follow the bytes. -/
theorem exists_done_of_not_refused (n : ℕ) : ∀ {t : List Byte}, ¬ refused n t = true →
    ∀ {buf : Buffer Byte} {i cpt k : ℕ}, buf.drop cpt = (t ++ List.replicate k 0).map some →
      n + 129 ≤ k → ∃ args cpt', decodeArgs false allGranted buf n i cpt = .ok (.done args cpt') ∧
        cpt' + 1 ≠ cpt + t.length ∧ cpt' ≤ cpt + t.length + n + 129 := by
  induction n with
  | zero =>
    intro t ht buf i cpt k _ _
    have hlen : t.length ≠ 1 := by
      intro hone
      exact ht (decide_eq_true hone)
    exact ⟨_, cpt, rfl, by omega, by omega⟩
  | succ n ih =>
    intro t ht buf i cpt k h hk
    rw [refused] at ht
    cases hscan : scanArg t with
    | undefined => rw [hscan] at ht; exact absurd rfl ht
    | negative => rw [hscan] at ht; exact absurd rfl ht
    | short =>
      obtain ⟨k, rfl⟩ : ∃ k', k = k' + 2 := ⟨k - 2, by omega⟩
      obtain ⟨skip, len, width, hfield, hcross⟩ := scanArg_append_of_short hscan k
      obtain ⟨args, cpt', hdone, hlo, hhi⟩ :=
        exists_done_of_crossing (n := n) (i := i) h hfield hcross (by omega)
      exact ⟨args, cpt', hdone, by omega, by omega⟩
    | field skip len width =>
      rw [hscan, Bool.and_eq_true, decide_eq_true_eq] at ht
      have hfield := scanArg_append_of_field hscan (List.replicate k 0)
      rcases Nat.lt_or_ge t.length (skip + width) with hcross | hroom
      · obtain ⟨args, cpt', hdone, hlo, hhi⟩ :=
          exists_done_of_crossing (n := n) (i := i) h hfield (Nat.le_of_lt hcross) (by omega)
        exact ⟨args, cpt', hdone, by omega, by omega⟩
      · have hcells : buf.drop cpt = t.map some ++ (List.replicate k 0).map some := by
          rw [h, List.map_append]
        have hnext : buf.drop (cpt + (skip + width)) =
            (t.drop (skip + width) ++ List.replicate k 0).map some := by
          rw [Buffer.drop_cells hcells hroom, List.map_append]
        obtain ⟨as, cpt', has, hne, hle⟩ :=
          ih (fun hrest => ht ⟨hroom, hrest⟩) (i := i + 1) hnext (by omega)
        rw [List.length_drop] at hne hle
        obtain ⟨args, -, hargs, -⟩ := exists_done_of_field hcells hscan hroom has
        exact ⟨args, cpt', hargs, by omega, by omega⟩

/-! ### Walking over the arguments of a message -/

theorem safeArgs_cons_of_transmissible {a : RpcArg} (ha : a.Transmissible) (as : List RpcArg) :
    safeArgs (a :: as) = safeArgs as := by
  cases a with
  | void => rfl
  | int i => rfl
  | str s =>
    have hlen : s.length ≤ 127 := ha
    rw [safeArgs, if_pos (by omega)]
  | other typ h => exact absurd ha id

/-- A defined argument that cannot be read back is a long string. -/
theorem exists_long_string {a : RpcArg} (hdef : a.Defined) (ha : ¬ a.Transmissible) :
    ∃ s, a = .str s ∧ 128 ≤ s.length := by
  cases a with
  | void => exact absurd trivial ha
  | int i => exact absurd trivial ha
  | str s =>
    have hlen : ¬ s.length ≤ 127 := ha
    exact ⟨s, rfl, by omega⟩
  | other typ h => exact absurd hdef (RpcArg.not_defined_other typ h)

theorem scanArg_encodeArg_str (s : CString) (u : List Byte) :
    scanArg (encodeArg (.str s) ++ u) =
      if 128 ≤ s.length % 256 then .negative
      else .field 2 ((s.length % 256 : ℕ) : ℤ) (s.length % 256) := by
  have hbyte := toInt_byte_eq (BitVec.ofNat 8 s.length)
  rw [BitVec.toNat_ofNat] at hbyte
  have hscan : scanArg (encodeArg (.str s) ++ u) =
      if (BitVec.ofNat 8 s.length).toInt < 0 then .negative
      else .field 2 (BitVec.ofNat 8 s.length).toInt (BitVec.ofNat 8 s.length).toInt.toNat := rfl
  rw [hscan, hbyte]
  split_ifs <;> first | rfl | omega

/-- What a round leaves of a long string, and the bytes behind it. -/
theorem drop_encodeArg_str (s : CString) (u : List Byte) :
    2 + s.length % 256 ≤ (encodeArg (.str s)).length ∧
      (encodeArg (.str s) ++ u).drop (2 + s.length % 256) =
        (wire s).drop (s.length % 256) ++ u := by
  have hlen := length_wire s
  have hroom : s.length % 256 ≤ (wire s).length := by omega
  constructor
  · simp only [encodeArg, List.length_cons]
    omega
  · rw [← List.drop_drop]
    exact List.drop_append_of_le_length hroom

/-- With safe arguments a walk that ends has read them back, or returns -1. -/
theorem args_of_safeArgs {args : List RpcArg} : safeArgs args = true →
    (∀ a ∈ args, a.Defined) → ∀ {n : ℕ}, args.length = n → ∀ {alloc : MsgBlock → Bool}
      {buf memory : Buffer Byte} {i cpt cpt' : ℕ} {args' : { l : List RpcArg // l.length = n }},
      buf.drop cpt = (encodeArgs args).map some ++ memory →
      decodeArgs false alloc buf n i cpt = .ok (.done args' cpt') →
        args'.1 = args ∧ cpt' = cpt + (encodeArgs args).length ∨
          cpt' + 1 = cpt + (encodeArgs args).length := by
  induction args with
  | nil =>
    intro _ _ n hn alloc buf memory i cpt cpt' args' _ hdone
    obtain rfl := hn
    cases hdone
    exact .inl ⟨rfl, rfl⟩
  | cons a as ih =>
    intro hsafe hdef n hn alloc buf memory i cpt cpt' args' h hdone
    obtain ⟨n, rfl⟩ : ∃ n', n = n' + 1 := ⟨as.length, hn.symm⟩
    by_cases ha : a.Transmissible
    · rw [safeArgs_cons_of_transmissible ha] at hsafe
      rw [encodeArgs_cons, List.map_append, List.append_assoc] at h
      rcases decodeArgs_of_encodeArg alloc n i ha h with ⟨hfail, -⟩ | ⟨p, hround⟩
      · rw [hfail] at hdone
        cases hdone
      · rw [hround] at hdone
        obtain ⟨as', hdone, hargs⟩ := exists_done_of_bind hdone
        rw [encodeArgs_cons, List.length_append, ← Nat.add_assoc, hargs]
        rcases ih hsafe (fun b hb => hdef b (List.mem_cons_of_mem a hb)) (Nat.succ.inj hn)
          (Buffer.drop_add h (List.length_map _)) hdone with ⟨hsame, hcpt⟩ | hcpt
        · exact .inl ⟨by rw [hsame], hcpt⟩
        · exact .inr hcpt
    · -- the first long string decides
      obtain ⟨s, rfl, hlong⟩ := exists_long_string (hdef a List.mem_cons_self) ha
      obtain ⟨hroom, hdrop⟩ := drop_encodeArg_str s (encodeArgs as)
      have hscan := scanArg_encodeArg_str s (encodeArgs as)
      rw [safeArgs, if_neg (by omega), Bool.or_eq_true, decide_eq_true_eq] at hsafe
      rw [encodeArgs_cons] at h ⊢
      by_cases hneg : 128 ≤ s.length % 256
      · rw [if_pos hneg] at hscan
        exact absurd hdone (not_done_of_negative h hscan)
      · rw [if_neg hneg] at hscan
        have hrefused := hsafe.resolve_left hneg
        have hskip : 2 + s.length % 256 ≤ (encodeArg (.str s) ++ encodeArgs as).length := by
          rw [List.length_append]
          omega
        obtain ⟨as', has⟩ := done_of_field h hscan hskip hdone
        have hcells := Buffer.drop_cells h hskip
        have hn' : as.length = n := Nat.succ.inj hn
        rw [hn'] at hrefused
        rw [hdrop] at hcells
        have hcpt := cpt_of_refused n hrefused hcells has
        rw [← hdrop, List.length_drop] at hcpt
        exact .inr (by omega)

/-- With unsafe arguments, and zeros behind the frame, a walk ends with other
arguments and does not return -1. -/
theorem exists_done_of_not_safeArgs {args : List RpcArg} : ¬ safeArgs args = true →
    (∀ a ∈ args, a.Defined) → ∀ {n : ℕ}, args.length = n → ∀ {buf : Buffer Byte} {i cpt k : ℕ},
      buf.drop cpt = (encodeArgs args ++ List.replicate k 0).map some → n + 129 ≤ k →
        ∃ args' cpt', decodeArgs false allGranted buf n i cpt = .ok (.done args' cpt') ∧
          args'.1 ≠ args ∧ cpt' + 1 ≠ cpt + (encodeArgs args).length ∧
          cpt' ≤ cpt + (encodeArgs args).length + n + 129 := by
  induction args with
  | nil =>
    intro hsafe
    exact absurd rfl hsafe
  | cons a as ih =>
    intro hsafe hdef n hn buf i cpt k h hk
    obtain ⟨n, rfl⟩ : ∃ n', n = n' + 1 := ⟨as.length, hn.symm⟩
    have hn' : as.length = n := Nat.succ.inj hn
    rw [encodeArgs_cons, List.append_assoc] at h
    by_cases ha : a.Transmissible
    · rw [safeArgs_cons_of_transmissible ha] at hsafe
      have hcells : buf.drop cpt = (encodeArg a).map some ++
          (encodeArgs as ++ List.replicate k 0).map some := by
        rw [h, List.map_append]
      rcases decodeArgs_of_encodeArg allGranted n i ha hcells with ⟨-, hdenied⟩ | ⟨p, hround⟩
      · cases hdenied
      · obtain ⟨as', cpt', hdone, hother, hne, hle⟩ :=
          ih hsafe (fun b hb => hdef b (List.mem_cons_of_mem a hb)) hn' (i := i + 1)
            (Buffer.drop_add hcells (List.length_map _)) (by omega)
        rw [hround, hdone, encodeArgs_cons, List.length_append]
        exact ⟨_, _, rfl, fun hsame => hother (List.cons.inj hsame).2, by omega, by omega⟩
    · obtain ⟨s, rfl, hlong⟩ := exists_long_string (hdef a List.mem_cons_self) ha
      obtain ⟨hroom, hdrop⟩ := drop_encodeArg_str s (encodeArgs as)
      rw [safeArgs, if_neg (by omega), Bool.or_eq_true, decide_eq_true_eq, not_or] at hsafe
      obtain ⟨hneg, hrefused⟩ := hsafe
      have hscan := scanArg_encodeArg_str s (encodeArgs as ++ List.replicate k 0)
      rw [if_neg hneg] at hscan
      have hcells : buf.drop cpt =
          (encodeArg (.str s) ++ (encodeArgs as ++ List.replicate k 0)).map some ++ [] := by
        rw [h, List.append_nil]
      have hskip : 2 + s.length % 256 ≤
          (encodeArg (.str s) ++ (encodeArgs as ++ List.replicate k 0)).length := by
        rw [List.length_append]
        omega
      have hnext : buf.drop (cpt + (2 + s.length % 256)) =
          ((wire s).drop (s.length % 256) ++ encodeArgs as ++ List.replicate k 0).map some := by
        rw [List.append_assoc, ← (drop_encodeArg_str s _).2, ← List.drop_drop, h, List.map_drop]
      rw [hn'] at hrefused
      obtain ⟨as', cpt', has, hne, hle⟩ :=
        exists_done_of_not_refused n hrefused (i := i + 1) hnext (by omega)
      obtain ⟨args', b, hargs, hcons, hshort⟩ := exists_done_of_field hcells hscan hskip has
      rw [← hdrop, List.length_drop, List.length_append] at hne hle
      rw [encodeArgs_cons, List.length_append]
      refine ⟨args', cpt', hargs, ?_, by omega, by omega⟩
      intro hsame
      rw [hcons] at hsame
      -- the decoded string is shorter than the one that was sent
      have := hshort s (List.cons.inj hsame).1
      omega

/-! ### Dispatch -/

/-- The frame `serialize_message` returns is the one of the layout. -/
theorem frame_of_serializeMessage {granted : Bool} {m : Message} {blk : Block Byte}
    {msgSize size : CInt} {body : List Byte}
    (h : serializeMessage granted (some m) = .ok (some (blk, msgSize)))
    (hframe : blk.contents = some (intBytes size ++ body)) :
    size = BitVec.ofNat 32 (encodeRequest m).length ∧ body = encodeRequest m := by
  have hfits := fits_of_serializeMessage h
  cases granted with
  | false => cases h
  | true =>
    rw [serializeMessage_of_fits hfits] at h
    cases h
    rw [Block.contents_filled, requestFrame] at hframe
    obtain ⟨hsize, hbody⟩ := List.append_inj (Option.some.inj hframe) rfl
    exact ⟨(intBytes_injective hsize).symm, hbody.symm⟩

theorem drop_encodeHeader (m : Message) (tail : Buffer Byte) :
    ((encodeHeader m).map some ++ tail).drop (m.command.length + 9) = tail :=
  List.drop_left' (by rw [List.length_map, length_encodeHeader])

/-- Safe arguments are dispatched as they were sent, or not at all. -/
theorem dispatchedIntact_of_safeArgs {m : Message} (hsafe : m.Fits → safeArgs m.argv = true) :
    DispatchedIntact m := by
  intro granted blk msgSize size body hser hframe alloc raw memory d m' hd hdispatched
  have hfits := fits_of_serializeMessage hser
  have hlen := length_encodeRequest m
  have hshort := hfits.short
  obtain ⟨rfl, rfl⟩ := frame_of_serializeMessage hser hframe
  rw [encodeRequest_eq, List.map_append, List.append_assoc,
    deserializeMessage_of_header (by omega), ← encodeRequest_eq] at hd
  split_ifs at hd
  · cases hd
    cases hdispatched
  · cases hd
    cases hdispatched
  · rw [Checked.bind_eq_ok] at hd
    obtain ⟨r, hr, hd⟩ := hd
    cases hd
    cases r with
    | fail slots => cases hdispatched
    | done args cpt =>
      rcases args_of_safeArgs (hsafe hfits) (fun a ha => (hfits.storable a ha).defined)
        m.argv_length (drop_encodeHeader m _) hr with ⟨hsame, -⟩ | hcpt
      · unfold DecodedArgs.finish Decoded.dispatched at hdispatched
        simp only at hdispatched
        split_ifs at hdispatched
        obtain rfl := Option.some.inj hdispatched
        exact Message.ext rfl rfl rfl rfl hsame
      · -- one byte is left over, so -1 is returned
        have hret : BitVec.ofNat 32 cpt - BitVec.ofNat 32 (encodeRequest m).length = (-1 : CInt) :=
          ofNat_sub_ofNat_eq_neg_one_iff.mpr (by rw [hcpt]; congr 1; omega)
        unfold DecodedArgs.finish Decoded.dispatched at hdispatched
        simp only [hret, if_true] at hdispatched
        cases hdispatched

/-- Unsafe arguments can be dispatched as others. -/
theorem not_dispatchedIntact_of_not_safeArgs {m : Message} (hfits : m.Fits)
    (hsafe : ¬ safeArgs m.argv = true) : ¬ DispatchedIntact m := by
  intro h
  have hlen := length_encodeRequest m
  have hshort := hfits.short
  have hargc := toInt_lt_two_pow m.argc
  set n := m.argc.toInt.toNat with hn
  set zeros : List Byte := List.replicate (n + 129) 0 with hzeros
  have hcells : ((encodeHeader m).map some ++ (encodeArgs m.argv ++ zeros).map some).drop
      (m.command.length + 9) = (encodeArgs m.argv ++ zeros).map some := drop_encodeHeader m _
  obtain ⟨args, cpt, hdone, hother, hne, hle⟩ :=
    exists_done_of_not_safeArgs hsafe (fun a ha => (hfits.storable a ha).defined) m.argv_length
      (i := 0) hcells (Nat.le_refl _)
  have hret : BitVec.ofNat 32 cpt - BitVec.ofNat 32 (encodeRequest m).length ≠ (-1 : CInt) := by
    rw [Ne, ofNat_sub_ofNat_eq_neg_one_iff]
    omega
  have hd : deserializeMessage false allGranted (some .unset)
      (BitVec.ofNat 32 (encodeRequest m).length)
      (some ((encodeRequest m).map some ++ zeros.map some)) =
        .ok (.done (BitVec.ofNat 32 cpt - BitVec.ofNat 32 (encodeRequest m).length)
          (m.withArgv args)) := by
    rw [encodeRequest_eq, List.map_append, List.append_assoc, ← List.map_append,
      deserializeMessage_of_header (by omega), allGranted_eq, if_neg (by decide), allGranted_eq,
      if_neg (by simp), hdone]
    rfl
  have hsame := h true _ _ _ _ (serializeMessage_of_fits hfits) (Block.contents_filled _)
    allGranted .unset _ _ _ hd (if_neg hret)
  exact hother (congrArg Message.argv hsame)

/-- **A message with a frame is never corrupted exactly when its first long
string, if it has one, gets it refused.** -/
theorem dispatchedIntact_iff (m : Message) :
    DispatchedIntact m ↔ (m.Fits → safeArgs m.argv = true) := by
  constructor
  · intro h hfits
    by_contra hsafe
    exact not_dispatchedIntact_of_not_safeArgs hfits hsafe h
  · intro hsafe
    exact dispatchedIntact_of_safeArgs hsafe

/-- A call with one string of 256 letters, which arrives as the empty string. -/
theorem not_dispatchedIntact_256 :
    ∃ m, createMessage allGranted (some .unset) (some (CString.ofBytes [0x66])) rpcTyStr 1
      (some ⟨[.str (CString.ofBytes (List.replicate 256 0x61))], by decide⟩) = .ok (.created m) ∧
      ¬ DispatchedIntact m := by
  refine ⟨_, createMessage_allGranted .unset (by decide) _ (by decide), ?_⟩
  refine not_dispatchedIntact_of_not_safeArgs (fits_of_short ?_ (by decide +kernel))
    (by decide +kernel)
  intro a ha
  obtain rfl := List.mem_singleton.mp ha
  show (CString.ofBytes (List.replicate 256 0x61)).length % 2 ^ 32 < 2 ^ 31
  decide +kernel

end RemoteProcedure
