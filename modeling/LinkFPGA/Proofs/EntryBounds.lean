import Mathlib.Order.Monotone.Basic
import LinkFPGA.Proofs.AudioWalk

/-!
# The walks inside the entries of Link-Audio

`ann_handler` and `handle_aucb_entry` again, on memory and with a cursor: which bytes of the value
they read, whether the remainder ever grows, which bytes they take for a name and how often their
loops run. `ann_walk_eq` and `aucb_walk_eq` say that the handlers are otherwise the ones of the
firmware. Three comparisons add to or multiply a 32-bit word of the datagram first:
`entry_walks_safe_iff` says that the walks are safe exactly where none of the three wraps to a
value that passes.

Read `auca_step` first: it is one iteration of the loop over the announced channels.
-/

namespace LinkFPGA

/-! ## The handlers with their cursor -/

/-- A name taken out of the value: where it starts, its length field, and how many of its bytes
were copied. -/
structure NameCopy where
  off : UInt32
  len : UInt32
  copied : Nat
  deriving DecidableEq, Repr

/-- A cursor with the names that were copied; `chunks` counts the iterations that ran to the
end. -/
structure EntryCursor where
  cur : BodyCursor
  names : List NameCopy
  deriving DecidableEq, Repr

/-- Read `k` bytes at `p + off`. -/
def BodyCursor.readAt (c : BodyCursor) (off : UInt32) (k : Nat) : BodyCursor :=
  { c with reads := c.reads ++ (List.range k).map fun i => c.p + off + .ofNat i }

/-- The bytes of a name of this length that go into a `char[LINK_AUDIO_NAME_MAX]`. -/
def nameCopied (nameLen : UInt32) : Nat :=
  if nameLen.toNat < linkAudioNameMax then nameLen.toNat else linkAudioNameMax - 1

section
variable (mem : UInt32 → UInt8) (peerId : LinkId) (peerAddr : UInt32) (peerPort : UInt16)

/-- `aucaLoop` with its cursor. -/
def aucaWalk : Nat → EntryCursor → AudioWorld → EntryCursor × AudioWorld × Int
  | 0, c, w => (c, w, 0)
  | count + 1, c, w =>
      if c.cur.n < 4 then (c, w, -1)
      else
        let nameLen := be32 (bytesAt mem c.cur.p 4)
        let b := c.cur.fetch 4
        if b.n < nameLen + 8 then (⟨b, c.names⟩, w, -1)
        else
          let cp := nameCopied nameLen
          let name := cString (bytesAt mem b.p cp)
          let names := c.names ++ [⟨b.p, nameLen, cp⟩]
          let b := ((b.read cp).skip nameLen).consume nameLen
          let cid := LinkId.ofBytes (bytesAt mem b.p 8)
          let b := b.fetch 8
          aucaWalk count ⟨{ b with chunks := b.chunks + 1 }, names⟩
            (recordChannel peerId peerAddr peerPort cid name w)

/-- `ann_handler` with its cursor, for a value of `n` bytes. -/
def annWalk (key n : UInt32) (s : AnnCtx × AudioWorld) :
    EntryCursor × (AnnCtx × AudioWorld) × Int :=
  let c := BodyCursor.start n
  if key = keyHt then
    if n ≠ 8 then (⟨c, []⟩, s, -1)
    else (⟨c.read 8, []⟩,
      ({ pingHt := (be64 (bytesAt mem 0 8)).toInt64, havePing := true }, s.2), 0)
  else if key = keyPi then
    if n < 4 then (⟨c, []⟩, s, -1)
    else
      let len := be32 (bytesAt mem 0 4)
      let c := c.read 4
      if n < 4 + len then (⟨c, []⟩, s, -1)
      else (⟨c.readAt 4 (nameCopied len), []⟩, s, 0)
  else if key = keySess then
    if n ≠ 8 then (⟨c, []⟩, s, -1) else (⟨c, []⟩, s, 0)
  else if key = keyAuca then
    if n < 4 then (⟨c, []⟩, s, -1)
    else
      let r := aucaWalk mem peerId peerAddr peerPort (be32 (bytesAt mem 0 4)).toNat
        ⟨c.fetch 4, []⟩ s.2
      (r.1, (s.1, r.2.1), r.2.2)
  else (⟨c, []⟩, s, 0)

end

/-- `handle_aucb_entry` with its cursor, for a value of `n` bytes. -/
def aucbWalk (mem : UInt32 → UInt8) (key n : UInt32) (w : AudioWorld) :
    BodyCursor × AudioWorld × Int :=
  let c := BodyCursor.start n
  if key ≠ keyAucb then (c, w, 0)
  else if n < 4 then (c, w, -1)
  else
    let count := be32 (bytesAt mem 0 4)
    let c := c.fetch 4
    if c.n < count * 8 then (c, w, -1)
    else
      let s := (List.range count.toNat).foldl (fun s i =>
        ({ s.1.readAt (.ofNat (i * 8)) 8 with chunks := s.1.chunks + 1 },
          dropChannel (.ofBytes (bytesAt mem (s.1.p + .ofNat (i * 8)) 8)) s.2)) (c, w)
      (s.1, s.2, 0)

/-! ## They are the handlers -/

section
variable (peerId : LinkId) (peerAddr : UInt32) (peerPort : UInt16)

theorem auca_walk_eq (mem : UInt32 → UInt8) (count : Nat) (c : EntryCursor) (w : AudioWorld) :
    (aucaWalk mem peerId peerAddr peerPort count c w).2 =
      aucaLoop mem peerId peerAddr peerPort count c.cur.p c.cur.n w := by
  induction count generalizing c w with
  | zero => rfl
  | succ count ih =>
      unfold aucaWalk aucaLoop
      by_cases hshort : c.cur.n < 4
      · rw [if_pos hshort, if_pos hshort]
      · rw [if_neg hshort, if_neg hshort]
        dsimp only
        have hrest : (c.cur.fetch 4).n = c.cur.n - 4 := rfl
        rw [hrest]
        by_cases hname : c.cur.n - 4 < be32 (bytesAt mem c.cur.p 4) + 8
        · rw [if_pos hname, if_pos hname]
        · rw [if_neg hname, if_neg hname]
          exact ih _ _

theorem mem_of_word (v : List UInt8) : be32 (bytesAt (memOf v) 0 4) = be32 v := rfl

theorem mem_of_long_word (v : List UInt8) : be64 (bytesAt (memOf v) 0 8) = be64 v := by
  have hlow : be32 ((bytesAt (memOf v) 0 8).drop 4) = be32 (v.drop 4) := by
    simp [be32, byteAt, bytesAt, memOf, List.range_succ]
  unfold be64
  rw [hlow]
  rfl

/-- Up to its cursor, `annWalk` is `ann_handler`. -/
theorem ann_walk_eq (key : UInt32) (v : List UInt8) (s : AnnCtx × AudioWorld) :
    (annWalk (memOf v) peerId peerAddr peerPort key (.ofNat v.length) s).2 =
      annHandler peerId peerAddr peerPort key v s := by
  unfold annWalk annHandler
  dsimp only
  rw [mem_of_word, mem_of_long_word]
  split
  · split <;> rfl
  · split
    · split
      · rfl
      · split <;> rfl
    · split
      · split <;> rfl
      · split
        · split
          · rfl
          · rw [auca_walk_eq]
            rfl
        · rfl

end

/-- The cursor and the world after the loop over `count` channels. -/
structure AfterByes (mem : UInt32 → UInt8) (c : BodyCursor) (w : AudioWorld) (count : Nat)
    (s : BodyCursor × AudioWorld) : Prop where
  p : s.1.p = c.p
  underflow : s.1.underflow = c.underflow
  chunks : s.1.chunks = c.chunks + count
  reads : ∀ o, o ∈ s.1.reads ↔ o ∈ c.reads ∨
    ∃ i < count, ∃ j < 8, c.p + .ofNat (i * 8) + .ofNat j = o
  world : s.2 = (List.range count).foldl (fun w i =>
    dropChannel (.ofBytes (bytesAt mem (c.p + .ofNat (i * 8)) 8)) w) w

theorem byes_loop (mem : UInt32 → UInt8) (c : BodyCursor) (w : AudioWorld) (count : Nat) :
    AfterByes mem c w count ((List.range count).foldl (fun s i =>
      ({ s.1.readAt (.ofNat (i * 8)) 8 with chunks := s.1.chunks + 1 },
        dropChannel (.ofBytes (bytesAt mem (s.1.p + .ofNat (i * 8)) 8)) s.2)) (c, w)) := by
  induction count with
  | zero =>
      refine ⟨rfl, rfl, rfl, ?_, rfl⟩
      simp
  | succ count ih =>
      rw [List.range_succ, List.foldl_append]
      generalize (List.range count).foldl _ (c, w) = s at ih
      refine ⟨ih.p, ih.underflow, ?_, ?_, ?_⟩
      · show s.1.chunks + 1 = _
        rw [ih.chunks]
        omega
      · intro o
        show o ∈ s.1.reads ++ (List.range 8).map (fun j =>
          s.1.p + .ofNat (count * 8) + .ofNat j) ↔ _
        rw [List.mem_append, ih.reads, ih.p, List.mem_map, or_assoc, Nat.exists_lt_succ_right]
        simp only [List.mem_range]
      · show dropChannel (.ofBytes (bytesAt mem (s.1.p + .ofNat (count * 8)) 8)) s.2 = _
        rw [ih.p, ih.world, List.range_succ, List.foldl_append]
        rfl

/-- Up to its cursor, `aucbWalk` is `handle_aucb_entry`. -/
theorem aucb_walk_eq (key : UInt32) (v : List UInt8) (w : AudioWorld) :
    (aucbWalk (memOf v) key (.ofNat v.length) w).2 = handleAucbEntry key v w := by
  unfold aucbWalk handleAucbEntry
  dsimp only
  rw [mem_of_word]
  split
  · rfl
  · split
    · rfl
    · show (if UInt32.ofNat v.length - 4 < _ then _ else _ : BodyCursor × AudioWorld × Int).2 = _
      split
      · rfl
      · exact Prod.ext (byes_loop _ _ _ _).world rfl

/-! ## Where the channels of an `auca` are -/

/-- The offset of a channel of an `auca` value, its name length first, in exact arithmetic. -/
def channelOffset (mem : UInt32 → UInt8) : Nat → Nat
  | 0 => 4
  | k + 1 => channelOffset mem k + 12 +
      (be32 (bytesAt mem (.ofNat (channelOffset mem k)) 4)).toNat

/-- The length field of a channel's name. -/
def nameLenAt (mem : UInt32 → UInt8) (k : Nat) : UInt32 :=
  be32 (bytesAt mem (.ofNat (channelOffset mem k)) 4)

theorem channel_offset_succ (mem : UInt32 → UInt8) (k : Nat) :
    channelOffset mem (k + 1) = channelOffset mem k + 12 + (nameLenAt mem k).toNat := rfl

/-- The channels follow one another. -/
theorem channel_offset_mono (mem : UInt32 → UInt8) : Monotone (channelOffset mem) :=
  monotone_nat_of_le_succ fun k => by rw [channel_offset_succ]; omega

/-- A channel takes at least twelve bytes. -/
theorem channel_offset_ge (mem : UInt32 → UInt8) (k : Nat) : 4 + 12 * k ≤ channelOffset mem k := by
  induction k with
  | zero => exact le_refl 4
  | succ k ih =>
      rw [channel_offset_succ]
      omega

/-- `name_len + 8` of a channel wraps to a value that passes the comparison with the remainder;
the channels before it fit. -/
def NameWraps (mem : UInt32 → UInt8) (n : UInt32) (k : Nat) : Prop :=
  channelOffset mem k + 4 ≤ n.toNat ∧ 2 ^ 32 ≤ (nameLenAt mem k).toNat + 8 ∧
    channelOffset mem k + 4 + ((nameLenAt mem k).toNat + 8 - 2 ^ 32) ≤ n.toNat

/-- The channels before one that wraps have their length fields in the value. -/
theorem NameWraps.room {mem : UInt32 → UInt8} {n : UInt32} {j k : Nat} (h : NameWraps mem n j)
    (hkj : k ≤ j) : channelOffset mem k + 4 ≤ n.toNat :=
  (Nat.add_le_add_right (channel_offset_mono mem hkj) 4).trans h.1

/-- What a walk of a value of `n` bytes must keep to. -/
structure SafeEntry (n : UInt32) (c : EntryCursor) : Prop where
  /-- Every read is inside the value. -/
  inside : ∀ o ∈ c.cur.reads, o < n
  /-- What was copied as a name is a part of a name that lies in the value. -/
  names : ∀ name ∈ c.names, name.copied ≤ name.len.toNat ∧
    name.off.toNat + name.len.toNat ≤ n.toNat
  /-- The remainder never grew. -/
  remainder : c.cur.underflow = false
  bounded : c.cur.chunks ≤ n.toNat / 8

/-- The cursor of the loop after `k` channels that fit. -/
structure AtChannel (mem : UInt32 → UInt8) (n : UInt32) (k : Nat) (c : EntryCursor) : Prop where
  p : c.cur.p.toNat = channelOffset mem k
  rest : channelOffset mem k + c.cur.n.toNat = n.toNat
  inside : ∀ o ∈ c.cur.reads, o < n
  names : ∀ name ∈ c.names, name.copied ≤ name.len.toNat ∧
    name.off.toNat + name.len.toNat ≤ n.toNat
  remainder : c.cur.underflow = false
  chunks : c.cur.chunks = k

/-! ## One channel -/

theorem name_copied_le (len : UInt32) : nameCopied len ≤ len.toNat := by
  unfold nameCopied
  split <;> omega

theorem name_copied_long {len : UInt32} (h : 32 ≤ len.toNat) : nameCopied len = 31 :=
  if_neg (show ¬ len.toNat < linkAudioNameMax from not_lt.mpr h)

/-- The cursor behind the channel at `p`. -/
def nextChannel (mem : UInt32 → UInt8) (c : EntryCursor) : EntryCursor :=
  let nameLen := be32 (bytesAt mem c.cur.p 4)
  let b := c.cur.fetch 4
  let cp := nameCopied nameLen
  let a := (((b.read cp).skip nameLen).consume nameLen).fetch 8
  ⟨{ a with chunks := a.chunks + 1 }, c.names ++ [⟨b.p, nameLen, cp⟩]⟩

section
variable {mem : UInt32 → UInt8} {n : UInt32} {k : Nat} {c : EntryCursor}

theorem AtChannel.len (h : AtChannel mem n k c) :
    be32 (bytesAt mem c.cur.p 4) = nameLenAt mem k := by
  rw [nameLenAt, ← h.p, UInt32.ofNat_toNat]

/-- The pointer behind each of the three fields of a channel that fits. -/
theorem AtChannel.pointers (h : AtChannel mem n k c)
    (hfits : channelOffset mem (k + 1) ≤ n.toNat) :
    (c.cur.p + 4).toNat = channelOffset mem k + 4 ∧
      (c.cur.p + 4 + nameLenAt mem k).toNat = channelOffset mem k + 4 + (nameLenAt mem k).toNat ∧
      (c.cur.p + 4 + nameLenAt mem k + 8).toNat = channelOffset mem (k + 1) := by
  have hsize := n.toNat_lt
  have hoff := channel_offset_succ mem k
  generalize nameLenAt mem k = len at hoff ⊢
  have hp1 : (c.cur.p + 4).toNat = channelOffset mem k + 4 := by
    rw [UInt32.toNat_add, h.p]
    exact Nat.mod_eq_of_lt (show _ + 4 < _ by omega)
  have hp2 : (c.cur.p + 4 + len).toNat = channelOffset mem k + 4 + len.toNat := by
    rw [UInt32.toNat_add, hp1, Nat.mod_eq_of_lt (by omega)]
  refine ⟨hp1, hp2, ?_⟩
  rw [UInt32.toNat_add, hp2, hoff]
  show (_ + 8) % _ = _
  rw [Nat.mod_eq_of_lt (by omega)]
  omega

/-- The remainder behind each of them. -/
theorem AtChannel.remainders (h : AtChannel mem n k c)
    (hfits : channelOffset mem (k + 1) ≤ n.toNat) :
    (c.cur.n - 4).toNat = c.cur.n.toNat - 4 ∧
      (c.cur.n - 4 - nameLenAt mem k).toNat = c.cur.n.toNat - 4 - (nameLenAt mem k).toNat ∧
      (c.cur.n - 4 - nameLenAt mem k - 8).toNat =
        c.cur.n.toNat - 4 - (nameLenAt mem k).toNat - 8 := by
  have hrest := h.rest
  have hoff := channel_offset_succ mem k
  generalize nameLenAt mem k = len at hoff ⊢
  have hn1 : (c.cur.n - 4).toNat = c.cur.n.toNat - 4 := size_sub (k := 4) (by omega)
  have hn2 : (c.cur.n - 4 - len).toNat = c.cur.n.toNat - 4 - len.toNat := by
    rw [UInt32.toNat_sub_of_le _ _ (UInt32.le_iff_toNat_le.mpr (by omega)), hn1]
  refine ⟨hn1, hn2, ?_⟩
  rw [← hn2]
  exact size_sub (k := 8) (by omega)

/-- The cursor behind a channel that fits. -/
theorem AtChannel.next (h : AtChannel mem n k c) (hfits : channelOffset mem (k + 1) ≤ n.toNat) :
    AtChannel mem n (k + 1) (nextChannel mem c) := by
  have hp := h.p
  have hrest := h.rest
  have hoff := channel_offset_succ mem k
  have hlen := h.len
  obtain ⟨hp1, hp2, hp3⟩ := h.pointers hfits
  obtain ⟨hn1, hn2, hn3⟩ := h.remainders hfits
  generalize nameLenAt mem k = len at *
  unfold nextChannel
  dsimp only
  rw [hlen]
  refine ⟨hp3, ?_, ?_, ?_, ?_, ?_⟩
  · show _ + (c.cur.n - 4 - len - 8).toNat = _
    rw [hn3]
    omega
  · intro o ho
    rcases List.mem_append.mp ho with hmost | hid
    · rcases List.mem_append.mp hmost with hword | hname
      · rcases List.mem_append.mp hword with hbefore | hlenField
        · exact h.inside o hbefore
        · exact read_inside (by omega) hlenField
      · have hcopied := name_copied_le len
        exact read_inside (p := c.cur.p + 4) (by omega) hname
    · exact read_inside (p := c.cur.p + 4 + len) (by omega) hid
  · intro name hname
    rcases List.mem_append.mp hname with hbefore | hnew
    · exact h.names name hbefore
    · rw [List.mem_singleton.mp hnew]
      refine ⟨name_copied_le len, ?_⟩
      show (c.cur.p + 4).toNat + len.toNat ≤ _
      omega
  · show ((c.cur.underflow || decide (c.cur.n < 4)) || decide (c.cur.n - 4 < len) ||
      decide (c.cur.n - 4 - len < 8)) = false
    simp only [h.remainder, Bool.or_eq_false_iff, decide_eq_false_iff_not, UInt32.not_lt,
      UInt32.le_iff_toNat_le, hn1, hn2, true_and]
    refine ⟨⟨?_, by omega⟩, ?_⟩
    · show 4 ≤ _
      omega
    · show 8 ≤ _
      omega
  · show c.cur.chunks + 1 = _
    rw [h.chunks]

/-- Behind a length that wraps the remainder has grown. -/
theorem AtChannel.next_wraps (h : AtChannel mem n k c) (hn : n ≤ 1472)
    (hwrap : NameWraps mem n k) : (nextChannel mem c).cur.underflow = true := by
  obtain ⟨hroom, hbig, -⟩ := hwrap
  have hsmall : n.toNat ≤ 1472 := UInt32.le_iff_toNat_le.mp hn
  have hrest := h.rest
  have hn1 : (c.cur.n - 4).toNat = c.cur.n.toNat - 4 := size_sub (k := 4) (by omega)
  have hgrows : c.cur.n - 4 < nameLenAt mem k := by
    rw [UInt32.lt_iff_toNat_lt, hn1]
    omega
  unfold nextChannel
  dsimp only
  rw [h.len]
  show ((c.cur.underflow || decide (c.cur.n < 4)) || decide (c.cur.n - 4 < nameLenAt mem k) ||
    _) = true
  simp [hgrows]

/-- The comparison with the remainder passes for a channel that fits, and for a length that
wraps. -/
theorem AtChannel.passes_iff (h : AtChannel mem n k c)
    (hroom : channelOffset mem k + 4 ≤ n.toNat) :
    nameLenAt mem k + 8 ≤ c.cur.n - 4 ↔
      channelOffset mem (k + 1) ≤ n.toNat ∨ NameWraps mem n k := by
  have hsize := n.toNat_lt
  have hlen := (nameLenAt mem k).toNat_lt
  have hrest := h.rest
  have hoff := channel_offset_succ mem k
  have hn1 : (c.cur.n - 4).toNat = c.cur.n.toNat - 4 := size_sub (k := 4) (by omega)
  rw [UInt32.le_iff_toNat_le, hn1, UInt32.toNat_add, NameWraps]
  show (_ + 8) % 2 ^ 32 ≤ _ ↔ _
  by_cases hbig : 2 ^ 32 ≤ (nameLenAt mem k).toNat + 8
  · rw [Nat.mod_eq_sub_mod hbig, Nat.mod_eq_of_lt (by omega)]
    omega
  · rw [Nat.mod_eq_of_lt (by omega)]
    omega

/-- Where all channels so far fit, the walk has been safe. -/
theorem AtChannel.safe (h : AtChannel mem n k c) : SafeEntry n c := by
  refine ⟨h.inside, h.names, h.remainder, ?_⟩
  have hoff := channel_offset_ge mem k
  have hrest := h.rest
  rw [h.chunks]
  omega

/-- It still is behind the length field of a channel that is refused. -/
theorem AtChannel.refused_safe (h : AtChannel mem n k c)
    (hroom : channelOffset mem k + 4 ≤ n.toNat) : SafeEntry n ⟨c.cur.fetch 4, c.names⟩ := by
  have hrest := h.rest
  have hp := h.p
  refine ⟨?_, h.names, ?_, h.safe.bounded⟩
  · intro o ho
    rcases List.mem_append.mp ho with hbefore | hlenField
    · exact h.inside o hbefore
    · exact read_inside (by omega) hlenField
  · show (c.cur.underflow || decide (c.cur.n < 4)) = false
    rw [h.remainder, Bool.false_or, decide_eq_false_iff_not, UInt32.not_lt,
      UInt32.le_iff_toNat_le]
    show 4 ≤ _
    omega

end

/-! ## The loop over the channels -/

section
variable (mem : UInt32 → UInt8) (peerId : LinkId) (peerAddr : UInt32) (peerPort : UInt16)

/-- One iteration: the two ways out, and the way on. -/
theorem auca_step (count : Nat) (c : EntryCursor) (w : AudioWorld) :
    ∃ w', aucaWalk mem peerId peerAddr peerPort (count + 1) c w =
      if c.cur.n < 4 then (c, w, -1)
      else if c.cur.n - 4 < be32 (bytesAt mem c.cur.p 4) + 8 then (⟨c.cur.fetch 4, c.names⟩, w, -1)
      else aucaWalk mem peerId peerAddr peerPort count (nextChannel mem c) w' :=
  ⟨_, rfl⟩

variable {mem}

/-- A remainder that has grown is not forgotten. -/
theorem auca_keeps_underflow {count : Nat} {c : EntryCursor} (h : c.cur.underflow = true)
    (w : AudioWorld) :
    (aucaWalk mem peerId peerAddr peerPort count c w).1.cur.underflow = true := by
  induction count generalizing c w with
  | zero => exact h
  | succ count ih =>
      obtain ⟨w', hstep⟩ := auca_step mem peerId peerAddr peerPort count c w
      rw [hstep]
      split
      · exact h
      · split
        · show (c.cur.underflow || _) = true
          rw [h, Bool.true_or]
        · refine ih ?_ w'
          show (((c.cur.underflow || _) || _) || _) = true
          rw [h, Bool.true_or, Bool.true_or, Bool.true_or]

/-- From a channel on, the loop is safe exactly when no length it comes to wraps. -/
theorem auca_walk_safe_iff {n : UInt32} (hn : n ≤ 1472) {count k : Nat} {c : EntryCursor}
    (h : AtChannel mem n k c) (w : AudioWorld) :
    SafeEntry n (aucaWalk mem peerId peerAddr peerPort count c w).1 ↔
      ¬ ∃ j, k ≤ j ∧ j < k + count ∧ NameWraps mem n j := by
  induction count generalizing k c w with
  | zero =>
      refine iff_of_true h.safe ?_
      rintro ⟨j, hkj, hj, -⟩
      omega
  | succ count ih =>
      obtain ⟨w', hstep⟩ := auca_step mem peerId peerAddr peerPort count c w
      have hrest := h.rest
      have hshort : c.cur.n < 4 ↔ n.toNat < channelOffset mem k + 4 := by
        rw [UInt32.lt_iff_toNat_lt]
        show c.cur.n.toNat < 4 ↔ _
        omega
      rw [hstep, h.len]
      by_cases hroom : channelOffset mem k + 4 ≤ n.toNat
      · rw [if_neg (fun hlt => absurd (hshort.mp hlt) (by omega))]
        by_cases hpass : nameLenAt mem k + 8 ≤ c.cur.n - 4
        · rw [if_neg (UInt32.not_lt.mpr hpass)]
          rcases (h.passes_iff hroom).mp hpass with hfits | hwrap
          · rw [ih (h.next hfits) w']
            have hhere : ¬ NameWraps mem n k := by
              rintro ⟨-, hbig, -⟩
              have hoff := channel_offset_succ mem k
              have hsmall : n.toNat ≤ 1472 := UInt32.le_iff_toNat_le.mp hn
              omega
            refine not_congr ⟨?_, ?_⟩
            · rintro ⟨j, hkj, hj, hwrap⟩
              exact ⟨j, by omega, by omega, hwrap⟩
            · rintro ⟨j, hkj, hj, hwrap⟩
              have hne : j ≠ k := by
                rintro rfl
                exact hhere hwrap
              exact ⟨j, by omega, by omega, hwrap⟩
          · refine iff_of_false ?_ (not_not.mpr ⟨k, le_rfl, by omega, hwrap⟩)
            intro hsafe
            have hgrown : (aucaWalk mem peerId peerAddr peerPort count (nextChannel mem c)
                w').1.cur.underflow = true :=
              auca_keeps_underflow peerId peerAddr peerPort (h.next_wraps hn hwrap) w'
            rw [hsafe.remainder] at hgrown
            exact Bool.false_ne_true hgrown
        · rw [if_pos (UInt32.not_le.mp hpass)]
          refine iff_of_true (h.refused_safe hroom) ?_
          -- a later channel would be behind this one, which does not fit
          rintro ⟨j, hkj, hj, hwrap⟩
          refine hpass ((h.passes_iff hroom).mpr ?_)
          rcases Nat.lt_or_eq_of_le hkj with hlater | rfl
          · have hnext := hwrap.room (show k + 1 ≤ j from hlater)
            exact .inl (by omega)
          · exact .inr hwrap
      · rw [if_pos (hshort.mpr (by omega))]
        refine iff_of_true h.safe ?_
        rintro ⟨j, hkj, hj, hwrap⟩
        exact hroom (hwrap.room hkj)

end

/-! ## The handlers -/

/-- The first word of a value, the length of the name of a `__pi` entry and the number of channels
of an `auca` or `aucb` entry. -/
def firstWord (mem : UInt32 → UInt8) : Nat := (be32 (bytesAt mem 0 4)).toNat

/-- A comparison of `ann_handler` wraps and passes: `4 + len`, for a value without room for the
31 bytes that are then copied, or `name_len + 8` of a channel. -/
def AnnWraps (mem : UInt32 → UInt8) (key n : UInt32) : Prop :=
  4 ≤ n.toNat ∧ (key = keyPi ∧ 2 ^ 32 ≤ 4 + firstWord mem ∧ n.toNat < 4 + (linkAudioNameMax - 1) ∨
    key = keyAuca ∧ ∃ k < firstWord mem, NameWraps mem n k)

/-- `count * 8` of `handle_aucb_entry` wraps to a value that passes the comparison. -/
def AucbWraps (mem : UInt32 → UInt8) (key n : UInt32) : Prop :=
  key = keyAucb ∧ 4 ≤ n.toNat ∧ 2 ^ 32 ≤ firstWord mem * 8 ∧
    firstWord mem * 8 % 2 ^ 32 ≤ n.toNat - 4

section
variable {mem : UInt32 → UInt8} {n : UInt32} (peerId : LinkId) (peerAddr : UInt32)
  (peerPort : UInt16)

/-- A handler that reads bytes of the value and does nothing else with the cursor. -/
theorem reads_only_safe {c : BodyCursor} (hunderflow : c.underflow = false) (hchunks : c.chunks = 0)
    (hinside : ∀ o ∈ c.reads, o < n) : SafeEntry n ⟨c, []⟩ := by
  refine ⟨hinside, ?_, hunderflow, ?_⟩
  · intro name hname
    exact absurd hname List.not_mem_nil
  · rw [hchunks]
    exact Nat.zero_le _

theorem start_safe : SafeEntry n ⟨.start n, []⟩ :=
  reads_only_safe rfl rfl fun _ ho => absurd ho List.not_mem_nil

/-- The cursor in front of the first channel. -/
theorem first_channel (mem : UInt32 → UInt8) (h : 4 ≤ n.toNat) :
    AtChannel mem n 0 ⟨(BodyCursor.start n).fetch 4, []⟩ := by
  have hn4 : (n - 4).toNat = n.toNat - 4 := size_sub (k := 4) h
  refine ⟨rfl, ?_, ?_, ?_, ?_, rfl⟩
  · show 4 + (n - 4).toNat = _
    omega
  · intro o ho
    exact read_inside (p := 0) (by simpa using h) ho
  · intro name hname
    exact absurd hname List.not_mem_nil
  · show (false || decide (n < 4)) = false
    rw [Bool.false_or, decide_eq_false_iff_not, UInt32.not_lt, UInt32.le_iff_toNat_le]
    exact h

/-- The `__pi` entry. -/
theorem pi_walk_safe_iff (s : AnnCtx × AudioWorld) :
    SafeEntry n (annWalk mem peerId peerAddr peerPort keyPi n s).1 ↔ ¬ AnnWraps mem keyPi n := by
  have hwalk : annWalk mem peerId peerAddr peerPort keyPi n s =
      if n < 4 then (⟨.start n, []⟩, s, -1)
      else if n < 4 + be32 (bytesAt mem 0 4) then (⟨(BodyCursor.start n).read 4, []⟩, s, -1)
      else (⟨((BodyCursor.start n).read 4).readAt 4 (nameCopied (be32 (bytesAt mem 0 4))), []⟩,
        s, 0) := rfl
  have hkey : keyPi ≠ keyAuca := by decide
  have hcond : AnnWraps mem keyPi n ↔ 4 ≤ n.toNat ∧
      2 ^ 32 ≤ 4 + (be32 (bytesAt mem 0 4)).toNat ∧ n.toNat < 35 :=
    ⟨fun ⟨hlong, hor⟩ => ⟨hlong, hor.elim (·.2) fun h => absurd h.1 hkey⟩,
      fun ⟨hlong, hpi⟩ => ⟨hlong, .inl ⟨rfl, hpi⟩⟩⟩
  rw [hwalk, hcond]
  generalize be32 (bytesAt mem 0 4) = len
  have hlen := len.toNat_lt
  have hsum : (4 + len).toNat = (4 + len.toNat) % 2 ^ 32 := UInt32.toNat_add 4 len
  by_cases hshort : n < 4
  · rw [if_pos hshort]
    have hshort' : n.toNat < 4 := UInt32.lt_iff_toNat_lt.mp hshort
    exact iff_of_true start_safe fun ⟨hlong, _⟩ => by omega
  · have hlong : 4 ≤ n.toNat := UInt32.le_iff_toNat_le.mp (UInt32.not_lt.mp hshort)
    rw [if_neg hshort]
    by_cases hrefused : n < 4 + len
    · -- a wrapped sum is below 4 and is never refused
      rw [if_pos hrefused]
      rw [UInt32.lt_iff_toNat_lt, hsum] at hrefused
      refine iff_of_true (reads_only_safe rfl rfl ?_) (by omega)
      intro o ho
      exact read_inside (p := 0) (by simpa using hlong) ho
    · rw [if_neg hrefused]
      rw [UInt32.lt_iff_toNat_lt, hsum] at hrefused
      have hcopied := name_copied_le len
      by_cases hroom : 4 + nameCopied len ≤ n.toNat
      · refine iff_of_true (reads_only_safe rfl rfl ?_) ?_
        · intro o ho
          rcases List.mem_append.mp ho with hword | hname
          · exact read_inside (p := 0) (by simpa using hlong) hword
          · exact read_inside (p := 4) hroom hname
        · rintro ⟨-, hbig, hfew⟩
          have hcap := name_copied_long (show 32 ≤ len.toNat by omega)
          omega
      · have hbig : 2 ^ 32 ≤ 4 + len.toNat := by omega
        have hcap := name_copied_long (show 32 ≤ len.toNat by omega)
        refine iff_of_false ?_ (not_not.mpr ⟨hlong, hbig, by omega⟩)
        intro hsafe
        -- the last byte of the copy
        have hlast := hsafe.inside 34
          (List.mem_append_right _ (List.mem_map.mpr ⟨30, List.mem_range.mpr (by omega), rfl⟩))
        rw [UInt32.lt_iff_toNat_lt] at hlast
        have h34 : (34 : UInt32).toNat = 34 := rfl
        omega

/-- The `auca` entry. -/
theorem auca_entry_safe_iff (hn : n ≤ 1472) (s : AnnCtx × AudioWorld) :
    SafeEntry n (annWalk mem peerId peerAddr peerPort keyAuca n s).1 ↔
      ¬ AnnWraps mem keyAuca n := by
  have hwalk : annWalk mem peerId peerAddr peerPort keyAuca n s =
      if n < 4 then (⟨.start n, []⟩, s, -1)
      else
        let r := aucaWalk mem peerId peerAddr peerPort (be32 (bytesAt mem 0 4)).toNat
          ⟨(BodyCursor.start n).fetch 4, []⟩ s.2
        (r.1, (s.1, r.2.1), r.2.2) := rfl
  have hkey : keyAuca ≠ keyPi := by decide
  rw [hwalk]
  by_cases hshort : n < 4
  · rw [if_pos hshort]
    refine iff_of_true start_safe ?_
    rintro ⟨hlong, -⟩
    exact absurd (UInt32.lt_iff_toNat_lt.mp hshort) (not_lt.mpr hlong)
  · have hlong : 4 ≤ n.toNat := UInt32.le_iff_toNat_le.mp (UInt32.not_lt.mp hshort)
    rw [if_neg hshort]
    dsimp only
    rw [auca_walk_safe_iff peerId peerAddr peerPort hn (first_channel mem hlong)]
    refine not_congr ⟨?_, ?_⟩
    · rintro ⟨k, -, hk, hwrap⟩
      exact ⟨hlong, .inr ⟨rfl, k, by rwa [Nat.zero_add] at hk, hwrap⟩⟩
    · rintro ⟨-, ⟨hpi, -⟩ | ⟨-, k, hk, hwrap⟩⟩
      · exact absurd hpi hkey
      · exact ⟨k, Nat.zero_le k, by rwa [Nat.zero_add], hwrap⟩

/-- Every entry of an announcement. -/
theorem ann_walk_safe_iff (hn : n ≤ 1472) (key : UInt32) (s : AnnCtx × AudioWorld) :
    SafeEntry n (annWalk mem peerId peerAddr peerPort key n s).1 ↔ ¬ AnnWraps mem key n := by
  by_cases hpi : key = keyPi
  · rw [hpi]
    exact pi_walk_safe_iff peerId peerAddr peerPort s
  · by_cases hauca : key = keyAuca
    · rw [hauca]
      exact auca_entry_safe_iff peerId peerAddr peerPort hn s
    · refine iff_of_true ?_ fun hwraps => hwraps.2.elim (hpi ·.1) (hauca ·.1)
      unfold annWalk
      dsimp only
      by_cases hht : key = keyHt
      · rw [if_pos hht]
        by_cases height : n = 8
        · rw [if_neg (not_not.mpr height), height]
          refine reads_only_safe rfl rfl ?_
          intro o ho
          exact read_inside (p := 0) le_rfl ho
        · rw [if_pos height]
          exact start_safe
      · rw [if_neg hht, if_neg hpi, if_neg hauca]
        split
        · split
          · exact start_safe
          · exact start_safe
        · exact start_safe

/-- The loop over the channels of a byes message, where these lie in the value. -/
theorem AfterByes.safe {w : AudioWorld} {count : Nat} {s : BodyCursor × AudioWorld}
    (h : AfterByes mem ((BodyCursor.start n).fetch 4) w count s) (hroom : 4 + count * 8 ≤ n.toNat) :
    SafeEntry n ⟨s.1, []⟩ := by
  have hsize := n.toNat_lt
  have hfirst := (first_channel mem (show 4 ≤ n.toNat by omega)).safe
  refine ⟨?_, ?_, ?_, ?_⟩
  · intro o ho
    rcases (h.reads o).mp ho with hword | ⟨i, hi, j, hj, rfl⟩
    · exact hfirst.inside o hword
    · have hptr : UInt32.ofNat 4 + .ofNat (i * 8) = .ofNat (4 + i * 8) :=
        (UInt32.ofNat_add 4 (i * 8)).symm
      have hoff : (UInt32.ofNat (4 + i * 8)).toNat = 4 + i * 8 :=
        UInt32.toNat_ofNat_of_lt' (show 4 + i * 8 < 2 ^ 32 by omega)
      have hstart : ((BodyCursor.start n).fetch 4).p = .ofNat 4 := rfl
      rw [hstart, hptr]
      have hchannel : (UInt32.ofNat (4 + i * 8)).toNat + 8 ≤ n.toNat := by
        rw [hoff]
        omega
      exact read_inside hchannel (List.mem_map.mpr ⟨j, List.mem_range.mpr hj, rfl⟩)
  · intro name hname
    exact absurd hname List.not_mem_nil
  · show s.1.underflow = false
    rw [h.underflow]
    exact hfirst.remainder
  · show s.1.chunks ≤ _
    rw [h.chunks]
    show 0 + count ≤ _
    omega

/-- More iterations than the value has room for. -/
theorem AfterByes.overrun {w : AudioWorld} {count : Nat} {s : BodyCursor × AudioWorld}
    (h : AfterByes mem ((BodyCursor.start n).fetch 4) w count s) (hmany : n.toNat < count * 8) :
    ¬ SafeEntry n ⟨s.1, []⟩ := by
  intro hsafe
  have hbounded : s.1.chunks ≤ n.toNat / 8 := hsafe.bounded
  have hchunks : s.1.chunks = 0 + count := h.chunks
  omega

/-- Every entry of a byes message. -/
theorem aucb_walk_safe_iff (key : UInt32) (w : AudioWorld) :
    SafeEntry n ⟨(aucbWalk mem key n w).1, []⟩ ↔ ¬ AucbWraps mem key n := by
  unfold aucbWalk
  dsimp only
  by_cases hkey : key = keyAucb
  · rw [if_neg (not_not.mpr hkey)]
    by_cases hshort : n < 4
    · rw [if_pos hshort]
      refine iff_of_true start_safe ?_
      rintro ⟨-, hlong, -⟩
      exact absurd (UInt32.lt_iff_toNat_lt.mp hshort) (not_lt.mpr hlong)
    · have hlong : 4 ≤ n.toNat := UInt32.le_iff_toNat_le.mp (UInt32.not_lt.mp hshort)
      have hn4 : ((BodyCursor.start n).fetch 4).n.toNat = n.toNat - 4 :=
        size_sub (k := 4) hlong
      have hproduct : (be32 (bytesAt mem 0 4) * 8).toNat = firstWord mem * 8 % 2 ^ 32 :=
        UInt32.toNat_mul _ 8
      rw [if_neg hshort]
      by_cases hrefused :
          ((BodyCursor.start n).fetch 4).n < be32 (bytesAt mem 0 4) * 8
      · rw [if_pos hrefused]
        rw [UInt32.lt_iff_toNat_lt, hproduct, hn4] at hrefused
        refine iff_of_true (first_channel mem hlong).safe ?_
        rintro ⟨-, -, -, hpass⟩
        omega
      · rw [if_neg hrefused]
        rw [UInt32.lt_iff_toNat_lt, hproduct, hn4] at hrefused
        have hloop := byes_loop mem ((BodyCursor.start n).fetch 4) w (firstWord mem)
        by_cases hbig : 2 ^ 32 ≤ firstWord mem * 8
        · have hsize := n.toNat_lt
          exact iff_of_false (hloop.overrun (by omega))
            (not_not.mpr ⟨hkey, hlong, hbig, not_lt.mp hrefused⟩)
        · refine iff_of_true (hloop.safe ?_) fun h => hbig h.2.2.1
          omega
  · rw [if_pos hkey]
    exact iff_of_true start_safe fun h => hkey h.1

end

/-- The handlers of the announced and the departing channels keep to a value of a datagram exactly
when none of their comparisons wraps to a value that passes. -/
theorem entry_walks_safe_iff (mem : UInt32 → UInt8) (key n : UInt32) (hn : n ≤ 1472)
    (peerId : LinkId) (peerAddr : UInt32) (peerPort : UInt16) (s : AnnCtx × AudioWorld) :
    (SafeEntry n (annWalk mem peerId peerAddr peerPort key n s).1 ↔ ¬ AnnWraps mem key n) ∧
      (SafeEntry n ⟨(aucbWalk mem key n s.2).1, []⟩ ↔ ¬ AucbWraps mem key n) :=
  ⟨ann_walk_safe_iff peerId peerAddr peerPort hn key s, aucb_walk_safe_iff key s.2⟩

/-- An `auca` value with one channel whose name has the length 8. -/
def oneChannel : List UInt8 := putBe32 1 ++ putBe32 8 ++ List.replicate 16 0x61

theorem entry_walks_safe_iff_one_channel :
    SafeEntry 24 (annWalk (memOf oneChannel) .zero 0x0A000002 20808 keyAuca 24
      (⟨0, false⟩, audioPowerOn (powerOn (fun _ => 0) 0 []) 2)).1 := by
  refine (entry_walks_safe_iff (memOf oneChannel) keyAuca 24 (by decide) .zero 0x0A000002 20808
    (⟨0, false⟩, audioPowerOn (powerOn (fun _ => 0) 0 []) 2)).1.mpr ?_
  have hcount : firstWord (memOf oneChannel) = 1 := rfl
  have hlen : (nameLenAt (memOf oneChannel) 0).toNat = 8 := rfl
  rintro ⟨-, ⟨hpi, -⟩ | ⟨-, k, hk, -, hbig, -⟩⟩
  · exact absurd hpi (by decide)
  · rw [hcount] at hk
    obtain rfl := Nat.lt_one_iff.mp hk
    rw [hlen] at hbig
    exact absurd hbig (by decide)

/-- An `auca` value of 20 bytes with one channel whose name has the length `0xFFFFFFF8`. -/
def wrappedName : List UInt8 := putBe32 1 ++ putBe32 0xFFFFFFF8 ++ List.replicate 12 0

/-- The handler copies 31 bytes from offset 8 on for the name of the catalog entry. -/
theorem wrapped_name_read (peerId : LinkId) (peerAddr : UInt32) (peerPort : UInt16)
    (s : AnnCtx × AudioWorld) : 38 ∈
      (annWalk (memOf wrappedName) peerId peerAddr peerPort keyAuca 20 s).1.cur.reads := by
  have hreads : (annWalk (memOf wrappedName) peerId peerAddr peerPort keyAuca 20 s).1.cur.reads =
      (List.range 4).map UInt32.ofNat ++ (List.range 4).map (4 + UInt32.ofNat ·) ++
        (List.range 31).map (8 + UInt32.ofNat ·) ++ (List.range 8).map UInt32.ofNat := rfl
  have hlast : (38 : UInt32) ∈ (List.range 31).map (8 + UInt32.ofNat ·) :=
    List.mem_map.mpr ⟨30, List.mem_range.mpr (by omega), rfl⟩
  rw [hreads]
  exact List.mem_append_left _ (List.mem_append_right _ hlast)

theorem wrapped_name_read_outside :
    ¬ SafeEntry 20 (annWalk (memOf wrappedName) .zero 0x0A000002 20808 keyAuca 20
      (⟨0, false⟩, audioPowerOn (powerOn (fun _ => 0) 0 []) 2)).1 := by
  intro hsafe
  have hlast := hsafe.inside 38 (wrapped_name_read _ _ _ _)
  exact absurd hlast (by decide)

end LinkFPGA
