import LinkFPGA.Library.RingQueue
import LinkFPGA.Firmware.Main
import LinkFPGA.Proofs.AudioBodies

/-!
# The jitter ring is a bounded queue

The ring of a subscription holds the queue of the samples between its counters `jbuf_r` and
`jbuf_w`, both modulo 2^32. Since the length of the ring divides 2^32, the counters may wrap:
appending and draining are those of a queue of 1024 samples.
`jitter_ring_refines_queue` follows a subscription through a run: what it plays is what comes out
of that queue.

Read `ring_push` first.
-/

namespace LinkFPGA

open RingQueue

instance : NeZero linkAudioJbufLen.toNat := ⟨by decide⟩

/-! ## One ring -/

/-- The fields of a subscription that make up its jitter ring. -/
structure JitterRing where
  jbuf : Vector UInt16 linkAudioJbufLen.toNat
  w : UInt32
  r : UInt32

def AudioSub.ring (sub : AudioSub) : JitterRing := ⟨sub.jbuf, sub.jbufW, sub.jbufR⟩

namespace JitterRing

/-- The samples in the ring, `jbuf_w - jbuf_r` modulo 2^32. -/
def count (g : JitterRing) : Nat := (g.w - g.r).toNat

/-- The samples in the ring, oldest first. -/
def queue (g : JitterRing) : List UInt16 := contents g.jbuf g.r.toNat g.count

@[simp] theorem queue_length (g : JitterRing) : g.queue.length = g.count :=
  contents_length _ _ _

end JitterRing

theorem jbuf_len_toNat : linkAudioJbufLen.toNat = 1024 := rfl

/-- The length of the ring divides 2^32, so a counter keeps its cell when it wraps. -/
theorem counter_residue (x y : UInt32) :
    (x + y).toNat % linkAudioJbufLen.toNat = (x.toNat + y.toNat) % linkAudioJbufLen.toNat := by
  rw [UInt32.toNat_add]
  exact Nat.mod_mod_of_dvd _ ⟨2 ^ 22, rfl⟩

/-- The cell that is written next. -/
theorem write_index (g : JitterRing) :
    (g.w % linkAudioJbufLen).toNat = (g.r.toNat + g.count) % linkAudioJbufLen.toNat := by
  have hw : g.w = g.r + (g.w - g.r) := by
    rw [UInt32.add_comm, UInt32.sub_add_cancel]
  have hres := counter_residue g.r (g.w - g.r)
  rw [← hw] at hres
  rw [UInt32.toNat_mod]
  exact hres

/-- Writing counts one sample more. -/
theorem count_write (g : JitterRing) (hcount : g.count ≤ 1024) :
    (g.w + 1 - g.r).toNat = g.count + 1 := by
  have hcomm : g.w + 1 - g.r = g.w - g.r + 1 := by
    rw [UInt32.sub_eq_add_neg, UInt32.sub_eq_add_neg, UInt32.add_assoc, UInt32.add_comm 1,
      ← UInt32.add_assoc]
  rw [hcomm, UInt32.toNat_add]
  show (g.count + 1) % 2 ^ 32 = _
  omega

/-- The overflow rule moves `jbuf_r` over one sample. -/
theorem overflow_read (g : JitterRing) (hfull : g.count = 1024) :
    g.w + 1 - linkAudioJbufLen = g.r + 1 := by
  have hdist : g.w - g.r = linkAudioJbufLen := UInt32.toNat_inj.mp hfull
  rw [← hdist]
  grind

/-- Appending a sample to the ring appends it to the queue, and a full queue drops its oldest. -/
theorem ring_push (sub : AudioSub) (v : UInt16) (hcount : sub.ring.count ≤ 1024) :
    (sub.push v).ring.count ≤ 1024 ∧
      (sub.push v).ring.queue = enqueue 1024 sub.ring.queue v := by
  have hnext : (sub.jbufW + 1 - sub.jbufR).toNat = sub.ring.count + 1 :=
    count_write sub.ring hcount
  have hindex := write_index sub.ring
  have hlimit : linkAudioJbufLen < sub.jbufW + 1 - sub.jbufR ↔ 1024 < sub.ring.count + 1 := by
    rw [UInt32.lt_iff_toNat_lt, hnext, jbuf_len_toNat]
  unfold AudioSub.push
  dsimp only
  by_cases hfull : sub.ring.count = 1024
  · -- the ring was full: `jbuf_r` becomes `jbuf_r + 1`
    have hread : sub.jbufW + 1 - linkAudioJbufLen = sub.jbufR + 1 :=
      overflow_read sub.ring hfull
    have hsame : (sub.jbufW + 1 - (sub.jbufR + 1)).toNat = linkAudioJbufLen.toNat := by
      rw [← hread]
      grind
    rw [if_pos (hlimit.mpr (by omega)), hread]
    refine ⟨Nat.le_of_eq hsame, ?_⟩
    unfold AudioSub.ring JitterRing.queue JitterRing.count
    dsimp only
    rw [hsame, contents_congr _ (counter_residue sub.jbufR 1), enqueue, contents_length]
    have hold : (sub.jbufW - sub.jbufR).toNat = 1024 := hfull
    rw [hold, if_neg (Nat.lt_irrefl _)]
    refine contents_push_full sub.jbuf sub.jbufR.toNat _ ?_ v
    rw [hfull] at hindex
    exact hindex.trans (Nat.add_mod_right _ _)
  · have hroom : sub.ring.count < 1024 := by omega
    rw [if_neg (by rw [hlimit]; omega)]
    refine ⟨?_, ?_⟩
    · show (sub.jbufW + 1 - sub.jbufR).toNat ≤ 1024
      omega
    · unfold AudioSub.ring JitterRing.queue JitterRing.count
      dsimp only
      rw [hnext, enqueue, contents_length]
      have hsub : (sub.jbufW - sub.jbufR).toNat = sub.ring.count := rfl
      rw [hsub, if_pos hroom]
      exact contents_push sub.jbuf sub.jbufR.toNat hroom _ hindex v

/-- Delivering a buffer appends its samples to the queue. -/
theorem ring_deliver (sub : AudioSub) (numChan : UInt8) (samples : List UInt16)
    (hcount : sub.ring.count ≤ 1024) :
    (sub.deliver numChan samples).ring.count ≤ 1024 ∧
      (sub.deliver numChan samples).ring.queue = samples.foldl (enqueue 1024) sub.ring.queue := by
  have hloop : ∀ start : AudioSub, start.ring.count ≤ 1024 →
      (samples.foldl AudioSub.push start).ring.count ≤ 1024 ∧
        (samples.foldl AudioSub.push start).ring.queue =
          samples.foldl (enqueue 1024) start.ring.queue := by
    induction samples with
    | nil => exact fun start hstart => ⟨hstart, rfl⟩
    | cons v samples ih =>
        intro start hstart
        obtain ⟨hcount', hqueue⟩ := ring_push start v hstart
        rw [List.foldl_cons, List.foldl_cons, ← hqueue]
        exact ih _ hcount'
  exact hloop { sub with numChanRemote := numChan } hcount

/-- Draining plays the oldest sample, if there is one. -/
theorem ring_drain (sub : AudioSub) (hcount : sub.ring.count ≤ 1024) :
    sub.drain.1.ring.count ≤ 1024 ∧ sub.drain.1.ring.queue = sub.ring.queue.tail ∧
      sub.drain.2 = sub.ring.queue.head? := by
  unfold AudioSub.drain
  by_cases hempty : sub.jbufR = sub.jbufW
  · have hzero : sub.ring.count = 0 := by
      show (sub.jbufW - sub.jbufR).toNat = 0
      rw [hempty]
      simp
    have hnil : sub.ring.queue = [] :=
      List.length_eq_zero_iff.mp (by rw [sub.ring.queue_length, hzero])
    rw [if_neg (not_not.mpr hempty)]
    refine ⟨hcount, ?_, ?_⟩ <;> rw [hnil] <;> rfl
  · obtain ⟨n, hn⟩ : ∃ n, sub.ring.count = n + 1 := by
      refine Nat.exists_eq_succ_of_ne_zero fun hzero => hempty ?_
      have hdist : sub.jbufW - sub.jbufR = 0 := UInt32.toNat_inj.mp hzero
      grind
    have hrest : (sub.jbufW - (sub.jbufR + 1)).toNat = n := by
      have hstep : sub.jbufW - sub.jbufR = sub.jbufW - (sub.jbufR + 1) + 1 := by grind
      have hnat : (sub.jbufW - sub.jbufR).toNat = n + 1 := hn
      have hlt := (sub.jbufW - (sub.jbufR + 1)).toNat_lt
      rw [hstep, UInt32.toNat_add, UInt32.toNat_one] at hnat
      omega
    have hqueue : sub.ring.queue =
        cellAt sub.jbuf sub.jbufR.toNat :: contents sub.jbuf (sub.jbufR.toNat + 1) n := by
      unfold JitterRing.queue
      rw [hn]
      exact contents_succ sub.jbuf sub.jbufR.toNat n
    rw [if_pos hempty, hqueue]
    refine ⟨?_, ?_, ?_⟩
    · show (sub.jbufW - (sub.jbufR + 1)).toNat ≤ 1024
      omega
    · show contents sub.jbuf (sub.jbufR + 1).toNat (sub.jbufW - (sub.jbufR + 1)).toNat = _
      rw [hrest, contents_congr _ (counter_residue sub.jbufR 1)]
      rfl
    · show some _ = some _
      congr 2

/-! ## A subscription in a run -/

/-- The subscription in slot `i` is in use for channel `cid`, routed to a TDM slot of a valid
port, and no other subscription in use is for the channel. -/
structure SoleUser (i : Nat) (cid : LinkId) (port : Nat) (channel : Int) (w : AudioWorld) :
    Prop where
  slot : i < linkAudioMaxRemote
  valid : port < w.numTdmPorts
  entry : ∃ sub, w.linkAudioSubs[i]? = some sub ∧ sub.inUse = true ∧ sub.channelId = cid ∧
    sub.tdmPort = port ∧ sub.tdmChannel = channel
  alone : ∀ (j : Nat) (sub : AudioSub), w.linkAudioSubs[j]? = some sub → sub.inUse = true →
    sub.channelId = cid → j = i

/-- The samples of channel 0 of a datagram, if it is an AudioBuffer of the channel and of our
session with a body that is accepted. -/
def acceptedSamples (cid : LinkId) (w : AudioWorld) (buf : UInt32 → UInt8) (len : UInt32) :
    Option (List UInt16) :=
  let body := audioBody buf
  if IsAudioBuffer w buf len ∧ AcceptedBody body (len - 20) ∧
      LinkId.ofBytes (bytesAt body 8 8) = w.core.linkSelfSession ∧
      LinkId.ofBytes (bytesAt body 0 8) = cid then
    some (bodySamples body)
  else none

/-- What an event means for the queue of a subscription to `cid` routed to `port`. -/
def queueOps (cid : LinkId) (port : Nat) (w : AudioWorld) : AudioEvent → List (QueueOp UInt16)
  | .rx buf len _ _ => ((acceptedSamples cid w buf len).map .append).toList
  | .tdmFrame p _ _ => if p = port then [.take] else []
  | .other _ => []

/-- The ring in a slot, and the writes its subscription made to TDM transmit slots. -/
def ringView (i : Nat) (w : AudioWorld) : Option JitterRing × List TdmWrite :=
  ((w.linkAudioSubs[i]?).map AudioSub.ring, w.tdmTx.filter (·.sub = i))

/-! ### Frames -/

theorem CatalogOnly.ringView {w w' : AudioWorld} (h : CatalogOnly w w') (i : Nat) :
    ringView i w' = ringView i w := by
  obtain ⟨_, _, _, rfl⟩ := h
  rfl

theorem ReleasesOnly.ringView {w w' : AudioWorld} (h : ReleasesOnly w w') (i : Nat) :
    ringView i w' = ringView i w := by
  obtain ⟨remote, subs, rfl, hsubs⟩ := h
  refine Prod.ext ?_ rfl
  show (subs[i]?).map AudioSub.ring = _
  rcases hsubs i with hsame | hfree
  · rw [hsame]
    rfl
  · rw [hfree, Option.map_map]
    rfl

theorem SubscribersOnly.ringView {w w' : AudioWorld} (h : SubscribersOnly w w') (i : Nat) :
    ringView i w' = ringView i w := by
  rcases h with rfl | ⟨_, _, _, _, _, rfl⟩
  · rfl
  · rfl

/-- The subscription in a slot, and the writes it made to TDM transmit slots. -/
def slotView (i : Nat) (w : AudioWorld) : Option AudioSub × List TdmWrite :=
  (w.linkAudioSubs[i]?, w.tdmTx.filter (·.sub = i))

/-- What the drain loop does to the subscription in a slot. -/
def drainView (port i : Nat) : Option AudioSub × List TdmWrite → Option AudioSub × List TdmWrite
  | (none, writes) => (none, writes)
  | (some sub, writes) =>
      if sub.inUse = false ∨ sub.tdmPort ≠ port then (some sub, writes)
      else (some sub.drain.1,
        writes ++ (sub.drain.2.map (TdmWrite.mk i sub.tdmPort sub.tdmChannel)).toList)

/-- The writes of one iteration of the drain loop, as another slot sees them. -/
theorem filter_writes (writes : List TdmWrite) (i j : Nat) (port channel : Int)
    (sample : Option UInt16) :
    (writes ++ (sample.map (TdmWrite.mk j port channel)).toList).filter (·.sub = i) =
      writes.filter (·.sub = i) ++
        if j = i then (sample.map (TdmWrite.mk j port channel)).toList else [] := by
  rw [List.filter_append]
  by_cases hji : j = i
  · cases sample with
    | none => simp
    | some v => simp [hji]
  · cases sample with
    | none => simp
    | some v => simp [hji]

theorem drain_sub_other (port : Nat) {i j : Nat} (hji : j ≠ i) (w : AudioWorld) :
    slotView i (drainSub port w j) = slotView i w := by
  unfold drainSub
  split
  · rfl
  · rename_i sub _
    split
    · rfl
    · refine Prod.ext (List.getElem?_set_ne hji) ?_
      refine (filter_writes w.tdmTx i j sub.tdmPort sub.tdmChannel sub.drain.2).trans ?_
      rw [if_neg hji, List.append_nil]
      rfl

theorem drain_sub_self (port i : Nat) (w : AudioWorld) :
    slotView i (drainSub port w i) = drainView port i (slotView i w) := by
  unfold drainSub
  cases hsub : w.linkAudioSubs[i]? with
  | none =>
      show slotView i w = drainView port i (w.linkAudioSubs[i]?, _)
      rw [hsub]
      exact Prod.ext hsub rfl
  | some sub =>
      have hlt : i < w.linkAudioSubs.length := (List.getElem?_eq_some_iff.mp hsub).1
      show _ = drainView port i (w.linkAudioSubs[i]?, _)
      rw [hsub]
      unfold drainView
      dsimp only
      split
      · exact Prod.ext hsub rfl
      · refine Prod.ext (List.getElem?_set_self hlt) ?_
        refine (filter_writes w.tdmTx i i sub.tdmPort sub.tdmChannel sub.drain.2).trans ?_
        rw [if_pos rfl]

/-- The slot of a subscription after the drain loop. -/
theorem drain_loop_view (port : Nat) {i : Nat} (hslot : i < linkAudioMaxRemote) (w : AudioWorld) :
    slotView i ((List.range linkAudioMaxRemote).foldl (drainSub port) w) =
      drainView port i (slotView i w) := by
  have hinv : ∀ j ∈ List.range linkAudioMaxRemote, ∀ s : AudioWorld, True → True :=
    fun _ _ _ h => h
  exact Sweep.view_sweep hinv (fun j _ w _ hji => drain_sub_other port hji w)
    (fun w _ => drain_sub_self port i w) List.nodup_range (List.mem_range.mpr hslot) trivial

/-! ### Buffers -/

variable {i : Nat} {cid : LinkId} {port : Nat} {channel : Int} {w : AudioWorld}

/-- `find_sub_for_channel` finds the only subscription of the channel. -/
theorem SoleUser.find (h : SoleUser i cid port channel w) : findSubForChannel w cid = some i := by
  obtain ⟨sub, hsub, huse, hcid, _⟩ := h.entry
  obtain ⟨j, hj⟩ := Option.isSome_iff_exists.mp (find_sub_isSome hsub huse hcid)
  obtain ⟨other, hother, huse', hcid'⟩ := find_sub_some hj
  rw [hj, h.alone j other hother huse' hcid']

/-- A buffer that is not for the subscription leaves its ring alone. -/
theorem other_buffer (h : SoleUser i cid port channel w) {buf : UInt32 → UInt8} {len : UInt32}
    (hbuffer : IsAudioBuffer w buf len) (hacc : acceptedSamples cid w buf len = none) :
    ringView i (handleAudioBuffer (audioBody buf) (len - 20) w).1 = ringView i w := by
  unfold acceptedSamples at hacc
  have hother : ¬ (IsAudioBuffer w buf len ∧ AcceptedBody (audioBody buf) (len - 20) ∧
      LinkId.ofBytes (bytesAt (audioBody buf) 8 8) = w.core.linkSelfSession ∧
      LinkId.ofBytes (bytesAt (audioBody buf) 0 8) = cid) := by
    intro hmatch
    rw [if_pos hmatch] at hacc
    cases hacc
  by_cases hfor : AcceptedBody (audioBody buf) (len - 20) ∧
      LinkId.ofBytes (bytesAt (audioBody buf) 8 8) = w.core.linkSelfSession
  · obtain ⟨haccept, hsession⟩ := hfor
    cases hfind : findSubForChannel w (.ofBytes (bytesAt (audioBody buf) 0 8)) with
    | none => rw [handle_refused fun _ => .inr hfind]
    | some j =>
        obtain ⟨sub, hsub, _, hid⟩ := find_sub_some hfind
        obtain ⟨own, hown, _, hcid', _⟩ := h.entry
        -- the buffer goes to a subscription of another channel
        have hji : j ≠ i := by
          rintro rfl
          rw [hown] at hsub
          obtain rfl := Option.some.inj hsub
          exact hother ⟨hbuffer, haccept, hsession, hid.symm.trans hcid'⟩
        rw [handle_accepted haccept hsession hfind hsub]
        refine Prod.ext ?_ rfl
        show ((w.linkAudioSubs.set j _)[i]?).map AudioSub.ring = _
        rw [List.getElem?_set_ne hji]
        rfl
  · rw [handle_refused fun haccept => .inl fun hsession => hfor ⟨haccept, hsession⟩]

/-- An accepted buffer is delivered to the subscription. -/
theorem accepted_buffer (h : SoleUser i cid port channel w) {buf : UInt32 → UInt8} {len : UInt32}
    {samples : List UInt16} (hacc : acceptedSamples cid w buf len = some samples) {sub : AudioSub}
    (hsub : w.linkAudioSubs[i]? = some sub) :
    ∃ numChan, (handleAudioBuffer (audioBody buf) (len - 20) w).1 =
      w.setSub i (sub.deliver numChan samples) := by
  unfold acceptedSamples at hacc
  dsimp only at hacc
  split at hacc
  · rename_i hmatch
    obtain ⟨-, haccept, hsession, hcid⟩ := hmatch
    obtain rfl := Option.some.inj hacc
    refine ⟨_, handle_accepted haccept hsession ?_ hsub⟩
    rw [hcid]
    exact h.find
  · cases hacc

/-! ### Runs -/

/-- The ring holds a queue, and the subscription has written what was taken out of it. -/
structure Plays (i port : Nat) (channel : Int) (q : List UInt16) (writes : List TdmWrite)
    (w : AudioWorld) : Prop where
  ring : ∃ sub, w.linkAudioSubs[i]? = some sub ∧ sub.ring.count ≤ 1024 ∧ sub.ring.queue = q
  written : w.tdmTx.filter (·.sub = i) = writes

/-- `Plays` looks at the ring and the writes only. -/
theorem Plays.congr {q : List UInt16} {writes : List TdmWrite} {w' : AudioWorld}
    (h : Plays i port channel q writes w) (hview : ringView i w' = ringView i w) :
    Plays i port channel q writes w' := by
  obtain ⟨hring, hwritten⟩ := Prod.mk.inj hview
  obtain ⟨sub, hsub, hcount, hqueue⟩ := h.ring
  rw [hsub, Option.map_some] at hring
  obtain ⟨sub', hsub', hsame⟩ := Option.map_eq_some_iff.mp hring
  refine ⟨⟨sub', hsub', ?_, ?_⟩, hwritten.trans h.written⟩
  · rw [hsame]
    exact hcount
  · rw [hsame]
    exact hqueue

/-- A TDM frame of the port takes one sample out of the queue and plays it; a frame of another port
does not touch the subscription. -/
theorem Plays.frame {q : List UInt16} {writes : List TdmWrite}
    (h : Plays i port channel q writes w) (hsole : SoleUser i cid port channel w) (p : Nat)
    (rx : Nat → UInt16) (beats : Nat → Int64) :
    Plays i port channel (if p = port then q.tail else q)
      (writes ++ (if p = port then q.head?.toList else []).map (TdmWrite.mk i port channel))
      (linkAudioOnTdmFrame p rx beats w) := by
  obtain ⟨sub, hsub, hcount, hqueue⟩ := h.ring
  obtain ⟨own, hown, huse, _, hport, hchannel⟩ := hsole.entry
  obtain rfl : sub = own := Option.some.inj (hsub.symm.trans hown)
  obtain ⟨_, _, _, _, _, _, hcapture⟩ :=
    capture_loop_frame p rx beats (List.range linkTdmChannelsPerPort) w
  have hview := drain_loop_view p hsole.slot
    ((List.range linkTdmChannelsPerPort).foldl (captureChannel p rx beats) w)
  have hbefore : slotView i
      ((List.range linkTdmChannelsPerPort).foldl (captureChannel p rx beats) w) =
        (some sub, writes) := by
    rw [hcapture]
    exact Prod.ext hsub h.written
  rw [hbefore] at hview
  unfold linkAudioOnTdmFrame
  by_cases hp : p = port
  · subst hp
    have hactive : ¬ (sub.inUse = false ∨ sub.tdmPort ≠ (p : Int)) := by
      simp [huse, hport]
    obtain ⟨hcount', hqueue', htaken⟩ := ring_drain sub hcount
    rw [drainView, if_neg hactive] at hview
    obtain ⟨hslot, hwritten⟩ := Prod.mk.inj hview
    rw [if_neg (Nat.not_le.mpr hsole.valid), if_pos rfl, if_pos rfl]
    refine ⟨⟨sub.drain.1, hslot, hcount', hqueue'.trans (by rw [hqueue])⟩, ?_⟩
    refine hwritten.trans ?_
    rw [htaken, hqueue, hport, hchannel]
    cases q.head? <;> rfl
  · have hpassive : sub.inUse = false ∨ sub.tdmPort ≠ (p : Int) := by
      right
      rw [hport]
      exact fun heq => hp (Int.ofNat_inj.mp heq).symm
    rw [drainView, if_pos hpassive] at hview
    obtain ⟨hslot, hwritten⟩ := Prod.mk.inj hview
    rw [if_neg hp, if_neg hp, List.map_nil, List.append_nil]
    split
    · exact h
    · exact ⟨⟨sub, hslot, hcount, hqueue⟩, hwritten⟩

/-- One event is what `queueOps` says for the queue and for what is played. -/
theorem Plays.step {q : List UInt16} {writes : List TdmWrite}
    (h : Plays i port channel q writes w) (hsole : SoleUser i cid port channel w)
    (e : AudioEvent) :
    Plays i port channel (Runs.run (QueueOp.step 1024) q (queueOps cid port w e))
      (writes ++ (Runs.log (QueueOp.step 1024) QueueOp.taken q (queueOps cid port w e)).map
        (TdmWrite.mk i port channel)) (audioStep w e) := by
  have hquiet {w' : AudioWorld} (hview : ringView i w' = ringView i w) :
      Plays i port channel q (writes ++ [].map (TdmWrite.mk i port channel)) w' := by
    rw [List.map_nil, List.append_nil]
    exact h.congr hview
  cases e with
  | other core => exact hquiet rfl
  | tdmFrame p rx beats =>
      have hframe := h.frame hsole p rx beats
      by_cases hp : p = port
      · have hops : queueOps cid port w (.tdmFrame p rx beats) = [.take] := if_pos hp
        rw [if_pos hp, if_pos hp] at hframe
        rw [hops, Runs.run_cons, Runs.run_nil, Runs.log_cons, Runs.log_nil, List.append_nil]
        exact hframe
      · have hops : queueOps cid port w (.tdmFrame p rx beats) = [] := if_neg hp
        rw [if_neg hp, if_neg hp] at hframe
        rw [hops]
        exact hframe
  | rx buf len srcAddr srcPort =>
      unfold audioStep queueOps
      dsimp only
      rcases audio_rx_cases buf len srcAddr srcPort w with hbuffer | ⟨hbuffer, hother⟩
      · rw [handle_rx_audio_buffer hbuffer]
        cases hacc : acceptedSamples cid w buf len with
        | none => exact hquiet (other_buffer hsole hbuffer hacc)
        | some samples =>
            obtain ⟨sub, hsub, hcount, hqueue⟩ := h.ring
            obtain ⟨numChan, hdeliver⟩ := accepted_buffer hsole hacc hsub
            obtain ⟨hcount', hqueue'⟩ := ring_deliver sub numChan samples hcount
            have hlt : i < w.linkAudioSubs.length := (List.getElem?_eq_some_iff.mp hsub).1
            rw [hdeliver]
            refine ⟨⟨_, List.getElem?_set_self hlt, hcount', ?_⟩, ?_⟩
            · rw [hqueue', hqueue]
              rfl
            · exact h.written.trans (by simp [QueueOp.taken])
      · have hacc : acceptedSamples cid w buf len = none := if_neg fun hmatch => hbuffer hmatch.1
        rw [hacc]
        rcases hother with hcatalog | hreleases | hsubscribers
        · exact hquiet (hcatalog.ringView i)
        · exact hquiet (hreleases.ringView i)
        · exact hquiet (hsubscribers.ringView i)

/-- The ring of a subscription that is the only one for its channel is a queue of 1024 samples:
it holds what the queue holds, and the subscription plays what comes out of the queue. -/
theorem jitter_ring_refines_queue (i : Nat) (cid : LinkId) (port : Nat) (channel : Int)
    (w : AudioWorld) (sub : AudioSub) (es : List AudioEvent)
    (hsub : w.linkAudioSubs[i]? = some sub) (hcount : sub.ring.count ≤ 1024)
    (hrun : Runs.Guarded audioStep (fun w _ => SoleUser i cid port channel w) w es) :
    let ops := Runs.log audioStep (queueOps cid port) w es
    ∃ sub', (runAudio w es).linkAudioSubs[i]? = some sub' ∧
      (sub'.jbufW - sub'.jbufR).toNat ≤ 1024 ∧
      sub'.ring.queue = Runs.run (QueueOp.step 1024) sub.ring.queue ops ∧
      (runAudio w es).tdmTx.filter (·.sub = i) = w.tdmTx.filter (·.sub = i) ++
        (Runs.log (QueueOp.step 1024) QueueOp.taken sub.ring.queue ops).map
          (TdmWrite.mk i port channel) := by
  have hstep : ∀ w' past e, Plays i port channel
      (Runs.run (QueueOp.step 1024) sub.ring.queue past)
      (w.tdmTx.filter (·.sub = i) ++
        (Runs.log (QueueOp.step 1024) QueueOp.taken sub.ring.queue past).map
          (TdmWrite.mk i port channel)) w' → SoleUser i cid port channel w' →
      Plays i port channel
        (Runs.run (QueueOp.step 1024) sub.ring.queue (past ++ queueOps cid port w' e))
        (w.tdmTx.filter (·.sub = i) ++
          (Runs.log (QueueOp.step 1024) QueueOp.taken sub.ring.queue
            (past ++ queueOps cid port w' e)).map (TdmWrite.mk i port channel))
        (audioStep w' e) := by
    intro w' past e hplays hsole
    rw [Runs.run_append, Runs.log_append, List.map_append, ← List.append_assoc]
    exact hplays.step hsole e
  have hinit : Plays i port channel (Runs.run (QueueOp.step 1024) sub.ring.queue [])
      (w.tdmTx.filter (·.sub = i) ++
        (Runs.log (QueueOp.step 1024) QueueOp.taken sub.ring.queue []).map
          (TdmWrite.mk i port channel)) w :=
    ⟨⟨sub, hsub, hcount, rfl⟩, (List.append_nil _).symm⟩
  obtain ⟨⟨sub', hsub', hcount', hqueue⟩, hwritten⟩ := Runs.run_log_induct hstep hinit hrun
  exact ⟨sub', hsub', hcount', hqueue, hwritten⟩

/-- A subscription whose write counter has just wrapped and whose read counter has not. -/
def wrappedSub : AudioSub :=
  { AudioSub.zero with
    inUse := true
    jbufW := 0
    jbufR := 0xFFFFFFFF }

theorem wrapped_queue : wrappedSub.ring.queue = [0] := by
  have hcount : wrappedSub.ring.count = 1 := rfl
  have hcell : cellAt wrappedSub.ring.jbuf wrappedSub.ring.r.toNat = 0 := Vector.getElem_replicate _
  unfold JitterRing.queue
  rw [hcount, contents_succ, hcell]
  rfl

/-- A node with that subscription only. -/
def wrappedWorld : AudioWorld :=
  { audioPowerOn (powerOn (fun _ => 0) 0 []) 1 with linkAudioSubs := [wrappedSub] }

/-- An AudioBuffer of another node for channel 0 of session 0, with two frames of two channels. -/
def stereoBuffer : List UInt8 :=
  encodeAudioHeader (.ofBytes [1]) 6 0 ++ List.replicate 16 0 ++ putBe32 1 ++ putBe64 0 ++
    putBe16 2 ++ putBe64 0 ++ putBe64 0 ++ [1] ++ putBe32 48000 ++ [2] ++ putBe16 8 ++
    [5, 6, 7, 8].flatMap putBe16

/-- The buffer is received, and two TDM frames are served. -/
def stereoEvents : List AudioEvent :=
  [.other (powerOn (fun _ => 0) 1 []), .rx (memOf stereoBuffer) 82 1 2,
    .tdmFrame 0 (fun _ => 0) (fun _ => 0), .tdmFrame 0 (fun _ => 0) (fun _ => 0)]

/-- The one subscription is in use for channel 0 on the first TDM slot. -/
def OneUser (w : AudioWorld) : Prop :=
  w.numTdmPorts = 1 ∧ w.linkAudioSubs.map (fun sub =>
    (sub.inUse, sub.channelId, sub.tdmPort, sub.tdmChannel)) = [(true, .zero, 0, 0)]

instance (w : AudioWorld) : Decidable (OneUser w) := inferInstanceAs (Decidable (_ ∧ _))

theorem OneUser.sole {w : AudioWorld} (h : OneUser w) : SoleUser 0 .zero 0 0 w := by
  obtain ⟨hports, hslots⟩ := h
  obtain ⟨sub, hsubs⟩ : ∃ sub, w.linkAudioSubs = [sub] :=
    List.length_eq_one_iff.mp (by rw [← List.length_map, hslots]; rfl)
  rw [hsubs] at hslots
  obtain ⟨huse, hcid, hport, hchannel⟩ : _ ∧ _ ∧ _ ∧ _ := by simpa using hslots
  refine ⟨by decide, by omega, ⟨sub, by rw [hsubs]; rfl, huse, hcid, hport, hchannel⟩, ?_⟩
  intro j other hother _ _
  rw [hsubs] at hother
  have hlt : j < 1 := (List.getElem?_eq_some_iff.mp hother).1
  omega

/-- The samples of channel 0 follow the one that was in the ring. -/
theorem jitter_ring_refines_queue_wrapped :
    ∃ sub', (runAudio wrappedWorld stereoEvents).linkAudioSubs[0]? = some sub' ∧
      (sub'.jbufW - sub'.jbufR).toNat ≤ 1024 ∧ sub'.ring.queue = [7] ∧
      (runAudio wrappedWorld stereoEvents).tdmTx.filter (·.sub = 0) =
        [⟨0, 0, 0, 0⟩, ⟨0, 0, 0, 5⟩] := by
  have haccepted : acceptedSamples .zero
      (audioStep wrappedWorld (.other (powerOn (fun _ => 0) 1 []))) (memOf stereoBuffer) 82 =
        some [5, 7] := by decide +kernel
  have husers : Runs.Guarded audioStep (fun w _ => OneUser w) wrappedWorld stereoEvents := by
    decide +kernel
  obtain ⟨sub', hsub', hcount', hqueue, hwritten⟩ :=
    jitter_ring_refines_queue 0 .zero 0 0 wrappedWorld wrappedSub stereoEvents rfl (by decide)
      (husers.mono fun _ _ h => h.sole)
  have hops : Runs.log audioStep (queueOps .zero 0) wrappedWorld stereoEvents =
      [.append [5, 7], .take, .take] := by
    unfold stereoEvents
    rw [Runs.log_cons, Runs.log_cons]
    unfold queueOps
    dsimp only
    rw [haccepted]
    rfl
  rw [hops, wrapped_queue] at hqueue hwritten
  exact ⟨sub', hsub', hcount', hqueue, hwritten⟩

end LinkFPGA
