import LinkFPGA.Library.SlotTable
import LinkFPGA.Proofs.AudioCalls

/-!
# The catalog of remote channels

`ann_handler` writes a channel into its catalog entry or into a free one (`record_channel_cases`),
and `handle_aucb_entry` takes entries out (`drop_channel_represents`), which both leave no channel
with two entries in use. Announcing channels for which there is room fills the catalog with them
(`record_channels`). Nothing but a datagram touches the catalog (`call_remote`).
-/

namespace LinkFPGA

open SlotTable

/-- The channel of a catalog entry in use. -/
def AudioRemote.key (r : AudioRemote) : Option LinkId := if r.inUse then some r.channelId else none

/-- The catalog entry of an announced channel. -/
def announcedEntry (peerId : LinkId) (peerAddr : UInt32) (peerPort : UInt16) (cid : LinkId)
    (name : List UInt8) (lastSeenUs : UInt64) : AudioRemote where
  inUse := true
  peerId := peerId
  channelId := cid
  name := name
  endpointAddr := peerAddr
  endpointPort := peerPort
  lastSeenUs := lastSeenUs

@[simp] theorem announced_entry_key (peerId : LinkId) (peerAddr : UInt32) (peerPort : UInt16)
    (cid : LinkId) (name : List UInt8) (lastSeenUs : UInt64) :
    (announcedEntry peerId peerAddr peerPort cid name lastSeenUs).key = some cid := rfl

theorem remote_key_some_iff {r : AudioRemote} {cid : LinkId} :
    r.key = some cid ↔ r.inUse = true ∧ r.channelId = cid := by
  unfold AudioRemote.key
  split <;> simp_all

theorem remote_key_none_iff {r : AudioRemote} : r.key = none ↔ r.inUse = false := by
  unfold AudioRemote.key
  split <;> simp_all

/-! ## One channel -/

/-- The catalog entry of a channel is found when it has one. -/
theorem find_remote_none_iff {w : AudioWorld} {cid : LinkId} :
    findRemote w cid = none ↔ ¬ HasKey AudioRemote.key w.linkAudioRemote cid := by
  unfold findRemote HasKey
  rw [List.findIdx?_eq_none_iff]
  simp only [remote_key_some_iff, not_exists, not_and, Bool.and_eq_false_imp,
    decide_eq_false_iff_not]

theorem find_remote_some {w : AudioWorld} {cid : LinkId} {i : Nat} (h : findRemote w cid = some i) :
    w.linkAudioRemote[i]? = some (w.linkAudioRemote.getD i .zero) ∧
      (w.linkAudioRemote.getD i .zero).key = some cid := by
  obtain ⟨hlt, hmatch, _⟩ := List.findIdx?_eq_some_iff_getElem.mp h
  rw [Bool.and_eq_true, decide_eq_true_eq] at hmatch
  rw [List.getD_eq_getElem _ _ hlt]
  exact ⟨List.getElem?_eq_getElem hlt, remote_key_some_iff.mpr hmatch⟩

theorem find_free_some {w : AudioWorld} {i : Nat}
    (h : w.linkAudioRemote.findIdx? (!·.inUse) = some i) :
    w.linkAudioRemote[i]? = some (w.linkAudioRemote.getD i .zero) ∧
      (w.linkAudioRemote.getD i .zero).key = none := by
  obtain ⟨hlt, hfree, _⟩ := List.findIdx?_eq_some_iff_getElem.mp h
  rw [List.getD_eq_getElem _ _ hlt]
  exact ⟨List.getElem?_eq_getElem hlt, remote_key_none_iff.mpr (by simpa using hfree)⟩

section
variable (peerId : LinkId) (peerAddr : UInt32) (peerPort : UInt16)

/-- A channel without an entry and without room is passed over. Otherwise an entry is written
that keeps the peer of an entry in use. -/
theorem record_channel_cases (cid : LinkId) (name : List UInt8) (w : AudioWorld) :
    (recordChannel peerId peerAddr peerPort cid name w = w ∧
      ¬ HasKey AudioRemote.key w.linkAudioRemote cid ∧
      ∀ r ∈ w.linkAudioRemote, r.key ≠ none) ∨
    ∃ (i : Nat) (old : AudioRemote), w.linkAudioRemote[i]? = some old ∧
      FitsKey AudioRemote.key w.linkAudioRemote cid old ∧
      recordChannel peerId peerAddr peerPort cid name w = { w.advance with
        linkAudioRemote := w.linkAudioRemote.set i
          (announcedEntry (if old.inUse then old.peerId else peerId) peerAddr peerPort cid name
            w.core.clock.now) } := by
  unfold recordChannel
  dsimp only
  cases hfind : findRemote w cid with
  | some i =>
      obtain ⟨hi, hkey⟩ := find_remote_some hfind
      refine .inr ⟨i, _, hi, .inl hkey, ?_⟩
      obtain ⟨huse, hcid⟩ := remote_key_some_iff.mp hkey
      rw [if_pos huse]
      simp only [announcedEntry, huse, hcid]
  | none =>
      have hheld := find_remote_none_iff.mp hfind
      dsimp only
      cases hfree : w.linkAudioRemote.findIdx? (!·.inUse) with
      | some i =>
          obtain ⟨hi, hkey⟩ := find_free_some hfree
          refine .inr ⟨i, _, hi, .inr ⟨hkey, hheld⟩, ?_⟩
          have huse := remote_key_none_iff.mp hkey
          rw [huse]
          rfl
      | none =>
          refine .inl ⟨rfl, hheld, fun r hr hnone => ?_⟩
          have huse := List.findIdx?_eq_none_iff.mp hfree r hr
          rw [remote_key_none_iff.mp hnone] at huse
          cases huse

/-- A channel with room, and with no entry of another peer, gets its entry. -/
theorem record_channel_wrote {cid : LinkId} (name : List UInt8) {w : AudioWorld}
    (hslot : HasKey AudioRemote.key w.linkAudioRemote cid ∨
      ∃ r ∈ w.linkAudioRemote, r.key = none)
    (howner : ∀ r ∈ w.linkAudioRemote, r.key = some cid → r.peerId = peerId) :
    ∃ remote, recordChannel peerId peerAddr peerPort cid name w =
        { w.advance with linkAudioRemote := remote } ∧
      Wrote AudioRemote.key cid
        (announcedEntry peerId peerAddr peerPort cid name w.core.clock.now)
        w.linkAudioRemote remote := by
  rcases record_channel_cases peerId peerAddr peerPort cid name w with
    ⟨_, hheld, hfull⟩ | ⟨i, old, hi, hfits, hrecord⟩
  · rcases hslot with hheld' | ⟨r, hr, hnone⟩
    · exact absurd hheld' hheld
    · exact absurd hnone (hfull r hr)
  · have hpeer : (if old.inUse then old.peerId else peerId) = peerId := by
      split
      · rename_i huse
        refine howner old (List.mem_of_getElem? hi) (hfits.resolve_right fun ⟨hnone, _⟩ => ?_)
        rw [remote_key_none_iff.mp hnone] at huse
        cases huse
      · rfl
    rw [hpeer] at hrecord
    exact ⟨_, hrecord, i, old, hi, hfits, rfl⟩

/-! ## Announced channels -/

/-- The loop of `ann_handler` over channels already decoded. -/
def recordChannels (channels : List AudioLocal) (w : AudioWorld) : AudioWorld :=
  channels.foldl (fun w c => recordChannel peerId peerAddr peerPort c.channelId c.name w) w

/-- The writes are entries of the channels, in order. -/
structure EntriesOf (channels : List AudioLocal) (writes : List (LinkId × AudioRemote)) :
    Prop where
  keys : writes.map Prod.fst = channels.map AudioLocal.channelId
  entry : ∀ write ∈ writes, ∃ c ∈ channels, ∃ t, write = (c.channelId,
    announcedEntry peerId peerAddr peerPort c.channelId c.name t)
  all : ∀ c ∈ channels, ∃ t, (c.channelId,
    announcedEntry peerId peerAddr peerPort c.channelId c.name t) ∈ writes

/-- Distinct channels for which there is room, none of them announced by another peer, are all
written into the catalog. -/
theorem record_channels {channels : List AudioLocal} {w : AudioWorld}
    (hnodup : (channels.map AudioLocal.channelId).Nodup)
    (hroom : Room AudioRemote.key w.linkAudioRemote (channels.map AudioLocal.channelId))
    (howner : ∀ c ∈ channels, ∀ r ∈ w.linkAudioRemote, r.key = some c.channelId →
      r.peerId = peerId) :
    ∃ writes, Filled AudioRemote.key writes w.linkAudioRemote
        (recordChannels peerId peerAddr peerPort channels w).linkAudioRemote ∧
      EntriesOf peerId peerAddr peerPort channels writes := by
  induction channels generalizing w with
  | nil => exact ⟨[], .nil _, rfl, by simp, by simp⟩
  | cons c channels ih =>
      rw [List.map_cons, List.nodup_cons] at hnodup
      obtain ⟨remote, hrecord, hwrote⟩ := record_channel_wrote peerId peerAddr peerPort c.name
        hroom.slot (howner c List.mem_cons_self)
      have hroom' : Room AudioRemote.key remote (channels.map AudioLocal.channelId) :=
        hroom.tail hnodup.1 hwrote rfl
      -- the entry just written is the announcing peer's own
      have howner' : ∀ c' ∈ channels, ∀ r ∈ remote, r.key = some c'.channelId →
          r.peerId = peerId := by
        intro c' hc' r hr hkey
        obtain ⟨i, old, hi, _, rfl⟩ := hwrote
        obtain ⟨j, hj⟩ := List.getElem?_of_mem hr
        rcases getElem?_set_cases hi hj with ⟨_, rfl⟩ | ⟨_, hkept⟩
        · rfl
        · exact howner c' (List.mem_cons_of_mem _ hc') r (List.mem_of_getElem? hkept) hkey
      obtain ⟨writes, hfilled, hwrites⟩ :=
        ih (w := { w.advance with linkAudioRemote := remote }) hnodup.2 hroom' howner'
      rw [recordChannels, List.foldl_cons, hrecord]
      refine ⟨_, .cons hwrote hfilled, ?_, ?_, ?_⟩
      · rw [List.map_cons, List.map_cons, hwrites.keys]
      · intro write hwrite
        rcases List.mem_cons.mp hwrite with rfl | hwrite
        · exact ⟨c, List.mem_cons_self, _, rfl⟩
        · obtain ⟨c', hc', hentry⟩ := hwrites.entry write hwrite
          exact ⟨c', List.mem_cons_of_mem _ hc', hentry⟩
      · intro c' hc'
        rcases List.mem_cons.mp hc' with rfl | hc'
        · exact ⟨_, List.mem_cons_self⟩
        · obtain ⟨t, hmem⟩ := hwrites.all c' hc'
          exact ⟨t, List.mem_cons_of_mem _ hmem⟩

theorem EntriesOf.writes {channels : List AudioLocal} {writes : List (LinkId × AudioRemote)}
    (h : EntriesOf peerId peerAddr peerPort channels writes)
    (hnodup : (channels.map AudioLocal.channelId).Nodup) : Writes AudioRemote.key writes := by
  refine ⟨fun write hwrite => ?_, h.keys ▸ hnodup⟩
  obtain ⟨_, _, _, rfl⟩ := h.entry write hwrite
  rfl

end

/-! ## One entry for each channel -/

/-- No channel has two catalog entries in use. -/
def CatalogDistinct (w : AudioWorld) : Prop :=
  ∃ map, Represents AudioRemote.key w.linkAudioRemote map

theorem record_channel_distinct (peerId : LinkId) (peerAddr : UInt32) (peerPort : UInt16)
    (cid : LinkId) (name : List UInt8) {w : AudioWorld} (h : CatalogDistinct w) :
    CatalogDistinct (recordChannel peerId peerAddr peerPort cid name w) := by
  obtain ⟨map, hmap⟩ := h
  rcases record_channel_cases peerId peerAddr peerPort cid name w with
    ⟨hsame, _⟩ | ⟨i, old, hi, hfits, hrecord⟩
  · rw [hsame]
    exact ⟨map, hmap⟩
  · rw [hrecord]
    exact ⟨_, hmap.wrote ⟨i, old, hi, hfits, rfl⟩ rfl⟩

/-- What `dropChannel` does to an entry. -/
def AudioRemote.dropped (cid : LinkId) (r : AudioRemote) : AudioRemote :=
  if r.inUse ∧ r.channelId = cid then { r with inUse := false } else r

/-- A dropped channel has no entry any more, and the others keep theirs. -/
theorem drop_channel_represents (cid : LinkId) {w : AudioWorld} {map : LinkId → Option AudioRemote}
    (h : Represents AudioRemote.key w.linkAudioRemote map) :
    Represents AudioRemote.key (dropChannel cid w).linkAudioRemote fun k =>
      ((map k).filter fun r => !decide (r.key = some cid)).map (AudioRemote.dropped cid) := by
  refine h.mapSlots (AudioRemote.dropped cid) (fun r => !decide (r.key = some cid)) fun r => ?_
  unfold AudioRemote.dropped
  by_cases hdrop : r.inUse = true ∧ r.channelId = cid
  · simp [hdrop, AudioRemote.key]
  · have hkey : r.key ≠ some cid := fun hkey => hdrop (remote_key_some_iff.mp hkey)
    simp [hdrop, hkey]

theorem drop_channel_distinct (cid : LinkId) {w : AudioWorld} (h : CatalogDistinct w) :
    CatalogDistinct (dropChannel cid w) := by
  obtain ⟨map, hmap⟩ := h
  exact ⟨_, drop_channel_represents cid hmap⟩

theorem CatalogDistinct.of_eq {w w' : AudioWorld} (h : CatalogDistinct w)
    (hsame : w'.linkAudioRemote = w.linkAudioRemote) : CatalogDistinct w' := by
  obtain ⟨map, hmap⟩ := h
  exact ⟨map, hsame ▸ hmap⟩

/-- Nothing but a datagram touches the catalog. -/
theorem call_remote (w : AudioWorld) (e : AudioCall)
    (h : ∀ buf len srcAddr srcPort, e ≠ .event (.rx buf len srcAddr srcPort)) :
    (callAudio w e).linkAudioRemote = w.linkAudioRemote := by
  cases e with
  | event e =>
      cases e with
      | rx buf len srcAddr srcPort => exact absurd rfl (h buf len srcAddr srcPort)
      | tdmFrame port rx beats =>
          refine frame_keeps (P := fun s => s.linkAudioRemote = w.linkAudioRemote) ?_
            (fun _ _ _ hs => hs) rfl
          intro _ ch _ s hs
          obtain ⟨_, _, _, _, _, _, hcapture⟩ := capture_channel_frame port rx beats s ch
          rw [hcapture]
          exact hs
      | other core => rfl
  | tick peerName =>
      have hone : ∀ i ∈ List.range linkAudioMaxRemote, ∀ s : AudioWorld,
          s.linkAudioRemote = w.linkAudioRemote →
          (requestAgain w.core.clock.now s i).linkAudioRemote = w.linkAudioRemote := by
        intro i _ s hs
        obtain ⟨_, _, hrequest, _⟩ := request_sends w.core.clock.now s i
        rw [hrequest]
        exact hs
      show (linkAudioTick peerName w).linkAudioRemote = _
      unfold linkAudioTick
      refine Sweep.inv_sweep hone ?_
      split
      · obtain ⟨_, _, _, hannounce⟩ := (announce_sends peerName w.advance).1
        rw [hannounce]
        rfl
      · rfl
  | subscribe port channel cid =>
      show (linkAudioSubscribe port channel cid w).1.linkAudioRemote = _
      unfold linkAudioSubscribe
      split
      · rfl
      · dsimp only
        split <;> rfl
  | unsubscribe cid =>
      show (linkAudioUnsubscribe cid w).1.linkAudioRemote = _
      unfold linkAudioUnsubscribe
      split <;> rfl

/-- The catalog starts empty. -/
theorem boot_remote (core : World) (ports : Nat) :
    (audioBoot core ports).linkAudioRemote = List.replicate linkAudioMaxRemote .zero := by
  have hone (n : Nat) : ∀ idx ∈ List.range n, ∀ s : AudioWorld,
      s.linkAudioRemote = List.replicate linkAudioMaxRemote .zero →
      ((s.setLocal idx (localEntry s (idx / linkTdmChannelsPerPort)
        (idx % linkTdmChannelsPerPort))).advance).linkAudioRemote =
        List.replicate linkAudioMaxRemote .zero := fun _ _ _ hs => hs
  unfold audioBoot linkAudioInit
  exact Sweep.inv_sweep (hone _) rfl

theorem boot_represents (core : World) (ports : Nat) :
    Represents AudioRemote.key (audioBoot core ports).linkAudioRemote fun _ => none := by
  refine represents_free fun r hr => ?_
  rw [boot_remote] at hr
  rw [(List.mem_replicate.mp hr).2]
  rfl

theorem boot_catalog (core : World) (ports : Nat) : CatalogDistinct (audioBoot core ports) :=
  ⟨_, boot_represents core ports⟩

end LinkFPGA
