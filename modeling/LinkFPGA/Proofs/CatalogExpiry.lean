import LinkFPGA.Library.Ledger
import LinkFPGA.Firmware.Main
import LinkFPGA.Proofs.CatalogMessages

/-!
# The catalog does not forget

`ann_handler` stores when it refreshed a catalog entry, but nothing reads it: entries go only by
ChannelByes. So a channel is in the catalog exactly if the last notice of it is that it was
recorded (`last_seen_verdict`), and the catalog is free of entries that have outlived the discovery
lifetime exactly if every peer announces its channels again or withdraws them in time
(`catalog_forgets_iff`).
-/

namespace LinkFPGA

open Runs Ledger SlotTable

/-- How long a peer that is not heard of is remembered: the discovery ttl and the grace. -/
def discoveryLifetimeUs : Nat := 6000000

/-- What became of a channel: recorded at a host time, or withdrawn. -/
structure Notice where
  cid : LinkId
  recorded : Option UInt64
  deriving DecidableEq, Repr

/-- When the catalog entry of a channel was refreshed last, if it has one. -/
def lastSeen (w : AudioWorld) (cid : LinkId) : Option UInt64 :=
  (w.linkAudioRemote.find? fun r => r.key = some cid).map (·.lastSeenUs)

/-- The channel has an entry, or there is a free one for it. -/
def Recordable (w : AudioWorld) (cid : LinkId) : Prop :=
  ∃ r ∈ w.linkAudioRemote, r.key = some cid ∨ r.key = none

instance (w : AudioWorld) (cid : LinkId) : Decidable (Recordable w cid) :=
  inferInstanceAs (Decidable (∃ r ∈ w.linkAudioRemote, _))

/-- What a message brings about. -/
def noticeOf (w : AudioWorld) : CatalogMessage → List Notice
  | .announce cid _ => if Recordable w cid then [⟨cid, some w.core.clock.now⟩] else []
  | .bye cid => [⟨cid, none⟩]

/-- What a call brings about. -/
def notices (w : AudioWorld) : AudioCall → List Notice
  | .event (.rx buf len srcAddr srcPort) =>
      log (applyMessage (.ofBytes (bytesAt buf 12 8)) srcAddr srcPort) noticeOf w
        (catalogMessages w buf len)
  | _ => []

/-- What a call at a host time brings about. -/
def noticesAt (w : AudioWorld) (e : TimedCall) : List Notice := notices (w.at e.clock) e.call

/-! ## One message -/

theorem last_seen_eq {w : AudioWorld} {map : LinkId → Option AudioRemote}
    (h : Represents AudioRemote.key w.linkAudioRemote map) (cid : LinkId) :
    lastSeen w cid = (map cid).map (·.lastSeenUs) := by
  unfold lastSeen
  rw [h.find]

/-- Recording a channel refreshes its entry, and no other. -/
theorem record_last_seen (peerId : LinkId) (peerAddr : UInt32) (peerPort : UInt16) (cid : LinkId)
    (name : List UInt8) {w : AudioWorld} (h : CatalogDistinct w) (k : LinkId) :
    lastSeen (recordChannel peerId peerAddr peerPort cid name w) k =
      verdict Notice.cid Notice.recorded (noticeOf w (.announce cid name)) (lastSeen w k) k := by
  obtain ⟨map, hmap⟩ := h
  rcases record_channel_cases peerId peerAddr peerPort cid name w with
    ⟨hsame, hheld, hfull⟩ | ⟨i, old, hi, hfits, hrecord⟩
  · have hrefused : ¬ Recordable w cid := by
      rintro ⟨r, hr, hkey | hnone⟩
      · exact hheld ⟨r, hr, hkey⟩
      · exact hfull r hr hnone
    rw [hsame, noticeOf, if_neg hrefused, verdict_nil]
  · have hroom : Recordable w cid :=
      ⟨old, List.mem_of_getElem? hi, hfits.imp_right And.left⟩
    have hmap' := hmap.wrote ⟨i, old, hi, hfits, rfl⟩ (announced_entry_key
      (if old.inUse then old.peerId else peerId) peerAddr peerPort cid name w.core.clock.now)
    rw [hrecord, noticeOf, if_pos hroom, last_seen_eq hmap, last_seen_eq hmap', verdict,
      latest_singleton]
    by_cases hk : cid = k
    · subst hk
      rw [if_pos rfl, Function.update_self]
      rfl
    · rw [if_neg hk, Function.update_of_ne (Ne.symm hk)]
      rfl

/-- A withdrawn channel has no entry, and the others keep theirs. -/
theorem drop_last_seen (cid : LinkId) {w : AudioWorld} (h : CatalogDistinct w) (k : LinkId) :
    lastSeen (dropChannel cid w) k =
      verdict Notice.cid Notice.recorded (noticeOf w (.bye cid)) (lastSeen w k) k := by
  obtain ⟨map, hmap⟩ := h
  rw [last_seen_eq hmap, last_seen_eq (drop_channel_represents cid hmap), noticeOf, verdict,
    latest_singleton]
  cases hk : map k with
  | none => split <;> rfl
  | some r =>
      obtain ⟨_, _, hkey⟩ := hmap.lookup.mp hk
      by_cases hcid : cid = k
      · subst hcid
        simp [hkey]
      · have hother : r.key ≠ some cid := fun hsame =>
          hcid (Option.some.inj (hsame.symm.trans hkey))
        have hkept : r.dropped cid = r := if_neg fun hdrop =>
          hother (remote_key_some_iff.mpr hdrop)
        simp [hcid, hother, hkept]

/-- One message. -/
theorem message_last_seen (peerId : LinkId) (peerAddr : UInt32) (peerPort : UInt16)
    {w : AudioWorld} (h : CatalogDistinct w) (m : CatalogMessage) (k : LinkId) :
    lastSeen (applyMessage peerId peerAddr peerPort w m) k =
      verdict Notice.cid Notice.recorded (noticeOf w m) (lastSeen w k) k := by
  cases m with
  | announce cid name => exact record_last_seen peerId peerAddr peerPort cid name h k
  | bye cid => exact drop_last_seen cid h k

/-! ## Runs -/

theorem last_seen_congr {w w' : AudioWorld} (h : w'.linkAudioRemote = w.linkAudioRemote)
    (k : LinkId) : lastSeen w' k = lastSeen w k := by
  unfold lastSeen
  rw [h]

/-- One call: a channel was seen last when the last notice of it says. -/
theorem call_last_seen {w : AudioWorld} (h : CatalogDistinct w) (e : AudioCall) (k : LinkId) :
    lastSeen (callAudio w e) k =
      verdict Notice.cid Notice.recorded (notices w e) (lastSeen w k) k := by
  by_cases hrx : ∃ buf len srcAddr srcPort, e = .event (.rx buf len srcAddr srcPort)
  · obtain ⟨buf, len, srcAddr, srcPort, rfl⟩ := hrx
    refine (last_seen_congr (rx_catalog buf len srcAddr srcPort w) k).trans ?_
    exact run_verdict (fun _ m hs => message_distinct _ _ _ hs m)
      (fun _ m k hs => message_last_seen _ _ _ hs m k) h _ k
  · have hkept := call_remote w e fun buf len srcAddr srcPort he =>
      hrx ⟨buf, len, srcAddr, srcPort, he⟩
    have hnone : notices w e = [] := by
      cases e with
      | event e =>
          cases e with
          | rx buf len srcAddr srcPort => exact absurd ⟨buf, len, srcAddr, srcPort, rfl⟩ hrx
          | tdmFrame | other => rfl
      | tick | subscribe | unsubscribe => rfl
    rw [last_seen_congr hkept, hnone]
    rfl

theorem call_at_catalog {w : AudioWorld} (h : CatalogDistinct w) (e : TimedCall) :
    CatalogDistinct (callAt w e) :=
  call_catalog (w := w.at e.clock) (h.of_eq rfl) e.call

/-- When a channel was seen last, after a run, is what the notices of the run say. -/
theorem last_seen_verdict (core : World) (ports : Nat) (es : List TimedCall) (k : LinkId) :
    lastSeen (run callAt (audioBoot core ports) es) k =
      verdict Notice.cid Notice.recorded (log callAt noticesAt (audioBoot core ports) es) none
        k := by
  have hnone : lastSeen (audioBoot core ports) k = none := by
    rw [last_seen_eq (boot_represents core ports)]
    rfl
  have hkeep : ∀ w e, CatalogDistinct w → CatalogDistinct (callAt w e) :=
    fun _ e hs => call_at_catalog hs e
  have hstep : ∀ w e k, CatalogDistinct w → lastSeen (callAt w e) k =
      verdict Notice.cid Notice.recorded (noticesAt w e) (lastSeen w k) k :=
    fun w e k hs => call_last_seen (w := w.at e.clock) (hs.of_eq rfl) e.call k
  rw [run_verdict hkeep hstep (boot_catalog core ports) es k, hnone]

theorem run_at_catalog (core : World) (ports : Nat) (es : List TimedCall) :
    CatalogDistinct (run callAt (audioBoot core ports) es) :=
  run_invariant (motive := CatalogDistinct) (fun _ e hs => call_at_catalog hs e)
    (boot_catalog core ports) es

/-! ## Forgetting -/

/-- Every catalog entry in use was refreshed within the discovery lifetime. -/
def CatalogFresh (now : UInt64) (w : AudioWorld) : Prop :=
  ∀ r ∈ w.linkAudioRemote, r.inUse = true →
    now.toNat ≤ r.lastSeenUs.toNat + discoveryLifetimeUs

/-- Every channel that was recorded, and not withdrawn since, was recorded within the discovery
lifetime. -/
def PeersStay (past : List Notice) (now : UInt64) : Prop :=
  ∀ cid t, Ledger.latest Notice.cid past cid = some ⟨cid, some t⟩ →
    now.toNat ≤ t.toNat + discoveryLifetimeUs

/-- The ticks of one round of the main loop, at a host time. -/
def ticksAt (peerName : List UInt8) (clock : Clock) (w : AudioWorld) : AudioWorld :=
  linkAudioTick peerName { w with core := sessionTick (linkTick (w.at clock).core) }

theorem ticks_remote (peerName : List UInt8) (clock : Clock) (w : AudioWorld) :
    (ticksAt peerName clock w).linkAudioRemote = w.linkAudioRemote :=
  call_remote { w with core := sessionTick (linkTick (w.at clock).core) } (.tick peerName)
    fun _ _ _ _ h => by cases h

/-- After the ticks the catalog holds no entry that has outlived the discovery lifetime exactly if
every peer has announced its channels again, or withdrawn them, in time: the ticks themselves
forget none. -/
theorem catalog_forgets_iff (core : World) (ports : Nat) (es : List TimedCall)
    (peerName : List UInt8) (clock : Clock) :
    CatalogFresh clock.now (ticksAt peerName clock (run callAt (audioBoot core ports) es)) ↔
      PeersStay (log callAt noticesAt (audioBoot core ports) es) clock.now := by
  have hseen := last_seen_verdict core ports es
  obtain ⟨map, hmap⟩ := run_at_catalog core ports es
  unfold CatalogFresh
  rw [ticks_remote]
  constructor
  · intro hfresh cid t hlast
    have hrecorded : lastSeen (run callAt (audioBoot core ports) es) cid = some t := by
      rw [hseen, verdict, hlast]
      rfl
    rw [last_seen_eq hmap] at hrecorded
    obtain ⟨r, hr, htime⟩ := Option.map_eq_some_iff.mp hrecorded
    obtain ⟨i, hi, hkey⟩ := hmap.lookup.mp hr
    rw [← htime]
    exact hfresh r (List.mem_of_getElem? hi) (remote_key_some_iff.mp hkey).1
  · intro hstay r hr huse
    obtain ⟨i, hi⟩ := List.getElem?_of_mem hr
    have hentry := hmap.entry hi (remote_key_some_iff.mpr ⟨huse, rfl⟩)
    have hrecorded : lastSeen (run callAt (audioBoot core ports) es) r.channelId =
        some r.lastSeenUs := by
      rw [last_seen_eq hmap, hentry]
      rfl
    rw [hseen, verdict] at hrecorded
    cases hlast : Ledger.latest Notice.cid (log callAt noticesAt (audioBoot core ports) es)
        r.channelId with
    | none =>
        rw [hlast] at hrecorded
        cases hrecorded
    | some notice =>
        rw [hlast] at hrecorded
        obtain ⟨cid, recorded⟩ := notice
        obtain rfl : cid = r.channelId := (latest_some hlast).1
        obtain rfl : recorded = some r.lastSeenUs := hrecorded
        exact hstay _ _ hlast

/-- A peer announces a channel one second after the boot, and is not heard of again. -/
def announceOnce : TimedCall :=
  let buf := encodeAudioHeader (.ofBytes [7]) 1 5 ++
    tlvEmitBytes keyAuca (putBe32 1 ++ putBe32 0 ++ (LinkId.ofBytes [1, 2, 3]).bytes)
  ⟨⟨fun _ => 1000000, 0⟩, .event (.rx (memOf buf) (.ofNat buf.length) 0x0A000002 4000)⟩

/-- Its channel is still in the catalog after the ticks seven seconds later. -/
theorem departed_peer_kept :
    ¬ ∀ (core : World) (ports : Nat) (es : List TimedCall) (peerName : List UInt8) (clock : Clock),
      (es.map TimedCall.time ++ [clock.now]).Pairwise (· ≤ ·) →
      CatalogFresh clock.now
        (ticksAt peerName clock (run callAt (audioBoot core ports) es)) := by
  intro h
  have hfresh := h (powerOn (fun _ => 0) 0 []) 1 [announceOnce] [] ⟨fun _ => 8000000, 0⟩
    (by decide)
  rw [CatalogFresh, ticks_remote] at hfresh
  have hkept : ((run callAt (audioBoot (powerOn (fun _ => 0) 0 []) 1)
      [announceOnce]).linkAudioRemote.head?.map fun r => (r.inUse, r.lastSeenUs)) =
      some (true, 1000000) := by
    decide +kernel
  obtain ⟨r, hr, hentry⟩ := Option.map_eq_some_iff.mp hkept
  obtain ⟨huse, hseen⟩ := Prod.mk.inj hentry
  have hlate := hfresh r (List.mem_of_head? hr) huse
  rw [hseen] at hlate
  exact absurd hlate (by decide)

end LinkFPGA
