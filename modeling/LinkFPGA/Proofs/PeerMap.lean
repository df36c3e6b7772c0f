import LinkFPGA.Library.SlotTable
import LinkFPGA.Proofs.PeerTable

/-!
# The peer table as a map

`link.c` keeps its peers in a flat array of slots that insertion, eviction and pruning share.
`mapStep` says what the array is for: a map from node ids to records, in which an ALIVE or
RESPONSE sets the sender's entry, a BYEBYE removes it, and a tick drops the entries that have
lapsed. `step_represents` says that the array follows the map, one call at a time, and
`peer_table_refines_map` what that means for every run from `link_init`.
-/

namespace LinkFPGA

open Runs SlotTable

/-- The node a slot is in use by. -/
def Peer.key (p : Peer) : Option LinkId := if p.inUse then some p.nodeId else none

theorem Peer.key_eq_some {p : Peer} {id : LinkId} :
    p.key = some id ↔ p.inUse = true ∧ p.nodeId = id := by
  unfold Peer.key
  split
  · rename_i h
    simp [h]
  · rename_i h
    simp [h]

theorem Peer.key_eq_none {p : Peer} : p.key = none ↔ p.inUse = false := by
  unfold Peer.key
  split
  · rename_i h
    simp [h]
  · rename_i h
    simpa using h

/-! ## Runs of the table's calls -/

/-- The calls that work on the peer table. -/
inductive TableCall where
  | handleRx (buf : List UInt8) (srcAddr : UInt32) (srcPort : UInt16)
  | tick
  | measureDone (success : Bool) (intercept : Int64)

/-- The state after one call. -/
def tableStep (w : World) : TableCall → World
  | .handleRx buf srcAddr srcPort => linkHandleRx buf srcAddr srcPort w
  | .tick => linkTick w
  | .measureDone success intercept => onMeasureDone success intercept w

/-- The datagram is long enough, has the magic, group 0, a foreign ident and type 1 to 3. -/
def Accepted (w : World) (buf : List UInt8) : Prop :=
  headerAccepted w.linkSelfId buf = true ∧
    (messageType buf = 1 ∨ messageType buf = 2 ∨ messageType buf = 3)

instance (w : World) (buf : List UInt8) : Decidable (Accepted w buf) :=
  inferInstanceAs (Decidable (_ ∧ _))

/-- An accepted message: its sender, its type, and the host time of its arrival. -/
structure Arrival where
  ident : LinkId
  mtype : UInt8
  time : UInt64

/-- The message a call accepts. -/
def arrivals (w : World) : TableCall → List Arrival
  | .handleRx buf _ _ =>
      if Accepted w buf then [⟨messageIdent buf, messageType buf, w.clock.now⟩] else []
  | _ => []

/-- A node's latest message. -/
def latest (past : List Arrival) (id : LinkId) : Option Arrival :=
  (past.filter fun a => decide (a.ident = id)).getLast?

/-- A free slot exists if the call is an ALIVE or RESPONSE of an unknown node. -/
def HasRoom (w : World) : TableCall → Prop
  | .handleRx buf _ _ =>
      headerAccepted w.linkSelfId buf = true → (messageType buf = 1 ∨ messageType buf = 2) →
        (∀ p ∈ w.linkPeers, p.key ≠ some (messageIdent buf)) → ∃ p ∈ w.linkPeers, p.inUse = false
  | _ => True

instance (w : World) : ∀ c : TableCall, Decidable (HasRoom w c)
  | .handleRx buf _ _ => inferInstanceAs (Decidable (headerAccepted w.linkSelfId buf = true → _))
  | .tick | .measureDone _ _ => .isTrue trivial

/-! ## The map -/

/-- The map after a call. -/
def mapStep (w : World) (map : LinkId → Option Peer) : TableCall → LinkId → Option Peer
  | .handleRx buf _ _ =>
      let id := messageIdent buf
      if !headerAccepted w.linkSelfId buf then map
      else if messageType buf = 3 then Function.update map id none
      else if messageType buf ≠ 1 ∧ messageType buf ≠ 2 then map
      else Function.update map id
        (some (updatePeer w.clock.now buf ((map id).getD (.fresh id))))
  | .tick => fun id => (map id).filter fun p => !expired w.clock.now p
  | .measureDone success intercept =>
      if success then fun id => (map id).map (markMeasured w.sActiveTargetSession intercept)
      else map

/-- The slot `find_or_alloc_peer` finds is in use by the node, and it finds one if there is
one. -/
theorem peer_index_key {peers : List Peer} {id : LinkId} {i : Nat}
    (h : peerIndex peers id = some i) : ∃ p, peers[i]? = some p ∧ p.key = some id := by
  obtain ⟨hlt, hp, _⟩ := List.findIdx?_eq_some_iff_getElem.mp h
  exact ⟨peers[i], List.getElem?_eq_getElem hlt, Peer.key_eq_some.mpr (by simpa using hp)⟩

theorem peer_index_none {peers : List Peer} {id : LinkId} (h : peerIndex peers id = none) :
    ∀ p ∈ peers, p.key ≠ some id := by
  intro p hp hkey
  have hnone := List.findIdx?_eq_none_iff.mp h p hp
  simp [Peer.key_eq_some.mp hkey] at hnone

/-- A node that holds no slot has no entry. -/
theorem map_none_of_index {peers : List Peer} {map : LinkId → Option Peer}
    (h : Represents Peer.key peers map) {id : LinkId} (hnone : peerIndex peers id = none) :
    map id = none := by
  rw [← Option.not_isSome_iff_eq_none, h.isSome_iff]
  rintro ⟨p, hp, hkey⟩
  exact peer_index_none hnone p hp hkey

/-- Updating a record keeps its key. -/
theorem update_peer_key (now : UInt64) (buf : List UInt8) (p : Peer) :
    (updatePeer now buf p).key = p.key := by
  obtain ⟨huse, hid, _⟩ := update_peer_measurement now buf p
  rw [Peer.key, Peer.key, huse, hid]

/-- An ALIVE or RESPONSE sets the sender's entry. -/
theorem observe_represents {peers : List Peer} {map : LinkId → Option Peer}
    (h : Represents Peer.key peers map) {now : UInt64} {buf : List UInt8} {r : List Peer × Nat}
    (hobs : observe peers now buf = some r) :
    Represents Peer.key r.1 (Function.update map (messageIdent buf)
      (some (updatePeer now buf ((map (messageIdent buf)).getD (.fresh (messageIdent buf)))))) := by
  obtain ⟨⟨table, i⟩, hfound, rfl⟩ := Option.map_eq_some_iff.mp hobs
  unfold findOrAllocPeer at hfound
  cases hindex : peerIndex peers (messageIdent buf) with
  | some i =>
      rw [hindex] at hfound
      cases hfound
      obtain ⟨p, hp, hkey⟩ := peer_index_key hindex
      rw [h.entry hp hkey, Option.getD_some]
      show Represents Peer.key (peers.modify i (updatePeer now buf)) _
      rw [List.modify_eq_set_getElem?, hp]
      exact h.write hp (.inl hkey) ((update_peer_key now buf p).trans hkey)
  | none =>
      rw [hindex] at hfound
      obtain ⟨i, hi, hpair⟩ := Option.map_eq_some_iff.mp hfound
      cases hpair
      obtain ⟨hlt, hfree, _⟩ := List.findIdx?_eq_some_iff_getElem.mp hi
      have hslot : peers[i]? = some peers[i] := List.getElem?_eq_getElem hlt
      have hnone : peers[i].key = none := Peer.key_eq_none.mpr (by simpa using hfree)
      have hnew := map_none_of_index h hindex
      have hfresh : (Peer.fresh (messageIdent buf)).key = some (messageIdent buf) := rfl
      rw [hnew, Option.getD_none]
      show Represents Peer.key ((peers.set i (.fresh (messageIdent buf))).modify i
        (updatePeer now buf)) _
      rw [List.modify_eq_set_getElem?, List.getElem?_set_self hlt]
      show Represents Peer.key ((peers.set i (.fresh (messageIdent buf))).set i
        (updatePeer now buf (.fresh (messageIdent buf)))) _
      rw [List.set_set]
      exact h.write hslot (.inr ⟨hnone, hnew⟩) ((update_peer_key now buf _).trans hfresh)

/-- A BYEBYE removes the sender's entry. -/
theorem evict_represents {peers : List Peer} {map : LinkId → Option Peer}
    (h : Represents Peer.key peers map) (id : LinkId) :
    Represents Peer.key (evictPeer peers id) (Function.update map id none) := by
  unfold evictPeer
  cases hindex : peerIndex peers id with
  | some i =>
      obtain ⟨p, hp, hkey⟩ := peer_index_key hindex
      exact h.clear hp hkey rfl
  | none =>
      have hnone := map_none_of_index h hindex
      rw [← hnone, Function.update_eq_self]
      exact h

/-- With a free slot, the sender of an ALIVE or RESPONSE gets one. -/
theorem observe_isSome {peers : List Peer} {buf : List UInt8} (now : UInt64)
    (h : (∀ p ∈ peers, p.key ≠ some (messageIdent buf)) → ∃ p ∈ peers, p.inUse = false) :
    ∃ r, observe peers now buf = some r := by
  unfold observe findOrAllocPeer
  cases hindex : peerIndex peers (messageIdent buf) with
  | some i => exact ⟨_, rfl⟩
  | none =>
      obtain ⟨p, hp, hfree⟩ := h (peer_index_none hindex)
      have hfound : (peers.findIdx? fun p => !p.inUse).isSome := by
        rw [List.findIdx?_isSome, List.any_eq_true]
        exact ⟨p, hp, by simp [hfree]⟩
      obtain ⟨k, hk⟩ := Option.isSome_iff_exists.mp hfound
      exact ⟨_, by rw [hk]; rfl⟩

theorem mark_measured_key (session : LinkId) (intercept : Int64) (p : Peer) :
    (markMeasured session intercept p).key = p.key ∧
      (markMeasured session intercept p).expiresAtUs = p.expiresAtUs := by
  unfold markMeasured
  split
  · exact ⟨rfl, rfl⟩
  · exact ⟨rfl, rfl⟩

theorem on_measure_done_peers (success : Bool) (intercept : Int64) (w : World) :
    (onMeasureDone success intercept w).linkPeers =
      if success then w.linkPeers.map (markMeasured w.sActiveTargetSession intercept)
      else w.linkPeers := by
  cases success with
  | false => rfl
  | true => exact (on_measure_done_frame intercept w).1

theorem link_handle_rx_peers (buf : List UInt8) (srcAddr : UInt32) (srcPort : UInt16) (w : World) :
    (linkHandleRx buf srcAddr srcPort w).linkPeers = tableAfter w (.udp buf srcAddr srcPort) :=
  (link_handle_rx_ordinary buf srcAddr srcPort w).peers

/-- One call does to the array what it does to the map. -/
theorem step_represents {w : World} {map : LinkId → Option Peer} {c : TableCall}
    (h : Represents Peer.key w.linkPeers map) (hroom : HasRoom w c) :
    Represents Peer.key (tableStep w c).linkPeers (mapStep w map c) := by
  cases c with
  | handleRx buf srcAddr srcPort =>
      show Represents Peer.key (linkHandleRx buf srcAddr srcPort w).linkPeers _
      rw [link_handle_rx_peers]
      unfold tableAfter mapStep
      dsimp only
      by_cases hheader : headerAccepted w.linkSelfId buf
      · have haccepted : ¬ (!headerAccepted w.linkSelfId buf) = true := by simp [hheader]
        rw [if_pos hheader, if_neg haccepted]
        by_cases hbye : messageType buf = 3
        · rw [if_pos hbye, if_pos hbye]
          exact evict_represents h _
        · rw [if_neg hbye, if_neg hbye]
          by_cases hstate : messageType buf = 1 ∨ messageType buf = 2
          · have hnot : ¬ (messageType buf ≠ 1 ∧ messageType buf ≠ 2) := fun hne =>
              hstate.elim hne.1 hne.2
            obtain ⟨r, hr⟩ := observe_isSome w.clock.now (hroom hheader hstate)
            rw [if_pos hstate, if_neg hnot, hr]
            exact observe_represents h hr
          · have hne : messageType buf ≠ 1 ∧ messageType buf ≠ 2 := not_or.mp hstate
            rw [if_neg hstate, if_pos hne]
            exact h
      · have hrefused : (!headerAccepted w.linkSelfId buf) = true := by simp [hheader]
        rw [if_neg hheader, if_pos hrefused]
        exact h
  | tick =>
      show Represents Peer.key (linkTick w).linkPeers _
      have hpeers : (linkTick w).linkPeers =
          w.linkPeers.map fun p => if expired w.clock.now p then .zero else p :=
        congrArg View.linkPeers (link_tick_view w)
      have hkey : ∀ p, (if expired w.clock.now p then Peer.zero else p).key =
          if !expired w.clock.now p then p.key else none := by
        intro p
        cases expired w.clock.now p <;> rfl
      have hmap := h.mapSlots _ (fun p => !expired w.clock.now p) hkey
      rw [hpeers]
      convert hmap using 2 with id
      show (map id).filter _ = _
      cases map id with
      | none => rfl
      | some p =>
          cases hexpired : expired w.clock.now p <;> simp [Option.filter, hexpired]
  | measureDone success intercept =>
      show Represents Peer.key (onMeasureDone success intercept w).linkPeers _
      rw [on_measure_done_peers]
      unfold mapStep
      cases success with
      | false => exact h
      | true =>
          have hkey : ∀ p, (markMeasured w.sActiveTargetSession intercept p).key =
              if true then p.key else none := fun p => (mark_measured_key _ _ p).1
          have hmap := h.mapSlots _ (fun _ => true) hkey
          rw [if_pos rfl]
          convert hmap using 2 with id
          show (map id).map _ = _
          cases map id <;> rfl

/-! ## Clock readings -/

/-- The clock `c'` is `c` after some more readings. -/
def Clock.Later (c c' : Clock) : Prop := c'.reading = c.reading ∧ c.reads ≤ c'.reads

theorem Clock.Later.refl (c : Clock) : c.Later c := ⟨rfl, le_refl _⟩

theorem Clock.Later.trans {a b c : Clock} (h : a.Later b) (h' : b.Later c) : a.Later c :=
  ⟨h'.1.trans h.1, h.2.trans h'.2⟩

theorem Clock.later_advance (c : Clock) : c.Later c.advance := ⟨rfl, Nat.le_succ _⟩

theorem measurement_start_later (c : Clock) (s : MeasState) (addr : UInt32) (port : UInt16)
    (session : LinkId) (completion : Bool) :
    c.Later (measurementStart c s addr port session completion).clock := by
  unfold measurementStart
  split
  · exact .refl c
  · exact c.later_advance.trans c.advance.later_advance

theorem request_later (w : World) (r : Option (LinkId × Peer)) :
    w.clock.Later (request w r).clock := by
  cases r with
  | none => exact .refl _
  | some r =>
      unfold request startMeasurement applyMeas
      dsimp only
      rw [measurement_start_call]
      exact measurement_start_later _ _ _ _ _ _

theorem link_handle_rx_later (buf : List UInt8) (srcAddr : UInt32) (srcPort : UInt16) (w : World) :
    w.clock.Later (linkHandleRx buf srcAddr srcPort w).clock := by
  unfold linkHandleRx
  split
  · exact .refl _
  · split
    · exact .refl _
    · split
      · exact .refl _
      · split
        · exact .refl _
        · rename_i peers i _
          have hobserve : w.clock.Later
              (sessionObservePeer i { w.advance with linkPeers := peers }).clock := by
            rw [session_observe_peer_eq]
            exact w.clock.later_advance.trans
              (request_later { w.advance with linkPeers := peers } _)
          dsimp only
          split
          · exact hobserve
          · exact hobserve

/-- A tick reads the clock at least once. -/
theorem link_tick_later (w : World) : w.clock.advance.Later (linkTick w).clock := by
  unfold linkTick
  dsimp only
  split
  · split
    · exact w.clock.advance.later_advance
    · exact .refl _
  · exact .refl _

theorem on_measure_done_later (success : Bool) (intercept : Int64) (w : World) :
    w.clock.Later (onMeasureDone success intercept w).clock := by
  unfold onMeasureDone
  cases success with
  | false => exact .refl _
  | true =>
      simp only [Bool.not_true, Bool.false_eq_true, if_false]
      split
      · unfold adoptSession
        dsimp only
        split
        · exact (w.clock.later_advance.trans w.clock.advance.later_advance).trans
            w.clock.advance.advance.later_advance
        · exact (w.clock.later_advance.trans w.clock.advance.later_advance).trans
            w.clock.advance.advance.later_advance
      · exact w.clock.later_advance.trans w.clock.advance.later_advance

theorem table_step_later (w : World) (c : TableCall) : w.clock.Later (tableStep w c).clock := by
  cases c with
  | handleRx buf srcAddr srcPort => exact link_handle_rx_later buf srcAddr srcPort w
  | tick => exact w.clock.later_advance.trans (link_tick_later w)
  | measureDone success intercept => exact on_measure_done_later success intercept w

theorem load_self_timeline_clock (w : World) : (loadSelfTimeline w).clock = w.clock := rfl

theorem reset_clock (id : LinkId) (origin : Int64) (now : UInt64) (w : World) :
    (w.reset id origin now).clock = w.clock := rfl

theorem advance_clock (w : World) : w.advance.clock = w.clock.advance := rfl

theorem seed_clock (s : UInt32) (w : World) : (w.seed s).clock = w.clock := rfl

theorem prng_byte_later (w : World) : w.clock.Later (prngByte w).2.clock := by
  rw [prngByte, seed_clock]
  split
  · rw [seed_clock, advance_clock]
    exact w.clock.later_advance
  · exact .refl _

theorem prng_bytes_later (n : Nat) (w : World) : w.clock.Later (prngBytes n w).2.clock := by
  induction n generalizing w with
  | zero => exact .refl _
  | succ n ih =>
      rw [prngBytes]
      exact (prng_byte_later w).trans (ih _)

theorem link_init_later (w : World) : w.clock.Later (linkInit w).clock := by
  rw [linkInit, load_self_timeline_clock, reset_clock, advance_clock, advance_clock]
  exact ((prng_bytes_later 8 w).trans (Clock.later_advance _)).trans (Clock.later_advance _)

/-- No call changes the node's identifier. -/
theorem table_step_self_id (w : World) (c : TableCall) :
    (tableStep w c).linkSelfId = w.linkSelfId := by
  cases c with
  | handleRx buf srcAddr srcPort => exact (link_handle_rx_ordinary buf srcAddr srcPort w).selfId
  | tick => exact congrArg View.linkSelfId (link_tick_view w)
  | measureDone success intercept =>
      cases success with
      | false => rfl
      | true => exact (on_measure_done_frame intercept w).2.1

/-! ## Latest messages -/

/-- One more message is the latest of its sender. -/
theorem latest_arrival (past : List Arrival) (a : Arrival) (id : LinkId) :
    latest (past ++ [a]) id = if a.ident = id then some a else latest past id := by
  unfold latest
  rw [List.filter_append]
  by_cases h : a.ident = id
  · simp [h]
  · simp [h]

/-- What the table knows of the messages accepted so far: an entry is not the node's own, and
lapses 5 s after the latest message of its node, which was an ALIVE or RESPONSE; a node without
an entry has said BYEBYE last, or a tick has found its latest message lapsed. -/
structure UpToDate (w : World) (map : LinkId → Option Peer) (past : List Arrival) : Prop where
  foreign : map w.linkSelfId = none
  present : ∀ {id p}, map id = some p → ∃ a, latest past id = some a ∧ a.mtype ≠ 3 ∧
    p.expiresAtUs = a.time + linkDiscoveryTtlSec * 1000000
  absent : ∀ {id a}, map id = none → latest past id = some a → a.mtype ≠ 3 →
    ∃ k < w.clock.reads, a.time + 6000000 < w.clock.reading k

/-- The pruning test, in terms of the latest message. -/
theorem expired_iff {now : UInt64} {p : Peer} {a : Arrival} (hkey : p.inUse = true)
    (h : p.expiresAtUs = a.time + linkDiscoveryTtlSec * 1000000) :
    expired now p = true ↔ a.time + 6000000 < now := by
  have hgrace : a.time + linkDiscoveryTtlSec * 1000000 + linkDiscoveryPruneGraceMs * 1000 =
      a.time + 6000000 := by
    rw [UInt64.add_assoc]
    rfl
  rw [expired, hkey, Bool.true_and, decide_eq_true_iff, h, hgrace]

/-- What was known stays known as the clock is read on. -/
theorem UpToDate.later {w w' : World} {map : LinkId → Option Peer} {past : List Arrival}
    (h : UpToDate w map past) (hid : w'.linkSelfId = w.linkSelfId)
    (hlater : w.clock.Later w'.clock) : UpToDate w' map past := by
  refine ⟨hid ▸ h.foreign, h.present, ?_⟩
  intro id a hnone hlatest hstate
  obtain ⟨k, hk, hlapsed⟩ := h.absent hnone hlatest hstate
  exact ⟨k, hk.trans_le hlater.2, hlater.1 ▸ hlapsed⟩

/-- An accepted message sets or removes its sender's entry, and touches no other. -/
theorem UpToDate.arrival {w : World} {map : LinkId → Option Peer} {past : List Arrival}
    (h : UpToDate w map past) {a : Arrival} {entry : Option Peer}
    (hforeign : a.ident ≠ w.linkSelfId)
    (hentry : ∀ p, entry = some p → a.mtype ≠ 3 ∧
      p.expiresAtUs = a.time + linkDiscoveryTtlSec * 1000000)
    (hnone : entry = none → a.mtype = 3) :
    UpToDate w (Function.update map a.ident entry) (past ++ [a]) := by
  constructor
  · rw [Function.update_of_ne (Ne.symm hforeign)]
    exact h.foreign
  · intro id p hp
    rw [latest_arrival]
    by_cases hid : a.ident = id
    · subst hid
      rw [Function.update_self] at hp
      exact ⟨a, if_pos rfl, hentry p hp⟩
    · rw [Function.update_of_ne (Ne.symm hid)] at hp
      rw [if_neg hid]
      exact h.present hp
  · intro id b hmap hlatest hstate
    rw [latest_arrival] at hlatest
    by_cases hid : a.ident = id
    · subst hid
      rw [Function.update_self] at hmap
      rw [if_pos rfl, Option.some.injEq] at hlatest
      exact absurd (hlatest ▸ hnone hmap) hstate
    · rw [Function.update_of_ne (Ne.symm hid)] at hmap
      rw [if_neg hid] at hlatest
      exact h.absent hmap hlatest hstate

/-- A datagram: the map and the arrivals change together, on the messages the header admits. -/
theorem rx_up_to_date {w : World} {map : LinkId → Option Peer} {past : List Arrival}
    (h : UpToDate w map past) (buf : List UInt8) (srcAddr : UInt32) (srcPort : UInt16) :
    UpToDate w (mapStep w map (.handleRx buf srcAddr srcPort))
      (past ++ arrivals w (.handleRx buf srcAddr srcPort)) := by
  have hforeign (hheader : headerAccepted w.linkSelfId buf = true) :
      messageIdent buf ≠ w.linkSelfId := (of_decide_eq_true hheader).2.2.2
  unfold mapStep arrivals
  dsimp only
  by_cases hheader : headerAccepted w.linkSelfId buf
  · have hpassed : ¬ (!headerAccepted w.linkSelfId buf) = true := by simp [hheader]
    rw [if_neg hpassed]
    by_cases hbye : messageType buf = 3
    · have haccepted : Accepted w buf := ⟨hheader, .inr (.inr hbye)⟩
      rw [if_pos hbye, if_pos haccepted]
      refine h.arrival (a := ⟨messageIdent buf, messageType buf, w.clock.now⟩)
        (hforeign hheader) ?_ fun _ => hbye
      intro p hp
      cases hp
    · rw [if_neg hbye]
      by_cases hother : messageType buf ≠ 1 ∧ messageType buf ≠ 2
      · have hrefused : ¬ Accepted w buf := by
          rintro ⟨_, htype | htype | htype⟩
          · exact hother.1 htype
          · exact hother.2 htype
          · exact hbye htype
        rw [if_pos hother, if_neg hrefused, List.append_nil]
        exact h
      · have haccepted : Accepted w buf := by
          refine ⟨hheader, ?_⟩
          by_contra hne
          rw [not_or, not_or] at hne
          exact hother ⟨hne.1, hne.2.1⟩
        rw [if_neg hother, if_pos haccepted]
        refine h.arrival (a := ⟨messageIdent buf, messageType buf, w.clock.now⟩)
          (hforeign hheader) ?_ ?_
        · intro p hp
          cases hp
          exact ⟨hbye, rfl⟩
        · intro hnone
          cases hnone
  · have hrefused : (!headerAccepted w.linkSelfId buf) = true := by simp [hheader]
    have hnot : ¬ Accepted w buf := fun haccepted => hheader haccepted.1
    rw [if_pos hrefused, if_neg hnot, List.append_nil]
    exact h

/-- A tick drops entries, each at a reading that finds its last message lapsed. -/
theorem tick_up_to_date {w : World} {map : LinkId → Option Peer} {past : List Arrival}
    (hrep : Represents Peer.key w.linkPeers map) (h : UpToDate w map past) :
    UpToDate w.advance (mapStep w map .tick) past := by
  show UpToDate w.advance (fun id => (map id).filter fun p => !expired w.clock.now p) past
  constructor
  · show (map w.linkSelfId).filter _ = none
    rw [h.foreign]
    rfl
  · intro id p hp
    exact h.present (Option.filter_eq_some_iff.mp hp).1
  · intro id a hnone hlatest hstate
    cases hmap : map id with
    | none =>
        obtain ⟨k, hk, hlapsed⟩ := h.absent hmap hlatest hstate
        exact ⟨k, Nat.lt_succ_of_lt hk, hlapsed⟩
    | some p =>
        -- the tick itself is the reading that found the message lapsed
        obtain ⟨a', hlatest', _, hexpires⟩ := h.present hmap
        rw [hlatest, Option.some.injEq] at hlatest'
        subst hlatest'
        obtain ⟨_, _, hkey⟩ := hrep.lookup.mp hmap
        have hexpired : expired w.clock.now p = true := by
          simpa [hmap, Option.filter] using hnone
        exact ⟨w.clock.reads, Nat.lt_succ_self _,
          (expired_iff (Peer.key_eq_some.mp hkey).1 hexpires).mp hexpired⟩

/-- A finished measurement adds and removes no entry, and moves no expiry. -/
theorem done_up_to_date {w : World} {map : LinkId → Option Peer} {past : List Arrival}
    (h : UpToDate w map past) (success : Bool) (intercept : Int64) :
    UpToDate w (mapStep w map (.measureDone success intercept)) past := by
  unfold mapStep
  cases success with
  | false => exact h
  | true =>
      constructor
      · show (map w.linkSelfId).map _ = none
        rw [h.foreign]
        rfl
      · intro id p hp
        obtain ⟨q, hq, rfl⟩ := Option.map_eq_some_iff.mp hp
        obtain ⟨a, hlatest, hstate, hexpires⟩ := h.present hq
        exact ⟨a, hlatest, hstate, (mark_measured_key _ _ q).2.trans hexpires⟩
      · intro id a hnone hlatest hstate
        exact h.absent (Option.map_eq_none_iff.mp hnone) hlatest hstate

/-- One call keeps the table's knowledge up to date. -/
theorem step_up_to_date {w : World} {map : LinkId → Option Peer} {past : List Arrival}
    {c : TableCall} (hrep : Represents Peer.key w.linkPeers map) (h : UpToDate w map past) :
    UpToDate (tableStep w c) (mapStep w map c) (past ++ arrivals w c) := by
  have hid := table_step_self_id w c
  cases c with
  | handleRx buf srcAddr srcPort =>
      exact (rx_up_to_date h buf srcAddr srcPort).later hid (table_step_later w _)
  | tick =>
      have hsilent : past ++ arrivals w .tick = past := List.append_nil past
      rw [hsilent]
      exact (tick_up_to_date hrep h).later hid (link_tick_later w)
  | measureDone success intercept =>
      have hsilent : past ++ arrivals w (.measureDone success intercept) = past :=
        List.append_nil past
      rw [hsilent]
      exact (done_up_to_date h success intercept).later hid (table_step_later w _)

/-! ## The table along a run -/

/-- The array is a map, and the map is up to date with the messages accepted so far. -/
def Refines (w₀ w : World) (past : List Arrival) : Prop :=
  ∃ map, Represents Peer.key w.linkPeers map ∧ UpToDate w map past ∧
    w.clock.reading = w₀.clock.reading

theorem link_init_refines (w : World) : Refines w (linkInit w) [] := by
  have hpeers : (linkInit w).linkPeers = List.replicate linkMaxPeers .zero :=
    congrArg View.linkPeers (link_init_view w)
  refine ⟨fun _ => none, ?_, ⟨rfl, ?_, ?_⟩, (link_init_later w).1⟩
  · rw [hpeers]
    refine represents_free ?_
    intro p hp
    rw [List.eq_of_mem_replicate hp]
    rfl
  · intro id p hp
    cases hp
  · intro id a _ hlatest
    cases hlatest

theorem step_refines {w₀ w : World} {past : List Arrival} {c : TableCall}
    (h : Refines w₀ w past) (hroom : HasRoom w c) :
    Refines w₀ (tableStep w c) (past ++ arrivals w c) := by
  obtain ⟨map, hrep, hknown, hreading⟩ := h
  exact ⟨mapStep w map c, step_represents hrep hroom, step_up_to_date hrep hknown,
    (table_step_later w c).1.trans hreading⟩

theorem run_refines {w₀ : World} {cs : List TableCall}
    (h : Guarded tableStep HasRoom (linkInit w₀) cs) :
    Refines w₀ (run tableStep (linkInit w₀) cs) (log tableStep arrivals (linkInit w₀) cs) :=
  run_log_induct (fun _ _ _ => step_refines) (link_init_refines w₀) h

/-- The entries left by a tick are those whose message has not lapsed. -/
theorem tick_present_iff {w₀ w : World} {past : List Arrival} (h : Refines w₀ w past)
    (hmono : ∀ i j, i ≤ j → w₀.clock.reading i ≤ w₀.clock.reading j) (id : LinkId) :
    (∃ p ∈ (linkTick w).linkPeers, p.inUse = true ∧ p.nodeId = id) ↔
      ∃ a, latest past id = some a ∧ a.mtype ≠ 3 ∧ w.clock.now ≤ a.time + 6000000 := by
  obtain ⟨map, hrep, hknown, hreading⟩ := h
  have htick : Represents Peer.key (linkTick w).linkPeers (mapStep w map .tick) :=
    step_represents hrep (c := .tick) trivial
  have hslot : (∃ p ∈ (linkTick w).linkPeers, p.inUse = true ∧ p.nodeId = id) ↔
      ((map id).filter fun p => !expired w.clock.now p).isSome := by
    rw [show ((map id).filter fun p => !expired w.clock.now p) = mapStep w map .tick id from rfl,
      htick.isSome_iff]
    simp only [Peer.key_eq_some]
  rw [hslot]
  cases hmap : map id with
  | none =>
      simp only [Option.filter_none, Option.isSome_none, Bool.false_eq_true, false_iff]
      rintro ⟨a, hlatest, hstate, hfresh⟩
      obtain ⟨k, hk, hlapsed⟩ := hknown.absent hmap hlatest hstate
      have hnow : w.clock.reading k ≤ w.clock.now := by
        show w.clock.reading k ≤ w.clock.reading w.clock.reads
        rw [hreading]
        exact hmono k _ hk.le
      exact absurd (UInt64.lt_of_lt_of_le hlapsed hnow) (UInt64.not_lt.mpr hfresh)
  | some p =>
      obtain ⟨a, hlatest, hstate, hexpires⟩ := hknown.present hmap
      obtain ⟨_, _, hkey⟩ := hrep.lookup.mp hmap
      have hexpired : expired w.clock.now p = true ↔ a.time + 6000000 < w.clock.now :=
        expired_iff (Peer.key_eq_some.mp hkey).1 hexpires
      have hkept : ((some p).filter fun p => !expired w.clock.now p).isSome ↔
          ¬ expired w.clock.now p = true := by
        cases hcase : expired w.clock.now p <;> simp [Option.filter, hcase]
      rw [hkept, hexpired, UInt64.not_lt]
      constructor
      · intro hfresh
        exact ⟨a, hlatest, hstate, hfresh⟩
      · rintro ⟨a', hlatest', _, hfresh⟩
        rw [hlatest, Option.some.injEq] at hlatest'
        exact hlatest' ▸ hfresh

/-- Finding or allocating a node's slot leaves the slots of every other node alone. -/
theorem find_or_alloc_other {peers table : List Peer} {id : LinkId} {i k : Nat} {p : Peer}
    (h : findOrAllocPeer peers id = some (table, i)) (hk : peers[k]? = some p)
    (huse : p.inUse = true) (hother : p.nodeId ≠ id) : table[k]? = some p ∧ i ≠ k := by
  unfold findOrAllocPeer at h
  cases hindex : peerIndex peers id with
  | some j =>
      rw [hindex] at h
      cases h
      refine ⟨hk, ?_⟩
      rintro rfl
      obtain ⟨q, hq, hkey⟩ := peer_index_key hindex
      rw [hk, Option.some.injEq] at hq
      exact hother (hq ▸ (Peer.key_eq_some.mp hkey).2)
  | none =>
      rw [hindex] at h
      obtain ⟨j, hj, hpair⟩ := Option.map_eq_some_iff.mp h
      cases hpair
      obtain ⟨hlt, hfree, _⟩ := List.findIdx?_eq_some_iff_getElem.mp hj
      have hne : i ≠ k := by
        rintro rfl
        rw [List.getElem?_eq_getElem hlt, Option.some.injEq] at hk
        rw [hk, huse] at hfree
        cases hfree
      exact ⟨by rw [List.getElem?_set_ne hne, hk], hne⟩

/-- A datagram leaves the slots of every node but its sender alone. -/
theorem handle_rx_other_slot {w : World} {buf : List UInt8} (srcAddr : UInt32) (srcPort : UInt16)
    {k : Nat} {p : Peer} (hk : w.linkPeers[k]? = some p) (huse : p.inUse = true)
    (hother : p.nodeId ≠ messageIdent buf) :
    (linkHandleRx buf srcAddr srcPort w).linkPeers[k]? = some p := by
  rw [link_handle_rx_peers]
  unfold tableAfter
  dsimp only
  split
  · split
    · unfold evictPeer
      split
      · rename_i i hi
        obtain ⟨q, hq, hkey⟩ := peer_index_key hi
        rw [List.getElem?_set_ne, hk]
        rintro rfl
        rw [hk, Option.some.injEq] at hq
        exact hother (hq ▸ (Peer.key_eq_some.mp hkey).2)
      · exact hk
    · split
      · split
        · exact hk
        · rename_i peers i hobs
          obtain ⟨⟨table, slot⟩, hfound, hpair⟩ := Option.map_eq_some_iff.mp hobs
          cases hpair
          obtain ⟨hsame, hne⟩ := find_or_alloc_other hfound hk huse hother
          show (table.modify i (updatePeer w.clock.now buf))[k]? = some p
          rw [List.getElem?_modify_ne _ _ hne]
          exact hsame
      · exact hk
  · exact hk

/-- A datagram that is not accepted changes nothing. -/
theorem handle_rx_not_accepted {w : World} {buf : List UInt8} (h : ¬ Accepted w buf)
    (srcAddr : UInt32) (srcPort : UInt16) : linkHandleRx buf srcAddr srcPort w = w := by
  unfold linkHandleRx
  by_cases hheader : headerAccepted w.linkSelfId buf = true
  · have hpassed : ¬ (!headerAccepted w.linkSelfId buf) = true := by simp [hheader]
    have htype : ¬ (messageType buf = 1 ∨ messageType buf = 2 ∨ messageType buf = 3) :=
      fun htype => h ⟨hheader, htype⟩
    rw [not_or, not_or] at htype
    rw [if_neg hpassed, if_neg htype.2.2, if_pos ⟨htype.1, htype.2.1⟩]
  · have hrefused : (!headerAccepted w.linkSelfId buf) = true := by simp [hheader]
    rw [if_pos hrefused]

/-- In every run in which a new node finds a free slot: no node holds two slots and the node
itself none; an accepted datagram leaves the slots of all nodes but its sender alone, and any
other datagram changes nothing; and right after a tick the nodes in the table are those whose
latest accepted message was an ALIVE or RESPONSE at most 6 s before. Host times are those of the
64-bit clock, and so is the sum `t + 6 s`. -/
theorem peer_table_refines_map (w₀ : World)
    (hmono : ∀ i j, i ≤ j → w₀.clock.reading i ≤ w₀.clock.reading j) (cs : List TableCall)
    (hroom : Guarded tableStep HasRoom (linkInit w₀) cs) :
    let w := run tableStep (linkInit w₀) cs
    let past := log tableStep arrivals (linkInit w₀) cs
    (∀ (i j : Nat) (p q : Peer), w.linkPeers[i]? = some p → w.linkPeers[j]? = some q →
      p.inUse = true → q.inUse = true → p.nodeId = q.nodeId → i = j) ∧
    (∀ p ∈ w.linkPeers, p.inUse = true → p.nodeId ≠ w.linkSelfId) ∧
    (∀ (buf : List UInt8) (srcAddr : UInt32) (srcPort : UInt16),
      (Accepted w buf → ∀ (k : Nat) (p : Peer), w.linkPeers[k]? = some p → p.inUse = true →
        p.nodeId ≠ messageIdent buf →
        (linkHandleRx buf srcAddr srcPort w).linkPeers[k]? = some p) ∧
      (¬ Accepted w buf → linkHandleRx buf srcAddr srcPort w = w)) ∧
    ∀ id, (∃ p ∈ (linkTick w).linkPeers, p.inUse = true ∧ p.nodeId = id) ↔
      ∃ a, latest past id = some a ∧ a.mtype ≠ 3 ∧ w.clock.now ≤ a.time + 6000000 := by
  intro w past
  have hrefines : Refines w₀ w past := run_refines hroom
  obtain ⟨map, hrep, hknown, _⟩ := id hrefines
  refine ⟨?_, ?_, ?_, tick_present_iff hrefines hmono⟩
  · intro i j p q hi hj hp hq hsame
    exact hrep.distinct hi hj (Peer.key_eq_some.mpr ⟨hp, hsame⟩) (Peer.key_eq_some.mpr ⟨hq, rfl⟩)
  · intro p hp huse hself
    obtain ⟨i, hi⟩ := List.getElem?_of_mem hp
    have hentry := hrep.entry hi (Peer.key_eq_some.mpr ⟨huse, hself⟩)
    rw [hknown.foreign] at hentry
    cases hentry
  · intro buf srcAddr srcPort
    exact ⟨fun _ _ _ => handle_rx_other_slot srcAddr srcPort,
      fun hnot => handle_rx_not_accepted hnot srcAddr srcPort⟩

/-- Two nodes before `link_init`, with clocks that stand still. -/
def nodeHere : World := powerOn (fun _ => 1000) 0x0A000001 (List.replicate 16 0)
def nodeThere : World := powerOn (fun _ => 2000) 0x0A000002 (List.replicate 16 0)

/-- The ALIVE of a node. -/
def aliveCall (n : World) : TableCall :=
  .handleRx (encodeMsg (linkInit n) 1 true) n.localIpv4 linkDiscoveryPort

/-- A node that has just said ALIVE is in the table after the next tick. -/
theorem peer_table_refines_map_alive :
    let w := run tableStep (linkInit nodeHere) [aliveCall nodeThere]
    ∃ p ∈ (linkTick w).linkPeers, p.inUse = true ∧ p.nodeId = (linkInit nodeThere).linkSelfId := by
  intro w
  have hroom : Guarded tableStep HasRoom (linkInit nodeHere) [aliveCall nodeThere] := by
    decide +kernel
  have hheard : ∃ a ∈ latest (log tableStep arrivals (linkInit nodeHere) [aliveCall nodeThere])
      (linkInit nodeThere).linkSelfId, a.mtype ≠ 3 ∧ w.clock.now ≤ a.time + 6000000 := by
    decide +kernel
  have hmono : ∀ i j, i ≤ j → nodeHere.clock.reading i ≤ nodeHere.clock.reading j :=
    fun _ _ _ => UInt64.le_refl _
  exact ((peer_table_refines_map nodeHere hmono _ hroom).2.2.2 _).mpr hheard

end LinkFPGA
