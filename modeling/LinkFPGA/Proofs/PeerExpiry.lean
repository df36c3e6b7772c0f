import LinkFPGA.Proofs.PeerRecords

/-!
# When the entries of the peer table expire

`step_expiries` says what one event does to the expiry times of the table: the sender of an ALIVE
or RESPONSE gets a new one, a tick removes those that are over, and nothing else changes any.
-/

namespace LinkFPGA

open SlotTable

/-- The event brings an ALIVE or RESPONSE of the node. -/
def hears (w : World) (e : Event) (id : LinkId) : Bool :=
  e.datagram.any fun buf => headerAccepted w.linkSelfId buf &&
    decide ((messageType buf = 1 ∨ messageType buf = 2) ∧ messageIdent buf = id)

/-- The event brings no BYEBYE. -/
def NoByebye (w : World) (e : Event) : Prop :=
  ∀ buf ∈ e.datagram, headerAccepted w.linkSelfId buf = true → messageType buf ≠ 3

/-- When the entry of a node expires. -/
def expiry (map : LinkId → Option Peer) (id : LinkId) : Option UInt64 :=
  (map id).map (·.expiresAtUs)

/-- The expiry time is not over at host time `now`, the grace included. -/
def current (now expiresAt : UInt64) : Bool :=
  !decide (expiresAt + linkDiscoveryPruneGraceMs * 1000 < now)

/-- When the entries expire after an event. -/
def expiryAfter (w : World) (e : Event) (map : LinkId → Option Peer) (id : LinkId) :
    Option UInt64 :=
  if hears w e id = true then some (w.clock.now + linkDiscoveryTtlSec * 1000000)
  else if e = .linkTick then (expiry map id).filter (current w.clock.now)
  else expiry map id

theorem hears_iff {w : World} {e : Event} {id : LinkId} :
    hears w e id = true ↔ ∃ buf, StateFrom w id e buf := by
  unfold hears StateFrom
  cases hdatagram : e.datagram with
  | none => simp
  | some buf => simp

/-- A datagram with a header that is not accepted is not heard. -/
theorem hears_refused {w : World} {e : Event} (h : ∀ buf ∈ e.datagram,
    ¬ headerAccepted w.linkSelfId buf = true) (id : LinkId) : hears w e id = false := by
  rw [← Bool.not_eq_true, hears_iff]
  rintro ⟨buf, hbuf, hheader, -⟩
  exact h buf hbuf hheader

/-- An entry that a tick looks at is in use. -/
theorem expired_entry {table : List Peer} {map : LinkId → Option Peer}
    (h : Represents Peer.key table map) {id : LinkId} {p : Peer} (hp : map id = some p)
    (now : UInt64) : expired now p = !current now p.expiresAtUs := by
  obtain ⟨i, -, hkey⟩ := h.lookup.mp hp
  unfold expired current
  rw [(Peer.key_eq_some.mp hkey).1, Bool.true_and, Bool.not_not]

/-- What a tick does to the expiry times. -/
theorem tick_expiries {w : World} {map : LinkId → Option Peer}
    (h : Represents Peer.key w.linkPeers map) (id : LinkId) :
    expiry (mapStep w map .tick) id = (expiry map id).filter (current w.clock.now) := by
  unfold expiry mapStep
  dsimp only
  cases hp : map id with
  | none => rfl
  | some p =>
      rw [Option.filter_some, expired_entry h hp, Bool.not_not, Option.map_some, Option.filter_some]
      cases current w.clock.now p.expiresAtUs <;> rfl

/-- What an ALIVE or RESPONSE does to them, and that nothing else that comes in does anything. -/
theorem rx_expiries {w : World} {map : LinkId → Option Peer} {buf : List UInt8}
    {srcAddr : UInt32} {srcPort : UInt16} (hstay : NoByebye w (.udp buf srcAddr srcPort))
    (id : LinkId) : expiry (mapStep w map (.handleRx buf srcAddr srcPort)) id =
      if hears w (.udp buf srcAddr srcPort) id = true then
        some (w.clock.now + linkDiscoveryTtlSec * 1000000)
      else expiry map id := by
  unfold mapStep
  dsimp only
  by_cases hheader : headerAccepted w.linkSelfId buf = true
  · have haccepted : ¬ (!headerAccepted w.linkSelfId buf) = true := by simp [hheader]
    have hbye : messageType buf ≠ 3 := hstay buf rfl hheader
    rw [if_neg haccepted, if_neg hbye]
    by_cases hstate : messageType buf = 1 ∨ messageType buf = 2
    · have hnot : ¬ (messageType buf ≠ 1 ∧ messageType buf ≠ 2) := fun hne =>
        hstate.elim hne.1 hne.2
      rw [if_neg hnot]
      unfold expiry
      rw [Function.update_apply]
      by_cases hid : id = messageIdent buf
      · have hheard : hears w (.udp buf srcAddr srcPort) id = true :=
          hears_iff.mpr ⟨buf, rfl, hheader, hstate, hid.symm⟩
        rw [if_pos hid, if_pos hheard]
        rfl
      · have hother : ¬ hears w (.udp buf srcAddr srcPort) id = true := by
          rw [hears_iff]
          rintro ⟨buf', hbuf, -, -, hident⟩
          obtain rfl := Option.some.inj hbuf
          exact hid hident.symm
        rw [if_neg hid, if_neg hother]
    · have hne : messageType buf ≠ 1 ∧ messageType buf ≠ 2 := not_or.mp hstate
      have hnone : ¬ hears w (.udp buf srcAddr srcPort) id = true := by
        rw [hears_iff]
        rintro ⟨buf', hbuf, -, htype, -⟩
        obtain rfl := Option.some.inj hbuf
        exact hstate htype
      rw [if_pos hne, if_neg hnone]
  · have hrefused : (!headerAccepted w.linkSelfId buf) = true := by simp [hheader]
    have hnone := hears_refused (w := w) (e := .udp buf srcAddr srcPort)
      (fun buf' hbuf => Option.some.inj hbuf ▸ hheader) id
    rw [if_pos hrefused, hnone, if_neg (by decide)]

/-- Marking entries as measured leaves their expiry times. -/
theorem done_expiries (w : World) (map : LinkId → Option Peer) (success : Bool)
    (intercept : Int64) (id : LinkId) :
    expiry (mapStep w map (.measureDone success intercept)) id = expiry map id := by
  cases success with
  | false => rfl
  | true =>
      show ((map id).map (markMeasured w.sActiveTargetSession intercept)).map (·.expiresAtUs) = _
      rw [Option.map_map]
      exact congrArg (Option.map · (map id)) (funext fun p => (mark_measured_key _ _ p).2)

/-- What an event does to the expiry times, if a sender that is new finds a slot. -/
theorem step_expiries {w : World} {map : LinkId → Option Peer}
    (h : Represents Peer.key w.linkPeers map) {e : Event}
    (hroom : ∀ buf addr port, e = .udp buf addr port → HasRoom w (.handleRx buf addr port))
    (hstay : NoByebye w e) :
    ∃ map', Represents Peer.key (step w e).linkPeers map' ∧
      ∀ id, expiry map' id = expiryAfter w e map id := by
  rcases step_cases w e with ⟨-, hstep⟩ | ⟨intercept, hreports, hdone⟩
  · cases e with
    | udp buf srcAddr srcPort =>
        have hrep := step_represents h (hroom buf srcAddr srcPort rfl)
        have hpeers : (step w (.udp buf srcAddr srcPort)).linkPeers =
            (tableStep w (.handleRx buf srcAddr srcPort)).linkPeers :=
          hstep.peers.trans (link_handle_rx_peers buf srcAddr srcPort w).symm
        exact ⟨_, hpeers ▸ hrep, fun id => rx_expiries hstay id⟩
    | linkTick =>
        have hrep : Represents Peer.key (tableStep w .tick).linkPeers (mapStep w map .tick) :=
          step_represents h trivial
        exact ⟨_, hrep, tick_expiries h⟩
    | sessionTick | setLocalTempo | setPlay | euroReset | broadcastAliveNow | localAddress =>
        exact ⟨map, hstep.peers ▸ h, fun id => rfl⟩
  · have hrep : Represents Peer.key (tableStep w (.measureDone true intercept)).linkPeers
        (mapStep w map (.measureDone true intercept)) := step_represents h trivial
    have hpeers : (tableStep w (.measureDone true intercept)).linkPeers = (step w e).linkPeers :=
      (on_measure_done_peers true intercept w).trans hdone.peers.symm
    refine ⟨_, hpeers ▸ hrep, fun id => ?_⟩
    rw [done_expiries]
    -- the event is a PONG
    cases e with
    | udp buf srcAddr srcPort =>
        have hnone : hears w (.udp buf srcAddr srcPort) id = false := by
          refine hears_refused (fun buf' hbuf hheader => ?_) id
          obtain rfl := Option.some.inj hbuf
          rw [reports_discovery hheader] at hreports
          cases hreports
        rw [expiryAfter, hnone]
        rfl
    | linkTick | sessionTick | setLocalTempo | setPlay | euroReset | broadcastAliveNow
    | localAddress => cases hreports

/-! ## The slots -/

theorem observe_length {peers table : List Peer} {now : UInt64} {buf : List UInt8} {i : ℕ}
    (h : observe peers now buf = some (table, i)) : table.length = peers.length := by
  obtain ⟨⟨found, k⟩, hfound, heq⟩ := Option.map_eq_some_iff.mp h
  cases heq
  rw [List.length_modify]
  unfold findOrAllocPeer at hfound
  split at hfound
  · cases hfound
    rfl
  · obtain ⟨k, -, hk⟩ := Option.map_eq_some_iff.mp hfound
    cases hk
    exact List.length_set

theorem evict_length (peers : List Peer) (id : LinkId) :
    (evictPeer peers id).length = peers.length := by
  unfold evictPeer
  split
  · exact List.length_set
  · rfl

/-- The table has the same number of slots after an event. -/
theorem step_table_length (w : World) (e : Event) :
    (step w e).linkPeers.length = w.linkPeers.length := by
  have hafter : (tableAfter w e).length = w.linkPeers.length := by
    cases e with
    | udp buf srcAddr srcPort =>
        unfold tableAfter
        dsimp only
        split
        · split
          · exact evict_length _ _
          · split
            · cases hobs : observe w.linkPeers w.clock.now buf with
              | none => rfl
              | some r => exact observe_length hobs
            · rfl
        · rfl
    | linkTick => exact List.length_map _
    | sessionTick | setLocalTempo | setPlay | euroReset | broadcastAliveNow | localAddress => rfl
  rcases step_cases w e with ⟨-, hstep⟩ | ⟨intercept, -, hdone⟩
  · rw [hstep.peers, hafter]
  · rw [hdone.peers, List.length_map]

end LinkFPGA
