import LinkFPGA.Library.Network
import LinkFPGA.Proofs.Adoption
import LinkFPGA.Proofs.Merging
import LinkFPGA.Proofs.Sending

/-!
# What nodes know of each other

Any number of nodes run the main loop and exchange datagrams over a network that may lose, repeat,
delay and reorder them (`OnNetwork`). A node's peer table is then all it knows of the others, and
`Informed` says what it is worth: every record is the state that some node was in, as the latest
message from that node tells it. `peer_records_describe_senders` and `nodes_invent_nothing` are
the two theorems; `step_informed` is the induction step of both.
-/

namespace LinkFPGA

open Runs LatestWins Network SlotTable

/-! ## Nodes on a network -/

/-- The bytes of the datagrams a node has sent. -/
def World.datagrams (w : World) : List (List UInt8) := w.sent.map Datagram.buf

/-- The bytes an event hands to its node. -/
def Event.datagram : Event → Option (List UInt8)
  | .udp buf _ _ => some buf
  | _ => none

/-- A datagram that arrives somewhere has been sent from somewhere. -/
abbrev OnNetwork {ι : Type} (nodes : ι → World) (a : ι × Event) : Prop :=
  FromNetwork World.datagrams Event.datagram nodes a ∧ a.2.Addressed

/-- A node as `link_init` leaves it. -/
def JustBooted (w : World) : Prop := ∃ reading v4 v6, v6.length = 16 ∧ w = boot reading v4 v6

/-- An edit of the tempo, or the reset of the beat origin. -/
def Event.EditsTimeline : Event → Prop
  | .setLocalTempo _ | .euroReset => True
  | _ => False

/-- A start or a stop. -/
def Event.EditsStartstop : Event → Prop
  | .setPlay _ => True
  | _ => False

/-! ## The messages of a node -/

/-- The two messages a node describes itself in. -/
def DescribesState (w : World) (buf : List UInt8) : Prop :=
  buf = encodeMsg w 1 true ∨ buf = encodeMsg w 2 true

/-- Of the datagrams of an event, only ALIVEs and RESPONSEs have the magic of the discovery
protocol. -/
theorem emitted_discovery {w : World} {e : Event} {d : Datagram} (h : Emitted w e d)
    (hmagic : d.buf.take 8 = kProtoHdr) : DescribesState w d.buf := by
  cases h with
  | aliveV4 | aliveV6 => exact .inl rfl
  | response => exact .inr rfl
  | pingObserved | pingAnswered | pingAgain | pingRemeasure => exact absurd hmagic proto_link_ne_hdr
  | pong buf addr port out _ _ hout =>
      unfold encodePong at hout
      dsimp only at hout
      split at hout
      · cases hout
      · cases hout
        exact absurd hmagic proto_link_ne_hdr

/-- What a receiver makes of the header of such a message. -/
theorem describes_header {w : World} {buf : List UInt8} (h : DescribesState w buf)
    (hv6 : w.localIpv6.length = 16) :
    (messageType buf = 1 ∨ messageType buf = 2) ∧ messageIdent buf = w.linkSelfId ∧
      messageBody buf = announcementBody w := by
  rcases h with rfl | rfl
  · obtain ⟨htype, hident, hbody, -⟩ := encode_msg_header hv6 1
    exact ⟨.inl htype, hident, hbody⟩
  · obtain ⟨htype, hident, hbody, -⟩ := encode_msg_header hv6 2
    exact ⟨.inr htype, hident, hbody⟩

/-- The sender's record carries its state afterwards. -/
theorem update_peer_carries {w : World} {buf : List UInt8} (h : DescribesState w buf)
    (hv6 : w.localIpv6.length = 16) {p : Peer} (hkey : p.key = some w.linkSelfId) (now : UInt64) :
    Carries w (updatePeer now buf p) := by
  obtain ⟨huse, hid⟩ := Peer.key_eq_some.mp hkey
  have hrecord : updatePeer now buf p =
      { announcedBy w p with expiresAtUs := now + linkDiscoveryTtlSec * 1000000 } := by
    rw [updatePeer, (describes_header h hv6).2.2, walk_announcement hv6]
  rw [hrecord]
  exact ⟨huse, hid, rfl, rfl, rfl, ⟨rfl, rfl⟩, ⟨rfl, rfl, rfl⟩, ⟨rfl, rfl⟩, rfl, rfl, rfl⟩

/-- Marking a record as measured leaves what it carries alone. -/
theorem mark_measured_carries {w : World} {p : Peer} (h : Carries w p) (session : LinkId)
    (intercept : Int64) : Carries w (markMeasured session intercept p) := by
  unfold markMeasured
  split
  · exact ⟨h.inUse, h.nodeId, h.sessionId, h.timeline, h.startstop, h.mep4, h.mep6, h.aep4, h.aep6⟩
  · exact h

/-! ## The table after an event -/

/-- An ALIVE or RESPONSE of the node `id`. -/
def StateFrom (w : World) (id : LinkId) (e : Event) (buf : List UInt8) : Prop :=
  e.datagram = some buf ∧ headerAccepted w.linkSelfId buf = true ∧
    (messageType buf = 1 ∨ messageType buf = 2) ∧ messageIdent buf = id

theorem no_state_from {w : World} {id : LinkId} {e : Event} {buf : List UInt8}
    (h : e.datagram = none) : ¬ StateFrom w id e buf := by
  rintro ⟨hbuf, -⟩
  rw [h] at hbuf
  cases hbuf

/-- Where an entry of the table comes from: an ALIVE or RESPONSE of its node that the event
brought, or else the table before, and then the event brought none. -/
def EntryFrom (w : World) (map : LinkId → Option Peer) (e : Event) (id : LinkId) (p' : Peer) :
    Prop :=
  (∃ buf p, StateFrom w id e buf ∧ p.key = some id ∧ p' = updatePeer w.clock.now buf p) ∨
    (∀ buf, ¬ StateFrom w id e buf) ∧ map id = some p'

/-- The table stays a map while no measurement completes, and each entry of it comes from the
event or from the map before. -/
theorem table_after_represents {w : World} {map : LinkId → Option Peer}
    (h : Represents Peer.key w.linkPeers map) (e : Event) :
    ∃ map', Represents Peer.key (tableAfter w e) map' ∧
      ∀ id p', map' id = some p' → EntryFrom w map e id p' := by
  have hkept (hnone : ∀ id buf, ¬ StateFrom w id e buf) : ∃ map',
      Represents Peer.key w.linkPeers map' ∧ ∀ id p', map' id = some p' → EntryFrom w map e id p' :=
    ⟨map, h, fun id p' hp' => .inr ⟨hnone id, hp'⟩⟩
  cases e with
  | udp buf srcAddr srcPort =>
      unfold tableAfter
      dsimp only
      split
      · rename_i hheader
        split
        · rename_i hbye
          refine ⟨_, evict_represents h (messageIdent buf), fun id p' hp' => .inr ⟨?_, ?_⟩⟩
          · rintro buf' ⟨hbuf, -, htype, -⟩
            obtain rfl := Option.some.inj hbuf
            rw [hbye] at htype
            exact absurd htype (by decide)
          · rw [Function.update_apply] at hp'
            split at hp'
            · cases hp'
            · exact hp'
        · split
          · rename_i hstate
            cases hobs : observe w.linkPeers w.clock.now buf with
            | none =>
                -- the table is full, and the sender has no slot in it
                refine ⟨map, h, fun id p' hp' => .inr ⟨?_, hp'⟩⟩
                rintro buf' ⟨hbuf, -, -, rfl⟩
                obtain rfl := Option.some.inj hbuf
                obtain ⟨j, hj, hkey⟩ := h.lookup.mp hp'
                have hfound : ∃ r, observe w.linkPeers w.clock.now buf = some r :=
                  observe_isSome _ fun hnone => absurd hkey (hnone p' (List.mem_of_getElem? hj))
                obtain ⟨r, hr⟩ := hfound
                rw [hobs] at hr
                cases hr
            | some r =>
                refine ⟨_, observe_represents h hobs, fun id p' hp' => ?_⟩
                rw [Function.update_apply] at hp'
                split at hp'
                · rename_i hid
                  subst hid
                  refine .inl ⟨buf, (map (messageIdent buf)).getD (.fresh (messageIdent buf)),
                    ⟨rfl, hheader, hstate, rfl⟩, ?_, (Option.some.inj hp').symm⟩
                  cases hmap : map (messageIdent buf) with
                  | none => rfl
                  | some p => exact (h.lookup.mp hmap).choose_spec.2
                · rename_i hid
                  refine .inr ⟨?_, hp'⟩
                  rintro buf' ⟨hbuf, -, -, rfl⟩
                  exact hid (congrArg messageIdent (Option.some.inj hbuf)).symm
          · rename_i hstate
            refine hkept ?_
            rintro id buf' ⟨hbuf, -, htype, -⟩
            obtain rfl := Option.some.inj hbuf
            exact hstate htype
      · rename_i hheader
        refine hkept ?_
        rintro id buf' ⟨hbuf, haccepted, -⟩
        obtain rfl := Option.some.inj hbuf
        exact hheader haccepted
  | linkTick =>
      have hkey : ∀ p, (if expired w.clock.now p then Peer.zero else p).key =
          if !expired w.clock.now p then p.key else none := by
        intro p
        cases expired w.clock.now p <;> rfl
      refine ⟨_, h.mapSlots _ (fun p => !expired w.clock.now p) hkey, fun id p' hp' => ?_⟩
      obtain ⟨p, hp, rfl⟩ := Option.map_eq_some_iff.mp hp'
      obtain ⟨hmap, hfresh⟩ := Option.filter_eq_some_iff.mp hp
      refine .inr ⟨fun buf => no_state_from rfl, ?_⟩
      rw [if_neg (by simpa using hfresh)]
      exact hmap
  | sessionTick | setLocalTempo | setPlay | euroReset | broadcastAliveNow | localAddress =>
      exact hkept fun id buf => no_state_from rfl

/-! ## A node's own state after an event -/

theorem edited_timeline {e : Event} (h : ¬ e.EditsTimeline) (w : World) :
    (edited w e).1 = w.linkSelfTimeline := by
  cases e with
  | setLocalTempo | euroReset => exact absurd trivial h
  | udp | linkTick | sessionTick | setPlay | broadcastAliveNow | localAddress => rfl

theorem edited_startstop {e : Event} (h : ¬ e.EditsStartstop) (w : World) :
    (edited w e).2 = w.linkSelfStartstop := by
  cases e with
  | setPlay => exact absurd trivial h
  | udp | linkTick | sessionTick | setLocalTempo | euroReset | broadcastAliveNow
  | localAddress => rfl

/-- A measurement that completes leaves the node's state as it was, or replaces it by a record of
the session measured. -/
theorem on_measure_done_state (intercept : Int64) (w : World) :
    (onMeasureDone true intercept w).selfState = w.selfState ∨
      ∃ p ∈ (onMeasureDone true intercept w).linkPeers, p.inUse = true ∧
        (onMeasureDone true intercept w).selfState = (p.timeline, p.startstop) := by
  by_cases hswitch : Switches w intercept
  · obtain ⟨now, hdone⟩ := on_measure_done_switches hswitch
    obtain ⟨hpeers, -, htimeline, hstartstop⟩ :=
      adopt_session_records intercept (markSession intercept w)
    rw [hdone]
    cases hbest : bestPeer (markSession intercept w).linkPeers
        (markSession intercept w).sActiveTargetSession with
    | none =>
        rw [hbest] at htimeline hstartstop
        exact .inl (Prod.ext htimeline hstartstop)
    | some best =>
        rw [hbest] at htimeline hstartstop
        obtain ⟨⟨hmem, huse, -⟩, -⟩ := best_peer_latest hbest
        exact .inr ⟨best, hpeers ▸ hmem, huse, Prod.ext htimeline hstartstop⟩
  · left
    have hkept : switchToNew (ghostDiff intercept w) w.sActiveTargetSession w.linkSelfSession =
        false := by simpa [Switches] using hswitch
    unfold onMeasureDone
    simp only [Bool.not_true, Bool.false_eq_true, if_false, hkept]
    rfl

/-- The same for the event that completes it. -/
theorem step_completed_state {w : World} {e : Event} (h : reports w e ≠ []) :
    (step w e).selfState = w.selfState ∨
      ∃ p ∈ (step w e).linkPeers, p.inUse = true ∧
        (step w e).selfState = (p.timeline, p.startstop) := by
  cases e with
  | udp buf srcAddr srcPort =>
      unfold reports at h
      dsimp only at h
      split at h
      · rename_i hmagic
        rw [step_pong hmagic]
        set r := measurementHandleRx w.clock w.meas buf srcAddr srcPort
        obtain ⟨intercept, hcall⟩ : ∃ intercept, r.call = some (true, intercept) := by
          by_contra hquiet
          exact h (success_of_nil fun intercept hcall => hquiet ⟨intercept, hcall⟩)
        unfold applyMeas
        rw [hcall]
        exact on_measure_done_state intercept _
      · exact absurd rfl h
  | linkTick | sessionTick | setLocalTempo | setPlay | euroReset | broadcastAliveNow
  | localAddress => exact absurd rfl h

/-- What completes a measurement is no discovery datagram. -/
theorem table_after_reports {w : World} {e : Event} (h : reports w e ≠ []) :
    tableAfter w e = w.linkPeers := by
  cases e with
  | udp buf srcAddr srcPort =>
      have hheader : ¬ headerAccepted w.linkSelfId buf = true := fun hheader =>
        h (reports_discovery hheader)
      exact if_neg hheader
  | linkTick | sessionTick | setLocalTempo | setPlay | euroReset | broadcastAliveNow
  | localAddress => exact absurd rfl h

/-- The session an event asks to have measured is the node's own or one that a peer claims
afterwards. -/
theorem requested_session {w : World} {e : Event} {session : LinkId} {target : Peer}
    (h : requested w e = some (session, target)) :
    session = w.linkSelfSession ∨
      ∃ p ∈ tableAfter w e, p.inUse = true ∧ p.sessionId = session := by
  cases e with
  | udp buf srcAddr srcPort =>
      right
      unfold requested at h
      unfold tableAfter
      dsimp only at h ⊢
      split at h
      · rename_i hcond
        obtain ⟨hheader, hstate⟩ := hcond
        have hbye : ¬ messageType buf = 3 := by
          rcases hstate with hstate | hstate <;> rw [hstate] <;> decide
        rw [if_pos hheader, if_neg hbye, if_pos hstate]
        cases hobs : observe w.linkPeers w.clock.now buf with
        | none =>
            rw [hobs] at h
            cases h
        | some r =>
            obtain ⟨peers, i⟩ := r
            rw [hobs] at h
            obtain ⟨hlt, hin, -⟩ := List.findIdx?_eq_some_iff_getElem.mp (observe_index hobs)
            have hin : peers[i].inUse = true ∧ peers[i].nodeId = messageIdent buf := by
              simpa using hin
            dsimp only at h
            unfold observeRequest at h
            rw [List.getElem?_eq_getElem hlt] at h
            dsimp only at h
            refine ⟨peers[i], List.getElem_mem hlt, hin.1, ?_⟩
            split at h
            · cases h
            · split at h
              · cases h
              · split at h
                · cases h
                · cases h
                  rfl
      · cases h
  | sessionTick =>
      left
      have hsession : (applyMeas (measurementTick w.clock w.meas) w).linkSelfSession =
          w.linkSelfSession :=
        congrArg View.linkSelfSession
          (apply_meas_view (measurement_tick_frame w.clock w.meas).2.2)
      unfold requested remeasureRequest at h
      dsimp only at h
      split at h
      · cases h
      · split at h
        · obtain ⟨p, -, hp⟩ := Option.map_eq_some_iff.mp h
          cases hp
          exact hsession
        · cases h
  | linkTick | setLocalTempo | setPlay | euroReset | broadcastAliveNow | localAddress => cases h

/-! ## What a node has been told -/

section Knowledge

variable {ι : Type} [DecidableEq ι]

/-- A discovery message of the node `id`, to a node with another id. -/
def isMessageOf (id selfId : LinkId) (buf : List UInt8) : Bool :=
  headerAccepted selfId buf && decide (messageIdent buf = id)

/-- The latest discovery message of the node `id` that was handed to node `i`. -/
def lastHeard (nodes : ι → World) (as : List (ι × Event)) (i : ι) (id : LinkId) :
    Option (List UInt8) :=
  ((inbox Event.datagram as i).filter (isMessageOf id (nodes i).linkSelfId)).getLast?

/-- A message of the node is now the latest. -/
theorem last_heard_new {nodes : ι → World} {as : List (ι × Event)} {i : ι} {id : LinkId}
    {e : Event} {buf : List UInt8} (hbuf : e.datagram = some buf)
    (hheader : headerAccepted (nodes i).linkSelfId buf = true) (hid : messageIdent buf = id) :
    lastHeard nodes (as ++ [(i, e)]) i id = some buf := by
  have hkeep : isMessageOf id (nodes i).linkSelfId buf = true := by
    simp [isMessageOf, hheader, hid]
  unfold lastHeard
  rw [inbox_concat, if_pos rfl, hbuf, List.filter_append, Option.toList_some,
    List.filter_cons_of_pos hkeep, List.filter_nil, List.getLast?_concat]

/-- Any other event leaves the latest message of the node what it was. -/
theorem last_heard_kept {nodes : ι → World} {as : List (ι × Event)} {a : ι × Event} {i : ι}
    {id : LinkId} (h : a.1 = i → ∀ buf, a.2.datagram = some buf →
      headerAccepted (nodes i).linkSelfId buf = true → messageIdent buf ≠ id) :
    lastHeard nodes (as ++ [a]) i id = lastHeard nodes as i id := by
  unfold lastHeard
  rw [inbox_concat, List.filter_append]
  split
  · rename_i hi
    cases hbuf : a.2.datagram with
    | none => rw [Option.toList_none, List.filter_nil, List.append_nil]
    | some buf =>
        have hdrop : ¬ isMessageOf id (nodes i).linkSelfId buf = true := by
          rw [isMessageOf, Bool.and_eq_true, decide_eq_true_iff]
          exact fun hboth => h hi buf hbuf hboth.1 hboth.2
        rw [Option.toList_some, List.filter_cons_of_neg hdrop, List.filter_nil, List.append_nil]
  · rw [List.filter_nil, List.append_nil]

/-- A state that nobody invented: the session is some node's, and the timeline and the start/stop
state are those some node booted with or left by an edit of its own. -/
structure Genuine (nodes : ι → World) (as : List (ι × Event)) (w : World) : Prop where
  session : ∃ j, w.linkSelfSession = (nodes j).linkSelfId
  timeline : Authored step World.linkSelfTimeline Event.EditsTimeline nodes as w.linkSelfTimeline
  startstop : Authored step World.linkSelfStartstop Event.EditsStartstop nodes as
    w.linkSelfStartstop
  normal : w.linkSelfStartstop.normalised = w.linkSelfStartstop

theorem Genuine.append {nodes : ι → World} {as : List (ι × Event)} {w : World}
    (h : Genuine nodes as w) (bs : List (ι × Event)) : Genuine nodes (as ++ bs) w :=
  ⟨h.session, h.timeline.append bs, h.startstop.append bs, h.normal⟩

/-- The datagram describes a genuine state that some node was in. -/
structure Told (nodes : ι → World) (as : List (ι × Event)) (buf : List UInt8) (w : World) :
    Prop where
  wasIn : ∃ j, WasIn step nodes as j w
  genuine : Genuine nodes as w
  addressed : w.localIpv6.length = 16
  describes : DescribesState w buf

theorem Told.append {nodes : ι → World} {as : List (ι × Event)} {buf : List UInt8} {w : World}
    (h : Told nodes as buf w) (bs : List (ι × Event)) : Told nodes (as ++ bs) buf w := by
  obtain ⟨j, hj⟩ := h.wasIn
  exact ⟨⟨j, hj.append bs⟩, h.genuine.append bs, h.addressed, h.describes⟩

/-- The record is what the latest message of the node `id` told. -/
def KnownFrom (nodes : ι → World) (as : List (ι × Event)) (i : ι) (id : LinkId) (p : Peer) :
    Prop :=
  ∃ buf w, lastHeard nodes as i id = some buf ∧ Told nodes as buf w ∧ Carries w p

/-- What node `i`, in state `w`, is after the events. -/
structure Informed (nodes : ι → World) (as : List (ι × Event)) (i : ι) (w : World) : Prop where
  selfId : w.linkSelfId = (nodes i).linkSelfId
  addressed : w.localIpv6.length = 16
  genuine : Genuine nodes as w
  /-- The session being measured is some node's. -/
  target : w.meas.active = true → ∃ j, w.sActiveTargetSession = (nodes j).linkSelfId
  records : ∃ map, Represents Peer.key w.linkPeers map ∧
    ∀ id p, map id = some p → KnownFrom nodes as i id p

/-- The record of a slot in use. -/
theorem Informed.known {nodes : ι → World} {as : List (ι × Event)} {i : ι} {w : World}
    (h : Informed nodes as i w) {p : Peer} (hp : p ∈ w.linkPeers) (huse : p.inUse = true) :
    KnownFrom nodes as i p.nodeId p := by
  obtain ⟨map, hrep, hknown⟩ := h.records
  obtain ⟨k, hk⟩ := List.getElem?_of_mem hp
  exact hknown _ p (hrep.entry hk (Peer.key_eq_some.mpr ⟨huse, rfl⟩))

/-- An event at another node. -/
theorem Informed.elsewhere {nodes : ι → World} {as : List (ι × Event)} {a : ι × Event} {i : ι}
    {w : World} (h : Informed nodes as i w) (hi : i ≠ a.1) : Informed nodes (as ++ [a]) i w := by
  obtain ⟨map, hrep, hknown⟩ := h.records
  refine ⟨h.selfId, h.addressed, h.genuine.append _, h.target, map, hrep, fun id p hp => ?_⟩
  obtain ⟨buf, w', hlast, htold, hcarries⟩ := hknown id p hp
  refine ⟨buf, w', ?_, htold.append _, hcarries⟩
  rw [last_heard_kept fun hsame => absurd hsame.symm hi, hlast]

/-! ## One event -/

section Step

variable {nodes : ι → World} {as : List (ι × Event)} {i : ι} {e : Event}

/-- What a node announces is genuine and of this moment. -/
theorem Informed.tells (h : Informed nodes as i (run (actAt step) nodes as i))
    {d : Datagram} (hd : Emitted (run (actAt step) nodes as i) e d)
    (hmagic : d.buf.take 8 = kProtoHdr) :
    Told nodes as d.buf (run (actAt step) nodes as i) :=
  ⟨⟨i, .now step nodes as i⟩, h.genuine, h.addressed, emitted_discovery hd hmagic⟩

/-- The magic of a discovery datagram. -/
theorem header_magic {selfId : LinkId} {buf : List UInt8} (h : headerAccepted selfId buf = true) :
    buf.take 8 = kProtoHdr :=
  (of_decide_eq_true h).2.1

/-- The records after an event, before any of them is marked as measured. -/
theorem table_after_known {w : World} (h : Informed nodes as i w)
    (hreceived : ∀ buf ∈ e.datagram, buf.take 8 = kProtoHdr → ∃ v, Told nodes as buf v) :
    ∃ map, Represents Peer.key (tableAfter w e) map ∧
      ∀ id p, map id = some p → KnownFrom nodes (as ++ [(i, e)]) i id p := by
  obtain ⟨map, hrep, hknown⟩ := h.records
  obtain ⟨map', hrep', hfrom⟩ := table_after_represents hrep e
  refine ⟨map', hrep', fun id p' hp' => ?_⟩
  rcases hfrom id p' hp' with ⟨buf, p, ⟨hbuf, hheader, -, hid⟩, hkey, rfl⟩ | ⟨hnone, hmap⟩
  · obtain ⟨v, htold⟩ := hreceived buf hbuf (header_magic hheader)
    have hsender : id = v.linkSelfId :=
      hid.symm.trans (describes_header htold.describes htold.addressed).2.1
    exact ⟨buf, v, last_heard_new hbuf (h.selfId ▸ hheader) hid, htold.append _,
      update_peer_carries htold.describes htold.addressed (hsender ▸ hkey) _⟩
  · obtain ⟨buf, v, hlast, htold, hcarries⟩ := hknown id p' hmap
    refine ⟨buf, v, ?_, htold.append _, hcarries⟩
    rw [last_heard_kept, hlast]
    intro _ buf' hbuf' hheader' hid'
    obtain ⟨v', htold'⟩ := hreceived buf' hbuf' (header_magic hheader')
    exact hnone buf' ⟨hbuf', h.selfId.symm ▸ hheader',
      (describes_header htold'.describes htold'.addressed).1, hid'⟩

/-- Marking the peers of a session keeps what is known of them. -/
theorem mark_measured_known {table : List Peer} {map : LinkId → Option Peer}
    (hrep : Represents Peer.key table map)
    (hknown : ∀ id p, map id = some p → KnownFrom nodes as i id p) (session : LinkId)
    (intercept : Int64) :
    ∃ map', Represents Peer.key (table.map (markMeasured session intercept)) map' ∧
      ∀ id p, map' id = some p → KnownFrom nodes as i id p := by
  have hkey : ∀ p, (markMeasured session intercept p).key = if true then p.key else none :=
    fun p => (mark_measured_key session intercept p).1
  refine ⟨_, hrep.mapSlots _ (fun _ => true) hkey, fun id p' hp' => ?_⟩
  obtain ⟨p, hp, rfl⟩ := Option.map_eq_some_iff.mp hp'
  obtain ⟨buf, w, hlast, htold, hcarries⟩ := hknown id p (Option.filter_eq_some_iff.mp hp).1
  exact ⟨buf, w, hlast, htold, mark_measured_carries hcarries session intercept⟩

/-- A record that describes a node describes a genuine state. -/
theorem KnownFrom.genuine {id : LinkId} {p : Peer} (h : KnownFrom nodes as i id p) :
    (∃ j, p.sessionId = (nodes j).linkSelfId) ∧
      Authored step World.linkSelfTimeline Event.EditsTimeline nodes as p.timeline ∧
      Authored step World.linkSelfStartstop Event.EditsStartstop nodes as p.startstop ∧
      p.startstop.normalised = p.startstop := by
  obtain ⟨buf, w, -, htold, hcarries⟩ := h
  have hgenuine := htold.genuine
  rw [hcarries.sessionId, hcarries.timeline, hcarries.startstop, hgenuine.normal]
  exact ⟨hgenuine.session, hgenuine.timeline, hgenuine.startstop, hgenuine.normal⟩

/-- The state that an event without a measurement result leaves. -/
theorem quiet_genuine {w : World} (hw : w = run (actAt step) nodes as i)
    (h : Genuine nodes as w) (hquiet : reports w e = [])
    (hsession : (step w e).linkSelfSession = w.linkSelfSession) :
    Genuine nodes (as ++ [(i, e)]) (step w e) := by
  have hstate := step_self_state hquiet
  have hgenuine := h.append [(i, e)]
  have htimeline (hedit : ¬ e.EditsTimeline) :
      (step w e).linkSelfTimeline = w.linkSelfTimeline :=
    (congrArg Prod.fst hstate).trans (edited_timeline hedit w)
  have hstartstop (hedit : ¬ e.EditsStartstop) :
      (step w e).linkSelfStartstop = w.linkSelfStartstop :=
    (congrArg Prod.snd hstate).trans (edited_startstop hedit w)
  constructor
  · rw [hsession]
    exact hgenuine.session
  · by_cases hedit : e.EditsTimeline
    · exact hw ▸ .now hedit i
    · rw [htimeline hedit]
      exact hgenuine.timeline
  · by_cases hedit : e.EditsStartstop
    · exact hw ▸ .now hedit i
    · rw [hstartstop hedit]
      exact hgenuine.startstop
  · by_cases hedit : e.EditsStartstop
    · cases e with
      | setPlay play =>
          cases play with
          | false => rfl
          | true => rfl
      | udp | linkTick | sessionTick | setLocalTempo | euroReset | broadcastAliveNow
      | localAddress => exact hedit.elim
    · rw [hstartstop hedit]
      exact hgenuine.normal

/-- One event keeps a node informed, if what it is handed describes genuine states. -/
theorem step_informed {w : World} (hw : w = run (actAt step) nodes as i)
    (h : Informed nodes as i w) (he : e.Addressed)
    (hreceived : ∀ buf ∈ e.datagram, buf.take 8 = kProtoHdr → ∃ v, Told nodes as buf v) :
    Informed nodes (as ++ [(i, e)]) i (step w e) := by
  obtain ⟨map, hrep, hknown⟩ := table_after_known h hreceived
  have hv6 := step_addressed h.addressed he
  rcases step_cases w e with ⟨hquiet, hstep⟩ | ⟨intercept, hreports, hdone⟩
  · refine ⟨hstep.selfId.trans h.selfId, hv6, quiet_genuine hw h.genuine hquiet hstep.selfSession,
      fun hactive => ?_, map, hstep.peers.symm ▸ hrep, hknown⟩
    rw [hstep.activeTarget]
    cases hrequest : requested w e with
    | none =>
        rcases hstep.inProgress hactive with ⟨hflight, -⟩ | ⟨target, hsome⟩
        · exact h.target (in_flight_of_active hflight).1
        · rw [hrequest] at hsome
          cases hsome
    | some request =>
        obtain ⟨session, target⟩ := request
        rcases requested_session hrequest with rfl | ⟨p, hp, huse, rfl⟩
        · exact h.genuine.session
        · obtain ⟨k, hk⟩ := List.getElem?_of_mem hp
          exact (hknown _ p (hrep.entry hk (Peer.key_eq_some.mpr ⟨huse, rfl⟩))).genuine.1
  · have hactive := (reports_active (hreports ▸ List.mem_singleton_self _)).1
    -- the event is a PONG: the table is what it was, but for the marks
    rw [table_after_reports (hreports ▸ List.cons_ne_nil _ _)] at hrep
    have hrecords : ∃ map, Represents Peer.key (step w e).linkPeers map ∧
        ∀ id p, map id = some p → KnownFrom nodes (as ++ [(i, e)]) i id p := by
      rw [hdone.peers]
      exact mark_measured_known hrep hknown _ _
    obtain ⟨map', hrep', hknown'⟩ := hrecords
    refine ⟨hdone.selfId.trans h.selfId, hv6, ?_, fun hstarted => ?_, map', hrep', hknown'⟩
    · have hsession : ∃ j, (step w e).linkSelfSession = (nodes j).linkSelfId := by
        rcases hdone.session with ⟨htaken, -⟩ | ⟨hkept, -⟩
        · rw [htaken]
          exact h.target hactive
        · rw [hkept]
          exact h.genuine.session
      have hsome : reports w e ≠ [] := by
        rw [hreports]
        exact List.cons_ne_nil _ _
      rcases step_completed_state hsome with hkept | ⟨p, hp, huse, htaken⟩
      · obtain ⟨htimeline, hstartstop⟩ := Prod.mk.inj hkept
        have hgenuine := h.genuine.append [(i, e)]
        exact ⟨hsession, htimeline ▸ hgenuine.timeline, hstartstop ▸ hgenuine.startstop,
          hstartstop ▸ hgenuine.normal⟩
      · obtain ⟨htimeline, hstartstop⟩ := Prod.mk.inj htaken
        obtain ⟨k, hk⟩ := List.getElem?_of_mem hp
        have hentry := hrep'.entry hk (Peer.key_eq_some.mpr ⟨huse, rfl⟩)
        obtain ⟨-, htl, hss, hnormal⟩ := (hknown' _ p hentry).genuine
        exact ⟨hsession, htimeline ▸ htl, hstartstop ▸ hss, hstartstop ▸ hnormal⟩
    · rw [hdone.idle] at hstarted
      cases hstarted

end Step

/-! ## Runs of the network -/

/-- A node that has booted knows its own state and nobody else's. -/
theorem boot_informed {nodes : ι → World} (hboot : ∀ i, JustBooted (nodes i)) (i : ι) :
    Informed nodes [] i (nodes i) := by
  obtain ⟨reading, v4, v6, hv6, hnode⟩ := hboot i
  have hview := link_init_view (beatPulseInit (powerOn reading v4 v6))
  refine ⟨rfl, ?_, ⟨⟨i, ?_⟩, .inl ⟨i, rfl⟩, .inl ⟨i, rfl⟩, ?_⟩, ?_, fun _ => none, ?_, ?_⟩
  · rw [hnode, (boot_sends reading v4 v6).2]
    exact hv6
  · rw [hnode]
    exact (congrArg View.linkSelfSession hview).trans (congrArg View.linkSelfId hview).symm
  · rw [hnode]
    rfl
  · intro hactive
    rw [hnode, boot_meas] at hactive
    cases hactive
  · refine represents_free fun p hp => ?_
    rw [hnode, show (boot reading v4 v6).linkPeers = _ from congrArg View.linkPeers hview] at hp
    rw [List.eq_of_mem_replicate hp]
    rfl
  · intro id p hp
    cases hp

/-- Every node of a network stays informed. -/
theorem run_informed {nodes : ι → World} (hboot : ∀ i, JustBooted (nodes i))
    {as : List (ι × Event)} (h : Guarded (actAt step) OnNetwork nodes as) (i : ι) :
    Informed nodes as i (run (actAt step) nodes as i) := by
  refine (network_induct (fun _ e => e.Addressed) (Informed nodes)
    (fun past buf => buf.take 8 = kProtoHdr → ∃ v, Told nodes past buf v)
    (boot_informed hboot) ?_ ?_ ?_ ?_ ?_ h i).1
  · intro i
    obtain ⟨reading, v4, v6, -, hnode⟩ := hboot i
    rw [World.datagrams, hnode, (boot_sends reading v4 v6).1]
    rfl
  · exact fun past a i w hi hinformed => hinformed.elsewhere hi
  · intro past a buf hsays hmagic
    obtain ⟨v, htold⟩ := hsays hmagic
    exact ⟨v, htold.append [a]⟩
  · intro past i e hinformed _ _ buf hbuf
    obtain ⟨ds, hsent, hall⟩ := step_sent (run (actAt step) nodes past i) e
    rw [World.datagrams, hsent, List.map_append, List.mem_append] at hbuf
    rcases hbuf with hold | hnew
    · exact .inl hold
    · obtain ⟨d, hd, rfl⟩ := List.mem_map.mp hnew
      exact .inr fun hmagic => ⟨_, (hinformed.tells (hall d hd) hmagic).append [(i, e)]⟩
  · intro past i e hinformed he hreceived
    exact step_informed rfl hinformed he hreceived

/-- In every run of any number of nodes on a network that loses, repeats, delays and reorders
datagrams but makes none up: a record in a node's table holds the state, the addresses and the port
that the latest message from its node describes, and these are those of a state that a node was in
at some moment of the run. -/
theorem peer_records_describe_senders {nodes : ι → World} (hboot : ∀ i, JustBooted (nodes i))
    {as : List (ι × Event)} (h : Guarded (actAt step) OnNetwork nodes as) (i : ι) :
    ∀ p ∈ (run (actAt step) nodes as i).linkPeers, p.inUse = true →
      ∃ buf j w, lastHeard nodes as i p.nodeId = some buf ∧ DescribesState w buf ∧
        WasIn step nodes as j w ∧ Carries w p := by
  intro p hp huse
  obtain ⟨buf, w, hlast, htold, hcarries⟩ := (run_informed hboot h i).known hp huse
  obtain ⟨j, hj⟩ := htold.wasIn
  exact ⟨buf, j, w, hlast, htold.describes, hj, hcarries⟩

/-- In the same runs no node invents anything: its session is the identifier of some node, its
timeline is one that some node booted with or left by a tempo edit or a reset of its own, and its
start/stop state one that some node booted with or left by starting or stopping. -/
theorem nodes_invent_nothing {nodes : ι → World} (hboot : ∀ i, JustBooted (nodes i))
    {as : List (ι × Event)} (h : Guarded (actAt step) OnNetwork nodes as) (i : ι) :
    let w := run (actAt step) nodes as i
    (∃ j, w.linkSelfSession = (nodes j).linkSelfId) ∧
      Authored step World.linkSelfTimeline Event.EditsTimeline nodes as w.linkSelfTimeline ∧
      Authored step World.linkSelfStartstop Event.EditsStartstop nodes as w.linkSelfStartstop := by
  intro w
  have hgenuine := (run_informed hboot h i).genuine
  exact ⟨hgenuine.session, hgenuine.timeline, hgenuine.startstop⟩

end Knowledge

/-- Two nodes that have booted some time ago. -/
def twoNodes : Bool → World
  | true => boot (ticking 60000) 0x0A000002 (List.replicate 16 0)
  | false => boot (ticking 90000) 0x0A000003 (List.replicate 16 0)

/-- The first node announces itself, and the second one hears it twice. -/
def announcedTwice : List (Bool × Event) :=
  [(true, .linkTick), (false, aliveFrom (twoNodes true)), (true, .setPlay true),
    (false, aliveFrom (twoNodes true))]

theorem two_nodes_booted : ∀ i, JustBooted (twoNodes i)
  | true => ⟨ticking 60000, 0x0A000002, List.replicate 16 0, rfl, rfl⟩
  | false => ⟨ticking 90000, 0x0A000003, List.replicate 16 0, rfl, rfl⟩

theorem announced_twice_on_network : Guarded (actAt step) OnNetwork twoNodes announcedTwice := by
  have hsent : encodeMsg (twoNodes true) 1 true ∈
      (actAt step twoNodes (true, .linkTick) true).datagrams := by decide +kernel
  have hlater : encodeMsg (twoNodes true) 1 true ∈
      (actAt step (actAt step (actAt step twoNodes (true, .linkTick))
        (false, aliveFrom (twoNodes true))) (true, .setPlay true) true).datagrams := by
    decide +kernel
  have hlocal (nodes : Bool → World) {e : Event} (he : e.datagram = none) :
      FromNetwork World.datagrams Event.datagram nodes (true, e) := by
    intro m hm
    rw [he] at hm
    cases hm
  refine ⟨⟨hlocal _ rfl, trivial⟩, ⟨fun m hm => ?_, trivial⟩, ⟨hlocal _ rfl, trivial⟩,
    ⟨fun m hm => ?_, trivial⟩, trivial⟩
  · exact ⟨true, Option.some.inj hm ▸ hsent⟩
  · exact ⟨true, Option.some.inj hm ▸ hlater⟩

/-- The second node has a record of the first one. -/
theorem peer_records_describe_senders_two :
    ∃ p ∈ (run (actAt step) twoNodes announcedTwice false).linkPeers, ∃ buf j w,
      lastHeard twoNodes announcedTwice false p.nodeId = some buf ∧ DescribesState w buf ∧
        WasIn step twoNodes announcedTwice j w ∧ Carries w p := by
  have hrecord : ∃ p ∈ (run (actAt step) twoNodes announcedTwice false).linkPeers,
      p.inUse = true := by decide +kernel
  obtain ⟨p, hp, huse⟩ := hrecord
  exact ⟨p, hp, peer_records_describe_senders two_nodes_booted announced_twice_on_network false p hp
    huse⟩

/-- The PINGs of the first node, and the PONGs of the second one to them. -/
def mergingPing (again : Bool) : List UInt8 :=
  if again then encodePing 60007 90005 true else encodePing 60004 0 false

def mergingPong (again : Bool) : List UInt8 :=
  (encodePong (twoNodes false).linkSelfId (if again then 90006 else 90005)
    (mergingPing again)).getD []

/-- The second node announces itself, and is measured by the first one. The network repeats its
second PONG until there are enough samples. -/
def merging : List (Bool × Event) :=
  let ping (again : Bool) :=
    (false, Event.udp (mergingPing again) (twoNodes true).localIpv4 linkDiscoveryPort)
  let pong (again : Bool) :=
    (true, Event.udp (mergingPong again) (twoNodes false).localIpv4 linkDiscoveryPort)
  [(false, .linkTick), (true, aliveFrom (twoNodes false)), ping false, pong false, ping true] ++
    List.replicate 50 (pong true)

theorem merging_on_network : Guarded (actAt step) OnNetwork twoNodes merging := by
  have hnetwork : Guarded (actAt step) (fun nodes a =>
      (∀ m ∈ a.2.datagram, ∃ j, m ∈ (nodes j).datagrams) ∧ a.2.Addressed) twoNodes merging := by
    decide +kernel
  exact hnetwork.mono fun _ _ h => h

/-- The first node has joined the session of the second one. -/
theorem nodes_invent_nothing_two :
    let w := run (actAt step) twoNodes merging true
    w.linkSelfSession = (twoNodes false).linkSelfId ∧
      Authored step World.linkSelfTimeline Event.EditsTimeline twoNodes merging
        w.linkSelfTimeline ∧
      Authored step World.linkSelfStartstop Event.EditsStartstop twoNodes merging
        w.linkSelfStartstop := by
  have hmerged : (run (actAt step) twoNodes merging true).linkSelfSession =
      (twoNodes false).linkSelfId := by decide +kernel
  exact ⟨hmerged, (nodes_invent_nothing two_nodes_booted merging_on_network true).2⟩

end LinkFPGA
