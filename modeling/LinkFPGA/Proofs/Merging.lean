import Mathlib.Data.Int.Order.Basic
import LinkFPGA.Library.LatestWins
import LinkFPGA.Proofs.Housekeeping
import LinkFPGA.Proofs.SessionTracking

/-!
# Timelines and start/stop states inside a session

Inside a session the latest edit is to win, whoever made it. `link_handle_rx` stores the state a
peer announces in the peer table and never takes it over, so `linkSelfTimeline` and
`linkSelfStartstop` change by local edits and by joining a session only (`step_self_state`).
`session_state_merges_iff` says when that is nevertheless what merging would have done: exactly
for datagrams that carry no later state; and nodes that only ever meet such datagrams agree
whenever they have met the same states. `later_timeline_ignored` is a datagram that carries a
later timeline.
-/

namespace LinkFPGA

open Runs LatestWins

/-! ## The node's own state -/

/-- The state the node announces for its session. -/
def World.selfState (w : World) : Timeline × Startstop := (w.linkSelfTimeline, w.linkSelfStartstop)

/-- The node's state after a local edit. -/
def edited (w : World) : Event → Timeline × Startstop
  | .setLocalTempo bpm =>
      (retimed bpm (ghostNow w).toInt64 w.linkSelfTimeline, w.linkSelfStartstop)
  | .setPlay play =>
      (w.linkSelfTimeline,
        ⟨if play then 1 else 0, beatsAt w.linkSelfTimeline (ghostNow w).toInt64,
          (ghostNow w).toInt64⟩)
  | .euroReset =>
      ({ w.linkSelfTimeline with
        beatOriginMicrobeats := 0
        timeOriginUsGhost := (ghostNow w).toInt64 }, w.linkSelfStartstop)
  | _ => w.selfState

/-- Housekeeping leaves the node's state alone. -/
theorem Housekeeping.self_state {w w' : World} (h : Housekeeping w w') :
    w'.selfState = w.selfState := by
  rw [h]
  rfl

/-- An event that completes no measurement changes the node's own state by a local edit only. -/
theorem step_self_state {w : World} {e : Event} (h : reports w e = []) :
    (step w e).selfState = edited w e := by
  cases e with
  | udp buf srcAddr srcPort => exact (udp_housekeeping h).self_state
  | linkTick => exact (link_tick_housekeeping w).self_state
  | sessionTick =>
      obtain ⟨w', hkept, -, htick⟩ := session_tick_housekeeping w
      show (sessionTick w).selfState = w.selfState
      rw [htick]
      split
      · exact hkept.self_state
      · exact hkept.self_state
  | setLocalTempo | setPlay | euroReset | broadcastAliveNow | localAddress => rfl

/-! ## Announced states -/

/-- The record a datagram's payload describes. -/
def announced (buf : List UInt8) : Peer := (tlvWalk handleEntry (messageBody buf) .zero).1

/-- A datagram announces a state: its payload is a sequence of well-formed entries, and `tmln`,
`sess` and `stst` are among them. -/
def Announces (buf : List UInt8) : Prop :=
  (tlvWalk handleEntry (messageBody buf) .zero).2 = 0 ∧
    ∀ key ∈ [keyTmln, keySess, keyStst], ∃ entry ∈ tlvEntries (messageBody buf), entry.1 = key

-- Over the list of keys, not over all of `UInt32`.
instance (buf : List UInt8) : Decidable (Announces buf) :=
  @instDecidableAnd _ _ inferInstance (List.decidableBAll _ _)

/-- The state that an ALIVE or RESPONSE announces for the node's own session. -/
def heard (w : World) : Event → Option (Timeline × Startstop)
  | .udp buf _ _ =>
      if headerAccepted w.linkSelfId buf ∧ (messageType buf = 1 ∨ messageType buf = 2) ∧
          Announces buf ∧ (announced buf).sessionId = w.linkSelfSession then
        some ((announced buf).timeline, (announced buf).startstop)
      else none
  | _ => none

/-- A state is heard in a discovery datagram only. -/
theorem reports_of_heard {w : World} {e : Event} {state : Timeline × Startstop}
    (h : heard w e = some state) : reports w e = [] := by
  cases e with
  | udp buf srcAddr srcPort =>
      unfold heard at h
      dsimp only at h
      split at h
      · rename_i hcond
        exact reports_discovery hcond.1
      · cases h
  | linkTick | sessionTick | setLocalTempo | setPlay | euroReset | broadcastAliveNow
  | localAddress => cases h

/-- A field of the record that entries of one key and size set to their value, and other entries
keep, is what the datagram says once it has such an entry. -/
theorem walk_announces {τ : Type} {field : Peer → τ} {written : UInt32} {size : Nat}
    {value : List UInt8 → τ}
    (hfield : ∀ key v p, field (handleEntry key v p).1 =
      if key = written ∧ v.length = size then value v else field p)
    (hsize : ∀ v p, (handleEntry written v p).2 = 0 → v.length = size)
    {buf : List UInt8} (h : Announces buf) (hkey : written ∈ [keyTmln, keySess, keyStst])
    (p : Peer) :
    field (tlvWalk handleEntry (messageBody buf) p).1 = field (announced buf) := by
  refine (tlv_walk_overwrites handle_entry_code ?_ ?_ _ h.1 (.inr (h.2 written hkey))).symm
  · intro key v p q hsame
    rw [hfield, hfield, hsame]
  · intro v p q hok
    rw [hfield, hfield, if_pos ⟨rfl, hsize v p hok⟩, if_pos ⟨rfl, hsize v p hok⟩]

/-- The record of a peer that announces a state holds the session, the timeline and the
start/stop state that `announced` reads off the datagram. -/
theorem update_peer_announced (now : UInt64) (p : Peer) {buf : List UInt8} (h : Announces buf) :
    (updatePeer now buf p).sessionId = (announced buf).sessionId ∧
      (updatePeer now buf p).timeline = (announced buf).timeline ∧
      (updatePeer now buf p).startstop = (announced buf).startstop := by
  have hsess (v : List UInt8) (p : Peer) (hok : (handleEntry keySess v p).2 = 0) :
      v.length = 8 := by
    by_contra hlen
    simp [handleEntry, hlen, show keySess ≠ keyTmln by decide] at hok
  have htmln (v : List UInt8) (p : Peer) (hok : (handleEntry keyTmln v p).2 = 0) :
      v.length = 24 := by
    by_contra hlen
    simp [handleEntry, hlen] at hok
  have hstst (v : List UInt8) (p : Peer) (hok : (handleEntry keyStst v p).2 = 0) :
      v.length = 17 := by
    by_contra hlen
    simp [handleEntry, hlen, show keyStst ≠ keyTmln by decide,
      show keyStst ≠ keySess by decide] at hok
  have hsession := walk_announces handle_entry_session hsess h (by decide) p
  have htimeline := walk_announces handle_entry_timeline htmln h (by decide) p
  have hstartstop := walk_announces handle_entry_startstop hstst h (by decide) p
  unfold updatePeer
  exact ⟨hsession, htimeline, hstartstop⟩

/-! ## Merging -/

def originOf (tl : Timeline) : Int := tl.timeOriginUsGhost.toInt

def timestampOf (ss : Startstop) : Int := ss.timestampUsGhost.toInt

/-- The node has merged a state into its own: the later timeline and the later start/stop state
win. -/
def Merged (w : World) (state : Timeline × Startstop) (w' : World) : Prop :=
  w'.linkSelfTimeline = merge originOf w.linkSelfTimeline state.1 ∧
    w'.linkSelfStartstop = merge timestampOf w.linkSelfStartstop state.2

/-- The state is not later than the node's own. -/
def NotLater (w : World) (state : Timeline × Startstop) : Prop :=
  originOf state.1 ≤ originOf w.linkSelfTimeline ∧
    timestampOf state.2 ≤ timestampOf w.linkSelfStartstop

instance (w : World) (state : Timeline × Startstop) : Decidable (NotLater w state) :=
  inferInstanceAs (Decidable (_ ∧ _))

/-- What `link_handle_rx` does with a state it hears is a merge exactly when the state is not
later than the node's own. -/
theorem heard_merged_iff {w : World} {e : Event} {state : Timeline × Startstop}
    (h : heard w e = some state) : Merged w state (step w e) ↔ NotLater w state := by
  have hkept : (step w e).selfState = w.selfState := by
    rw [step_self_state (reports_of_heard h)]
    cases e with
    | udp buf srcAddr srcPort => rfl
    | linkTick | sessionTick | setLocalTempo | setPlay | euroReset | broadcastAliveNow
    | localAddress => cases h
  obtain ⟨htl, hss⟩ := Prod.mk.inj hkept
  unfold Merged NotLater
  rw [htl, hss, merge_kept_iff, merge_kept_iff]

/-! ## Several nodes of a session -/

/-- The state an event brings to its node: the one it hears, or else the one it leaves by a local
edit. -/
def met (w : World) (e : Event) : Timeline × Startstop := (heard w e).getD (edited w e)

/-- The state is the node's own or an earlier one, and so is each half of it. -/
def Earlier (w : World) (state : Timeline × Startstop) : Prop :=
  (state.1 = w.linkSelfTimeline ∨ originOf state.1 < originOf w.linkSelfTimeline) ∧
    (state.2 = w.linkSelfStartstop ∨ timestampOf state.2 < timestampOf w.linkSelfStartstop)

instance (w : World) (state : Timeline × Startstop) : Decidable (Earlier w state) :=
  inferInstanceAs (Decidable (_ ∧ _))

/-- A local edit is later than the node's state, and a datagram completes no measurement and
announces no later state. -/
def Current (w : World) : Event → Prop
  | .setLocalTempo _ | .euroReset => originOf w.linkSelfTimeline < (ghostNow w).toInt64.toInt
  | .setPlay _ => timestampOf w.linkSelfStartstop < (ghostNow w).toInt64.toInt
  | .udp buf srcAddr srcPort =>
      reports w (.udp buf srcAddr srcPort) = [] ∧
        ∀ state ∈ heard w (.udp buf srcAddr srcPort), Earlier w state
  | .linkTick | .sessionTick | .broadcastAliveNow | .localAddress _ _ => True

instance (w : World) : ∀ e : Event, Decidable (Current w e)
  | .setLocalTempo _ | .euroReset | .setPlay _ => Int.decLt _ _
  | .udp _ _ _ => inferInstanceAs (Decidable (_ ∧ _))
  | .linkTick | .sessionTick | .broadcastAliveNow | .localAddress _ _ => .isTrue trivial

/-- Meeting an earlier value, or the held one, is a merge that keeps the held one. -/
theorem kept_of_earlier {α : Type} {key : α → Int} {held x : α} (h : x = held ∨ key x < key held) :
    held = merge key held x ∧ (x = held ∨ key x ≠ key held) := by
  rcases h with rfl | hlt
  · exact ⟨merge_kept_iff.mpr (le_refl _), .inl rfl⟩
  · exact ⟨merge_kept_iff.mpr hlt.le, .inr hlt.ne⟩

/-- Meeting a later value is a merge that takes it over. -/
theorem taken_of_later {α : Type} {key : α → Int} {held x : α} (h : key held < key x) :
    x = merge key held x ∧ (x = held ∨ key x ≠ key held) :=
  ⟨(merge_of_lt h).symm, .inr h.ne'⟩

/-- The event merges what it brings into the node's state, and brings no tie. -/
def MergesNews (w : World) (e : Event) : Prop :=
  ((step w e).linkSelfTimeline = merge originOf w.linkSelfTimeline (met w e).1 ∧
    ((met w e).1 = w.linkSelfTimeline ∨ originOf (met w e).1 ≠ originOf w.linkSelfTimeline)) ∧
  ((step w e).linkSelfStartstop = merge timestampOf w.linkSelfStartstop (met w e).2 ∧
    ((met w e).2 = w.linkSelfStartstop ∨
      timestampOf (met w e).2 ≠ timestampOf w.linkSelfStartstop))

/-- An event that edits nothing merges what it brings if that is no later state. -/
theorem merges_unedited {w : World} {e : Event} (hreports : reports w e = [])
    (hedit : edited w e = w.selfState) (hheard : ∀ state ∈ heard w e, Earlier w state) :
    MergesNews w e := by
  obtain ⟨htl, hss⟩ := Prod.mk.inj ((step_self_state hreports).trans hedit)
  unfold MergesNews met
  rw [htl, hss, hedit]
  cases h : heard w e with
  | none => exact ⟨kept_of_earlier (.inl rfl), kept_of_earlier (.inl rfl)⟩
  | some state =>
      have hstate := hheard state h
      exact ⟨kept_of_earlier hstate.1, kept_of_earlier hstate.2⟩

/-- A current event merges what it brings into the node's state. -/
theorem current_merges {w : World} {e : Event} (h : Current w e) : MergesNews w e := by
  cases e with
  | udp buf srcAddr srcPort => exact merges_unedited h.1 rfl h.2
  | setLocalTempo bpm => exact ⟨taken_of_later h, kept_of_earlier (.inl rfl)⟩
  | euroReset => exact ⟨taken_of_later h, kept_of_earlier (.inl rfl)⟩
  | setPlay play => exact ⟨kept_of_earlier (.inl rfl), taken_of_later h⟩
  | linkTick | sessionTick | broadcastAliveNow | localAddress =>
      refine merges_unedited rfl rfl ?_
      intro state hstate
      cases hstate

/-- The timelines a node has met in a run of several nodes. -/
def knownTimelines {ι : Type} [DecidableEq ι] (nodes : ι → World) (as : List (ι × Event)) (i : ι) :
    List Timeline :=
  known step met World.linkSelfTimeline Prod.fst nodes as i

/-- The start/stop states a node has met in a run of several nodes. -/
def knownStartstops {ι : Type} [DecidableEq ι] (nodes : ι → World) (as : List (ι × Event)) (i : ι) :
    List Startstop :=
  known step met World.linkSelfStartstop Prod.snd nodes as i

/-- `link_handle_rx` merges the state it hears exactly when that state is not later than the
node's own; and in a run of any number of nodes in which no event brings a later state, two
nodes that have met the same timelines hold the same one, and likewise for the start/stop
state. -/
theorem session_state_merges_iff {ι : Type} [DecidableEq ι] (nodes : ι → World)
    (as : List (ι × Event))
    (h : Guarded (actAt step) (fun nodes a => Current (nodes a.1) a.2) nodes as) :
    (∀ w e state, heard w e = some state → (Merged w state (step w e) ↔ NotLater w state)) ∧
    (∀ i j, (∀ tl, tl ∈ knownTimelines nodes as i ↔ tl ∈ knownTimelines nodes as j) →
      (run (actAt step) nodes as i).linkSelfTimeline =
        (run (actAt step) nodes as j).linkSelfTimeline) ∧
    (∀ i j, (∀ ss, ss ∈ knownStartstops nodes as i ↔ ss ∈ knownStartstops nodes as j) →
      (run (actAt step) nodes as i).linkSelfStartstop =
        (run (actAt step) nodes as j).linkSelfStartstop) := by
  refine ⟨fun w e state => heard_merged_iff, ?_, ?_⟩
  · intro i j hsame
    exact run_agree (fun w e hguard => (current_merges hguard).1) h hsame
  · intro i j hsame
    exact run_agree (fun w e hguard => (current_merges hguard).2) h hsame

/-- A second node of the first one's session. -/
def nodeAJoined : World := { nodeA with linkSelfSession := nodeSelf.linkSelfSession }

/-- The first node edits its timeline after it has heard the second one. -/
theorem session_state_merges_iff_two :
    let nodes : Bool → World := fun i => if i then nodeAJoined else nodeSelf
    let as : List (Bool × Event) := [(true, aliveFrom nodeSelf), (true, .euroReset)]
    ∀ i j, (∀ tl, tl ∈ knownTimelines nodes as i ↔ tl ∈ knownTimelines nodes as j) →
      (run (actAt step) nodes as i).linkSelfTimeline =
        (run (actAt step) nodes as j).linkSelfTimeline := by
  intro nodes as
  have hguard : Guarded (actAt step) (fun nodes a => Current (nodes a.1) a.2) nodes as := by
    decide +kernel
  exact (session_state_merges_iff nodes as hguard).2.1

/-- A later timeline announced for the node's own session is not taken over. -/
theorem later_timeline_ignored :
    ¬ ∀ (reading : Nat → UInt64) (v4 : UInt32) (v6 : List UInt8) (es : List Event) (e : Event),
      let w := runEvents (boot reading v4 v6) es
      ∀ state ∈ heard w e, Merged w state (step w e) := by
  intro h
  have hrun := h (ticking 1000) 0x0A000001 (List.replicate 16 0) [] (aliveFrom nodeAJoined)
  have hlater : ∃ state ∈ heard nodeSelf (aliveFrom nodeAJoined), ¬ NotLater nodeSelf state := by
    decide +kernel
  obtain ⟨state, hheard, hlater⟩ := hlater
  exact hlater ((heard_merged_iff hheard).mp (hrun state hheard))

end LinkFPGA
