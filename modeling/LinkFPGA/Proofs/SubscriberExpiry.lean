import LinkFPGA.Library.Ledger
import LinkFPGA.Proofs.SubscriberList

/-!
# Subscriptions do not lapse

Nothing in `link_audio.c` remembers when a kChannelRequest arrived, and `link_audio_tick` does not
look at the subscribers. So an endpoint is a subscriber exactly if the last request of it that was
not refused for want of room has not been followed by a kStopChannelRequest (`subscribed_verdict`),
and a channel is free of subscribers that have not asked for longer than the lifetime of a request
exactly if every receiver asks again or stops in time (`subscriptions_lapse_iff`).
-/

namespace LinkFPGA

open Runs Ledger

/-- How long a request is valid: its ttl of 5 s and a grace of 1 s. -/
def requestLifetimeUs : Nat := 6000000

/-! ## Who has asked, and when -/

/-- A request or stop that reached a local channel. -/
structure Petition where
  channel : Nat
  endpoint : UInt32 × UInt16
  stop : Bool
  /-- The endpoint was a subscriber already, or there was room for it. -/
  admissible : Bool
  time : UInt64
  deriving DecidableEq, Repr

/-- What the request is about. -/
def Petition.key (p : Petition) : Nat × (UInt32 × UInt16) := (p.channel, p.endpoint)

/-- Whether its endpoint is a subscriber afterwards. -/
def Petition.subscribes (p : Petition) : Bool := !p.stop && p.admissible

/-- Whether an endpoint is a subscriber of a channel. -/
def subscribed (w : AudioWorld) (k : Nat × (UInt32 × UInt16)) : Bool :=
  decide (k.2 ∈ (rosterAt w k.1).2.map Subscriber.endpoint)

/-- A request in front of the channel it names. -/
def petition (w : AudioWorld) (time : UInt64) (r : ChannelRequest) (i : Nat) : Petition where
  channel := i
  endpoint := r.sender.endpoint
  stop := r.stop
  admissible := subscribed w (i, r.sender.endpoint) ||
    decide ((rosterAt w i).2.length < linkAudioMaxSubPer)
  time := time

/-- What a call brings to the local channels. -/
def petitions (w : AudioWorld) (e : TimedCall) : List Petition :=
  (channelRequests (w.at e.clock) e.call).filterMap fun r =>
    (findLocalChannel w r.cid).map (petition w e.time r)

/-- The subscribers of every channel are a roster. -/
def RostersValid (w : AudioWorld) : Prop :=
  CountsFit w ∧ ∀ i, Roster.Valid Subscriber.endpoint linkAudioMaxSubPer (rosterAt w i).2

/-- After a request the endpoint it comes from is a subscriber if it asked and was one already or
found room; the others are as before. -/
theorem mem_apply {subs : List Subscriber}
    (h : Roster.Valid Subscriber.endpoint linkAudioMaxSubPer subs) (r : ChannelRequest)
    (k : UInt32 × UInt16) :
    k ∈ (r.apply subs).map Subscriber.endpoint ↔
      if k = r.sender.endpoint then
        r.stop = false ∧ (k ∈ subs.map Subscriber.endpoint ∨ subs.length < linkAudioMaxSubPer)
      else k ∈ subs.map Subscriber.endpoint := by
  unfold ChannelRequest.apply
  cases r.stop with
  | true =>
      rw [if_pos rfl, Roster.mem_keys_leave h]
      split <;> simp_all
  | false =>
      rw [if_neg (by decide), Roster.mem_keys_join]
      split <;> simp_all

/-- One call: an endpoint is a subscriber if the last petition of it says so, and stays one or not
if there is none. -/
theorem call_subscribed {w : AudioWorld} (h : RostersValid w) (e : TimedCall)
    (k : Nat × (UInt32 × UInt16)) :
    subscribed (callAt w e) k =
      verdict Petition.key Petition.subscribes (petitions w e) (subscribed w k) k := by
  have hroster := (call_roster (w := w.at e.clock) h.1 e.call k.1).2
  have hrequest := call_request (w.at e.clock) e.call
  unfold petitions
  generalize channelRequests (w.at e.clock) e.call = rs at hroster hrequest
  have hsame (hother : rs.filter (NamesChannel (w.at e.clock) k.1) = []) :
      subscribed (callAt w e) k = subscribed w k := by
    unfold subscribed callAt
    rw [hroster, hother]
    rfl
  rcases hrequest with ⟨rfl, _⟩ | ⟨r, rfl, _⟩
  · exact hsame rfl
  · cases hfind : findLocalChannel w r.cid with
    | none =>
        have hother : ¬ NamesChannel (w.at e.clock) k.1 r := by
          intro hk
          cases hfind.symm.trans (names_channel_iff.mp hk)
        rw [hsame (by rw [List.filter_singleton, decide_eq_false hother]; rfl)]
        simp [hfind]
    | some i =>
        have hone : [r].filterMap (fun r => (findLocalChannel w r.cid).map (petition w e.time r)) =
            [petition w e.time r i] := by simp [hfind]
        rw [hone]
        by_cases hi : i = k.1
        · have hnames : NamesChannel (w.at e.clock) k.1 r := names_channel_iff.mpr (hi ▸ hfind)
          have hsubs : subscribed (callAt w e) k =
              decide (k.2 ∈ (r.apply (rosterAt w k.1).2).map Subscriber.endpoint) := by
            rw [List.filter_singleton, decide_eq_true hnames] at hroster
            unfold subscribed callAt
            rw [hroster]
            rfl
          have hkey : (petition w e.time r i).key = k ↔ k.2 = r.sender.endpoint := by
            rw [Petition.key, Prod.ext_iff]
            exact ⟨fun hk => hk.2.symm, fun hk => ⟨hi, hk.symm⟩⟩
          have hmem := mem_apply (h.2 k.1) r k.2
          rw [hsubs]
          unfold verdict
          rw [latest_singleton]
          by_cases hk : k.2 = r.sender.endpoint
          · rw [if_pos hk] at hmem
            rw [if_pos (hkey.mpr hk), Bool.eq_iff_iff, decide_eq_true_iff, hmem]
            show _ ↔ (!r.stop && (subscribed w (i, r.sender.endpoint) ||
              decide ((rosterAt w i).2.length < linkAudioMaxSubPer))) = true
            rw [hi, ← hk]
            simp [subscribed]
          · rw [if_neg hk] at hmem
            rw [if_neg (fun hsame => hk (hkey.mp hsame))]
            exact decide_eq_decide.mpr hmem
        · have hother : ¬ NamesChannel (w.at e.clock) k.1 r :=
            fun hk => hi (Option.some.inj (hfind.symm.trans (names_channel_iff.mp hk)))
          have hkey : (petition w e.time r i).key ≠ k := fun hk => hi (congrArg Prod.fst hk)
          rw [hsame (by rw [List.filter_singleton, decide_eq_false hother]; rfl)]
          simp [verdict, hkey]

/-- A call keeps the subscribers a roster. -/
theorem call_rosters {w : AudioWorld} (h : RostersValid w) (e : TimedCall) :
    RostersValid (callAt w e) := by
  have hcall := call_roster (w := w.at e.clock) h.1 e.call
  refine ⟨fun i => (hcall i).1, fun i => ?_⟩
  have hvalid := requests_valid (h.2 i) ((channelRequests (w.at e.clock) e.call).filter
    (NamesChannel (w.at e.clock) i))
  rw [show (rosterAt (callAt w e) i).2 = _ from (hcall i).2]
  exact hvalid

/-- Who is subscribed after a run is what the petitions of the run say. -/
theorem subscribed_verdict (core : World) (ports : Nat) (es : List TimedCall)
    (k : Nat × (UInt32 × UInt16)) :
    subscribed (run callAt (audioBoot core ports) es) k =
      verdict Petition.key Petition.subscribes (log callAt petitions (audioBoot core ports) es)
        false k := by
  have hinit : RostersValid (audioBoot core ports) := by
    refine ⟨fun i => ?_, fun i => ?_⟩
    · rw [boot_roster]
      exact Nat.zero_le _
    · rw [boot_roster]
      exact Roster.valid_nil
  have hnone : subscribed (audioBoot core ports) k = false := by
    unfold subscribed
    rw [boot_roster]
    rfl
  have hrun := run_verdict (fun s e hs => call_rosters hs e)
    (fun s e k hs => call_subscribed hs e k) hinit es k
  rw [hnone] at hrun
  exact hrun

/-! ## Lapsing -/

/-- The last kChannelRequest of an endpoint for a channel. -/
def lastRequest (past : List Petition) (k : Nat × (UInt32 × UInt16)) : Option Petition :=
  Ledger.latest Petition.key (past.filter fun p => !p.stop) k

/-- No local channel has a subscriber whose last request for it has outlived its lifetime. -/
def SubscriptionsLapse (past : List Petition) (now : UInt64) (w : AudioWorld) : Prop :=
  ∀ i, ∀ s ∈ (rosterAt w i).2, ∀ p, lastRequest past (i, s.endpoint) = some p →
    now.toNat ≤ p.time.toNat + requestLifetimeUs

/-- Whoever has asked for a channel, was not refused, and has sent no kStopChannelRequest since has
asked within the lifetime of a request. -/
def ReceiversRenew (past : List Petition) (now : UInt64) : Prop :=
  ∀ k p, Ledger.latest Petition.key past k = some p → p.stop = false → p.admissible = true →
    now.toNat ≤ p.time.toNat + requestLifetimeUs

/-- A tick leaves the subscribers as they are. -/
theorem tick_rosters (peerName : List UInt8) (clock : Clock) (w : AudioWorld) (i : Nat) :
    rosterAt (callAt w ⟨clock, .tick peerName⟩) i = rosterAt w i :=
  roster_of_map (congrArg (List.map _) (tick_local peerName (w.at clock))) i

/-- After a tick no subscription has lapsed exactly if every receiver has asked again, or
stopped, in time: the tick itself removes none. -/
theorem subscriptions_lapse_iff (core : World) (ports : Nat) (es : List TimedCall)
    (peerName : List UInt8) (clock : Clock) :
    let past := log callAt petitions (audioBoot core ports) es
    SubscriptionsLapse past clock.now
        (run callAt (audioBoot core ports) (es ++ [⟨clock, .tick peerName⟩])) ↔
      ReceiversRenew past clock.now := by
  intro past
  have hsame (i : Nat) : (rosterAt (run callAt (audioBoot core ports)
      (es ++ [⟨clock, .tick peerName⟩])) i).2 =
      (rosterAt (run callAt (audioBoot core ports) es) i).2 := by
    rw [run_append, run_cons, run_nil, tick_rosters]
  constructor
  · intro hlapse k p hlast hask hroom
    have hsub : subscribed (run callAt (audioBoot core ports) es) k = true := by
      rw [subscribed_verdict, verdict, show Ledger.latest _ _ k = some p from hlast]
      show (!p.stop && p.admissible) = true
      rw [hask, hroom]
      rfl
    obtain ⟨s, hs, hk⟩ := List.mem_map.mp (of_decide_eq_true hsub)
    rw [← hsame] at hs
    refine hlapse k.1 s hs p ?_
    rw [hk]
    exact latest_filter hlast (by rw [hask]; rfl)
  · intro hrenew i s hs p hlast
    rw [hsame] at hs
    have hsub : subscribed (run callAt (audioBoot core ports) es) (i, s.endpoint) = true :=
      decide_eq_true (List.mem_map_of_mem hs)
    rw [subscribed_verdict, verdict] at hsub
    cases hlatest : Ledger.latest Petition.key past (i, s.endpoint) with
    | none =>
        rw [show Ledger.latest _ _ _ = none from hlatest] at hsub
        cases hsub
    | some q =>
        rw [show Ledger.latest _ _ _ = some q from hlatest] at hsub
        obtain ⟨hask, hroom⟩ := Bool.and_eq_true_iff.mp hsub
        have hsubscribed : q = p := by
          have hfiltered := latest_filter (p := fun p => !p.stop) hlatest hask
          exact Option.some.inj (hfiltered.symm.trans hlast)
        exact hsubscribed ▸ hrenew _ q hlatest (by simpa using hask) hroom

/-- A receiver asks for the first channel one second after the boot, and is not heard of again. -/
def askOnce : TimedCall :=
  ⟨⟨fun _ => 1000000, 0⟩,
    .event (.rx (memOf firstRequest) (.ofNat firstRequest.length) 1 20808)⟩

/-- It is still a subscriber after a tick seven seconds later. -/
theorem silent_receiver_kept :
    ¬ ∀ (core : World) (ports : Nat) (es : List TimedCall) (peerName : List UInt8) (clock : Clock),
      (es.map TimedCall.time ++ [clock.now]).Pairwise (· ≤ ·) →
      SubscriptionsLapse (log callAt petitions (audioBoot core ports) es) clock.now
        (run callAt (audioBoot core ports) (es ++ [⟨clock, .tick peerName⟩])) := by
  intro h
  have hlapse := h (powerOn (fun _ => 0) 0 []) 1 [askOnce] [] ⟨fun _ => 8000000, 0⟩ (by decide) 0
  have hkept : ((rosterAt (run callAt (audioBoot (powerOn (fun _ => 0) 0 []) 1)
      ([askOnce] ++ [⟨⟨fun _ => 8000000, 0⟩, .tick []⟩])) 0).2.map Subscriber.endpoint) =
      [(1, 20808)] := by
    decide +kernel
  have hasked : (lastRequest (log callAt petitions (audioBoot (powerOn (fun _ => 0) 0 []) 1)
      [askOnce]) (0, (1, 20808))).map Petition.time = some 1000000 := by
    decide +kernel
  obtain ⟨s, hs, hendpoint⟩ := List.mem_map.mp (hkept ▸ List.mem_singleton_self _)
  obtain ⟨p, hp, htime⟩ := Option.map_eq_some_iff.mp hasked
  have hlate := hlapse s hs p (by rw [hendpoint]; exact hp)
  rw [htime] at hlate
  exact absurd hlate (by decide)

end LinkFPGA
