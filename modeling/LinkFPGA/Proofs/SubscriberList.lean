import LinkFPGA.Library.Roster
import LinkFPGA.Proofs.AudioCalls
import LinkFPGA.Proofs.AudioStream

/-!
# The subscribers of a local channel

`add_subscriber` and `remove_subscriber` keep three parallel arrays and a count. What counts of
them is a roster of endpoints (`Library.Roster`): adding is `join` (`add_subscriber_current`),
removing with its loop that moves the entries down is `leave` (`remove_subscriber_current`). So
the subscribers of a channel are, after any run, what its requests make of an empty roster
(`subscribers_fold`).
-/

namespace LinkFPGA

open Runs

/-- What tells subscribers apart. -/
def Subscriber.endpoint (s : Subscriber) : UInt32 × UInt16 := (s.addr, s.port)

/-- The subscribers of a channel: the first `num_subscribers` entries. -/
def AudioLocal.current (c : AudioLocal) : List Subscriber :=
  c.subscribers.toList.take c.numSubscribers

/-- A kChannelRequest or kStopChannelRequest, as `handle_channel_request` reads it. -/
structure ChannelRequest where
  stop : Bool
  cid : LinkId
  sender : Subscriber
  deriving DecidableEq, Repr

/-- What a request for a channel makes of its subscribers. -/
def ChannelRequest.apply (subs : List Subscriber) (r : ChannelRequest) : List Subscriber :=
  if r.stop then Roster.leave Subscriber.endpoint subs r.sender.endpoint
  else Roster.join Subscriber.endpoint linkAudioMaxSubPer subs r.sender

/-! ## Adding -/

theorem current_length {c : AudioLocal} (h : c.numSubscribers ≤ linkAudioMaxSubPer) :
    c.current.length = c.numSubscribers := by
  unfold AudioLocal.current
  rw [List.length_take, Vector.length_toList]
  exact Nat.min_eq_left h

/-- The search loops of `add_subscriber` and `remove_subscriber` look for the endpoint. -/
theorem subscriber_index_eq (c : AudioLocal) (addr : UInt32) (port : UInt16) :
    c.subscriberIndex addr port =
      c.current.findIdx? fun s => decide (s.endpoint = (addr, port)) := by
  unfold AudioLocal.subscriberIndex AudioLocal.current
  congr 1
  funext s
  rw [Bool.eq_iff_iff]
  simp [Subscriber.endpoint]

theorem add_subscriber_current {c : AudioLocal} (h : c.numSubscribers ≤ linkAudioMaxSubPer)
    (peer : LinkId) (addr : UInt32) (port : UInt16) :
    (c.addSubscriber peer addr port).numSubscribers ≤ linkAudioMaxSubPer ∧
    (c.addSubscriber peer addr port).current =
      Roster.join Subscriber.endpoint linkAudioMaxSubPer c.current ⟨addr, port, peer⟩ := by
  have hfound : (c.subscriberIndex addr port).isSome = true ↔
      (addr, port) ∈ c.current.map Subscriber.endpoint := by
    rw [subscriber_index_eq, List.findIdx?_isSome, List.any_eq_true, List.mem_map]
    simp only [decide_eq_true_eq]
  unfold AudioLocal.addSubscriber Roster.join
  rw [current_length h]
  by_cases hthere : (c.subscriberIndex addr port).isSome = true
  · rw [if_pos hthere]
    exact ⟨h, (if_pos (hfound.mp hthere)).symm⟩
  · rw [if_neg hthere]
    have hnew : ¬ Subscriber.endpoint ⟨addr, port, peer⟩ ∈ c.current.map Subscriber.endpoint :=
      fun hmem => hthere (hfound.mpr hmem)
    rw [if_neg hnew]
    by_cases hfull : linkAudioMaxSubPer ≤ c.numSubscribers
    · rw [if_pos hfull, if_neg (Nat.not_lt.mpr hfull)]
      exact ⟨h, rfl⟩
    · have hroom : c.numSubscribers < linkAudioMaxSubPer := Nat.not_le.mp hfull
      rw [if_neg hfull, if_pos hroom]
      refine ⟨hroom, ?_⟩
      show (c.subscribers.setIfInBounds c.numSubscribers ⟨addr, port, peer⟩).toList.take
        (c.numSubscribers + 1) = c.current ++ [⟨addr, port, peer⟩]
      rw [Vector.toList_setIfInBounds, List.take_add_one, List.take_set_of_le (Nat.le_refl _),
        List.getElem?_set_self (by rwa [Vector.length_toList])]
      rfl

/-! ## Removing -/

/-- The loop of `remove_subscriber`, for the first `k` entries behind `i`. -/
def moveDown (i k : Nat) (subs : Vector Subscriber linkAudioMaxSubPer) :
    Vector Subscriber linkAudioMaxSubPer :=
  (List.range' i k).foldl (fun subs j =>
    match subs[j + 1]? with
    | some s => subs.setIfInBounds j s
    | none => subs) subs

/-- The entries that were moved down, and the ones that were not. -/
theorem move_down_entry {i k : Nat} (subs : Vector Subscriber linkAudioMaxSubPer)
    (h : i + k < linkAudioMaxSubPer) (j : Nat) :
    (moveDown i k subs)[j]? = if i ≤ j ∧ j < i + k then subs[j + 1]? else subs[j]? := by
  induction k generalizing j with
  | zero =>
      rw [if_neg (by omega)]
      rfl
  | succ k ih =>
      have hloop : moveDown i (k + 1) subs =
          match (moveDown i k subs)[i + k + 1]? with
          | some s => (moveDown i k subs).setIfInBounds (i + k) s
          | none => moveDown i k subs := by
        unfold moveDown
        rw [List.range'_1_concat, List.foldl_append]
        rfl
      -- the entry that is moved has not been written yet
      have hnext : (moveDown i k subs)[i + k + 1]? = subs[i + k + 1]? := by
        rw [ih (by omega), if_neg (by omega)]
      have hlt : i + k + 1 < linkAudioMaxSubPer := by omega
      rw [hloop, hnext, Vector.getElem?_eq_getElem hlt]
      dsimp only
      rw [Vector.getElem?_setIfInBounds]
      by_cases hj : i + k = j
      · subst hj
        rw [if_pos rfl, if_pos (by omega), if_pos (by omega), Vector.getElem?_eq_getElem hlt]
      · rw [if_neg hj, ih (by omega)]
        by_cases hmoved : i ≤ j ∧ j < i + k
        · rw [if_pos hmoved, if_pos (by omega)]
        · rw [if_neg hmoved, if_neg (by omega)]

theorem remove_subscriber_current {c : AudioLocal} (h : c.numSubscribers ≤ linkAudioMaxSubPer)
    (addr : UInt32) (port : UInt16) :
    (c.removeSubscriber addr port).numSubscribers ≤ linkAudioMaxSubPer ∧
    (c.removeSubscriber addr port).current =
      Roster.leave Subscriber.endpoint c.current (addr, port) := by
  rw [Roster.leave_eq_eraseIdx, ← subscriber_index_eq]
  unfold AudioLocal.removeSubscriber
  cases hfind : c.subscriberIndex addr port with
  | none => exact ⟨h, rfl⟩
  | some i =>
      rw [subscriber_index_eq] at hfind
      obtain ⟨hi, _⟩ := List.findIdx?_eq_some_iff_getElem.mp hfind
      rw [current_length h] at hi
      refine ⟨Nat.le_trans (Nat.sub_le _ 1) h, ?_⟩
      show (moveDown i (c.numSubscribers - 1 - i) c.subscribers).toList.take
        (c.numSubscribers - 1) = c.current.eraseIdx i
      refine List.ext_getElem? fun j => ?_
      have hmoved := move_down_entry c.subscribers
        (show i + (c.numSubscribers - 1 - i) < linkAudioMaxSubPer by omega) j
      rw [List.getElem?_eraseIdx, List.getElem?_take]
      unfold AudioLocal.current
      rw [List.getElem?_take, List.getElem?_take]
      rw [← Vector.getElem?_toList, ← Vector.getElem?_toList, ← Vector.getElem?_toList] at hmoved
      by_cases hlast : j < c.numSubscribers - 1
      · rw [if_pos hlast, hmoved]
        by_cases hbefore : j < i
        · rw [if_neg (by omega), if_pos hbefore, if_pos (by omega)]
        · rw [if_pos (by omega), if_neg hbefore, if_pos (by omega)]
      · rw [if_neg hlast, if_neg (by omega), if_neg (by omega)]

/-! ## One call -/

/-- `add_subscriber` or `remove_subscriber`, as the request says. -/
def AudioLocal.serve (c : AudioLocal) (r : ChannelRequest) : AudioLocal :=
  if r.stop then c.removeSubscriber r.sender.addr r.sender.port
  else c.addSubscriber r.sender.peer r.sender.addr r.sender.port

/-- Serving a request does to the subscribers what the request says. -/
theorem serve_current {c : AudioLocal} (h : c.numSubscribers ≤ linkAudioMaxSubPer)
    (r : ChannelRequest) :
    (c.serve r).numSubscribers ≤ linkAudioMaxSubPer ∧ (c.serve r).current = r.apply c.current := by
  unfold AudioLocal.serve ChannelRequest.apply
  cases r.stop with
  | true => exact remove_subscriber_current h _ _
  | false => exact add_subscriber_current h _ _ _

/-- The request in a call, if it is a kChannelRequest or kStopChannelRequest of another node. -/
def channelRequests (w : AudioWorld) : AudioCall → List ChannelRequest
  | .event (.rx buf len srcAddr srcPort) =>
      if IsChannelRequest w buf len then
        [{ stop := decide (buf 8 ≠ 4)
           cid := (tlvWalk handleChidEntry (bytesAt buf 20 (len - 20).toNat) .zero).1
           sender := ⟨srcAddr, srcPort, .ofBytes (bytesAt buf 12 8)⟩ }]
      else []
  | _ => []

/-- The local channel is in use with the id. -/
def HasId (w : AudioWorld) (cid : LinkId) (i : Nat) : Prop :=
  ∃ c ∈ w.linkAudioLocal[i]?, c.inUse = true ∧ c.channelId = cid

instance (w : AudioWorld) (cid : LinkId) : DecidablePred (HasId w cid) :=
  fun i => inferInstanceAs (Decidable (∃ c ∈ w.linkAudioLocal[i]?, _))

/-- The channel a request names: the first one in use with its id. -/
def NamesChannel (w : AudioWorld) (i : Nat) (r : ChannelRequest) : Prop :=
  HasId w r.cid i ∧ ∀ j < i, ¬ HasId w r.cid j

instance (w : AudioWorld) (i : Nat) : DecidablePred (NamesChannel w i) :=
  fun r => inferInstanceAs (Decidable (HasId w r.cid i ∧ ∀ j < i, ¬ HasId w r.cid j))

/-- It is the one that `find_local_channel` finds. -/
theorem names_channel_iff {w : AudioWorld} {i : Nat} {r : ChannelRequest} :
    NamesChannel w i r ↔ findLocalChannel w r.cid = some i := by
  unfold NamesChannel findLocalChannel
  rw [List.findIdx?_eq_some_iff_getElem]
  constructor
  · rintro ⟨⟨c, hc, huse, hid⟩, hfirst⟩
    obtain ⟨hlt, rfl⟩ := List.getElem?_eq_some_iff.mp hc
    refine ⟨hlt, by simp [huse, hid], fun j hj hholds => hfirst j hj ?_⟩
    exact ⟨_, List.getElem?_eq_getElem (hj.trans hlt), by simpa using hholds⟩
  · rintro ⟨hlt, hholds, hfirst⟩
    refine ⟨⟨_, List.getElem?_eq_getElem hlt, by simpa using hholds⟩, ?_⟩
    rintro j hj ⟨c, hc, huse, hid⟩
    obtain ⟨hlt', rfl⟩ := List.getElem?_eq_some_iff.mp hc
    exact hfirst j hj (by simp [huse, hid])

/-- The first channel with an id is fixed by `link_audio_init`. -/
theorem find_local_eq (w : AudioWorld) (cid : LinkId) :
    findLocalChannel w cid = (identities w).findIdx? fun c => c.1 && c.2.1 = cid := by
  unfold findLocalChannel identities
  rw [List.findIdx?_map]
  rfl

theorem names_channel_congr {w w' : AudioWorld} (h : identities w' = identities w) (i : Nat)
    (r : ChannelRequest) : NamesChannel w' i r ↔ NamesChannel w i r := by
  rw [names_channel_iff, names_channel_iff, find_local_eq, find_local_eq, h]

/-- A request is served by the channel it names. -/
theorem handle_channel_request_eq {mtype : UInt8} {requester : LinkId} {srcAddr : UInt32}
    {srcPort : UInt16} {body : List UInt8} {w : AudioWorld} {r : ChannelRequest}
    (hr : r = ⟨decide (mtype ≠ 4), (tlvWalk handleChidEntry body .zero).1,
      ⟨srcAddr, srcPort, requester⟩⟩) :
    handleChannelRequest mtype requester srcAddr srcPort body w =
      match findLocalChannel w r.cid with
      | none => w
      | some i => w.setLocal i ((w.linkAudioLocal.getD i .zero).serve r) := by
  subst hr
  unfold handleChannelRequest AudioLocal.serve
  dsimp only
  cases hfind : findLocalChannel w (tlvWalk handleChidEntry body .zero).1 with
  | none => rfl
  | some i =>
      obtain ⟨hlt, _⟩ := List.findIdx?_eq_some_iff_getElem.mp hfind
      dsimp only
      rw [List.getElem?_eq_getElem hlt, List.getD_eq_getElem _ _ hlt]
      by_cases hadd : mtype = 4
      · simp [hadd]
      · simp [hadd]

/-- What the requests write of a channel. -/
def AudioLocal.arrays (c : AudioLocal) : Nat × Vector Subscriber linkAudioMaxSubPer :=
  (c.numSubscribers, c.subscribers)

/-- A call serves the request it brings, and touches no subscribers if it brings none. -/
theorem call_request (w : AudioWorld) (e : AudioCall) :
    (channelRequests w e = [] ∧
      (callAudio w e).linkAudioLocal.map AudioLocal.arrays =
        w.linkAudioLocal.map AudioLocal.arrays) ∨
    ∃ r, channelRequests w e = [r] ∧
      callAudio w e = match findLocalChannel w r.cid with
        | none => w
        | some i => w.setLocal i ((w.linkAudioLocal.getD i .zero).serve r) := by
  cases e with
  | event e =>
      cases e with
      | rx buf len srcAddr srcPort =>
          by_cases hrequest : IsChannelRequest w buf len
          · refine .inr ⟨_, if_pos hrequest, ?_⟩
            rw [← handle_channel_request_eq rfl]
            exact handle_rx_channel_request hrequest srcAddr srcPort
          · exact .inl ⟨if_neg hrequest, congrArg (List.map _) (rx_local hrequest srcAddr srcPort)⟩
      | tdmFrame port rx beats => exact .inl ⟨rfl, frame_local_map (fun _ _ => rfl) port rx beats w⟩
      | other => exact .inl ⟨rfl, rfl⟩
  | tick peerName => exact .inl ⟨rfl, congrArg (List.map _) (tick_local peerName w)⟩
  | subscribe port channel cid =>
      exact .inl ⟨rfl, congrArg (List.map _) (subscribe_local port channel cid w)⟩
  | unsubscribe cid => exact .inl ⟨rfl, congrArg (List.map _) (unsubscribe_local cid w)⟩

/-! ## Runs -/

/-- The count and the subscribers of a channel. -/
def rosterAt (w : AudioWorld) (i : Nat) : Nat × List Subscriber :=
  let c := w.linkAudioLocal.getD i .zero
  (c.numSubscribers, c.current)

/-- No channel counts more subscribers than there is room for. -/
def CountsFit (w : AudioWorld) : Prop := ∀ i, (rosterAt w i).1 ≤ linkAudioMaxSubPer

theorem roster_at_eq (w : AudioWorld) (i : Nat) :
    rosterAt w i =
      let arrays := (w.linkAudioLocal.map AudioLocal.arrays).getD i AudioLocal.zero.arrays
      (arrays.1, arrays.2.toList.take arrays.1) := by
  rw [List.getD_map]
  rfl

theorem roster_of_map {w w' : AudioWorld}
    (h : w'.linkAudioLocal.map AudioLocal.arrays = w.linkAudioLocal.map AudioLocal.arrays)
    (i : Nat) : rosterAt w' i = rosterAt w i := by
  rw [roster_at_eq, roster_at_eq, h]

/-- One call, seen from one channel: it does what the requests in the call that name the channel
say, and keeps the count. -/
theorem call_roster {w : AudioWorld} (hfit : CountsFit w) (e : AudioCall) (i : Nat) :
    (rosterAt (callAudio w e) i).1 ≤ linkAudioMaxSubPer ∧
    (rosterAt (callAudio w e) i).2 = ((channelRequests w e).filter (NamesChannel w i)).foldl
      (fun subs r => r.apply subs) (rosterAt w i).2 := by
  rcases call_request w e with ⟨hnone, hsame⟩ | ⟨r, hr, hcall⟩
  · rw [roster_of_map hsame, hnone]
    exact ⟨hfit i, rfl⟩
  · rw [hr, hcall]
    cases hfind : findLocalChannel w r.cid with
    | none =>
        have hother : ¬ NamesChannel w i r := by simp [names_channel_iff, hfind]
        rw [List.filter_singleton, decide_eq_false hother]
        exact ⟨hfit i, rfl⟩
    | some j =>
        obtain ⟨hlt, _⟩ := List.findIdx?_eq_some_iff_getElem.mp hfind
        dsimp only
        by_cases hij : j = i
        · subst hij
          have hnames : NamesChannel w j r := names_channel_iff.mpr hfind
          have hserved := serve_current (hfit j) r
          have hentry : (w.linkAudioLocal.set j ((w.linkAudioLocal.getD j .zero).serve r)).getD j
              .zero = (w.linkAudioLocal.getD j .zero).serve r := by
            rw [List.getD_eq_getElem?_getD, List.getElem?_set_self hlt]
            rfl
          rw [List.filter_singleton, decide_eq_true hnames]
          unfold rosterAt AudioWorld.setLocal
          dsimp only
          rw [hentry]
          exact hserved
        · have hother : ¬ NamesChannel w i r := fun h =>
            hij (Option.some.inj (hfind.symm.trans (names_channel_iff.mp h)))
          have hentry : (w.linkAudioLocal.set j ((w.linkAudioLocal.getD j .zero).serve r)).getD i
              .zero = w.linkAudioLocal.getD i .zero := by
            rw [List.getD_eq_getElem?_getD, List.getElem?_set_ne hij, List.getD_eq_getElem?_getD]
          rw [List.filter_singleton, decide_eq_false hother]
          unfold rosterAt AudioWorld.setLocal
          dsimp only
          rw [hentry]
          exact ⟨hfit i, rfl⟩

/-- A request that names another channel, or none, leaves the channel as it was. -/
theorem request_elsewhere {w : AudioWorld} {e : AudioCall} {r : ChannelRequest}
    (hr : channelRequests w e = [r]) {i : Nat} (hother : ¬ NamesChannel w i r) :
    (callAudio w e).linkAudioLocal[i]? = w.linkAudioLocal[i]? := by
  rcases call_request w e with ⟨hnone, _⟩ | ⟨r', hr', hcall⟩
  · rw [hr] at hnone
    cases hnone
  · obtain rfl := List.singleton_inj.mp (hr.symm.trans hr')
    rw [hcall]
    cases hfind : findLocalChannel w r.cid with
    | none => rfl
    | some j =>
        have hij : j ≠ i := fun h => hother (names_channel_iff.mpr (h ▸ hfind))
        exact List.getElem?_set_ne hij

/-- Every channel starts without subscribers. -/
theorem boot_roster (core : World) (ports i : Nat) :
    rosterAt (audioBoot core ports) i = (0, []) := by
  have hmap := audio_boot_map (f := AudioLocal.arrays) (g := fun _ => AudioLocal.zero.arrays)
    (fun _ _ => rfl) core ports
  rw [roster_at_eq, hmap, List.getD_eq_getElem?_getD, List.getElem?_map]
  cases (List.range (ports * linkTdmChannelsPerPort))[i]? <;> rfl

/-- A request makes a roster of a roster. -/
theorem request_valid {subs : List Subscriber}
    (h : Roster.Valid Subscriber.endpoint linkAudioMaxSubPer subs) (r : ChannelRequest) :
    Roster.Valid Subscriber.endpoint linkAudioMaxSubPer (r.apply subs) := by
  unfold ChannelRequest.apply
  split
  · exact h.leave _
  · exact h.join _

theorem requests_valid {subs : List Subscriber}
    (h : Roster.Valid Subscriber.endpoint linkAudioMaxSubPer subs) (rs : List ChannelRequest) :
    Roster.Valid Subscriber.endpoint linkAudioMaxSubPer
      (rs.foldl (fun subs r => r.apply subs) subs) := by
  induction rs generalizing subs with
  | nil => exact h
  | cons r rs ih => exact ih (request_valid h r)

/-- After any run the subscribers of a channel are what the requests naming it, in their order,
make of an empty roster of eight: an endpoint is appended if it is absent and there is room, with
the node that asked, and removed if it is present. No endpoint is there twice, and a request
naming another channel or none leaves the channel as it was. -/
theorem subscribers_fold (core : World) (ports : Nat) (calls : List AudioCall) (i : Nat) :
    let w := run callAudio (audioBoot core ports) calls
    let c := w.linkAudioLocal.getD i .zero
    c.numSubscribers ≤ 8 ∧ (c.current.map Subscriber.endpoint).Nodup ∧
    c.current = ((log callAudio channelRequests (audioBoot core ports) calls).filter
      (NamesChannel (audioBoot core ports) i)).foldl (fun subs r => r.apply subs) [] ∧
    ∀ e r, channelRequests w e = [r] → ¬ NamesChannel w i r →
      (callAudio w e).linkAudioLocal[i]? = w.linkAudioLocal[i]? := by
  intro w c
  let inv (s : AudioWorld) (past : List ChannelRequest) : Prop :=
    identities s = identities (audioBoot core ports) ∧ ∀ i,
      (rosterAt s i).1 ≤ linkAudioMaxSubPer ∧
      (rosterAt s i).2 = (past.filter (NamesChannel (audioBoot core ports) i)).foldl
        (fun subs r => r.apply subs) []
  have hstep : ∀ s past e, inv s past →
      inv (callAudio s e) (past ++ channelRequests s e) := by
    intro s past e ⟨hids, hrosters⟩
    refine ⟨(call_identities s e).trans hids, fun i => ?_⟩
    obtain ⟨hfit, hcurrent⟩ := call_roster (fun i => (hrosters i).1) e i
    refine ⟨hfit, ?_⟩
    have hnames : (channelRequests s e).filter (NamesChannel s i) =
        (channelRequests s e).filter (NamesChannel (audioBoot core ports) i) :=
      List.filter_congr fun r _ => decide_eq_decide.mpr (names_channel_congr hids i r)
    rw [hcurrent, hnames, (hrosters i).2, List.filter_append, List.foldl_append]
  have hinit : inv (audioBoot core ports) [] := by
    refine ⟨rfl, fun i => ?_⟩
    rw [boot_roster]
    exact ⟨Nat.zero_le _, rfl⟩
  have hrun : inv w (log callAudio channelRequests (audioBoot core ports) calls) :=
    run_log_invariant hstep hinit calls
  obtain ⟨hcount, hcurrent⟩ := hrun.2 i
  have hvalid := requests_valid Roster.valid_nil
    ((log callAudio channelRequests (audioBoot core ports) calls).filter
      (NamesChannel (audioBoot core ports) i))
  rw [← hcurrent] at hvalid
  exact ⟨hcount, hvalid.nodup, hcurrent, fun e r hr hother => request_elsewhere hr hother⟩

/-- Two endpoints that ask for the first channel, one of them twice. -/
def requestingCalls : List AudioCall :=
  let request (addr : UInt32) : AudioCall :=
    .event (.rx (memOf firstRequest) (.ofNat firstRequest.length) addr 20808)
  [request 1, request 2, request 1]

/-- Each of them is a subscriber once. -/
theorem subscribers_fold_two :
    ((run callAudio (audioBoot firstNode 1) requestingCalls).linkAudioLocal.getD 0 .zero).current =
      [⟨1, 20808, .ofBytes (List.replicate 8 1)⟩, ⟨2, 20808, .ofBytes (List.replicate 8 1)⟩] := by
  obtain ⟨-, -, hfold, -⟩ := subscribers_fold firstNode 1 requestingCalls 0
  refine hfold.trans ?_
  decide +kernel

end LinkFPGA
