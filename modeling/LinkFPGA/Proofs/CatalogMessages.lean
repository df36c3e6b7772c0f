import LinkFPGA.Proofs.Catalog

/-!
# What a datagram tells the catalog

A PeerAnnouncement and a ChannelByes are sequences of messages about one channel each:
`catalogMessages` reads them off the datagram without looking at the catalog, and `rx_catalog`
says that the handlers carry them out one after another and do nothing else to the catalog. So what
every message keeps, every call does (`call_keeps_catalog`): no channel has two entries in use
(`run_catalog`), and the names fit (`run_names`).
-/

namespace LinkFPGA

open Runs

/-- What a datagram says about one channel. -/
inductive CatalogMessage where
  | announce (cid : LinkId) (name : List UInt8)
  | bye (cid : LinkId)
  deriving DecidableEq, Repr

/-- The channel a message is about. -/
def CatalogMessage.cid : CatalogMessage → LinkId
  | .announce cid _ => cid
  | .bye cid => cid

/-- What `ann_handler` and `handle_aucb_entry` do with a message. -/
def applyMessage (peerId : LinkId) (peerAddr : UInt32) (peerPort : UInt16) (w : AudioWorld) :
    CatalogMessage → AudioWorld
  | .announce cid name => recordChannel peerId peerAddr peerPort cid name w
  | .bye cid => dropChannel cid w

/-! ## Reading the messages -/

/-- The channels in a value of `auca`, as the loop of `ann_handler` finds them. -/
def aucaMessages (rd : UInt32 → UInt8) : Nat → UInt32 → UInt32 → List CatalogMessage × Int
  | 0, _, _ => ([], 0)
  | count + 1, v, n =>
      if n < 4 then ([], -1)
      else
        let nameLen := be32 (bytesAt rd v 4)
        if n - 4 < nameLen + 8 then ([], -1)
        else
          let cp := if nameLen.toNat < linkAudioNameMax then nameLen.toNat
            else linkAudioNameMax - 1
          let rest := aucaMessages rd count (v + 4 + nameLen + 8) (n - 4 - nameLen - 8)
          (.announce (.ofBytes (bytesAt rd (v + 4 + nameLen) 8))
            (cString (bytesAt rd (v + 4) cp)) :: rest.1, rest.2)

/-- The messages of a PeerAnnouncement, with the return codes of `ann_handler`. -/
def annMessages : TlvCb (List CatalogMessage) := fun key v msgs =>
  let n := UInt32.ofNat v.length
  if key = keyHt then (msgs, if n ≠ 8 then -1 else 0)
  else if key = keyPi then (msgs, if n < 4 then -1 else if n < 4 + be32 v then -1 else 0)
  else if key = keySess then (msgs, if n ≠ 8 then -1 else 0)
  else if key = keyAuca then
    if n < 4 then (msgs, -1)
    else
      let r := aucaMessages (memOf v) (be32 v).toNat 4 (n - 4)
      (msgs ++ r.1, r.2)
  else (msgs, 0)

/-- The messages of a ChannelByes, with the return codes of `handle_aucb_entry`. -/
def byeMessages : TlvCb (List CatalogMessage) := fun key v msgs =>
  let n := UInt32.ofNat v.length
  if key ≠ keyAucb then (msgs, 0)
  else if n < 4 then (msgs, -1)
  else
    let count := be32 v
    if n - 4 < count * 8 then (msgs, -1)
    else
      (msgs ++ (List.range count.toNat).map fun i =>
        .bye (.ofBytes (bytesAt (memOf v) (4 + .ofNat (i * 8)) 8)), 0)

/-- The messages of a datagram. -/
def catalogMessages (w : AudioWorld) (buf : UInt32 → UInt8) (len : UInt32) :
    List CatalogMessage :=
  if IsForeign w buf len then
    let body := bytesAt buf 20 (len - 20).toNat
    if buf 8 = 1 then (tlvWalk annMessages body []).1
    else if buf 8 = 2 then (tlvWalk byeMessages body []).1
    else []
  else []

/-! ## Carrying them out -/

section
variable (peerId : LinkId) (peerAddr : UInt32) (peerPort : UInt16)

theorem auca_loop_messages (rd : UInt32 → UInt8) (count : Nat) (v n : UInt32) (w : AudioWorld) :
    aucaLoop rd peerId peerAddr peerPort count v n w =
      (run (applyMessage peerId peerAddr peerPort) w (aucaMessages rd count v n).1,
        (aucaMessages rd count v n).2) := by
  induction count generalizing v n w with
  | zero => rfl
  | succ count ih =>
      unfold aucaLoop aucaMessages
      dsimp only
      split
      · rfl
      · split
        · rfl
        · rw [ih]
          rfl

/-- The walk over a PeerAnnouncement carries out its messages. -/
theorem ann_walk_messages (body : List UInt8) (ctx : AnnCtx) (w : AudioWorld) :
    (tlvWalk (annHandler peerId peerAddr peerPort) body (ctx, w)).1.2 =
      run (applyMessage peerId peerAddr peerPort) w (tlvWalk annMessages body []).1 := by
  refine tlv_walk_rel (R := fun (s : AnnCtx × AudioWorld) msgs =>
    s.2 = run (applyMessage peerId peerAddr peerPort) w msgs) ?_ body rfl
  intro key v s msgs hs
  unfold annHandler annMessages
  dsimp only
  split
  · split <;> exact ⟨hs, rfl⟩
  · split
    · split
      · exact ⟨hs, rfl⟩
      · split <;> exact ⟨hs, rfl⟩
    · split
      · split <;> exact ⟨hs, rfl⟩
      · split
        · split
          · exact ⟨hs, rfl⟩
          · rw [auca_loop_messages, hs]
            exact ⟨(run_append _ _ _).symm, rfl⟩
        · exact ⟨hs, rfl⟩

/-- The walk over a ChannelByes carries out its messages. -/
theorem bye_walk_messages (body : List UInt8) (w : AudioWorld) :
    (tlvWalk handleAucbEntry body w).1 =
      run (applyMessage peerId peerAddr peerPort) w (tlvWalk byeMessages body []).1 := by
  refine tlv_walk_rel (R := fun (s : AudioWorld) msgs =>
    s = run (applyMessage peerId peerAddr peerPort) w msgs) ?_ body rfl
  intro key v s msgs hs
  unfold handleAucbEntry byeMessages
  dsimp only
  split
  · exact ⟨hs, rfl⟩
  · split
    · exact ⟨hs, rfl⟩
    · split
      · exact ⟨hs, rfl⟩
      · refine ⟨?_, rfl⟩
        rw [hs, run_append]
        unfold run
        rw [List.foldl_map]
        rfl

end

/-- A datagram does its messages to the catalog, and nothing else. -/
theorem rx_catalog (buf : UInt32 → UInt8) (len : UInt32) (srcAddr : UInt32) (srcPort : UInt16)
    (w : AudioWorld) :
    (linkAudioHandleRx buf len srcAddr srcPort w).linkAudioRemote =
      (run (applyMessage (.ofBytes (bytesAt buf 12 8)) srcAddr srcPort) w
        (catalogMessages w buf len)).linkAudioRemote := by
  unfold catalogMessages
  by_cases hforeign : IsForeign w buf len
  · rw [handle_rx_foreign hforeign, if_pos hforeign]
    dsimp only
    split
    · unfold handlePeerAnnouncement
      rw [← ann_walk_messages _ _ _ _ ⟨0, false⟩]
      dsimp only
      split <;> rfl
    · split
      · rw [← bye_walk_messages]
      · split
        · rcases channel_request_frame (buf 8) (.ofBytes (bytesAt buf 12 8)) srcAddr srcPort
            (bytesAt buf 20 (len - 20).toNat) w with hw | ⟨_, _, _, _, _, hw⟩
          · rw [hw]
            rfl
          · rw [hw]
            rfl
        · split
          · unfold handleAudioBuffer
            repeat' split
            all_goals rfl
          · rfl
  · rw [handle_rx_refused hforeign, if_neg hforeign]
    rfl

/-! ## Runs -/

/-- The name of a channel fits into a `char[32]`. -/
def CatalogMessage.NameFits : CatalogMessage → Prop
  | .announce _ name => name.length < linkAudioNameMax
  | .bye _ => True

/-- `ann_handler` cuts a name. -/
theorem cut_name_fits (rd : UInt32 → UInt8) (p nameLen : UInt32) :
    (cString (bytesAt rd p (if nameLen.toNat < linkAudioNameMax then nameLen.toNat
      else linkAudioNameMax - 1))).length < linkAudioNameMax := by
  have hmax : linkAudioNameMax = 32 := rfl
  refine Nat.lt_of_le_of_lt (List.takeWhile_prefix _).length_le ?_
  rw [bytes_at_length]
  split <;> omega

theorem auca_names_fit (rd : UInt32 → UInt8) (count : Nat) (v n : UInt32) :
    ∀ m ∈ (aucaMessages rd count v n).1, m.NameFits := by
  induction count generalizing v n with
  | zero => simp [aucaMessages]
  | succ count ih =>
      unfold aucaMessages
      dsimp only
      split
      · simp
      · split
        · simp
        · rw [List.forall_mem_cons]
          exact ⟨cut_name_fits _ _ _, ih _ _⟩

/-- The names in a datagram are cut. -/
theorem names_fit (w : AudioWorld) (buf : UInt32 → UInt8) (len : UInt32) :
    ∀ m ∈ catalogMessages w buf len, m.NameFits := by
  have hann (body : List UInt8) : ∀ m ∈ (tlvWalk annMessages body []).1, m.NameFits := by
    refine tlv_walk_induct (P := fun msgs => ∀ m ∈ msgs, CatalogMessage.NameFits m) body
      (by simp) ?_
    intro entry _ msgs hmsgs
    unfold annMessages
    dsimp only
    repeat' split
    all_goals first
      | exact hmsgs
      | exact List.forall_mem_append.mpr ⟨hmsgs, auca_names_fit _ _ _ _⟩
  have hbye (body : List UInt8) : ∀ m ∈ (tlvWalk byeMessages body []).1, m.NameFits := by
    refine tlv_walk_induct (P := fun msgs => ∀ m ∈ msgs, CatalogMessage.NameFits m) body
      (by simp) ?_
    intro entry _ msgs hmsgs
    unfold byeMessages
    dsimp only
    split
    · exact hmsgs
    · split
      · exact hmsgs
      · split
        · exact hmsgs
        · refine List.forall_mem_append.mpr ⟨hmsgs, fun m hm => ?_⟩
          obtain ⟨_, _, rfl⟩ := List.mem_map.mp hm
          trivial
  unfold catalogMessages
  dsimp only
  split
  · split
    · exact hann _
    · split
      · exact hbye _
      · simp
  · simp

/-- What every message keeps of the catalog, every call does. -/
theorem call_keeps_catalog {P : List AudioRemote → Prop}
    (hmessage : ∀ peerId peerAddr peerPort w m, CatalogMessage.NameFits m → P w.linkAudioRemote →
      P (applyMessage peerId peerAddr peerPort w m).linkAudioRemote)
    {w : AudioWorld} (h : P w.linkAudioRemote) (e : AudioCall) :
    P (callAudio w e).linkAudioRemote := by
  by_cases hrx : ∃ buf len srcAddr srcPort, e = .event (.rx buf len srcAddr srcPort)
  · obtain ⟨buf, len, srcAddr, srcPort, rfl⟩ := hrx
    show P (linkAudioHandleRx buf len srcAddr srcPort w).linkAudioRemote
    rw [rx_catalog]
    have hkeep : ∀ m ∈ catalogMessages w buf len, ∀ s : AudioWorld, P s.linkAudioRemote →
        P (applyMessage (.ofBytes (bytesAt buf 12 8)) srcAddr srcPort s m).linkAudioRemote :=
      fun m hm s hs => hmessage _ _ _ s m (names_fit w buf len m hm) hs
    exact Sweep.inv_sweep hkeep h
  · rw [call_remote w e fun buf len srcAddr srcPort he => hrx ⟨buf, len, srcAddr, srcPort, he⟩]
    exact h

theorem message_distinct (peerId : LinkId) (peerAddr : UInt32) (peerPort : UInt16)
    {w : AudioWorld} (h : CatalogDistinct w) (m : CatalogMessage) :
    CatalogDistinct (applyMessage peerId peerAddr peerPort w m) := by
  cases m with
  | announce cid name => exact record_channel_distinct peerId peerAddr peerPort cid name h
  | bye cid => exact drop_channel_distinct cid h

/-- No call gives a channel a second catalog entry. -/
theorem call_catalog {w : AudioWorld} (h : CatalogDistinct w) (e : AudioCall) :
    CatalogDistinct (callAudio w e) :=
  call_keeps_catalog (P := fun remote => ∃ map, SlotTable.Represents AudioRemote.key remote map)
    (fun _ _ _ _ m _ hs => message_distinct _ _ _ hs m) h e

/-- In every state reached from boot each channel has at most one catalog entry in use. -/
theorem run_catalog (core : World) (ports : Nat) (calls : List AudioCall) :
    CatalogDistinct (run callAudio (audioBoot core ports) calls) :=
  run_invariant (motive := CatalogDistinct) (fun _ e h => call_catalog h e)
    (boot_catalog core ports) calls

/-- The names in the catalog fit into a `char[32]`. -/
def RemoteNames (w : AudioWorld) : Prop :=
  ∀ r ∈ w.linkAudioRemote, r.name.length < linkAudioNameMax

theorem message_names (peerId : LinkId) (peerAddr : UInt32) (peerPort : UInt16) {w : AudioWorld}
    {m : CatalogMessage} (hfits : m.NameFits) (h : RemoteNames w) :
    RemoteNames (applyMessage peerId peerAddr peerPort w m) := by
  cases m with
  | announce cid name =>
      rcases record_channel_cases peerId peerAddr peerPort cid name w with
        ⟨hsame, _⟩ | ⟨i, old, hi, _, hrecord⟩
      · rw [applyMessage, hsame]
        exact h
      · rw [applyMessage, hrecord]
        intro r hr
        rcases List.mem_or_eq_of_mem_set hr with hkept | rfl
        · exact h r hkept
        · exact hfits
  | bye cid =>
      intro r hr
      obtain ⟨old, hold, rfl⟩ := List.mem_map.mp hr
      have hname := h old hold
      split
      · exact hname
      · exact hname

/-- In every state reached from boot they do. -/
theorem run_names (core : World) (ports : Nat) (calls : List AudioCall) :
    RemoteNames (run callAudio (audioBoot core ports) calls) := by
  have hboot : RemoteNames (audioBoot core ports) := by
    intro r hr
    rw [boot_remote] at hr
    rw [(List.mem_replicate.mp hr).2]
    decide
  have hcall (w : AudioWorld) (e : AudioCall) (h : RemoteNames w) : RemoteNames (callAudio w e) :=
    call_keeps_catalog (P := fun remote => ∀ r ∈ remote, r.name.length < linkAudioNameMax)
      (fun _ _ _ _ _ hfits hs => message_names _ _ _ hfits hs) h e
  exact run_invariant (motive := RemoteNames) hcall hboot calls

end LinkFPGA
