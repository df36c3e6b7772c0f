import LinkFPGA.Library.KeyedWrites
import LinkFPGA.Proofs.DiscoveryCodec
import LinkFPGA.Proofs.SessionTracking
import LinkFPGA.Proofs.TlvCodec

/-!
# The order of discovery entries

`handle_entry` writes one field of the sender's record for each known key. `Field` names the
fields, and `handle_entry_eq` says that the chain of cases in `handle_entry` looks the field up,
checks its size and writes it. The writes carry their fields as keys (`writes_keyed`), so the order
of the entries does not matter, nor do entries with unknown keys: `entry_order_irrelevant`.
-/

namespace LinkFPGA

open KeyedWrites

/-! ## Fields -/

/-- What a known key is about. -/
inductive Field where
  | tmln | sess | stst | mep4 | aep4 | mep6 | aep6
  deriving DecidableEq, Repr

namespace Field

def key : Field → UInt32
  | tmln => keyTmln
  | sess => keySess
  | stst => keyStst
  | mep4 => keyMep4
  | aep4 => keyAep4
  | mep6 => keyMep6
  | aep6 => keyAep6

/-- The size of the field's value. -/
def size : Field → Nat
  | tmln => 24
  | sess => 8
  | stst => 17
  | mep4 | aep4 => 6
  | mep6 | aep6 => 18

/-- Store a value in the record. -/
def store (p : Peer) (v : List UInt8) : Field → Peer
  | tmln => { p with timeline := decodeTmln v }
  | sess => { p with sessionId := .ofBytes v }
  | stst => { p with startstop := decodeStst v }
  | mep4 => { p with
      mep4Addr := be32 v
      mep4Port := be16 (v.drop 4) }
  | aep4 => { p with
      aep4Addr := be32 v
      aep4Port := be16 (v.drop 4) }
  | mep6 => { p with
      mep6Addr := v.take 16
      mep6Port := be16 (v.drop 16)
      haveMep6 := true }
  | aep6 => { p with
      aep6Addr := v.take 16
      aep6Port := be16 (v.drop 16)
      haveAep6 := true }

/-- Stores in different fields commute. -/
theorem store_comm (p : Peer) (v v' : List UInt8) {f g : Field} (h : f ≠ g) :
    g.store (f.store p v) v' = f.store (g.store p v') v := by
  cases f <;> cases g <;> first | exact absurd rfl h | rfl

/-- A store replaces what the field held. -/
theorem store_store (p : Peer) (v v' : List UInt8) (f : Field) :
    f.store (f.store p v) v' = f.store p v' := by
  cases f <;> rfl

end Field

/-- The field of a key. -/
def fieldOf (key : UInt32) : Option Field :=
  [Field.tmln, .sess, .stst, .mep4, .aep4, .mep6, .aep6].find? fun f => f.key = key

theorem field_of_key (f : Field) : fieldOf f.key = some f := by
  cases f <;> rfl

theorem field_of_eq_some {key : UInt32} {f : Field} (h : fieldOf key = some f) : key = f.key := by
  simpa [eq_comm] using List.find?_some h

/-- An entry with a known key: check the size, store the value. -/
theorem handle_entry_known (f : Field) (v : List UInt8) (p : Peer) :
    handleEntry f.key v p = if v.length ≠ f.size then (p, -1) else (f.store p v, 0) := by
  cases f <;> rfl

/-- An entry with an unknown key is skipped. -/
theorem handle_entry_unknown {key : UInt32} (h : fieldOf key = none) (v : List UInt8) (p : Peer) :
    handleEntry key v p = (p, 0) := by
  have hne (f : Field) : key ≠ f.key := by
    rintro rfl
    rw [field_of_key] at h
    cases h
  have htmln : key ≠ keyTmln := hne .tmln
  have hsess : key ≠ keySess := hne .sess
  have hstst : key ≠ keyStst := hne .stst
  have hmep4 : key ≠ keyMep4 := hne .mep4
  have haep4 : key ≠ keyAep4 := hne .aep4
  have hmep6 : key ≠ keyMep6 := hne .mep6
  have haep6 : key ≠ keyAep6 := hne .aep6
  rw [handleEntry, if_neg htmln, if_neg hsess, if_neg hstst, if_neg hmep4, if_neg haep4,
    if_neg hmep6, if_neg haep6]

/-- An entry of a discovery message: its key and value. -/
abbrev Entry := UInt32 × List UInt8

/-- The field that an entry writes, if its value has the field's size. -/
def Entry.field (e : Entry) : Option Field := (fieldOf e.1).filter fun f => f.size = e.2.length

/-- The record after an entry. -/
def writeEntry (p : Peer) (e : Entry) : Peer := (handleEntry e.1 e.2 p).1

theorem write_entry_field {e : Entry} {f : Field} (h : e.field = some f) (p : Peer) :
    writeEntry p e = f.store p e.2 := by
  obtain ⟨hkey, hsize⟩ := Option.filter_eq_some_iff.mp h
  rw [writeEntry, field_of_eq_some hkey, handle_entry_known, if_neg]
  simpa [eq_comm] using hsize

theorem write_entry_none {e : Entry} (h : e.field = none) (p : Peer) : writeEntry p e = p := by
  rw [Entry.field, Option.filter_eq_none_iff] at h
  rw [writeEntry]
  cases hkey : fieldOf e.1 with
  | none => rw [handle_entry_unknown hkey]
  | some f =>
      have hsize := h f hkey
      rw [field_of_eq_some hkey, handle_entry_known, if_pos]
      simpa [eq_comm] using hsize

/-- The writes of entries carry their fields as keys. -/
theorem writes_keyed : Keyed Entry.field writeEntry where
  comm p a b hkey := by
    cases ha : a.field with
    | none => rw [write_entry_none ha, write_entry_none ha]
    | some f =>
        cases hb : b.field with
        | none => rw [write_entry_none hb, write_entry_none hb]
        | some g =>
            have hfields : f ≠ g := fun h => hkey (by rw [ha, hb, h])
            rw [write_entry_field ha, write_entry_field ha, write_entry_field hb,
              write_entry_field hb, Field.store_comm p a.2 b.2 hfields]
  last p a b hkey := by
    cases ha : a.field with
    | none => rw [write_entry_none ha]
    | some f =>
        have hb : b.field = some f := hkey ▸ ha
        rw [write_entry_field ha, write_entry_field hb, write_entry_field hb, Field.store_store]

/-! ## Payloads of well-formed entries -/

/-- The key is one of the seven that `handle_entry` knows. -/
def Entry.known (e : Entry) : Bool := (fieldOf e.1).isSome

/-- The value has the size that `handle_entry` asks for, if it knows the key. -/
def Entry.WellSized (e : Entry) : Prop := ∀ f, fieldOf e.1 = some f → e.2.length = f.size

/-- `handle_entry` accepts the entries of the right size. -/
theorem handle_entry_wellSized {e : Entry} (h : e.WellSized) (p : Peer) :
    handleEntry e.1 e.2 p = (writeEntry p e, 0) := by
  rw [writeEntry]
  cases hkey : fieldOf e.1 with
  | none => rw [handle_entry_unknown hkey]
  | some f =>
      have hsize := h f hkey
      rw [field_of_eq_some hkey, handle_entry_known, if_neg (not_not.mpr hsize)]

/-- The walk of encoded entries of the right sizes writes them one after another. -/
theorem walk_entries {es : List Entry} (hsized : ∀ e ∈ es, e.WellSized)
    (hlen : ∀ e ∈ es, e.2.length < 2 ^ 32) (p : Peer) :
    tlvWalk handleEntry (encodeEntries es) p = (es.foldl writeEntry p, 0) := by
  induction es generalizing p with
  | nil => rfl
  | cons e es ih =>
      rw [List.forall_mem_cons] at hsized hlen
      rw [encode_entries_cons, tlv_walk_accepted hlen.1 (handle_entry_wellSized hsized.1 p),
        ih hsized.2 hlen.2]
      rfl

/-- Entries with unknown keys write nothing. -/
theorem foldl_known (es : List Entry) (p : Peer) :
    (es.filter Entry.known).foldl writeEntry p = es.foldl writeEntry p := by
  induction es generalizing p with
  | nil => rfl
  | cons e es ih =>
      rw [List.filter_cons]
      split
      · rw [List.foldl_cons, List.foldl_cons, ih]
      · rename_i hknown
        have hkey : fieldOf e.1 = none := by simpa [Entry.known] using hknown
        rw [List.foldl_cons, writeEntry, handle_entry_unknown hkey, ih]

/-- Known keys of the right sizes stand for the fields they write. -/
theorem field_injOn {es : List Entry} (hknown : ∀ e ∈ es, e.known = true ∧ e.WellSized)
    (hnodup : (es.map Prod.fst).Nodup) : (es.map Entry.field).Nodup := by
  refine List.Nodup.map_on ?_ (List.Nodup.of_map _ hnodup)
  intro a ha b hb hfield
  obtain ⟨f, hf⟩ := Option.isSome_iff_exists.mp (hknown a ha).1
  have hsize : f.size = a.2.length := ((hknown a ha).2 f hf).symm
  have ha' : a.field = some f := by simp [Entry.field, hf, hsize]
  obtain ⟨hkey, _⟩ := Option.filter_eq_some_iff.mp (hfield ▸ ha')
  refine List.inj_on_of_nodup_map hnodup ha hb ?_
  rw [field_of_eq_some hf, field_of_eq_some hkey]

/-! ## Datagrams -/

/-- Two datagrams with the same header whose payloads do the same to every record are handled
alike. -/
theorem link_handle_rx_congr {mtype ttl : UInt8} {ident : LinkId} {body body' : List UInt8}
    (hwalk : ∀ p, tlvWalk handleEntry body p = tlvWalk handleEntry body' p) (srcAddr : UInt32)
    (srcPort : UInt16) (w : World) :
    linkHandleRx (discoveryHeader mtype ttl ident ++ body) srcAddr srcPort w =
      linkHandleRx (discoveryHeader mtype ttl ident ++ body') srcAddr srcPort w := by
  obtain ⟨htype, hident, hbody, haccepted⟩ := discovery_message mtype ttl ident body
  obtain ⟨htype', hident', hbody', haccepted'⟩ := discovery_message mtype ttl ident body'
  have hupdate (now : UInt64) : updatePeer now (discoveryHeader mtype ttl ident ++ body) =
      updatePeer now (discoveryHeader mtype ttl ident ++ body') := by
    funext p
    rw [updatePeer, updatePeer, hbody, hbody', hwalk]
  have hobserve (peers : List Peer) (now : UInt64) :
      observe peers now (discoveryHeader mtype ttl ident ++ body) =
        observe peers now (discoveryHeader mtype ttl ident ++ body') := by
    rw [observe, observe, hident, hident', hupdate]
  rw [linkHandleRx, linkHandleRx, haccepted, haccepted', htype, htype', hident, hident', hobserve]

/-- For entries with distinct known keys and the right sizes, neither their order nor any entries
with unknown keys among them change what the payload does to a record, in exact and in 32-bit
pointer arithmetic, nor what an ALIVE with the payload does. -/
theorem entry_order_irrelevant {es es' : List Entry}
    (hknown : ∀ e ∈ es, e.known = true ∧ e.WellSized) (hnodup : (es.map Prod.fst).Nodup)
    (hperm : (es'.filter Entry.known).Perm es) (hlen : ∀ e ∈ es', e.2.length < 2 ^ 32) :
    (∀ p, tlvWalk handleEntry (encodeEntries es') p = tlvWalk handleEntry (encodeEntries es) p) ∧
      (∀ mem buf p, MainRamBuffer buf (encodeEntries es').length →
        bytesAt mem buf (encodeEntries es').length = encodeEntries es' →
        (tlvWalk32 mem (onBytes mem handleEntry) (buf + .ofNat (encodeEntries es').length)
          ((encodeEntries es').length / 8) buf p).result =
          some (tlvWalk handleEntry (encodeEntries es) p)) ∧
      ∀ ttl ident srcAddr srcPort w,
        linkHandleRx (discoveryHeader 1 ttl ident ++ encodeEntries es') srcAddr srcPort w =
          linkHandleRx (discoveryHeader 1 ttl ident ++ encodeEntries es) srcAddr srcPort w := by
  have hsized : ∀ e ∈ es', e.WellSized := by
    intro e he f hf
    have hmem : e ∈ es'.filter Entry.known :=
      List.mem_filter.mpr ⟨he, Option.isSome_iff_exists.mpr ⟨f, hf⟩⟩
    exact (hknown e (hperm.mem_iff.mp hmem)).2 f hf
  have hlen' : ∀ e ∈ es, e.2.length < 2 ^ 32 := fun e he =>
    hlen e (List.mem_of_mem_filter (hperm.mem_iff.mpr he))
  have hwalk (p : Peer) :
      tlvWalk handleEntry (encodeEntries es') p = tlvWalk handleEntry (encodeEntries es) p := by
    have hsame : es'.foldl writeEntry p = es.foldl writeEntry p := by
      rw [← foldl_known es']
      exact (writes_keyed.foldl_perm (field_injOn hknown hnodup) hperm.symm p).symm
    rw [walk_entries hsized hlen, walk_entries (fun e he => (hknown e he).2) hlen', hsame]
  refine ⟨hwalk, fun mem buf p hram hbytes => ?_, fun ttl ident srcAddr srcPort w => ?_⟩
  · rw [walk32_encode handleEntry p hram hlen hbytes, hwalk]
  · exact link_handle_rx_congr hwalk srcAddr srcPort w

/-- A session and an endpoint, the other way round and with unknown entries between them. -/
theorem entry_order_irrelevant_swapped :
    linkHandleRx (discoveryHeader 1 5 .zero ++ encodeEntries [(1, []),
        (keyMep4, [10, 0, 0, 2, 81, 72]), (0x78787878, [1, 2, 3]),
        (keySess, [1, 2, 3, 4, 5, 6, 7, 8])])
        0x0A000002 20808 nodeSelf =
      linkHandleRx (discoveryHeader 1 5 .zero ++ encodeEntries [(keySess, [1, 2, 3, 4, 5, 6, 7, 8]),
        (keyMep4, [10, 0, 0, 2, 81, 72])]) 0x0A000002 20808 nodeSelf := by
  have hsess : fieldOf keySess = some .sess := rfl
  have hmep4 : fieldOf keyMep4 = some .mep4 := rfl
  have hknown : ∀ e ∈ ([(keySess, [1, 2, 3, 4, 5, 6, 7, 8]),
      (keyMep4, [10, 0, 0, 2, 81, 72])] : List Entry), e.known = true ∧ e.WellSized := by
    simp [Entry.known, Entry.WellSized, hsess, hmep4, Field.size]
  refine (entry_order_irrelevant hknown ?_ ?_ ?_).2.2 5 .zero 0x0A000002 20808 nodeSelf
  · decide
  · exact List.Perm.swap _ _ _
  · simp

end LinkFPGA
