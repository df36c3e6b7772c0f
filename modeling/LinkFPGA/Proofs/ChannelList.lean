import LinkFPGA.Library.Json
import LinkFPGA.Firmware.Main
import LinkFPGA.Firmware.WebUi
import LinkFPGA.Proofs.CatalogMessages

/-!
# The list of channels

`serve_channels` prints the catalog into `s_resp_buf` and stops when less than 192 bytes are left,
so nothing is cut off (`channels_loop`). It puts the names between quotes as they are. So the body
says what is in the catalog if and only if the names listed may stand in a JSON string
(`channel_list_iff`).
-/

namespace LinkFPGA

open Runs Json

/-! ## What the body should say -/

/-- The lower-case hexadecimal digits of bytes. -/
def hexText (bytes : List UInt8) : List UInt8 :=
  bytes.flatMap fun b => [(Nat.digitChar (b.toNat / 16)).toUInt8,
    (Nat.digitChar (b.toNat % 16)).toUInt8]

/-- `channels`. -/
def channelsMember : List UInt8 := [0x63, 0x68, 0x61, 0x6E, 0x6E, 0x65, 0x6C, 0x73]

/-- `id`. -/
def idMember : List UInt8 := [0x69, 0x64]

/-- `name`. -/
def nameMember : List UInt8 := [0x6E, 0x61, 0x6D, 0x65]

/-- `peer`. -/
def peerMember : List UInt8 := [0x70, 0x65, 0x65, 0x72]

/-- The id, the name and the peer of a channel. -/
def channelValue (r : AudioRemote) : Value :=
  .object [(idMember, .string (hexText r.channelId.bytes)), (nameMember, .string r.name),
    (peerMember, .string (hexText r.peerId.bytes))]

def channelsValue (rs : List AudioRemote) : Value :=
  .object [(channelsMember, .array (rs.map channelValue))]

/-- The catalog entries in use, in table order. -/
def inUseChannels (w : AudioWorld) : List AudioRemote := w.linkAudioRemote.filter (·.inUse)

/-- The bytes of a body. -/
def HttpResponse.content (resp : HttpResponse) : List UInt8 :=
  bytesAt (memOf resp.body) 0 resp.bodyLen.toNat

/-- The body fits into `s_resp_buf` and lists the channels in use, or as many of them as leave no
more than the slack. -/
structure ListsChannels (w : AudioWorld) (resp : HttpResponse) : Prop where
  fits : resp.bodyLen.toNat ≤ sRespBufMax
  reads : ∃ shown, shown <+: inUseChannels w ∧
    (shown = inUseChannels w ∨ sRespBufMax ≤ resp.bodyLen.toNat + respSlack) ∧
    ∀ v, Denotes resp.content v ↔ v = channelsValue shown

/-! ## What is printed -/

/-- The entries that are printed before the room is used up but for the slack. An entry takes 62
bytes and its name, with the comma in front, and `n` bytes are taken already. -/
def withinSlack : Nat → List AudioRemote → List AudioRemote
  | _, [] => []
  | n, r :: rs =>
      if n < sRespBufMax - respSlack then r :: withinSlack (n + (62 + r.name.length)) rs else []

/-- The channels that there is room for. The first one goes without a comma. -/
def listedChannels (w : AudioWorld) : List AudioRemote :=
  withinSlack (channelsOpen.length - 1) (inUseChannels w)

/-- The texts of channels, each with a comma in front. -/
def entriesText (rs : List AudioRemote) : List UInt8 := rs.flatMap fun r => 0x2C :: channelText r

/-- The same, but there is no comma in front of the first one of all. -/
def entriesFrom (first : Bool) (rs : List AudioRemote) : List UInt8 :=
  if first then (entriesText rs).tail else entriesText rs

/-- A list of channels, as it is printed. -/
def listText (rs : List AudioRemote) : List UInt8 :=
  channelsOpen ++ entriesFrom true rs ++ channelsClose

theorem entries_from_nil (first : Bool) : entriesFrom first [] = [] := by
  cases first <;> rfl

theorem entries_from_cons (first : Bool) (r : AudioRemote) (rs : List AudioRemote) :
    entriesFrom first (r :: rs) =
      (if first then [] else [0x2C]) ++ channelText r ++ entriesFrom false rs := by
  cases first <;> rfl

theorem within_slack_prefix (n : Nat) (rs : List AudioRemote) : withinSlack n rs <+: rs := by
  induction rs generalizing n with
  | nil => exact List.prefix_refl _
  | cons r rs ih =>
      unfold withinSlack
      split
      · exact List.cons_prefix_cons.mpr ⟨rfl, ih _⟩
      · exact List.nil_prefix

theorem within_slack_full {n : Nat} (hn : sRespBufMax - respSlack ≤ n) (rs : List AudioRemote) :
    withinSlack n rs = [] := by
  cases rs with
  | nil => rfl
  | cons r rs => exact if_neg (Nat.not_lt.mpr hn)

theorem node_id_hex_length (id : LinkId) : (nodeIdHex id).length = 16 := by
  unfold nodeIdHex
  rw [List.length_flatMap]
  simp [id.length_bytes]

theorem channel_text_length (r : AudioRemote) : (channelText r).length = 61 + r.name.length := by
  unfold channelText
  simp only [List.length_append, node_id_hex_length, List.length_cons, List.length_nil]
  omega

/-- `s_resp_buf` starts with what has been printed, and `n` is the length of it. -/
def Printed (text : List UInt8) (s : List UInt8 × Nat) : Prop :=
  s.2 = text.length ∧ text <+: s.1

/-- A text for which there is room is printed behind the others. -/
theorem resp_print {done : List UInt8} {s : List UInt8 × Nat} (h : Printed done s)
    (text : List UInt8) (hroom : done.length + text.length < sRespBufMax) :
    Printed (done ++ text) (respPrint text s) := by
  obtain ⟨buf, n⟩ := s
  obtain ⟨rfl, rest, rfl⟩ := h
  have hmax : (UInt32.ofNat sRespBufMax).toNat = sRespBufMax := rfl
  have hsize : (UInt32.ofNat sRespBufMax - UInt32.ofNat done.length).toNat =
      sRespBufMax - done.length := by
    rw [size_sub (by omega), hmax]
  refine ⟨(List.length_append).symm, ?_⟩
  unfold respPrint CString.snprintf
  dsimp only
  rw [hsize, List.take_left, List.take_of_length_le (by omega), ← List.append_assoc,
    List.append_assoc (done ++ text)]
  exact List.prefix_append _ _

/-- The state of the loop in front of an entry, where `n` bytes are taken if the first entry is
counted with a comma. -/
structure LoopAt (first : Bool) (n : Nat) (done : List UInt8) (s : List UInt8 × Nat) : Prop where
  printed : Printed done s
  count : done.length = n + if first then 1 else 0
  start : first = true → n = 12
  room : done.length ≤ 3996

section
variable {first : Bool} {n : Nat} {done : List UInt8} {s : List UInt8 × Nat}

/-- There is always room for the first entry. -/
theorem LoopAt.full_iff (h : LoopAt first n done s) :
    sRespBufMax - respSlack ≤ done.length ↔ sRespBufMax - respSlack ≤ n := by
  have hmax : sRespBufMax = 4096 := rfl
  have hslack : respSlack = 192 := rfl
  rw [h.count]
  cases first with
  | false => rfl
  | true =>
      rw [h.start rfl, if_pos rfl]
      omega

/-- An entry that is not kept out by the slack is printed whole. -/
theorem LoopAt.entry (h : LoopAt first n done s) {r : AudioRemote}
    (hname : r.name.length < linkAudioNameMax) (hfree : n < sRespBufMax - respSlack) :
    LoopAt false (n + (62 + r.name.length))
      (done ++ ((if first then [] else [0x2C]) ++ channelText r))
      (respPrint ((if first then [] else [0x2C]) ++ channelText r) s) := by
  have hmax : sRespBufMax = 4096 := rfl
  have hslack : respSlack = 192 := rfl
  have hname : r.name.length < 32 := hname
  have hlen : (done ++ ((if first then [] else [0x2C]) ++ channelText r)).length =
      n + (62 + r.name.length) := by
    rw [List.length_append, List.length_append, channel_text_length, h.count]
    cases first <;> simp <;> omega
  refine ⟨resp_print h.printed _ ?_, by simpa using hlen, by simp, ?_⟩
  · rw [← List.length_append, hlen]
    omega
  · rw [hlen]
    omega

/-- What the loop prints: nothing is cut off, and it only stops when the slack is all that is
left. -/
theorem channels_loop {rs : List AudioRemote} (hnames : ∀ r ∈ rs, r.name.length < linkAudioNameMax)
    (h : LoopAt first n done s) :
    ∃ listed text, listed = withinSlack n (rs.filter (·.inUse)) ∧
      text = done ++ entriesFrom first listed ∧ Printed text (channelsLoop rs s first) ∧
      text.length ≤ 3996 ∧
      (listed = rs.filter (·.inUse) ∨ sRespBufMax - respSlack ≤ text.length) := by
  induction rs generalizing first n done s with
  | nil =>
      refine ⟨[], done, rfl, ?_, h.printed, h.room, .inl rfl⟩
      rw [entries_from_nil, List.append_nil]
  | cons r rs ih =>
      rw [List.forall_mem_cons] at hnames
      unfold channelsLoop
      rw [h.printed.1]
      by_cases hfull : sRespBufMax - respSlack ≤ done.length
      · have hused := h.full_iff.mp hfull
        refine ⟨[], done, (within_slack_full hused _).symm, ?_, ?_, h.room, .inr hfull⟩
        · rw [entries_from_nil, List.append_nil]
        · rw [if_neg (Nat.not_lt.mpr hfull)]
          exact h.printed
      · rw [if_pos (Nat.not_le.mp hfull)]
        cases huse : r.inUse with
        | false =>
            rw [if_pos rfl, List.filter_cons_of_neg (by simp [huse])]
            exact ih hnames.2 h
        | true =>
            have hfree : n < sRespBufMax - respSlack := Nat.not_le.mp fun hused =>
              hfull (h.full_iff.mpr hused)
            obtain ⟨listed, text, hlisted, htext, hloop, hlast, hall⟩ :=
              ih hnames.2 (h.entry hnames.1 hfree)
            have hfilter : (r :: rs).filter (·.inUse) = r :: rs.filter (·.inUse) :=
              List.filter_cons_of_pos (by simp [huse])
            refine ⟨r :: listed, text, ?_, ?_, ?_, hlast, ?_⟩
            · rw [hfilter, hlisted]
              exact (if_pos hfree).symm
            · rw [htext, entries_from_cons, List.append_assoc, List.append_assoc]
            · rw [if_neg (by simp)]
              exact hloop
            · rw [hfilter]
              exact hall.imp_left (congrArg (List.cons r))

end

/-- Memory is read back as far as it was printed. -/
theorem bytes_at_prefix {text buf : List UInt8} (h : text <+: buf) (hlen : text.length < 2 ^ 32) :
    bytesAt (memOf buf) 0 text.length = text := by
  obtain ⟨rest, rfl⟩ := h
  refine List.ext_getElem (by simp) fun i _ hi => ?_
  have hoff : (0 + UInt32.ofNat i).toNat = i := by
    rw [UInt32.zero_add]
    exact UInt32.toNat_ofNat_of_lt' (show i < 2 ^ 32 by omega)
  rw [bytes_at_getElem, memOf, hoff, byteAt, List.getD_append _ _ _ _ hi,
    List.getD_eq_getElem _ _ hi]

/-- The whole body is a list of channels, and it is not the end of `s_resp_buf` that ends it. -/
theorem serve_channels_prints {w : AudioWorld} (hnames : RemoteNames w) (path body : List UInt8)
    (blen : UInt32) (resp : HttpResponse) (sRespBuf : List UInt8) :
    let answer := (serveChannels path body blen resp sRespBuf w).1
    answer.content = listText (listedChannels w) ∧ answer.bodyLen.toNat ≤ sRespBufMax ∧
      (listedChannels w = inUseChannels w ∨ sRespBufMax ≤ answer.bodyLen.toNat + respSlack) := by
  intro answer
  have hnone : Printed [] (sRespBuf, 0) := ⟨rfl, List.nil_prefix⟩
  have hopen : LoopAt true 12 channelsOpen (respPrint channelsOpen (sRespBuf, 0)) :=
    ⟨resp_print hnone channelsOpen (by decide), rfl, fun _ => rfl, by decide⟩
  obtain ⟨listed, text, rfl, htext, hloop, hroom, hall⟩ := channels_loop hnames hopen
  have hmax : sRespBufMax = 4096 := rfl
  have hslack : respSlack = 192 := rfl
  have htotal : (text ++ channelsClose).length = text.length + 2 := List.length_append
  obtain ⟨hlen, hprefix⟩ := resp_print hloop channelsClose
    (by
      rw [← List.length_append, htotal]
      omega)
  have hbody : text ++ channelsClose = listText (listedChannels w) := by
    rw [htext]
    rfl
  have hbodyLen : answer.bodyLen.toNat = (text ++ channelsClose).length := by
    show (UInt32.ofNat (respPrint channelsClose _).2).toNat = _
    rw [hlen]
    exact UInt32.toNat_ofNat_of_lt' (show _ < 2 ^ 32 by omega)
  refine ⟨?_, by omega, hall.imp_right fun hused => by omega⟩
  unfold HttpResponse.content
  rw [hbodyLen, ← hbody]
  exact bytes_at_prefix hprefix (by omega)

/-! ## How it is read -/

/-- The digits are plain ASCII characters. -/
theorem hex_text_plain (bytes : List UInt8) : ∀ b ∈ hexText bytes, IsPlain b ∧ b < 0x80 := by
  have hdigit : ∀ n < 16, IsPlain (Nat.digitChar n).toUInt8 ∧ (Nat.digitChar n).toUInt8 < 0x80 := by
    decide
  intro b hb
  obtain ⟨byte, _, hdigits⟩ := List.mem_flatMap.mp hb
  have hbyte := byte.toNat_lt
  rcases List.mem_pair.mp hdigits with rfl | rfl
  · exact hdigit _ (by omega)
  · exact hdigit _ (by omega)

/-- `node_id_hex` writes the digits. -/
theorem node_id_hex_eq (id : LinkId) : nodeIdHex id = hexText id.bytes := by
  have hdigit : ∀ n < 16, byteAt hexTable n = (Nat.digitChar n).toUInt8 := by decide
  unfold nodeIdHex hexText
  refine List.flatMap_congr fun b _ => ?_
  have hhigh : (b >>> 4).toNat = b.toNat / 16 := by
    rw [UInt8.toNat_shiftRight]
    exact Nat.shiftRight_eq_div_pow _ _
  have hlow : (b &&& 0xf).toNat = b.toNat % 16 := by
    rw [UInt8.toNat_and]
    exact Nat.and_two_pow_sub_one_eq_mod _ 4
  have hb := b.toNat_lt
  rw [hhigh, hlow, hdigit _ (by omega), hdigit _ (by omega)]

/-- The name may stand between quotes as it is. -/
def Quotable (name : List UInt8) : Prop := Utf8 name ∧ ∀ b ∈ name, IsPlain b

/-- The text of a channel up to the name, without the quote. -/
def frontText (id : LinkId) : List UInt8 :=
  0x7B :: 0x22 :: (idMember ++ 0x22 :: 0x3A :: 0x22 :: (hexText id.bytes ++ 0x22 :: 0x2C :: 0x22 ::
    (nameMember ++ 0x22 :: [0x3A])))

/-- The text of a channel behind the name, and the quotes and the comma there. -/
def backText (id : LinkId) : List UInt8 :=
  peerMember ++ 0x22 :: 0x3A :: 0x22 :: (hexText id.bytes ++ 0x22 :: [0x7D])

theorem channel_text_eq (r : AudioRemote) (rest : List UInt8) :
    channelText r ++ rest = frontText r.channelId ++ 0x22 :: (r.name ++ 0x22 :: 0x2C :: 0x22 ::
      (backText r.peerId ++ rest)) := by
  simp [channelText, node_id_hex_eq, frontText, backText, idMember, nameMember, peerMember]

def frontTokens (id : LinkId) : List Token :=
  [.punct 0x7B, .string idMember, .punct 0x3A, .string (hexText id.bytes), .punct 0x2C,
    .string nameMember, .punct 0x3A]

def backTokens (id : LinkId) : List Token :=
  [.punct 0x2C, .string peerMember, .punct 0x3A, .string (hexText id.bytes), .punct 0x7D]

theorem channel_tokens (r : AudioRemote) :
    (channelValue r).tokens = frontTokens r.channelId ++ .string r.name :: backTokens r.peerId := by
  simp [channelValue, Value.tokens, membersTokens, frontTokens, backTokens]

theorem hex_plain (bytes : List UInt8) : ∀ b ∈ hexText bytes, IsPlain b :=
  fun b hb => (hex_text_plain bytes b hb).1

theorem reads_front (id : LinkId) : Reads (frontText id) (frontTokens id) :=
  .cons (by decide) (.quoted (by decide) (.cons (by decide) (.quoted (hex_plain _)
    (.cons (by decide) (.quoted (by decide) (.cons (by decide) .nil))))))

theorem reads_back (id : LinkId) : Reads (0x2C :: 0x22 :: backText id) (backTokens id) :=
  .cons (by decide) (.quoted (by decide) (.cons (by decide) (.quoted (hex_plain _)
    (.cons (by decide) .nil))))

/-- A channel with a plain name is read as it should be. -/
theorem reads_channel {r : AudioRemote} (hname : ∀ b ∈ r.name, IsPlain b) :
    Reads (channelText r) (channelValue r).tokens := by
  have htext := channel_text_eq r []
  rw [List.append_nil, List.append_nil] at htext
  rw [htext, channel_tokens]
  exact (reads_front _).append (.quoted hname (reads_back _))

/-- Channels with plain names are. -/
theorem reads_entries {rs : List AudioRemote} (hnames : ∀ r ∈ rs, ∀ b ∈ r.name, IsPlain b) :
    Reads (entriesText rs) (itemsTokens (rs.map channelValue)) := by
  induction rs with
  | nil => exact .nil
  | cons r rs ih =>
      rw [List.forall_mem_cons] at hnames
      exact .cons (by decide) ((reads_channel hnames.1).append (ih hnames.2))

def openTokens : List Token :=
  [.punct 0x7B, .string channelsMember, .punct 0x3A, .punct 0x5B]

def closeTokens : List Token := [.punct 0x5D, .punct 0x7D]

theorem reads_open : Reads channelsOpen openTokens :=
  .cons (by decide) (.quoted (s := channelsMember) (by decide) (.cons (by decide)
    (.cons (by decide) .nil)))

theorem reads_close : Reads channelsClose closeTokens :=
  .cons (by decide) (.cons (by decide) .nil)

/-- The tokens of a list of channels. -/
theorem channels_tokens (rs : List AudioRemote) :
    (channelsValue rs).tokens =
      openTokens ++ (itemsTokens (rs.map channelValue)).tail ++ closeTokens := by
  simp [channelsValue, Value.tokens, membersTokens, openTokens, closeTokens]

/-- A list of channels with plain names is read as it should be. -/
theorem reads_list {rs : List AudioRemote} (hnames : ∀ r ∈ rs, ∀ b ∈ r.name, IsPlain b) :
    Reads (listText rs) (channelsValue rs).tokens := by
  have hentries : Reads (entriesFrom true rs) (itemsTokens (rs.map channelValue)).tail := by
    cases rs with
    | nil => exact .nil
    | cons r rs =>
        rw [List.forall_mem_cons] at hnames
        exact (reads_channel hnames.1).append (reads_entries hnames.2)
  rw [channels_tokens]
  exact (reads_open.append hentries).append reads_close

/-- What is read as a channel has the name of the channel, and a plain one. -/
theorem channel_plain {r : AudioRemote} {rest : List UInt8} {ts : List Token}
    (h : Lexes (channelText r ++ rest) ((channelValue r).tokens ++ ts)) :
    (∀ b ∈ r.name, IsPlain b) ∧ Lexes rest ts := by
  have hplain : ∀ b ∈ r.name, IsPlain b := by
    rw [channel_text_eq, channel_tokens, List.append_assoc, reads_front] at h
    obtain ⟨ts', htokens, hname⟩ := h
    obtain ⟨src, s, rest', ts'', htext, hchars, rfl, _⟩ := lexes_quote.mp hname
    obtain ⟨hs, -⟩ := List.cons.inj (List.append_cancel_left htokens)
    obtain rfl : r.name = s := Token.string.inj hs
    exact spliced_plain (c := 0x2C) (by decide) hchars htext.symm
  obtain ⟨ts', htokens, hrest⟩ := (reads_channel hplain _ _).mp h
  exact ⟨hplain, List.append_cancel_left htokens ▸ hrest⟩

theorem entries_text_cons (r : AudioRemote) (rs : List AudioRemote) (rest : List UInt8) :
    entriesText (r :: rs) ++ rest = 0x2C :: (channelText r ++ (entriesText rs ++ rest)) := by
  simp [entriesText]

theorem list_text_cons (r : AudioRemote) (rs : List AudioRemote) :
    listText (r :: rs) = channelsOpen ++ (channelText r ++ (entriesText rs ++ channelsClose)) := by
  rw [listText, entries_from_cons, if_pos rfl, List.nil_append, List.append_assoc,
    List.append_assoc]
  rfl

theorem items_tokens_cons (r : AudioRemote) (rs : List AudioRemote) (ts : List Token) :
    itemsTokens ((r :: rs).map channelValue) ++ ts =
      .punct 0x2C :: ((channelValue r).tokens ++ (itemsTokens (rs.map channelValue) ++ ts)) := by
  simp [itemsTokens]

/-- What is read as the channels shown has plain names only. -/
theorem entries_plain {all rs shown : List AudioRemote} (hrs : rs <+: all) (hshown : shown <+: all)
    (h : Lexes (entriesText rs ++ channelsClose)
      (itemsTokens (shown.map channelValue) ++ closeTokens)) :
    ∀ r ∈ rs, ∀ b ∈ r.name, IsPlain b := by
  induction rs generalizing all shown with
  | nil => simp
  | cons r rs ih =>
      rw [entries_text_cons] at h
      obtain ⟨ts, htokens, hread⟩ := (lexes_punct (by decide)).mp h
      cases shown with
      | nil => exact absurd (List.cons.inj htokens).1 (by decide)
      | cons r' shown =>
          obtain ⟨more, rfl⟩ := hrs
          obtain ⟨rfl, hshown'⟩ := List.cons_prefix_cons.mp hshown
          rw [items_tokens_cons] at htokens
          obtain ⟨-, rfl⟩ := List.cons.inj htokens
          obtain ⟨hplain, hrest⟩ := channel_plain hread
          rw [List.forall_mem_cons]
          exact ⟨hplain, ih (List.prefix_append _ _) hshown' hrest⟩

/-- A list of channels that is read as the channels shown has plain names only. -/
theorem list_plain {all rs shown : List AudioRemote} (hrs : rs <+: all) (hshown : shown <+: all)
    (h : Lexes (listText rs) (channelsValue shown).tokens) :
    ∀ r ∈ rs, ∀ b ∈ r.name, IsPlain b := by
  cases rs with
  | nil => simp
  | cons r rs =>
      rw [list_text_cons, channels_tokens, List.append_assoc, reads_open] at h
      obtain ⟨ts, htokens, hread⟩ := h
      obtain rfl := List.append_cancel_left htokens
      cases shown with
      | nil =>
          obtain ⟨ts', htokens', _⟩ := (lexes_punct (by decide)).mp hread
          exact absurd (List.cons.inj htokens').1 (by decide)
      | cons r' shown =>
          refine entries_plain hrs hshown ?_
          rw [entries_text_cons]
          exact (lexes_punct (by decide)).mpr ⟨_, rfl, hread⟩

/-- A channel is UTF-8 if its name is. -/
theorem channel_utf8 (r : AudioRemote) (rest : List UInt8) :
    Utf8 (channelText r ++ rest) ↔ Utf8 r.name ∧ Utf8 rest := by
  have hhex (bytes : List UInt8) : ∀ b ∈ hexText bytes, b < 0x80 :=
    fun b hb => (hex_text_plain bytes b hb).2
  have hfront : ∀ b ∈ frontText r.channelId ++ [0x22], b < 0x80 := by
    have hid := hhex r.channelId.bytes
    have hkeys : ∀ b ∈ idMember ++ nameMember, b < 0x80 := by decide
    grind [frontText]
  have hback : ∀ b ∈ 0x2C :: 0x22 :: backText r.peerId, b < 0x80 := by
    have hid := hhex r.peerId.bytes
    have hkey : ∀ b ∈ peerMember, b < 0x80 := by decide
    grind [backText]
  rw [channel_text_eq]
  have hsplit := utf8_append hfront (r.name ++ 0x22 :: (0x2C :: 0x22 :: backText r.peerId ++ rest))
  rw [List.append_assoc, utf8_split (by decide), utf8_append hback] at hsplit
  exact hsplit

/-- A list of channels is UTF-8 if the names are. -/
theorem list_utf8 (rs : List AudioRemote) : Utf8 (listText rs) ↔ ∀ r ∈ rs, Utf8 r.name := by
  have hclose : Utf8 channelsClose := by
    rw [channelsClose, utf8_cons (by decide), utf8_cons (by decide)]
    exact utf8_nil
  have hentries (rs : List AudioRemote) :
      Utf8 (entriesText rs ++ channelsClose) ↔ ∀ r ∈ rs, Utf8 r.name := by
    induction rs with
    | nil => simpa [entriesText] using hclose
    | cons r rs ih =>
        rw [entries_text_cons, utf8_cons (by decide), channel_utf8, ih, List.forall_mem_cons]
  cases rs with
  | nil =>
      have hempty : Utf8 (listText []) := (utf8_append (by decide) _).mpr hclose
      simpa using hempty
  | cons r rs =>
      rw [list_text_cons, utf8_append (by decide), channel_utf8, hentries, List.forall_mem_cons]

/-- The body lists the channels if and only if the names listed may stand between quotes as they
are. -/
theorem lists_channels_iff {w : AudioWorld} (hnames : RemoteNames w) (path body : List UInt8)
    (blen : UInt32) (resp : HttpResponse) (sRespBuf : List UInt8) :
    ListsChannels w (serveChannels path body blen resp sRespBuf w).1 ↔
      ∀ r ∈ listedChannels w, Quotable r.name := by
  obtain ⟨hcontent, hfits, hall⟩ := serve_channels_prints hnames path body blen resp sRespBuf
  have hlisted : listedChannels w <+: inUseChannels w := within_slack_prefix _ _
  constructor
  · rintro ⟨-, shown, hshown, -, hreads⟩ r hr
    obtain ⟨hutf8, hlexes⟩ := (hreads _).mpr rfl
    rw [hcontent] at hutf8 hlexes
    exact ⟨(list_utf8 _).mp hutf8 r hr, list_plain hlisted hshown hlexes r hr⟩
  · intro hquotable
    have hreads := reads_list fun r hr => (hquotable r hr).2
    refine ⟨hfits, listedChannels w, hlisted, hall, fun v => ?_⟩
    rw [hcontent, Denotes, hreads.lexes_iff]
    constructor
    · rintro ⟨-, htokens⟩
      exact tokens_injective htokens
    · rintro rfl
      exact ⟨(list_utf8 _).mpr fun r hr => (hquotable r hr).1, rfl⟩

/-- After any run, what `serve_channels` answers lists the catalog if and only if the names of the
channels that there is room for may stand between quotes as they are: they are UTF-8 and have no
quote, no backslash and no control character. -/
theorem channel_list_iff (core : World) (ports : Nat) (calls : List AudioCall)
    (path body : List UInt8) (blen : UInt32) (resp : HttpResponse) (sRespBuf : List UInt8) :
    let w := run callAudio (audioBoot core ports) calls
    ListsChannels w (serveChannels path body blen resp sRespBuf w).1 ↔
      ∀ r ∈ listedChannels w, Quotable r.name :=
  lists_channels_iff (run_names core ports calls) path body blen resp sRespBuf

/-- `7" mix`. -/
def mixName : List UInt8 := [0x37, 0x22, 0x20, 0x6D, 0x69, 0x78]

/-- The node has heard of one channel, which has this name. -/
def mixAnnounced : AudioWorld :=
  let buf := encodeAudioHeader (.ofBytes [7]) 1 5 ++ tlvEmitBytes keyAuca
    (putBe32 1 ++ putBe32 6 ++ mixName ++ (LinkId.ofBytes [1, 2, 3]).bytes)
  run callAudio (audioBoot (powerOn (fun _ => 0) 0 []) 1)
    [.event (.rx (memOf buf) (.ofNat buf.length) 0x0A000002 4000)]

/-- The list of channels is not JSON. -/
theorem quote_not_escaped : ¬ ListsChannels mixAnnounced
    (serveChannels [] [] 0 (.plain 200 "") (List.replicate sRespBufMax 0) mixAnnounced).1 := by
  intro hlists
  have hnames : RemoteNames mixAnnounced := run_names _ _ _
  have hlisted : (listedChannels mixAnnounced).map (·.name) = [mixName] := by decide +kernel
  obtain ⟨r, hr, hname⟩ := List.mem_map.mp (hlisted ▸ List.mem_singleton.mpr rfl :
    mixName ∈ (listedChannels mixAnnounced).map (·.name))
  have hplain := ((lists_channels_iff hnames _ _ _ _ _).mp hlists r hr).2
  rw [hname] at hplain
  exact absurd hplain (by decide)

end LinkFPGA
