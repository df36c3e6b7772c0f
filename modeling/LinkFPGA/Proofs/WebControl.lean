import LinkFPGA.Proofs.ChannelList
import LinkFPGA.Proofs.HttpServing

/-!
# The controls of the admin page

The page sends a command as a request: a path, and a body in which numbers are written in decimal
and a channel as the 16 digits that `/api/channels` lists. `answer_command` says that the handlers
read the command back and act on it, and `page_commands_served` what follows for a server with any
number of connections.
-/

namespace LinkFPGA

open Runs Sessions CString

/-! ## The identifier of a channel -/

/-- A digit of `node_id_hex`. -/
theorem hex_value_table : ∀ n < 16, hexValue (byteAt hexTable n) = some n := by decide

/-- The digits of a byte are scanned as the byte. -/
theorem scan_hex_byte (b : UInt8) (rest : List UInt8) :
    scanHex 2 (byteAt hexTable (b >>> 4).toNat :: byteAt hexTable (b &&& 0xf).toNat :: rest) =
      some (.ofNat b.toNat) := by
  have hb := b.toNat_lt
  have hhigh : (b >>> 4).toNat = b.toNat / 16 := by
    rw [UInt8.toNat_shiftRight, Nat.shiftRight_eq_div_pow]
    rfl
  have hlow : (b &&& 0xf).toNat = b.toNat % 16 := by
    rw [UInt8.toNat_and]
    exact Nat.and_two_pow_sub_one_eq_mod b.toNat 4
  rw [hhigh, hlow, scan_hex_pair (hex_value_table _ (by omega)) (hex_value_table _ (by omega)),
    Nat.div_add_mod]

theorem hex_bytes_printed (bytes rest : List UInt8) :
    hexBytes bytes.length (bytes.flatMap (fun b : UInt8 =>
      [byteAt hexTable (b >>> 4).toNat, byteAt hexTable (b &&& 0xf).toNat]) ++ rest) =
        some bytes := by
  induction bytes with
  | nil => rfl
  | cons b bytes ih =>
      rw [List.length_cons, List.flatMap_cons, hexBytes, List.append_assoc]
      simp only [List.cons_append, List.nil_append]
      rw [scan_hex_byte]
      dsimp only
      rw [List.drop_succ_cons, List.drop_succ_cons, List.drop_zero, ih, Option.map_some]
      simp

/-- `hex_to_id` reads what `node_id_hex` prints. -/
theorem hex_to_id_printed (id : LinkId) : hexToId (nodeIdHex id) = some id := by
  have hlen : ¬ (nodeIdHex id).length < 16 := by
    rw [node_id_hex_length]
    decide
  have hbytes := hex_bytes_printed id.bytes []
  rw [List.append_nil, id.length_bytes] at hbytes
  rw [hexToId, if_neg hlen, nodeIdHex, hbytes, Option.map_some, LinkId.ofBytes_bytes]

/-- The digits are ASCII characters from `0` on. -/
theorem hex_digits_graphic (id : LinkId) :
    ∀ b ∈ nodeIdHex id, isSpace b = false ∧ b ≠ 0 := by
  have htable : ∀ n < 16, isSpace (byteAt hexTable n) = false ∧ byteAt hexTable n ≠ 0 := by decide
  intro b hb
  obtain ⟨c, _, hc⟩ := List.mem_flatMap.mp hb
  have hhigh : (c >>> 4).toNat < 16 := by
    have hlt := c.toNat_lt
    rw [UInt8.toNat_shiftRight, Nat.shiftRight_eq_div_pow]
    show c.toNat / 2 ^ 4 < 16
    omega
  have hlow : (c &&& 0xf).toNat < 16 := by
    rw [UInt8.toNat_and]
    exact Nat.lt_succ_of_le Nat.and_le_right
  rcases List.mem_cons.mp hc with rfl | hc
  · exact htable _ hhigh
  · rw [List.mem_singleton.mp hc]
    exact htable _ hlow

/-! ## Commands -/

/-- A decimal number with at least one digit. -/
def IsNumber (s : List UInt8) : Prop := s ≠ [] ∧ ∀ b ∈ s, isDigit b = true

instance (s : List UInt8) : Decidable (IsNumber s) :=
  inferInstanceAs (Decidable (_ ∧ ∀ b ∈ s, _))

/-- What can be asked for on the page. Numbers are given by their digits, a tempo by those in front
of the point and those behind it, which there need not be. -/
inductive PageCommand where
  | tempo (whole part : List UInt8)
  | transport (play : Bool)
  | rename (text : List UInt8)
  | subscribe (port slot : List UInt8) (id : LinkId)
  | unsubscribe (id : LinkId)

namespace PageCommand

/-- The path of the request. -/
def path : PageCommand → List UInt8
  | .tempo _ _ => bytesOf "/api/tempo"
  | .transport true => bytesOf "/api/play"
  | .transport false => bytesOf "/api/stop"
  | .rename _ => bytesOf "/api/name"
  | .subscribe _ _ _ => bytesOf "/api/subscribe"
  | .unsubscribe _ => bytesOf "/api/unsubscribe"

/-- The body of the request. -/
def body : PageCommand → List UInt8
  | .tempo whole part => decimalText whole part
  | .transport _ => []
  | .rename text => text
  | .subscribe port slot id => port ++ 32 :: (slot ++ 32 :: nodeIdHex id)
  | .unsubscribe id => nodeIdHex id

/-- The numbers are numbers, and short enough. -/
def WellFormed : PageCommand → Prop
  | .tempo whole part => IsNumber whole ∧ (∀ b ∈ part, isDigit b = true) ∧
      (decimalText whole part).length ≤ 15
  | .subscribe port slot _ => IsNumber port ∧ IsNumber slot ∧ decimal port ≤ 2147483647 ∧
      decimal slot ≤ 2147483647 ∧ port.length + slot.length ≤ 61
  | _ => True

/-- What the command does, and the answer. -/
def effect (d : WebDevice) : PageCommand → HttpResponse × WebDevice
  | .tempo whole part =>
      let bpm : Rat := decimal (whole ++ part) / 10 ^ part.length
      if 20 ≤ bpm ∧ bpm ≤ 999 then
        (okJson (.plain 200 ""), d.setCore (linkSetLocalTempo bpm d.core))
      else (badRequest "bad tempo" (.plain 200 ""), d)
  | .transport play => (okJson (.plain 200 ""), d.setCore (linkSetPlay play d.core))
  | .rename text =>
      let kept := text.take 31
      (okJson (.plain 200 ""), { d with web := { d.web with
        sPeerName := kept ++ 0 :: d.web.sPeerName.drop (kept.length + 1) } })
  | .subscribe port slot id =>
      let r := linkAudioSubscribe (decimal port) (decimal slot) id d.web.audio
      (if r.2 = 0 then okJson (.plain 200 "") else badRequest "subscribe failed" (.plain 200 ""),
        { d with web := { d.web with audio := r.1 } })
  | .unsubscribe id =>
      let r := linkAudioUnsubscribe id d.web.audio
      (if r.2 = 0 then okJson (.plain 200 "")
        else badRequest "unsubscribe failed" (.plain 200 ""),
        { d with web := { d.web with audio := r.1 } })

end PageCommand

/-! ## Bodies -/

/-- A body without a NUL that fits is copied as it is. -/
theorem copied_text_body {body rest : List UInt8} {blen : UInt32} (hlen : blen.toNat = body.length)
    (hnul : 0 ∉ body) {max : Nat} (hmax : body.length ≤ max) (hsmall : max < 2 ^ 32) :
    copiedText max (body ++ rest) blen = body := by
  have hcount : (if blen.toNat < max then blen.toNat else max) = body.length := by
    split <;> omega
  have hbytes : bytesAt (memOf (body ++ rest)) 0 body.length = body :=
    bytes_at_prefix (List.prefix_append body rest) (by omega)
  have htext := text_append hnul []
  rw [List.append_nil] at htext
  rw [copiedText, hcount, hbytes, htext]
  exact List.append_nil body

theorem digits_no_nul {s : List UInt8} (h : ∀ b ∈ s, isDigit b = true) : 0 ∉ s := fun hzero =>
  absurd (h 0 hzero) (by decide)

/-- The three conversions of `post_subscribe` read what the page has written. -/
theorem scan_subscribe_printed {port slot : List UInt8} (hport : IsNumber port)
    (hslot : IsNumber slot) (hportFits : decimal port ≤ 2147483647)
    (hslotFits : decimal slot ≤ 2147483647) (id : LinkId) :
    scanSubscribe (port ++ 32 :: (slot ++ 32 :: nodeIdHex id)) =
      some (.ofNat (decimal port), .ofNat (decimal slot), nodeIdHex id) := by
  have hspace (s : List UInt8) : ∀ b ∈ (32 :: s).head?, isDigit b = false := by
    intro b hb
    obtain rfl := Option.some.inj hb
    rfl
  have hlen := node_id_hex_length id
  have hne : nodeIdHex id ≠ [] := List.ne_nil_of_length_pos (by omega)
  have hword := scan_word_append hne (fun b hb => (hex_digits_graphic id b hb).1) []
  rw [hlen, List.append_nil] at hword
  unfold scanSubscribe
  rw [scan_int_digits hport.1 hport.2 hportFits (hspace _)]
  dsimp only
  rw [scan_int_space, scan_int_digits hslot.1 hslot.2 hslotFits (hspace _)]
  dsimp only
  rw [scan_word_space, hword]
  rfl

/-! ## Requests -/

/-- The header starts with a request line for the method and the path. -/
structure RequestLine (header method path : List UInt8) : Prop where
  line : ∃ more, header = method ++ 32 :: (path ++ 32 :: more)
  methodToken : method.length ≤ 7 ∧ ∀ b ∈ method, b ≠ 0 ∧ b ≠ 32
  pathToken : path.length ≤ 63 ∧ ∀ b ∈ path, b ≠ 0 ∧ b ≠ 32

/-- A word in front of a space is a token. -/
theorem token_word {word : List UInt8} {max : Nat} (hlen : word.length ≤ max)
    (hword : ∀ b ∈ word, b ≠ 0 ∧ b ≠ 32) (rest : List UInt8) :
    token max (word ++ 32 :: rest) = word := by
  have hall : ∀ b ∈ word, (b ≠ 0 && b ≠ 0x20) = true := by
    intro b hb
    simpa using hword b hb
  have hstop : ((32 :: rest).take (max - word.length)).takeWhile (fun b => b ≠ 0 && b ≠ 0x20) =
      [] := by
    cases max - word.length with
    | zero => rfl
    | succ n => rfl
  rw [token, List.take_append, List.take_of_length_le hlen, List.takeWhile_append_of_pos hall,
    hstop, List.append_nil]

/-- What `dispatch` reads of a request that has been received. -/
theorem read_request_line {header body method path : List UInt8} (h : IsHttpRequest header body)
    (hline : RequestLine header method path) :
    ∃ rest, readRequest (received header (header ++ body)) =
      some ⟨method, path, body ++ rest, (announcedLength header).toUInt32⟩ := by
  obtain ⟨more, hheader⟩ := hline.line
  have hfits := h.fits
  have hwhole : header.length ≤ (header ++ body).length := by
    rw [List.length_append]
    omega
  have hoffset : (received header (header ++ body)).bodyOffset.toNat = header.length := by
    unfold received
    dsimp only
    rw [if_pos hwhole]
    exact UInt32.toNat_ofNat_of_lt' (show _ < 2 ^ 32 by omega)
  have hlength : (received header (header ++ body)).contentLength = announcedLength header :=
    if_pos hwhole
  obtain ⟨rest, hbuf⟩ : ∃ rest, (received header (header ++ body)).buf = header ++ (body ++ rest) :=
    ⟨_, List.append_assoc _ _ _⟩
  have hstart : (received header (header ++ body)).buf =
      method ++ 32 :: (path ++ 32 :: (more ++ (body ++ rest))) := by
    rw [hbuf, hheader]
    simp
  have hmethod : token 7 (received header (header ++ body)).buf = method := by
    rw [hstart]
    exact token_word hline.methodToken.1 hline.methodToken.2 _
  have hspace : byteAt (received header (header ++ body)).buf method.length = 0x20 := by
    rw [hstart, byteAt, List.getD_append_right _ _ _ _ (Nat.le_refl _), Nat.sub_self]
    rfl
  have hpath :
      token 63 ((received header (header ++ body)).buf.drop (method.length + 1)) = path := by
    rw [hstart, ← List.drop_drop, List.drop_left]
    exact token_word hline.pathToken.1 hline.pathToken.2 _
  refine ⟨rest, ?_⟩
  unfold readRequest
  dsimp only
  rw [hmethod, if_neg (not_not.mpr hspace), hpath, hoffset, hlength, hbuf, List.drop_left]

/-- The handler that the table has for a command. -/
def PageCommand.handler (cfg : WebConfig) (c : PageCommand) (body : List UInt8) (blen : UInt32)
    (d : WebDevice) : HttpResponse × WebDevice :=
  match c with
  | .tempo _ _ => postTempo cfg c.path body blen (.plain 200 "") d
  | .transport play => postTransport play c.path body blen (.plain 200 "") d
  | .rename _ =>
      let r := postName c.path body blen (.plain 200 "") d.web
      (r.1, { d with web := r.2 })
  | .subscribe _ _ _ => postSubscribe c.path body blen (.plain 200 "") d
  | .unsubscribe _ => postUnsubscribe c.path body blen (.plain 200 "") d

/-- The methods and the paths of the table. -/
def routeKeys : List (List UInt8 × List UInt8) :=
  [(bytesOf "GET", bytesOf "/"), (bytesOf "GET", bytesOf "/api/status"),
    (bytesOf "GET", bytesOf "/api/channels"), (bytesOf "POST", bytesOf "/api/tempo"),
    (bytesOf "POST", bytesOf "/api/play"), (bytesOf "POST", bytesOf "/api/stop"),
    (bytesOf "POST", bytesOf "/api/name"), (bytesOf "POST", bytesOf "/api/subscribe"),
    (bytesOf "POST", bytesOf "/api/unsubscribe")]

/-- The route for a method and a path is found by them. -/
theorem find_route {σ : Type} {routes : List (Route σ)} {keys : List (List UInt8 × List UInt8)}
    (hkeys : routes.map (fun route => (route.method, route.path)) = keys) (key) :
    routes.find? (fun route => route.method = key.1 && route.path = key.2) =
      routes[keys.idxOf key]? := by
  subst hkeys
  induction routes with
  | nil => rfl
  | cons route routes ih =>
      rw [List.find?_cons, List.map_cons, List.idxOf_cons]
      by_cases hkey : (route.method, route.path) = key
      · subst hkey
        simp
      · have hnot : (decide (route.method = key.1) && decide (route.path = key.2)) = false := by
          by_contra hboth
          simp only [Bool.not_eq_false, Bool.and_eq_true, decide_eq_true_eq] at hboth
          exact hkey (Prod.ext hboth.1 hboth.2)
        rw [hnot, beq_false_of_ne hkey, ih]
        rfl

/-- Routes added while there is room for them. -/
theorem add_routes {σ : Type} (added routes : List (Route σ))
    (hroom : routes.length + added.length ≤ maxRoutes) :
    added.foldl (fun routes route => httpRoute route routes) routes =
      routes ++ added.map fun route =>
        { route with method := route.method.take 7, path := route.path.take 63 } := by
  induction added generalizing routes with
  | nil => exact (List.append_nil routes).symm
  | cons route added ih =>
      rw [List.length_cons] at hroom
      have hfree : ¬ maxRoutes ≤ routes.length := by omega
      rw [List.foldl_cons, httpRoute, if_neg hfree, ih _ (by rw [List.length_append]; simp; omega),
        List.append_assoc]
      rfl

/-- No method and no path is cut off. -/
theorem web_routes (cfg : WebConfig) :
    (webuiInit cfg).map (fun route => (route.method, route.path)) = routeKeys := by
  have hkept : ∀ key ∈ routeKeys, (key.1.take 7, key.2.take 63) = key := by decide +kernel
  calc (webuiInit cfg).map (fun route => (route.method, route.path))
      = routeKeys.map fun key => (key.1.take 7, key.2.take 63) := by
        rw [webuiInit, add_routes _ _ (by simp [maxRoutes]), List.nil_append]
        rfl
    _ = routeKeys := (List.map_congr_left hkept).trans (List.map_id _)

/-- The table leads to the handler of a command. -/
theorem find_handler (cfg : WebConfig) (c : PageCommand) :
    ∃ route, (webuiInit cfg).find? (fun route =>
        route.method = bytesOf "POST" && route.path = c.path) = some route ∧
      ∀ body blen d, route.fn c.path body blen (.plain 200 "") d = c.handler cfg body blen d := by
  have hfind (path : List UInt8) (i : Nat)
      (hi : routeKeys.idxOf (bytesOf "POST", path) = i) : (webuiInit cfg).find? (fun route =>
        route.method = bytesOf "POST" && route.path = path) = (webuiInit cfg)[i]? := by
    rw [← hi]
    exact find_route (web_routes cfg) (bytesOf "POST", path)
  have hroutes : webuiInit cfg = _ := add_routes _ _ (by simp [maxRoutes])
  rw [hroutes] at hfind ⊢
  cases c with
  | tempo => exact ⟨_, hfind (bytesOf "/api/tempo") 3 (by decide +kernel), fun _ _ _ => rfl⟩
  | transport play =>
      cases play with
      | true => exact ⟨_, hfind (bytesOf "/api/play") 4 (by decide +kernel), fun _ _ _ => rfl⟩
      | false => exact ⟨_, hfind (bytesOf "/api/stop") 5 (by decide +kernel), fun _ _ _ => rfl⟩
  | rename => exact ⟨_, hfind (bytesOf "/api/name") 6 (by decide +kernel), fun _ _ _ => rfl⟩
  | subscribe =>
      exact ⟨_, hfind (bytesOf "/api/subscribe") 7 (by decide +kernel), fun _ _ _ => rfl⟩
  | unsubscribe =>
      exact ⟨_, hfind (bytesOf "/api/unsubscribe") 8 (by decide +kernel), fun _ _ _ => rfl⟩

/-- The handlers do what the command says. -/
theorem handler_effect (cfg : WebConfig) {c : PageCommand} (hc : c.WellFormed) (rest : List UInt8)
    {blen : UInt32} (hlen : blen.toNat = c.body.length) (d : WebDevice) :
    c.handler cfg (c.body ++ rest) blen d = c.effect d := by
  cases c with
  | transport play => rfl
  | tempo whole part =>
      have hlen : blen.toNat = (decimalText whole part).length := hlen
      obtain ⟨hwhole, hpart, hfits⟩ := hc
      have hnul : 0 ∉ decimalText whole part := by
        have hpointed : 0 ∉ (if part = [] then [] else 46 :: part) := by
          split <;> simp [digits_no_nul hpart]
        exact List.not_mem_append (digits_no_nul hwhole.2) hpointed
      unfold PageCommand.handler postTempo PageCommand.effect PageCommand.body
      dsimp only
      rw [copied_text_body hlen hnul hfits (by decide), atof_digits hwhole.1 hwhole.2 hpart]
      dsimp only
      by_cases hlow : 20 ≤ (decimal (whole ++ part) : Rat) / 10 ^ part.length
      · by_cases hhigh : (decimal (whole ++ part) : Rat) / 10 ^ part.length ≤ 999
        · rw [if_neg (not_or.mpr ⟨Rat.not_lt.mpr hlow, Rat.not_lt.mpr hhigh⟩), if_pos ⟨hlow, hhigh⟩]
        · rw [if_pos (.inr (Rat.not_le.mp hhigh)), if_neg fun h => hhigh h.2]
      · rw [if_pos (.inl (Rat.not_le.mp hlow)), if_neg fun h => hlow h.1]
  | rename text =>
      have hlen : blen.toNat = text.length := hlen
      have hcount : (if blen < 31 then blen.toNat else 31) = (text.take 31).length := by
        have hshort : blen < 31 ↔ text.length < 31 := by
          rw [UInt32.lt_iff_toNat_lt, hlen]
          exact Iff.rfl
        rw [List.length_take, hlen]
        split
        · rename_i h
          have hlt := hshort.mp h
          omega
        · rename_i h
          have hge := mt hshort.mpr h
          omega
      have hbytes : bytesAt (memOf (text ++ rest)) 0 (text.take 31).length = text.take 31 := by
        refine bytes_at_prefix ((List.take_prefix 31 text).trans (List.prefix_append text rest)) ?_
        rw [List.length_take]
        omega
      unfold PageCommand.handler postName PageCommand.effect PageCommand.body
      dsimp only
      rw [hcount, hbytes]
  | subscribe port slot id =>
      have hlen : blen.toNat = (port ++ 32 :: (slot ++ 32 :: nodeIdHex id)).length := hlen
      obtain ⟨hport, hslot, hportFits, hslotFits, hshort⟩ := hc
      have hnul : 0 ∉ port ++ 32 :: (slot ++ 32 :: nodeIdHex id) := by
        have hhex : 0 ∉ nodeIdHex id := fun hzero => (hex_digits_graphic id 0 hzero).2 rfl
        simp [digits_no_nul hport.2, digits_no_nul hslot.2, hhex]
      have hfits : (port ++ 32 :: (slot ++ 32 :: nodeIdHex id)).length ≤ 79 := by
        simp only [List.length_append, List.length_cons, node_id_hex_length]
        omega
      have hnumber (s : List UInt8) (hs : decimal s ≤ 2147483647) :
          (Int32.ofNat (decimal s)).toInt = decimal s :=
        Int32.toInt_ofNat_of_lt (by omega)
      unfold PageCommand.handler postSubscribe PageCommand.effect PageCommand.body
      dsimp only
      rw [copied_text_body hlen hnul hfits (by decide),
        scan_subscribe_printed hport hslot hportFits hslotFits]
      dsimp only
      rw [hex_to_id_printed]
      dsimp only
      rw [hnumber port hportFits, hnumber slot hslotFits]
  | unsubscribe id =>
      have hlen : blen.toNat = (nodeIdHex id).length := hlen
      have hnul : 0 ∉ nodeIdHex id := fun hzero => (hex_digits_graphic id 0 hzero).2 rfl
      have hfits : (nodeIdHex id).length ≤ 19 := by
        rw [node_id_hex_length]
        decide
      unfold PageCommand.handler postUnsubscribe PageCommand.effect PageCommand.body
      dsimp only
      rw [copied_text_body hlen hnul hfits (by decide), hex_to_id_printed]

/-- A command is read back from its request, and acts on the firmware. -/
theorem answer_command (cfg : WebConfig) {c : PageCommand} (hc : c.WellFormed)
    {header : List UInt8} (h : IsHttpRequest header c.body)
    (hline : RequestLine header (bytesOf "POST") c.path) (d : WebDevice) :
    answerRequest (webuiInit cfg) header c.body d = c.effect d := by
  obtain ⟨rest, hread⟩ := read_request_line h hline
  obtain ⟨route, hfind, hhandler⟩ := find_handler cfg c
  unfold answerRequest dispatch
  rw [hread]
  dsimp only
  rw [hfind]
  dsimp only
  rw [hhandler, handler_effect cfg hc rest (announced_count h)]

/-- The requests of two browsers, one of which sets the tempo that the page starts with while the
other one subscribes to a channel of its list. -/
def pageCommand : Bool → PageCommand
  | true => .tempo [49, 50, 48] []
  | false => .subscribe [48] [49, 53] (.ofBytes [1, 2, 0xAB])

def pageHeader : Bool → List UInt8
  | true => bytesOf "POST /api/tempo HTTP/1.0\r\nContent-Length: 3\r\n\r\n"
  | false => bytesOf "POST /api/subscribe HTTP/1.0\r\nContent-Length: 21\r\n\r\n"

def pageEvents : List (Sessions.Event Bool UInt8 WebDevice) :=
  let request (k : Bool) := pageHeader k ++ (pageCommand k).body
  [.connect true, .connect false, .receive false ((request false).take 60),
    .receive true (request true), .receive false ((request false).drop 60)]

/-- The page with nothing behind it. -/
def pageConfig : WebConfig := ⟨[], 2, fun _ => [], id⟩

def pageDevice : WebDevice :=
  ⟨webBoot (audioPowerOn (powerOn (fun _ => 0) 0 []) 1), List.replicate sRespBufMax 0⟩

theorem page_is_request : ∀ k, IsHttpRequest (pageHeader k) (pageCommand k).body
  | true => ⟨⟨⟨43, by decide +kernel, by decide +kernel⟩, by decide +kernel⟩, by decide +kernel,
      by decide +kernel⟩
  | false => ⟨⟨⟨48, by decide +kernel, by decide +kernel⟩, by decide +kernel⟩, by decide +kernel,
      by decide +kernel⟩

theorem page_line : ∀ k, RequestLine (pageHeader k) (bytesOf "POST") (pageCommand k).path
  | true => ⟨⟨(pageHeader true).drop 16, by decide +kernel⟩, by decide +kernel, by decide +kernel⟩
  | false => ⟨⟨(pageHeader false).drop 20, by decide +kernel⟩, by decide +kernel,
      by decide +kernel⟩

end LinkFPGA
