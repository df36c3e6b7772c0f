import Mathlib.Data.List.Find
import LinkFPGA.Proofs.RequestBuffer

/-!
# Content-Length

Which number `parse_headers` takes from a header block of a request line and `name: value` lines.
The right one stands in the first line whose name is `Content-Length` in any letter case. The scan
knows two spellings, and looks for them in the whole block: in the request line, inside other names
and inside values. It finds the right number when the first place where a spelling stands is the
name of that line, and else only by chance (`content_length_iff`).
-/

namespace LinkFPGA

/-! ## Header blocks -/

/-- `"\r\n"`. -/
def crlf : List UInt8 := [13, 10]

/-- A part of one line of a C string. -/
def OneLine (s : List UInt8) : Prop := ∀ b ∈ s, b ≠ 13 ∧ b ≠ 10 ∧ b ≠ 0

/-- A header field. The blank behind the colon belongs to the value. -/
structure HeaderField where
  name : List UInt8
  value : List UInt8
  nameLine : OneLine name
  valueLine : OneLine value
  noColon : 58 ∉ name

def HeaderField.text (f : HeaderField) : List UInt8 := f.name ++ 58 :: f.value

def HeaderField.line (f : HeaderField) : List UInt8 := f.text ++ crlf

/-- A request line and header fields. -/
structure HttpHead where
  requestLine : List UInt8
  fields : List HeaderField
  oneLine : OneLine requestLine

/-- The header block, with its empty line. -/
def HttpHead.block (head : HttpHead) : List UInt8 :=
  head.requestLine ++ (crlf ++ (head.fields.flatMap HeaderField.line ++ crlf))

/-- What ends the headers starts here. -/
def HttpHead.eol (head : HttpHead) : Nat :=
  head.requestLine.length + (head.fields.flatMap HeaderField.line).length

theorem OneLine.no_cr {s : List UInt8} (h : OneLine s) : 13 ∉ s := fun hin => (h 13 hin).1 rfl

theorem OneLine.no_nul {s : List UInt8} (h : OneLine s) : 0 ∉ s := fun hin => (h 0 hin).2.2 rfl

theorem HeaderField.text_line (f : HeaderField) : OneLine f.text := by
  intro b hb
  rcases List.mem_append.mp hb with hname | hrest
  · exact f.nameLine b hname
  · rcases List.mem_cons.mp hrest with rfl | hvalue
    · decide
    · exact f.valueLine b hvalue

theorem HttpHead.block_length (head : HttpHead) : head.block.length = head.eol + 4 := by
  unfold HttpHead.block HttpHead.eol crlf
  simp only [List.length_append, List.length_cons, List.length_nil]
  omega

/-- A line that is not empty does not end the headers. -/
theorem strstr_line {s : List UInt8} (hcr : 13 ∉ s) (hne : s ≠ []) (t : List UInt8) :
    CString.strstr crlfcrlf (crlf ++ (s ++ t)) =
      (CString.strstr crlfcrlf t).map (· + (s.length + 2)) := by
  obtain ⟨b, s, rfl⟩ := List.exists_cons_of_ne_nil hne
  have hb : (13 : UInt8) ≠ b := fun h => hcr (h ▸ List.mem_cons_self)
  have hskip := CString.strstr_skip [10, 13, 10] hcr t
  have hstart : ¬ crlfcrlf.isPrefixOf (13 :: 10 :: (b :: s ++ t)) = true := by
    simp [crlfcrlf, List.isPrefixOf, hb]
  have hnext : ¬ crlfcrlf.isPrefixOf (10 :: (b :: s ++ t)) = true := by
    simp [crlfcrlf, List.isPrefixOf]
  have htwo : crlf ++ (b :: s ++ t) = 13 :: 10 :: (b :: s ++ t) := rfl
  rw [htwo, CString.strstr, if_neg hstart, CString.strstr, if_neg hnext, crlfcrlf, hskip,
    Option.map_map, Option.map_map]
  rfl

/-- Behind a line end the headers end with the last field. -/
theorem strstr_fields (fields : List HeaderField) :
    CString.strstr crlfcrlf (crlf ++ (fields.flatMap HeaderField.line ++ crlf)) =
      some (fields.flatMap HeaderField.line).length := by
  induction fields with
  | nil => rfl
  | cons f fields ih =>
      have hne : f.text ≠ [] := by simp [HeaderField.text]
      have hsplit : (f :: fields).flatMap HeaderField.line ++ crlf =
          f.text ++ (crlf ++ (fields.flatMap HeaderField.line ++ crlf)) := by
        simp [HeaderField.line]
      rw [hsplit, strstr_line f.text_line.no_cr hne, ih, Option.map_some]
      congr 1
      simp [HeaderField.line, crlf]
      omega

/-- A header block ends at its first empty line. -/
theorem HttpHead.strstr_block (head : HttpHead) :
    CString.strstr crlfcrlf head.block = some head.eol := by
  unfold HttpHead.block
  rw [crlfcrlf, CString.strstr_skip _ head.oneLine.no_cr, ← crlfcrlf, strstr_fields,
    Option.map_some]
  unfold HttpHead.eol
  rw [Nat.add_comm]

theorem HttpHead.block_no_nul (head : HttpHead) : 0 ∉ head.block := by
  have hcrlf : (0 : UInt8) ∉ crlf := by decide
  have hlines : 0 ∉ head.fields.flatMap HeaderField.line := by
    intro hin
    obtain ⟨f, -, hf⟩ := List.mem_flatMap.mp hin
    rcases List.mem_append.mp hf with htext | hend
    · exact f.text_line.no_nul htext
    · exact hcrlf hend
  simp [HttpHead.block, head.oneLine.no_nul, hcrlf, hlines]

/-! ## The right number -/

/-- An ASCII letter in lower case. -/
def asciiLower (b : UInt8) : UInt8 := if 65 ≤ b ∧ b ≤ 90 then b + 32 else b

/-- The first of some fields that is named `Content-Length` in any letter case: where its line
starts, when the first field starts at `off`, and its value. -/
def contentLengthField : Nat → List HeaderField → Option (Nat × List UInt8)
  | _, [] => none
  | off, f :: fields =>
      if f.name.map asciiLower = contentLengthLower then some (off, f.value)
      else contentLengthField (off + f.line.length) fields

/-- The `Content-Length` field of a header block. -/
def HttpHead.lengthField (head : HttpHead) : Option (Nat × List UInt8) :=
  contentLengthField (head.requestLine.length + 2) head.fields

/-- The decimal value of that field, 0 without one. -/
def HttpHead.announced (head : HttpHead) : Int :=
  match head.lengthField with
  | none => 0
  | some (_, value) => CString.signedDecimal (value.dropWhile CString.isSpace)

theorem length_field_split {off i : Nat} {fields : List HeaderField} {value : List UInt8}
    (h : contentLengthField off fields = some (i, value)) :
    ∃ before f after, fields = before ++ f :: after ∧
      i = off + (before.flatMap HeaderField.line).length ∧ f.value = value ∧
      f.name.map asciiLower = contentLengthLower := by
  induction fields generalizing off with
  | nil => cases h
  | cons f fields ih =>
      unfold contentLengthField at h
      split at h
      · rename_i hname
        obtain ⟨rfl, rfl⟩ := Prod.mk.inj (Option.some.inj h)
        exact ⟨[], f, fields, rfl, rfl, rfl, hname⟩
      · obtain ⟨before, g, after, rfl, rfl, hvalue, hname⟩ := ih h
        refine ⟨f :: before, g, after, rfl, ?_, hvalue, hname⟩
        rw [List.flatMap_cons, List.length_append]
        omega

/-! ## The number that is found -/

/-- The first place in the headers where one of the two spellings stands. -/
def HttpHead.spelled (head : HttpHead) : Option Nat :=
  (List.range head.eol).find? fun i => namesContentLength (head.block.drop i)

/-- The number behind the next colon, 0 when there is none in the headers. White space in front of
it is skipped, line ends included, up to what was received behind the headers. -/
def HttpHead.numberBehind (head : HttpHead) (rest : List UInt8) (i : Nat) : Int :=
  match CString.strchr (head.block.drop i) 58 with
  | none => 0
  | some colon =>
      if i + colon < head.eol then
        (CString.atoi ((head.block ++ CString.text rest).drop (i + colon + 1))).toInt
      else 0

/-- The loop of `parse_headers` stops at the first place with a spelling. -/
theorem find_content_length_eq (eol : Nat) (s : List UInt8) :
    findContentLength eol s =
      match (List.range eol).find? fun i => namesContentLength (s.drop i) with
      | none => 0
      | some i =>
          match CString.strchr (s.drop i) 58 with
          | none => 0
          | some colon => if i + colon < eol then CString.atoi (s.drop (i + colon + 1)) else 0 := by
  induction eol generalizing s with
  | zero => rfl
  | succ eol ih =>
      unfold findContentLength
      rw [List.range_succ_eq_map, List.find?_cons, List.drop_zero]
      cases hnames : namesContentLength s with
      | true =>
          rw [if_pos rfl]
          cases hcolon : CString.strchr s 58 with
          | none => simp only [List.drop_zero, hcolon]
          | some colon => simp only [List.drop_zero, Nat.zero_add, hcolon]
      | false =>
          rw [if_neg (by decide), ih, List.find?_map]
          have hsame : (fun i => namesContentLength (s.drop i)) ∘ Nat.succ =
              fun i => namesContentLength (s.tail.drop i) := by
            funext i
            simp
          rw [hsame]
          cases (List.range eol).find? fun i => namesContentLength (s.tail.drop i) with
          | none => rfl
          | some i =>
              simp only [Option.map_some, List.drop_tail, Nat.succ_eq_add_one]
              cases CString.strchr (s.drop (i + 1)) 58 with
              | none => rfl
              | some colon =>
                  have hlt : i + colon < eol ↔ i + 1 + colon < eol + 1 := by omega
                  have hat : i + colon + 1 + 1 = i + 1 + colon + 1 := by omega
                  simp only [hlt, hat]

/-- The line end behind the headers is behind every place in them. -/
theorem HttpHead.cr_behind (head : HttpHead) {i : Nat} (hi : i < head.eol) :
    13 ∈ head.block.drop i := by
  have hfound : crlfcrlf <+: head.block.drop head.eol := CString.strstr_prefix head.strstr_block
  have hsplit : head.block.drop head.eol = (head.block.drop i).drop (head.eol - i) := by
    rw [List.drop_drop]
    congr 1
    omega
  have hin : (13 : UInt8) ∈ head.block.drop head.eol := hfound.subset (by decide)
  rw [hsplit] at hin
  exact List.mem_of_mem_drop hin

/-- What `parse_headers` takes for the length, by the place where the first spelling stands. -/
theorem parse_headers_number (head : HttpHead) {rest : List UInt8} {cs : ConnState}
    (h : cs.Holds (head.block ++ rest)) :
    (parseHeaders cs).contentLength.toInt =
      match head.spelled with
      | none => 0
      | some i => head.numberBehind rest i := by
  have htext : CString.text (head.block ++ rest) = head.block ++ CString.text rest :=
    CString.text_append head.block_no_nul rest
  have hends : CString.strstr crlfcrlf (head.block ++ CString.text rest) = some head.eol :=
    CString.strstr_append head.strstr_block _
  have hlen := head.block_length
  have hspelled : (List.range head.eol).find?
      (fun i => namesContentLength ((head.block ++ CString.text rest).drop i)) = head.spelled := by
    refine List.find?_congr fun i hi => ?_
    have hi := List.mem_range.mp hi
    rw [List.drop_append_of_le_length (by omega)]
    exact names_content_length_append (head.cr_behind hi) _
  rw [h.parse, htext, hends]
  dsimp only
  rw [find_content_length_eq, hspelled]
  cases hat : head.spelled with
  | none => rfl
  | some i =>
      have hi : i < head.eol := List.mem_range.mp (List.mem_of_find?_eq_some hat)
      have hdrop : (head.block ++ CString.text rest).drop i =
          head.block.drop i ++ CString.text rest := List.drop_append_of_le_length (by omega)
      dsimp only
      unfold HttpHead.numberBehind CString.strchr
      rw [hdrop, List.findIdx?_append]
      cases List.findIdx? (fun b => decide (b = 58)) (head.block.drop i) with
      | some colon =>
          simp only [Option.some_or]
          split <;> rfl
      | none =>
          -- a colon behind the headers does not count
          cases List.findIdx? (fun b => decide (b = 58)) (CString.text rest) with
          | none => rfl
          | some colon =>
              have hfar : ¬ i + (colon + (head.block.drop i).length) < head.eol := by
                rw [List.length_drop]
                omega
              exact congrArg Int32.toInt (if_neg hfar)

/-! ## When the right number is found -/

/-- Nothing but white space. -/
def Blank (s : List UInt8) : Prop := ∀ b ∈ s, CString.isSpace b = true

/-- The scan reads the `Content-Length` field, or comes to its number by chance. -/
def HttpHead.ReadsRight (head : HttpHead) (rest : List UInt8) : Prop :=
  -- the first spelling is the name of the field
  (∃ i value, head.spelled = some i ∧ head.lengthField = some (i, value) ∧ ¬ Blank value ∧
    -2147483648 ≤ head.announced ∧ head.announced ≤ 2147483647) ∨
  -- no spelling, and nothing to be found
  (head.spelled = none ∧ head.announced = 0) ∨
  -- a spelling elsewhere, or a field without a number
  ∃ i, head.spelled = some i ∧ (∀ value, head.lengthField = some (i, value) → Blank value) ∧
    head.numberBehind rest i = head.announced

/-- `atoi` keeps to the range of an `int`. -/
theorem CString.atoi_int (s : List UInt8) : (CString.atoi s).toInt =
    max (-2147483648) (min 2147483647 (CString.signedDecimal (s.dropWhile CString.isSpace))) := by
  unfold CString.atoi
  exact Int32.toInt_ofInt_of_le (by omega) (by omega)

/-- The number behind the name of a field with a value is the number in the value. -/
theorem number_behind_field (head : HttpHead) (rest : List UInt8) {i : Nat} {value : List UInt8}
    (hfield : head.lengthField = some (i, value)) (hvalue : ¬ Blank value) :
    head.numberBehind rest i = max (-2147483648) (min 2147483647 head.announced) := by
  have hannounced : head.announced =
      CString.signedDecimal (value.dropWhile CString.isSpace) := by
    unfold HttpHead.announced
    rw [hfield]
  obtain ⟨before, f, after, hfields, hi, rfl, hname⟩ := length_field_split hfield
  have hlen : f.name.length = 14 := by
    have hsame := congrArg List.length hname
    rw [List.length_map] at hsame
    exact hsame
  have hblock : head.block =
      (head.requestLine ++ crlf ++ before.flatMap HeaderField.line) ++
        (f.name ++ 58 :: (f.value ++ crlf ++ (after.flatMap HeaderField.line ++ crlf))) := by
    simp [HttpHead.block, hfields, HeaderField.line, HeaderField.text]
  have hat : i = (head.requestLine ++ crlf ++ before.flatMap HeaderField.line).length := by
    rw [hi, List.length_append, List.length_append]
    rfl
  have hdrop : head.block.drop i =
      f.name ++ 58 :: (f.value ++ crlf ++ (after.flatMap HeaderField.line ++ crlf)) := by
    rw [hblock, hat, List.drop_left]
  have hcolon : CString.strchr (head.block.drop i) 58 = some 14 := by
    have hnone : f.name.findIdx? (fun b => decide (b = 58)) = none := by
      rw [List.findIdx?_eq_none_iff]
      intro b hb
      exact decide_eq_false fun h => f.noColon (h ▸ hb)
    unfold CString.strchr
    rw [hdrop, List.findIdx?_append, hnone, hlen]
    rfl
  have hinside : i + 14 < head.eol := by
    have hall := congrArg List.length hdrop
    rw [List.length_drop, head.block_length] at hall
    simp only [List.length_append, List.length_cons, hlen, crlf, List.length_nil] at hall
    omega
  have hbehind : (head.block ++ CString.text rest).drop (i + 14 + 1) =
      f.value ++ 13 :: (10 :: (after.flatMap HeaderField.line ++ crlf) ++ CString.text rest) := by
    have hfit : i + 14 + 1 ≤ head.block.length := by
      rw [head.block_length]
      omega
    rw [List.drop_append_of_le_length hfit, Nat.add_assoc, ← List.drop_drop, hdrop, ← hlen,
      List.drop_append, List.drop_eq_nil_of_le (Nat.le_succ _)]
    simp [crlf]
  have hspace : f.value.dropWhile CString.isSpace ≠ [] := by
    rw [ne_eq, List.dropWhile_eq_nil_iff]
    exact hvalue
  unfold HttpHead.numberBehind
  rw [hcolon]
  dsimp only
  rw [if_pos hinside, hbehind, CString.atoi_int, CString.skip_space_append hspace,
    CString.signed_decimal_stop (by decide) (by decide) (by decide), hannounced]

/-- What `parse_headers` takes for the length of a request with a header block, whatever was
received behind it, is the number in its first `Content-Length` field if and only if the scan reads
that field or comes to its number by chance. -/
theorem content_length_iff (head : HttpHead) {rest : List UInt8} {cs : ConnState}
    (h : cs.Holds (head.block ++ rest)) :
    (parseHeaders cs).contentLength.toInt = head.announced ↔ head.ReadsRight rest := by
  rw [parse_headers_number head h]
  unfold HttpHead.ReadsRight
  cases hspelled : head.spelled with
  | none => simp [eq_comm]
  | some i =>
      simp only [Option.some.injEq, exists_eq_left', false_and, false_or, reduceCtorEq]
      cases hfield : head.lengthField with
      | none => simp
      | some field =>
          obtain ⟨j, value⟩ := field
          by_cases hthis : i = j ∧ ¬ Blank value
          · obtain ⟨rfl, hvalue⟩ := hthis
            rw [number_behind_field head rest hfield hvalue]
            simp [hvalue]
            omega
          · have hother : ∀ v, some (j, value) = some (i, v) → Blank v := by
              intro v hv
              obtain ⟨rfl, rfl⟩ := Prod.mk.inj (Option.some.inj hv)
              by_contra hblank
              exact hthis ⟨rfl, hblank⟩
            constructor
            · exact fun hnumber => .inr ⟨hother, hnumber⟩
            · intro hright
              cases hright with
              | inl hthere =>
                  obtain ⟨k, v, rfl, hv, hvalue, -⟩ := hthere
                  exact absurd (hother v hv) hvalue
              | inr hchance => exact hchance.2

/-- `POST /api/name HTTP/1.0` with one field. -/
def nameHead (name value : List UInt8) (hname : OneLine name) (hvalue : OneLine value)
    (hcolon : 58 ∉ name) : HttpHead where
  requestLine := "POST /api/name HTTP/1.0".toUTF8.toList
  fields := [⟨name, value, hname, hvalue, hcolon⟩]
  oneLine := by
    unfold OneLine
    decide +kernel

/-- The field as most clients send it. -/
def usualHead : HttpHead :=
  nameHead contentLengthName " 5".toUTF8.toList (by unfold OneLine; decide +kernel)
    (by unfold OneLine; decide +kernel) (by decide +kernel)

theorem content_length_iff_usual :
    (parseHeaders (ConnState.zero.append (usualHead.block ++ nameBody))).contentLength.toInt =
      usualHead.announced :=
  have hholds : (ConnState.zero.append (usualHead.block ++ nameBody)).Holds
      (usualHead.block ++ nameBody) := zero_holds.append (by decide +kernel)
  (content_length_iff usualHead hholds).mpr
    (.inl ⟨25, " 5".toUTF8.toList, by decide +kernel, by decide +kernel,
      fun hblank => absurd (hblank 53 (by decide +kernel)) (by decide), by decide +kernel,
      by decide +kernel⟩)

/-- The field in capitals. -/
def capitalHead : HttpHead :=
  nameHead (contentLengthName.map fun b => if 97 ≤ b then b - 32 else b) " 5".toUTF8.toList
    (by unfold OneLine; decide +kernel) (by unfold OneLine; decide +kernel) (by decide +kernel)

/-- It announces 5, and no length is found. -/
theorem capitals_not_found :
    ¬ (parseHeaders (ConnState.zero.append (capitalHead.block ++ nameBody))).contentLength.toInt =
      capitalHead.announced := by
  decide +kernel

end LinkFPGA
