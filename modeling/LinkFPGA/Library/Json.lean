import Mathlib.Data.List.Infix

/-!
# JSON texts

What a sequence of bytes says as JSON, for values built from strings, arrays and objects. `Lexes`
takes the white space between the tokens of a text and the escapes in its strings away, and a text
denotes a value if it is UTF-8 and its tokens are those of the value (`Denotes`). A value is
determined by its tokens (`tokens_injective`). A literal of plain characters is its own value
(`lexes_plain_string`), and characters put between quotes as they are stand for themselves only if
they are plain (`spliced_plain`).
-/

namespace LinkFPGA.Json

/-- What holds of every byte of a text is decided by going through the text, not through all
bytes. -/
scoped instance decidableForallByte (p : UInt8 → Prop) [DecidablePred p] (s : List UInt8) :
    Decidable (∀ b ∈ s, p b) :=
  List.decidableBAll p s

/-! ## UTF-8 -/

/-- The bytes are the UTF-8 encoding of a text. -/
def Utf8 (s : List UInt8) : Prop := s.toByteArray.IsValidUTF8

theorem Utf8.append {s t : List UInt8} (hs : Utf8 s) (ht : Utf8 t) : Utf8 (s ++ t) := by
  unfold Utf8
  rw [List.toByteArray_append]
  exact ByteArray.IsValidUTF8.append hs ht

theorem utf8_nil : Utf8 [] := ByteArray.isValidUTF8_empty

theorem utf8_encode_ascii {b : UInt8} (hb : b < 0x80) :
    [Char.ofNat b.toNat].utf8Encode = [b].toByteArray := by
  have hsmall : b.toNat < 128 := UInt8.lt_iff_toNat_lt.mp hb
  have hval : (Char.ofNat b.toNat).val = b.toUInt32 := by
    have hvalid : b.toNat.isValidChar := .inl (by omega)
    rw [Char.ofNat, dif_pos hvalid]
    rfl
  have hsize : (Char.ofNat b.toNat).utf8Size = 1 := by
    rw [Char.utf8Size_eq_one_iff, hval, UInt32.le_iff_toNat_le, UInt8.toNat_toUInt32]
    exact Nat.le_of_lt_succ hsmall
  rw [List.utf8Encode_singleton, String.utf8EncodeChar_eq_singleton hsize, hval,
    UInt8.toUInt8_toUInt32]

/-- An ASCII character in front. -/
theorem utf8_cons {b : UInt8} (hb : b < 0x80) (s : List UInt8) : Utf8 (b :: s) ↔ Utf8 s := by
  unfold Utf8
  rw [← List.singleton_append, List.toByteArray_append, ← utf8_encode_ascii hb]
  exact ByteArray.isValidUTF8_utf8Encode_singleton_append_iff

/-- ASCII characters in front. -/
theorem utf8_append {s : List UInt8} (hs : ∀ b ∈ s, b < 0x80) (t : List UInt8) :
    Utf8 (s ++ t) ↔ Utf8 t := by
  induction s with
  | nil => rfl
  | cons b s ih =>
      rw [List.cons_append, utf8_cons (hs b List.mem_cons_self)]
      exact ih fun c hc => hs c (List.mem_cons_of_mem b hc)

/-- A text can be cut at an ASCII character. -/
theorem utf8_split {b : UInt8} (hb : b < 0x80) (s t : List UInt8) :
    Utf8 (s ++ b :: t) ↔ Utf8 s ∧ Utf8 t := by
  constructor
  · intro h
    have hvalid : (s.toByteArray ++ (b :: t).toByteArray).IsValidUTF8 := by
      rw [← List.toByteArray_append]
      exact h
    let text : String := .ofByteArray _ hvalid
    have hlt : s.toByteArray.size < (s.toByteArray ++ (b :: t).toByteArray).size := by
      rw [ByteArray.size_append, List.size_toByteArray (l := b :: t), List.length_cons]
      omega
    -- the cut is in front of the first byte of a character
    have hcut : String.Pos.Raw.IsValid text ⟨s.toByteArray.size⟩ := by
      refine String.Pos.Raw.isValid_iff_isUTF8FirstByte.mpr (.inr ⟨hlt, ?_⟩)
      have hat : (s.toByteArray ++ (b :: t).toByteArray)[s.toByteArray.size] = b := by
        rw [ByteArray.getElem_append_right (Nat.le_refl _)]
        simp [List.getElem_toByteArray]
      have hsingle : Utf8 [b] := (utf8_cons hb []).mpr utf8_nil
      have hfirst : b.IsUTF8FirstByte := hsingle.isUTF8FirstByte_getElem_zero Nat.one_pos
      show ((s.toByteArray ++ (b :: t).toByteArray)[s.toByteArray.size]).IsUTF8FirstByte
      rw [hat]
      exact hfirst
    have hleft : ((s.toByteArray ++ (b :: t).toByteArray).extract 0
        s.toByteArray.size).IsValidUTF8 := hcut.isValidUTF8_extract_zero
    have hright : ((s.toByteArray ++ (b :: t).toByteArray).extract s.toByteArray.size
        (s.toByteArray ++ (b :: t).toByteArray).size).IsValidUTF8 :=
      hcut.isValidUTF8_extract_utf8ByteSize
    rw [ByteArray.extract_append_eq_left rfl] at hleft
    rw [ByteArray.extract_append_eq_right rfl ByteArray.size_append] at hright
    exact ⟨hleft, (utf8_cons hb t).mp hright⟩
  · rintro ⟨hs, ht⟩
    exact hs.append ((utf8_cons hb t).mpr ht)

/-! ## Strings -/

/-- A character that may stand in a string literal, and does for itself. -/
def IsPlain (b : UInt8) : Prop := 0x20 ≤ b ∧ b ≠ 0x22 ∧ b ≠ 0x5C

instance (b : UInt8) : Decidable (IsPlain b) := inferInstanceAs (Decidable (_ ∧ _ ∧ _))

/-- The character of an escape with one letter. -/
def shortEscape : UInt8 → Option UInt8
  | 0x22 => some 0x22
  | 0x5C => some 0x5C
  | 0x2F => some 0x2F
  | 0x62 => some 0x08
  | 0x66 => some 0x0C
  | 0x6E => some 0x0A
  | 0x72 => some 0x0D
  | 0x74 => some 0x09
  | _ => none

/-- The value of a hexadecimal digit. -/
def hexDigit (b : UInt8) : Option ℕ :=
  if 0x30 ≤ b ∧ b ≤ 0x39 then some (b.toNat - 0x30)
  else if 0x41 ≤ b ∧ b ≤ 0x46 then some (b.toNat - 0x37)
  else if 0x61 ≤ b ∧ b ≤ 0x66 then some (b.toNat - 0x57)
  else none

/-- The code unit that four hexadecimal digits stand for. -/
def codeUnit : List UInt8 → Option ℕ
  | [a, b, c, d] =>
      match hexDigit a, hexDigit b, hexDigit c, hexDigit d with
      | some a, some b, some c, some d => some (0x1000 * a + 0x100 * b + 0x10 * c + d)
      | _, _, _, _ => none
  | _ => none

/-- An escape, and the bytes it stands for. -/
inductive Escape : List UInt8 → List UInt8 → Prop
  | short {c b : UInt8} (h : shortEscape c = some b) : Escape [0x5C, c] [b]
  | unit {digits : List UInt8} {n : ℕ} (h : codeUnit digits = some n) (hvalid : n.isValidChar) :
      Escape (0x5C :: 0x75 :: digits) (String.utf8EncodeChar (Char.ofNat n))
  | pair {high low : List UInt8} {h l : ℕ} (hhigh : codeUnit high = some (0xD800 + h))
      (hh : h < 0x400) (hlow : codeUnit low = some (0xDC00 + l)) (hl : l < 0x400) :
      Escape (0x5C :: 0x75 :: (high ++ 0x5C :: 0x75 :: low))
        (String.utf8EncodeChar (Char.ofNat (0x10000 + 0x400 * h + l)))

/-- What stands between the quotes of a literal, and the string it stands for. -/
inductive Chars : List UInt8 → List UInt8 → Prop
  | nil : Chars [] []
  | plain {b : UInt8} {src s : List UInt8} (h : IsPlain b) (hrest : Chars src s) :
      Chars (b :: src) (b :: s)
  | escape {e c src s : List UInt8} (h : Escape e c) (hrest : Chars src s) :
      Chars (e ++ src) (c ++ s)

theorem hex_digit_ne_quote {b : UInt8} {n : ℕ} (h : hexDigit b = some n) : b ≠ 0x22 := by
  rintro rfl
  cases h

/-- There are four digits, and no quote is one. -/
theorem code_unit_digits {digits : List UInt8} {n : ℕ} (h : codeUnit digits = some n) :
    digits.length = 4 ∧ 0x22 ∉ digits := by
  unfold codeUnit at h
  split at h
  · split at h
    · rename_i ha hb hc hd
      refine ⟨rfl, ?_⟩
      simp [(hex_digit_ne_quote ha).symm, (hex_digit_ne_quote hb).symm,
        (hex_digit_ne_quote hc).symm, (hex_digit_ne_quote hd).symm]
    · cases h
  · cases h

/-- An escape starts with a backslash. -/
theorem Escape.backslash {e c : List UInt8} (h : Escape e c) : ∃ rest, e = 0x5C :: rest := by
  cases h <;> exact ⟨_, rfl⟩

/-- It is longer than what it stands for. -/
theorem Escape.longer {e c : List UInt8} (h : Escape e c) : c.length < e.length := by
  cases h with
  | short => exact Nat.one_lt_two
  | @unit digits n h _ =>
      have hsize := (Char.ofNat n).utf8Size_le_four
      have hdigits := (code_unit_digits h).1
      rw [String.length_utf8EncodeChar, List.length_cons, List.length_cons]
      omega
  | @pair high low h l hhigh _ hlow _ =>
      have hsize := (Char.ofNat (0x10000 + 0x400 * h + l)).utf8Size_le_four
      have hdigits := (code_unit_digits hhigh).1
      rw [String.length_utf8EncodeChar, List.length_cons, List.length_cons, List.length_append]
      omega

/-- The only quote in an escape is the escaped one. -/
theorem Escape.quote {e c : List UInt8} (h : Escape e c) (hquote : 0x22 ∈ e) :
    e = [0x5C, 0x22] ∧ c = [0x22] := by
  cases h with
  | @short c b h =>
      obtain rfl : 0x22 = c := by simpa using hquote
      obtain rfl : 0x22 = b := Option.some.inj h
      exact ⟨rfl, rfl⟩
  | unit h _ => simp [(code_unit_digits h).2] at hquote
  | pair hhigh _ hlow _ =>
      simp [(code_unit_digits hhigh).2, (code_unit_digits hlow).2] at hquote

/-- A literal is as long as its string at least. -/
theorem Chars.length_le {src s : List UInt8} (h : Chars src s) : s.length ≤ src.length := by
  induction h with
  | nil => exact Nat.le_refl 0
  | plain _ _ ih => exact Nat.succ_le_succ ih
  | escape h _ ih =>
      have hlonger := h.longer
      rw [List.length_append, List.length_append]
      omega

/-- Without an escape it is the string, which is plain. -/
theorem Chars.all_plain {src s : List UInt8} (h : Chars src s) (hlen : src.length ≤ s.length) :
    ∀ b ∈ s, IsPlain b := by
  induction h with
  | nil => simp
  | plain h _ ih =>
      rw [List.length_cons, List.length_cons] at hlen
      rw [List.forall_mem_cons]
      exact ⟨h, ih (by omega)⟩
  | escape h hrest _ =>
      have hlonger := h.longer
      have hle := hrest.length_le
      rw [List.length_append, List.length_append] at hlen
      omega

/-- A plain string is a literal of itself. -/
theorem chars_self {s : List UInt8} (h : ∀ b ∈ s, IsPlain b) : Chars s s := by
  induction s with
  | nil => exact .nil
  | cons b s ih =>
      rw [List.forall_mem_cons] at h
      exact .plain h.1 (ih h.2)

/-- A literal that starts with plain characters and a quote ends at the quote. -/
theorem Chars.eq_of_plain {s : List UInt8} (hs : ∀ b ∈ s, IsPlain b) {src s' : List UInt8}
    (h : Chars src s') {rest rest' : List UInt8} (heq : src ++ 0x22 :: rest' = s ++ 0x22 :: rest) :
    src = s ∧ s' = s ∧ rest' = rest := by
  induction s generalizing src s' with
  | nil =>
      cases h with
      | nil => exact ⟨rfl, rfl, (List.cons.inj heq).2⟩
      | plain h _ => exact absurd (List.cons.inj heq).1 h.2.1
      | escape h _ =>
          obtain ⟨e, rfl⟩ := h.backslash
          exact absurd (List.cons.inj heq).1 (by decide)
  | cons b s ih =>
      rw [List.forall_mem_cons] at hs
      cases h with
      | nil => exact absurd (List.cons.inj heq).1.symm hs.1.2.1
      | plain _ hrest =>
          obtain ⟨rfl, htail⟩ := List.cons.inj heq
          obtain ⟨rfl, rfl, rfl⟩ := ih hs.2 hrest htail
          exact ⟨rfl, rfl, rfl⟩
      | escape h _ =>
          obtain ⟨e, rfl⟩ := h.backslash
          exact absurd (List.cons.inj heq).1.symm hs.1.2.2

/-- A quote in a literal is escaped: there is a backslash in front of it, and what is behind it is
a literal again. -/
theorem Chars.quote {s behind d : List UInt8} (h : Chars (s ++ 0x22 :: behind) d) :
    ∃ before d₁ d₂, s = before ++ [0x5C] ∧ d = d₁ ++ 0x22 :: d₂ ∧ Chars behind d₂ := by
  generalize hsrc : s ++ 0x22 :: behind = src at h
  induction h generalizing s with
  | nil => exact absurd hsrc (by simp)
  | @plain b src d h _ ih =>
      cases s with
      | nil => exact absurd (List.cons.inj hsrc).1.symm h.2.1
      | cons b' s =>
          obtain ⟨rfl, htail⟩ := List.cons.inj hsrc
          obtain ⟨before, d₁, d₂, rfl, rfl, hbehind⟩ := ih htail
          exact ⟨b' :: before, b' :: d₁, d₂, rfl, rfl, hbehind⟩
  | @escape e c src d h hrest ih =>
      rcases List.append_eq_append_iff.mp hsrc with ⟨e', rfl, hinside⟩ | ⟨s', rfl, hafter⟩
      · cases e' with
        | nil =>
            obtain ⟨before, _, _, hnone, _⟩ := ih (s := []) hinside
            exact absurd hnone (by simp)
        | cons b e' =>
            -- the quote is the escaped one
            obtain ⟨rfl, rfl⟩ := List.cons.inj hinside
            obtain ⟨he, rfl⟩ := h.quote (by simp)
            obtain ⟨rfl, rfl⟩ : s = [0x5C] ∧ e' = [] := by
              rcases s with _ | ⟨a, _ | ⟨a', s⟩⟩ <;> simp_all
            exact ⟨[], [], _, rfl, rfl, hrest⟩
      · obtain ⟨before, d₁, d₂, rfl, rfl, hbehind⟩ := ih hafter.symm
        exact ⟨e ++ before, c ++ d₁, d₂, by simp, by simp, hbehind⟩

/-- A string that stands between quotes as it is, with a plain character and a quote behind them,
and is read as itself, is plain. -/
theorem spliced_plain {c : UInt8} (hc : IsPlain c) {src s rest rest' : List UInt8}
    (h : Chars src s) (heq : src ++ 0x22 :: rest' = s ++ 0x22 :: c :: 0x22 :: rest) :
    ∀ b ∈ s, IsPlain b := by
  rcases List.append_eq_append_iff.mp heq with ⟨_, rfl, _⟩ | ⟨behind, hsrc, hbehind⟩
  · exact h.all_plain (by simp)
  · cases behind with
    | nil => exact h.all_plain (by simp [hsrc])
    | cons b behind =>
        obtain ⟨rfl, hend⟩ := List.cons.inj hbehind
        subst hsrc
        -- the literal goes on behind the quote, up to the next one
        obtain ⟨before, d₁, d₂, hbefore, hd, hrest⟩ := h.quote
        obtain ⟨-, rfl, -⟩ := hrest.eq_of_plain (s := [c]) (by simpa using hc) hend.symm
        have hlast := congrArg List.getLast? (hbefore.symm.trans hd)
        simp only [List.getLast?_append, List.getLast?_singleton, List.getLast?_cons_cons] at hlast
        exact absurd (Option.some.inj hlast).symm hc.2.2

/-! ## Tokens -/

inductive Token where
  | punct (c : UInt8)
  | string (s : List UInt8)
  deriving DecidableEq, Repr

/-- One of the structural characters. -/
def IsPunct (c : UInt8) : Prop := c ∈ [0x5B, 0x5D, 0x7B, 0x7D, 0x2C, 0x3A]

/-- White space between tokens. -/
def IsSpace (b : UInt8) : Prop := b ∈ [0x20, 0x09, 0x0A, 0x0D]

instance (c : UInt8) : Decidable (IsPunct c) := inferInstanceAs (Decidable (_ ∈ _))

instance (b : UInt8) : Decidable (IsSpace b) := inferInstanceAs (Decidable (_ ∈ _))

theorem IsSpace.not_punct {b : UInt8} (h : IsSpace b) : ¬ IsPunct b :=
  (by decide : ∀ b ∈ [0x20, 0x09, 0x0A, 0x0D], ¬ IsPunct b) b h

/-- The tokens of a text. -/
inductive Lexes : List UInt8 → List Token → Prop
  | nil : Lexes [] []
  | space {b : UInt8} {text : List UInt8} {ts : List Token} (h : IsSpace b)
      (hrest : Lexes text ts) : Lexes (b :: text) ts
  | punct {c : UInt8} {text : List UInt8} {ts : List Token} (h : IsPunct c)
      (hrest : Lexes text ts) : Lexes (c :: text) (.punct c :: ts)
  | string {src s text : List UInt8} {ts : List Token} (h : Chars src s) (hrest : Lexes text ts) :
      Lexes (0x22 :: (src ++ 0x22 :: text)) (.string s :: ts)

theorem lexes_nil {ts : List Token} : Lexes [] ts ↔ ts = [] := by
  constructor
  · rintro ⟨⟩
    rfl
  · rintro rfl
    exact .nil

/-- A structural character is a token. -/
theorem lexes_punct {c : UInt8} (hc : IsPunct c) {text : List UInt8} {ts : List Token} :
    Lexes (c :: text) ts ↔ ∃ ts', ts = .punct c :: ts' ∧ Lexes text ts' := by
  constructor
  · intro h
    cases h with
    | space h _ => exact absurd hc h.not_punct
    | punct _ hrest => exact ⟨_, rfl, hrest⟩
    | string => exact absurd hc (by decide)
  · rintro ⟨ts', rfl, hrest⟩
    exact .punct hc hrest

/-- A quote opens a literal. -/
theorem lexes_quote {text : List UInt8} {ts : List Token} :
    Lexes (0x22 :: text) ts ↔ ∃ src s rest ts', text = src ++ 0x22 :: rest ∧ Chars src s ∧
      ts = .string s :: ts' ∧ Lexes rest ts' := by
  constructor
  · intro h
    generalize hopen : 0x22 :: text = whole at h
    cases h with
    | nil => cases hopen
    | space h _ =>
        obtain ⟨rfl, -⟩ := List.cons.inj hopen
        exact absurd h (by decide)
    | punct h _ =>
        obtain ⟨rfl, -⟩ := List.cons.inj hopen
        exact absurd h (by decide)
    | string h hrest => exact ⟨_, _, _, _, (List.cons.inj hopen).2, h, rfl, hrest⟩
  · rintro ⟨src, s, rest, ts', rfl, h, rfl, hrest⟩
    exact .string h hrest

/-- A plain string in quotes is a token. -/
theorem lexes_plain_string {s : List UInt8} (hs : ∀ b ∈ s, IsPlain b) {text : List UInt8}
    {ts : List Token} : Lexes (0x22 :: (s ++ 0x22 :: text)) ts ↔
      ∃ ts', ts = .string s :: ts' ∧ Lexes text ts' := by
  rw [lexes_quote]
  constructor
  · rintro ⟨src, s', rest, ts', heq, h, rfl, hrest⟩
    obtain ⟨-, rfl, rfl⟩ := h.eq_of_plain hs heq.symm
    exact ⟨ts', rfl, hrest⟩
  · rintro ⟨ts', rfl, hrest⟩
    exact ⟨s, s, text, ts', rfl, chars_self hs, rfl, hrest⟩

/-- The text is read as these tokens, whatever follows it. -/
def Reads (text : List UInt8) (tokens : List Token) : Prop :=
  ∀ rest ts, Lexes (text ++ rest) ts ↔ ∃ ts', ts = tokens ++ ts' ∧ Lexes rest ts'

theorem Reads.nil : Reads [] [] := by
  intro rest ts
  simp

theorem Reads.append {text text' : List UInt8} {tokens tokens' : List Token}
    (h : Reads text tokens) (h' : Reads text' tokens') :
    Reads (text ++ text') (tokens ++ tokens') := by
  intro rest ts
  rw [List.append_assoc, h]
  constructor
  · rintro ⟨ts', rfl, hread⟩
    obtain ⟨ts'', rfl, hrest⟩ := (h' _ _).mp hread
    exact ⟨ts'', (List.append_assoc _ _ _).symm, hrest⟩
  · rintro ⟨ts', rfl, hrest⟩
    exact ⟨tokens' ++ ts', List.append_assoc _ _ _, (h' _ _).mpr ⟨ts', rfl, hrest⟩⟩

theorem Reads.cons {c : UInt8} (hc : IsPunct c) {text : List UInt8} {tokens : List Token}
    (h : Reads text tokens) : Reads (c :: text) (.punct c :: tokens) := by
  have hpunct : Reads [c] [.punct c] := fun _ _ ↦ lexes_punct hc
  exact hpunct.append h

theorem Reads.quoted {s : List UInt8} (hs : ∀ b ∈ s, IsPlain b) {text : List UInt8}
    {tokens : List Token} (h : Reads text tokens) :
    Reads (0x22 :: (s ++ 0x22 :: text)) (.string s :: tokens) := by
  have hstring : Reads (0x22 :: (s ++ [0x22])) [.string s] := by
    intro rest ts
    rw [List.cons_append, List.append_assoc]
    exact lexes_plain_string hs
  have hboth := hstring.append h
  rwa [List.cons_append, List.append_assoc] at hboth

/-- Such a text is read as these tokens only. -/
theorem Reads.lexes_iff {text : List UInt8} {tokens ts : List Token} (h : Reads text tokens) :
    Lexes text ts ↔ ts = tokens := by
  have hwhole := h [] ts
  rw [List.append_nil] at hwhole
  simp [hwhole, lexes_nil]

/-! ## Values -/

/-- A value. An object is a sequence of members, as it is written. -/
inductive Value where
  | string (s : List UInt8)
  | array (items : List Value)
  | object (members : List (List UInt8 × Value))

mutual

/-- The tokens of a value. -/
def Value.tokens : Value → List Token
  | .string s => [.string s]
  | .array items => .punct 0x5B :: ((itemsTokens items).tail ++ [.punct 0x5D])
  | .object members => .punct 0x7B :: ((membersTokens members).tail ++ [.punct 0x7D])

/-- The items of an array, each with a comma in front. -/
def itemsTokens : List Value → List Token
  | [] => []
  | v :: vs => .punct 0x2C :: (v.tokens ++ itemsTokens vs)

/-- The members of an object, each with a comma in front. -/
def membersTokens : List (List UInt8 × Value) → List Token
  | [] => []
  | (name, v) :: ms => .punct 0x2C :: .string name :: .punct 0x3A :: (v.tokens ++ membersTokens ms)

end

/-- A text denotes a value. -/
def Denotes (text : List UInt8) (v : Value) : Prop := Utf8 text ∧ Lexes text v.tokens

/-- A value does not start with a closing bracket. -/
theorem tokens_open (v : Value) : ∃ t rest, v.tokens = t :: rest ∧ t ≠ .punct 0x5D := by
  cases v <;> exact ⟨_, _, by rw [Value.tokens], by simp⟩

theorem items_tail {vs vs' : List Value} {ts ts' : List Token}
    (h : (itemsTokens vs).tail ++ .punct 0x5D :: ts =
      (itemsTokens vs').tail ++ .punct 0x5D :: ts') :
    itemsTokens vs ++ .punct 0x5D :: ts = itemsTokens vs' ++ .punct 0x5D :: ts' := by
  cases vs with
  | nil =>
      cases vs' with
      | nil => exact h
      | cons v' vs' =>
          obtain ⟨t, rest, hv', ht⟩ := tokens_open v'
          rw [itemsTokens, itemsTokens, hv'] at h
          exact absurd (List.cons.inj h).1.symm ht
  | cons v vs =>
      cases vs' with
      | nil =>
          obtain ⟨t, rest, hv, ht⟩ := tokens_open v
          rw [itemsTokens, itemsTokens, hv] at h
          exact absurd (List.cons.inj h).1 ht
      | cons v' vs' =>
          rw [itemsTokens, itemsTokens] at h ⊢
          exact congrArg (List.cons _) h

theorem members_tail {ms ms' : List (List UInt8 × Value)} {ts ts' : List Token}
    (h : (membersTokens ms).tail ++ .punct 0x7D :: ts =
      (membersTokens ms').tail ++ .punct 0x7D :: ts') :
    membersTokens ms ++ .punct 0x7D :: ts = membersTokens ms' ++ .punct 0x7D :: ts' := by
  cases ms with
  | nil =>
      cases ms' with
      | nil => exact h
      | cons m' ms' => simp [membersTokens] at h
  | cons m ms =>
      cases ms' with
      | nil => simp [membersTokens] at h
      | cons m' ms' =>
          rw [membersTokens, membersTokens] at h ⊢
          exact congrArg (List.cons _) h

mutual

theorem tokens_append_inj : ∀ (v v' : Value) (ts ts' : List Token),
    v.tokens ++ ts = v'.tokens ++ ts' → v = v' ∧ ts = ts'
  | .string s, v', ts, ts', h => by
      cases v' <;> simp_all [Value.tokens]
  | .array vs, v', ts, ts', h => by
      cases v' with
      | string | object => simp [Value.tokens] at h
      | array vs' =>
          have hitems : itemsTokens vs ++ .punct 0x5D :: ts =
              itemsTokens vs' ++ .punct 0x5D :: ts' :=
            items_tail (by simpa [Value.tokens] using h)
          obtain ⟨rfl, rfl⟩ := items_append_inj vs vs' ts ts' hitems
          exact ⟨rfl, rfl⟩
  | .object ms, v', ts, ts', h => by
      cases v' with
      | string | array => simp [Value.tokens] at h
      | object ms' =>
          have hmembers : membersTokens ms ++ .punct 0x7D :: ts =
              membersTokens ms' ++ .punct 0x7D :: ts' :=
            members_tail (by simpa [Value.tokens] using h)
          obtain ⟨rfl, rfl⟩ := members_append_inj ms ms' ts ts' hmembers
          exact ⟨rfl, rfl⟩

theorem items_append_inj : ∀ (vs vs' : List Value) (ts ts' : List Token),
    itemsTokens vs ++ .punct 0x5D :: ts = itemsTokens vs' ++ .punct 0x5D :: ts' →
      vs = vs' ∧ ts = ts'
  | [], vs', ts, ts', h => by
      cases vs' <;> simp_all [itemsTokens]
  | v :: vs, vs', ts, ts', h => by
      cases vs' with
      | nil => simp [itemsTokens] at h
      | cons v' vs' =>
          have htail : v.tokens ++ (itemsTokens vs ++ .punct 0x5D :: ts) =
              v'.tokens ++ (itemsTokens vs' ++ .punct 0x5D :: ts') := by
            simpa [itemsTokens] using h
          obtain ⟨rfl, hrest⟩ := tokens_append_inj v v' _ _ htail
          obtain ⟨rfl, rfl⟩ := items_append_inj vs vs' ts ts' hrest
          exact ⟨rfl, rfl⟩

theorem members_append_inj : ∀ (ms ms' : List (List UInt8 × Value)) (ts ts' : List Token),
    membersTokens ms ++ .punct 0x7D :: ts = membersTokens ms' ++ .punct 0x7D :: ts' →
      ms = ms' ∧ ts = ts'
  | [], ms', ts, ts', h => by
      cases ms' <;> simp_all [membersTokens]
  | (name, v) :: ms, ms', ts, ts', h => by
      cases ms' with
      | nil => simp [membersTokens] at h
      | cons m' ms' =>
          obtain ⟨name', v'⟩ := m'
          have htail : name = name' ∧ v.tokens ++ (membersTokens ms ++ .punct 0x7D :: ts) =
              v'.tokens ++ (membersTokens ms' ++ .punct 0x7D :: ts') := by
            simpa [membersTokens] using h
          obtain ⟨rfl, htail⟩ := htail
          obtain ⟨rfl, hrest⟩ := tokens_append_inj v v' _ _ htail
          obtain ⟨rfl, rfl⟩ := members_append_inj ms ms' ts ts' hrest
          exact ⟨rfl, rfl⟩

end

/-- A value is determined by its tokens. -/
theorem tokens_injective {v v' : Value} (h : v.tokens = v'.tokens) : v = v' :=
  (tokens_append_inj v v' [] [] (congrArg (· ++ []) h)).1

end LinkFPGA.Json
