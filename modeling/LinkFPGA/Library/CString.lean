import Mathlib.Data.List.Infix
import Mathlib.Data.List.TakeWhile

/-!
# C strings as lists

The functions of `string.h` and `stdlib.h` that read a string up to its NUL, on the list of the
bytes before the NUL, `snprintf`, and some conversions of `sscanf`. A search that succeeds is not
disturbed by what follows the string (`strstr_append`), and neither is a number once it has a digit
and the string a line end after it (`atoi_append`). What is scanned was put there:
`scan_int_digits`, `scan_word_append` and `scan_hex_pair`.
-/

namespace LinkFPGA.CString

/-- The string in an array: what is before its first NUL. -/
def text (array : List UInt8) : List UInt8 := array.takeWhile (· ≠ 0)

/-- `strstr`: the offset at which `needle` first occurs. -/
def strstr (needle : List UInt8) : List UInt8 → Option Nat
  | [] => if needle.isEmpty then some 0 else none
  | b :: s => if needle.isPrefixOf (b :: s) then some 0 else (strstr needle s).map (· + 1)

/-- `strchr`: the offset of the first `c`. -/
def strchr (s : List UInt8) (c : UInt8) : Option Nat := s.findIdx? (· = c)

/-- `isspace` in the C locale. -/
def isSpace (b : UInt8) : Bool := b = 32 || decide (9 ≤ b ∧ b ≤ 13)

def isDigit (b : UInt8) : Bool := decide (48 ≤ b ∧ b ≤ 57)

/-- The decimal number at the start of a string. -/
def decimal (s : List UInt8) : Nat :=
  (s.takeWhile isDigit).foldl (fun n d => 10 * n + (d.toNat - 48)) 0

/-- A decimal number with an optional sign. -/
def signedDecimal (s : List UInt8) : Int :=
  if s.head? = some 45 then -(decimal s.tail)
  else if s.head? = some 43 then decimal s.tail
  else decimal s

/-- `atoi`: white space, a sign and digits. A number that does not fit is clamped, as by `strtol`
with a 32-bit `long`. -/
def atoi (s : List UInt8) : Int32 :=
  .ofInt (max (-2147483648) (min 2147483647 (signedDecimal (s.dropWhile isSpace))))

/-- `snprintf` of a text into an array of `size` bytes, at least 1: what it stores, and its
result. -/
def snprintf (size : Nat) (s : List UInt8) : List UInt8 × Nat :=
  (s.take (size - 1) ++ [0], s.length)

/-- A `double`, up to rounding. -/
inductive Double where
  | finite (q : Rat)
  | infinite (negative : Bool)
  | nan
  deriving DecidableEq, Repr

/-- A decimal number with a point and an exponent. -/
def decimalPoint (s : List UInt8) : Rat :=
  let whole := s.takeWhile isDigit
  let rest := s.dropWhile isDigit
  let pointed := rest.head? = some 46
  let part := if pointed then rest.tail.takeWhile isDigit else []
  let rest := if pointed then rest.tail.dropWhile isDigit else rest
  let exponent :=
    if rest.head? = some 101 ∨ rest.head? = some 69 then signedDecimal rest.tail else 0
  if whole = [] ∧ part = [] then 0
  else (decimal (whole ++ part) : Rat) * (10 : Rat) ^ (exponent - part.length)

/-- A decimal number as it is written, with a point when there are digits behind it. -/
def decimalText (whole part : List UInt8) : List UInt8 :=
  whole ++ if part = [] then [] else 46 :: part

/-- `atof`, without the numbers in hexadecimal. -/
def atof (s : List UInt8) : Double :=
  let s := s.dropWhile isSpace
  let negative := s.head? = some 45
  let s := if negative ∨ s.head? = some 43 then s.tail else s
  -- the names of the special values, in upper or in lower case
  let name := (s.take 3).map (· ||| 32)
  if name = [105, 110, 102] then .infinite negative
  else if name = [110, 97, 110] then .nan
  else .finite (if negative then -decimalPoint s else decimalPoint s)

/-- `%d` of `sscanf`: the number, and what is left of the string. -/
def scanInt (s : List UInt8) : Option (Int32 × List UInt8) :=
  let s := s.dropWhile isSpace
  let digits := if s.head? = some 45 ∨ s.head? = some 43 then s.tail else s
  if digits.takeWhile isDigit = [] then none
  else some (atoi s, digits.dropWhile isDigit)

/-- `%s` of `sscanf` with a field width: the word, and what is left of the string. -/
def scanWord (width : Nat) (s : List UInt8) : Option (List UInt8 × List UInt8) :=
  let s := s.dropWhile isSpace
  let word := (s.take width).takeWhile fun b => !isSpace b
  if word = [] then none else some (word, s.drop word.length)

/-- The value of a hexadecimal digit. -/
def hexValue (b : UInt8) : Option Nat :=
  if 48 ≤ b ∧ b ≤ 57 then some (b.toNat - 48)
  else if 97 ≤ b ∧ b ≤ 102 then some (b.toNat - 87)
  else if 65 ≤ b ∧ b ≤ 70 then some (b.toNat - 55)
  else none

/-- `%x` of `sscanf` with a field width: the number. A sign and `0x` are part of the field, and
`0x` alone is no number. -/
def scanHex (width : Nat) (s : List UInt8) : Option UInt32 :=
  let field := (s.dropWhile isSpace).take width
  let unsigned := if field.head? = some 45 ∨ field.head? = some 43 then field.tail else field
  let digits := if unsigned.take 2 = [48, 120] ∨ unsigned.take 2 = [48, 88] then unsigned.drop 2
    else unsigned
  let number := digits.takeWhile fun b => (hexValue b).isSome
  if number = [] then none
  else
    let n := min 4294967295 (number.foldl (fun n b => 16 * n + (hexValue b).getD 0) 0)
    some (if field.head? = some 45 then 0 - .ofNat n else .ofNat n)

/-! ## Searching -/

/-- A string without a NUL, followed by other bytes. -/
theorem text_append {s : List UInt8} (h : 0 ∉ s) (rest : List UInt8) :
    text (s ++ rest) = s ++ text rest :=
  List.takeWhile_append_of_pos fun _ hb => decide_eq_true fun hzero => h (hzero ▸ hb)

/-- The string in an array ends at a NUL in it. -/
theorem text_terminated (s rest : List UInt8) : text (s ++ 0 :: rest) = text s := by
  unfold text
  rw [List.takeWhile_append]
  split
  · rename_i hall
    rw [(List.takeWhile_prefix _).eq_of_length hall]
    simp
  · rfl

/-- What is found lies in the string. -/
theorem strstr_fits {needle s : List UInt8} {i : Nat} (h : strstr needle s = some i) :
    i + needle.length ≤ s.length := by
  induction s generalizing i with
  | nil =>
      unfold strstr at h
      split at h
      · rename_i hempty
        obtain rfl := Option.some.inj h
        rw [List.isEmpty_iff.mp hempty]
        exact Nat.le_refl 0
      · cases h
  | cons b s ih =>
      unfold strstr at h
      split at h
      · rename_i hprefix
        obtain rfl := Option.some.inj h
        have hlen := (List.isPrefixOf_iff_prefix.mp hprefix).length_le
        omega
      · obtain ⟨j, hj, rfl⟩ := Option.map_eq_some_iff.mp h
        have hlen := ih hj
        rw [List.length_cons]
        omega

/-- It is there. -/
theorem strstr_prefix {needle s : List UInt8} {i : Nat} (h : strstr needle s = some i) :
    needle <+: s.drop i := by
  induction s generalizing i with
  | nil =>
      unfold strstr at h
      split at h
      · rename_i hempty
        rw [List.isEmpty_iff.mp hempty]
        exact List.nil_prefix
      · cases h
  | cons b s ih =>
      unfold strstr at h
      split at h
      · rename_i hprefix
        obtain rfl := Option.some.inj h
        exact List.isPrefixOf_iff_prefix.mp hprefix
      · obtain ⟨j, hj, rfl⟩ := Option.map_eq_some_iff.mp h
        exact ih hj

/-- What follows a string does not change where something is found in it first. -/
theorem strstr_append {needle s : List UInt8} {i : Nat} (h : strstr needle s = some i)
    (t : List UInt8) : strstr needle (s ++ t) = some i := by
  induction s generalizing i with
  | nil =>
      unfold strstr at h
      split at h
      · rename_i hempty
        obtain rfl := Option.some.inj h
        rw [List.isEmpty_iff.mp hempty]
        cases t <;> rfl
      · cases h
  | cons b s ih =>
      have hfits := strstr_fits h
      unfold strstr at h
      rw [List.cons_append, strstr]
      split at h
      · rename_i hprefix
        have hprefix : needle <+: b :: (s ++ t) :=
          (List.isPrefixOf_iff_prefix.mp hprefix).trans (List.prefix_append (b :: s) t)
        rw [if_pos (List.isPrefixOf_iff_prefix.mpr hprefix)]
        exact h
      · rename_i hnot
        obtain ⟨j, hj, rfl⟩ := Option.map_eq_some_iff.mp h
        -- an occurrence at the start would lie in the string
        have hstart : ¬ needle.isPrefixOf (b :: (s ++ t)) = true := by
          intro hprefix
          have hshort : needle <+: b :: s :=
            List.prefix_of_prefix_length_le (List.isPrefixOf_iff_prefix.mp hprefix)
              (List.prefix_append (b :: s) t) (by omega)
          exact hnot (List.isPrefixOf_iff_prefix.mpr hshort)
        rw [if_neg hstart, ih hj]
        rfl

/-- A string that ends before the first occurrence does has none. -/
theorem strstr_none {needle s t : List UInt8} {i : Nat} (h : strstr needle (s ++ t) = some i)
    (hshort : s.length < i + needle.length) : strstr needle s = none := by
  cases hs : strstr needle s with
  | none => rfl
  | some j =>
      have hj := strstr_fits hs
      have hsame := (strstr_append hs t).symm.trans h
      obtain rfl := Option.some.inj hsame
      omega

/-- Bytes in front that are not the first one of the needle. -/
theorem strstr_skip {c : UInt8} (needle : List UInt8) {v : List UInt8} (h : c ∉ v)
    (s : List UInt8) :
    strstr (c :: needle) (v ++ s) = (strstr (c :: needle) s).map (· + v.length) := by
  induction v with
  | nil => simp
  | cons b v ih =>
      obtain ⟨hb, hv⟩ := not_or.mp (List.mem_cons.not.mp h)
      have hstart : ¬ (c :: needle).isPrefixOf (b :: (v ++ s)) = true := by
        rw [List.isPrefixOf_iff_prefix, List.cons_prefix_cons]
        exact fun hsame => hb hsame.1
      rw [List.cons_append, strstr, if_neg hstart, ih hv, Option.map_map]
      rfl

/-- A string without some byte of the needle. -/
theorem strstr_absent {needle s : List UInt8} {b : UInt8} (hneedle : b ∈ needle) (hs : b ∉ s) :
    strstr needle s = none := by
  cases h : strstr needle s with
  | none => rfl
  | some i =>
      have hfound := strstr_prefix h
      exact absurd (List.mem_of_mem_drop (hfound.subset hneedle)) hs

/-- Whether a string starts with some bytes is decided in the part that holds a byte they do not
have. -/
theorem is_prefix_append {needle s : List UInt8} {b : UInt8} (hs : b ∈ s) (hneedle : b ∉ needle)
    (t : List UInt8) : needle.isPrefixOf (s ++ t) = needle.isPrefixOf s := by
  rw [Bool.eq_iff_iff, List.isPrefixOf_iff_prefix, List.isPrefixOf_iff_prefix]
  constructor
  · intro h
    rcases List.prefix_or_prefix_of_prefix h (List.prefix_append s t) with hin | hover
    · exact hin
    · exact absurd (hover.subset hs) hneedle
  · exact fun h => h.trans (List.prefix_append s t)

/-! ## Numbers -/

/-- The digits end at a byte that is none. -/
theorem decimal_stop {b : UInt8} (hb : isDigit b = false) (s t : List UInt8) :
    decimal (s ++ b :: t) = decimal s := by
  have hnone : (b :: t).takeWhile isDigit = [] := by simp [hb]
  unfold decimal
  rw [List.takeWhile_append, hnone, List.append_nil]
  split
  · rename_i hall
    rw [(List.takeWhile_prefix _).eq_of_length hall]
  · rfl

theorem signed_decimal_stop {b : UInt8} (hb : isDigit b = false) (hminus : b ≠ 45)
    (hplus : b ≠ 43) (s t : List UInt8) : signedDecimal (s ++ b :: t) = signedDecimal s := by
  cases s with
  | nil =>
      have hdigits := decimal_stop hb [] t
      simp_all [signedDecimal]
  | cons a s =>
      have hall := decimal_stop hb (a :: s) t
      unfold signedDecimal
      simp only [List.cons_append, List.head?_cons, List.tail_cons] at hall ⊢
      rw [decimal_stop hb, hall]
      rfl

/-- White space at the start of a string that has something else in it. -/
theorem skip_space_append {s : List UInt8} (h : s.dropWhile isSpace ≠ []) (t : List UInt8) :
    (s ++ t).dropWhile isSpace = s.dropWhile isSpace ++ t := by
  rw [List.dropWhile_append, if_neg (by simpa using h)]

/-- The digits at the start of a string with a line feed in it. -/
theorem decimal_append {s : List UInt8} (h : 10 ∈ s) (t : List UInt8) :
    decimal (s ++ t) = decimal s := by
  have hstop : (s.takeWhile isDigit).length ≠ s.length := by
    intro hall
    have hself : s.takeWhile isDigit = s := (List.takeWhile_prefix _).eq_of_length hall
    have hdigit := List.takeWhile_eq_self_iff.mp hself 10 h
    exact absurd hdigit (by decide)
  unfold decimal
  rw [List.takeWhile_append, if_neg hstop]

theorem signed_decimal_append {s : List UInt8} (h : 10 ∈ s) (t : List UInt8) :
    signedDecimal (s ++ t) = signedDecimal s := by
  cases s with
  | nil => cases h
  | cons b s =>
      have htail (hsign : b = 45 ∨ b = 43) : 10 ∈ s := by
        rcases List.mem_cons.mp h with hb | hs
        · rw [← hb] at hsign
          exact absurd hsign (by decide)
        · exact hs
      unfold signedDecimal
      simp only [List.cons_append, List.head?_cons, List.tail_cons, Option.some.injEq]
      split
      · rename_i hminus
        rw [decimal_append (htail (.inl hminus))]
      · split
        · rename_i hplus
          rw [decimal_append (htail (.inr hplus))]
        · rw [← List.cons_append, decimal_append h]

/-- A number other than 0, in a string that ends a line, is not changed by the next lines. -/
theorem atoi_append {s : List UInt8} (hnumber : atoi (s ++ [10]) ≠ 0) (t : List UInt8) :
    atoi (s ++ [10] ++ t) = atoi (s ++ [10]) := by
  have hdigits : (s ++ [10]).dropWhile isSpace ≠ [] := by
    intro hblank
    rw [atoi, hblank] at hnumber
    exact hnumber rfl
  have hline : (10 : UInt8) ∈ (s ++ [10]).dropWhile isSpace := by
    obtain ⟨skipped, hskipped⟩ := List.dropWhile_suffix (l := s ++ [10]) isSpace
    have hlast := congrArg List.getLast? hskipped
    rw [List.getLast?_append_of_ne_nil _ hdigits, List.getLast?_concat] at hlast
    exact List.mem_of_getLast? hlast
  have hdrop : (s ++ [10] ++ t).dropWhile isSpace = (s ++ [10]).dropWhile isSpace ++ t := by
    rw [List.dropWhile_append, if_neg (by simpa using hdigits)]
  rw [atoi, hdrop, signed_decimal_append hline]
  rfl

/-! ## Scanning -/

/-- A digit is neither white space nor a sign. -/
theorem digit_plain {b : UInt8} (h : isDigit b = true) : isSpace b = false ∧ b ≠ 45 ∧ b ≠ 43 := by
  have hrange : 48 ≤ b ∧ b ≤ 57 := of_decide_eq_true h
  obtain ⟨hlow, hhigh⟩ := hrange
  rw [UInt8.le_iff_toNat_le] at hlow hhigh
  have hne (c : UInt8) (hc : c.toNat < 48) : b ≠ c := by
    rintro rfl
    exact absurd hlow (Nat.not_le.mpr hc)
  refine ⟨?_, hne 45 (by decide), hne 43 (by decide)⟩
  have hcontrol : ¬ (9 ≤ b ∧ b ≤ 13) := by
    rintro ⟨-, hle⟩
    rw [UInt8.le_iff_toNat_le] at hle
    exact absurd (Nat.le_trans hlow hle) (by decide)
  unfold isSpace
  rw [decide_eq_false (hne 32 (by decide)), decide_eq_false hcontrol]
  rfl

theorem scan_int_space (s : List UInt8) : scanInt (32 :: s) = scanInt s := rfl

theorem scan_word_space (width : Nat) (s : List UInt8) :
    scanWord width (32 :: s) = scanWord width s := rfl

/-- A number is scanned up to the first byte that is no digit. -/
theorem scan_int_digits {digits : List UInt8} (hne : digits ≠ [])
    (hdigits : ∀ b ∈ digits, isDigit b = true) (hfits : decimal digits ≤ 2147483647)
    {rest : List UInt8} (hrest : ∀ b ∈ rest.head?, isDigit b = false) :
    scanInt (digits ++ rest) = some (.ofNat (decimal digits), rest) := by
  obtain ⟨d, ds, rfl⟩ := List.exists_cons_of_ne_nil hne
  obtain ⟨hspace, hminus, hplus⟩ := digit_plain (hdigits d List.mem_cons_self)
  have hstart : ((d :: ds) ++ rest).dropWhile isSpace = (d :: ds) ++ rest := by
    rw [List.cons_append, List.dropWhile_cons_of_neg (by rw [hspace]; decide)]
  have hnone : rest.takeWhile isDigit = [] ∧ rest.dropWhile isDigit = rest := by
    cases rest with
    | nil => exact ⟨rfl, rfl⟩
    | cons b rest =>
        have hb := hrest b rfl
        exact ⟨List.takeWhile_cons_of_neg (by rw [hb]; decide),
          List.dropWhile_cons_of_neg (by rw [hb]; decide)⟩
  have htake : ((d :: ds) ++ rest).takeWhile isDigit = d :: ds := by
    rw [List.takeWhile_append_of_pos hdigits, hnone.1, List.append_nil]
  have hdrop : ((d :: ds) ++ rest).dropWhile isDigit = rest := by
    rw [List.dropWhile_append_of_pos hdigits, hnone.2]
  have hvalue : atoi ((d :: ds) ++ rest) = .ofNat (decimal (d :: ds)) := by
    have hself : (d :: ds).takeWhile isDigit = d :: ds := List.takeWhile_eq_self_iff.mpr hdigits
    have hsigned : signedDecimal ((d :: ds) ++ rest) = decimal (d :: ds) := by
      have hminus' : ¬ ((d :: ds) ++ rest).head? = some 45 := by simpa using hminus
      have hplus' : ¬ ((d :: ds) ++ rest).head? = some 43 := by simpa using hplus
      rw [signedDecimal, if_neg hminus', if_neg hplus', decimal, htake, decimal, hself]
    have hclamp : max (-2147483648) (min 2147483647 (decimal (d :: ds) : Int)) =
        decimal (d :: ds) := by omega
    rw [atoi, hstart, hsigned, hclamp]
    rfl
  have hsign : ¬ (((d :: ds) ++ rest).head? = some 45 ∨ ((d :: ds) ++ rest).head? = some 43) := by
    simp [hminus, hplus]
  unfold scanInt
  dsimp only
  rw [hstart, if_neg hsign, htake, if_neg (List.cons_ne_nil d ds), hdrop, hvalue]

/-- The digits in front of something that is none. -/
theorem digits_append {digits : List UInt8} (hdigits : ∀ b ∈ digits, isDigit b = true) {c : UInt8}
    (hc : isDigit c = false) (rest : List UInt8) :
    (digits ++ c :: rest).takeWhile isDigit = digits ∧
      (digits ++ c :: rest).dropWhile isDigit = c :: rest := by
  rw [List.takeWhile_append_of_pos hdigits, List.dropWhile_append_of_pos hdigits,
    List.takeWhile_cons_of_neg (by rw [hc]; decide),
    List.dropWhile_cons_of_neg (by rw [hc]; decide)]
  exact ⟨List.append_nil _, rfl⟩

/-- A digit does not start the name of a special value. -/
theorem digit_no_name {b : UInt8} (h : isDigit b = true) : b ||| 32 ≠ 105 ∧ b ||| 32 ≠ 110 := by
  have hrange : 48 ≤ b ∧ b ≤ 57 := of_decide_eq_true h
  simp only [UInt8.le_iff_toNat_le, UInt8.reduceToNat] at hrange
  have hall : ∀ n < 10, UInt8.ofNat (48 + n) ||| 32 ≠ 105 ∧ UInt8.ofNat (48 + n) ||| 32 ≠ 110 := by
    decide
  have hb := hall (b.toNat - 48) (by omega)
  rwa [show 48 + (b.toNat - 48) = b.toNat by omega, UInt8.ofNat_toNat] at hb

/-- A decimal number has its value, with or without a point. -/
theorem decimal_point_digits {whole part : List UInt8} (hwhole : whole ≠ [])
    (hwholeDigits : ∀ b ∈ whole, isDigit b = true) (hpartDigits : ∀ b ∈ part, isDigit b = true) :
    decimalPoint (decimalText whole part) =
      (decimal (whole ++ part) : Rat) / 10 ^ part.length := by
  have hall {digits : List UInt8} (hdigits : ∀ b ∈ digits, isDigit b = true) :
      digits.takeWhile isDigit = digits ∧ digits.dropWhile isDigit = [] :=
    ⟨List.takeWhile_eq_self_iff.mpr hdigits, List.dropWhile_eq_nil_iff.mpr hdigits⟩
  rw [Rat.div_def, ← Rat.zpow_natCast, ← Rat.zpow_neg]
  unfold decimalPoint decimalText
  by_cases hpart : part = []
  · subst hpart
    rw [if_pos rfl, List.append_nil, (hall hwholeDigits).1, (hall hwholeDigits).2]
    simp [hwhole]
  · obtain ⟨htake, hdrop⟩ := digits_append hwholeDigits (c := 46) rfl part
    rw [if_neg hpart]
    dsimp only
    rw [htake, hdrop]
    simp only [List.head?_cons, List.tail_cons, if_true]
    rw [(hall hpartDigits).1, (hall hpartDigits).2, if_neg fun h => hwhole h.1]
    simp

/-- `atof` reads a decimal number. -/
theorem atof_digits {whole part : List UInt8} (hwhole : whole ≠ [])
    (hwholeDigits : ∀ b ∈ whole, isDigit b = true) (hpartDigits : ∀ b ∈ part, isDigit b = true) :
    atof (decimalText whole part) =
      .finite ((decimal (whole ++ part) : Rat) / 10 ^ part.length) := by
  have hvalue := decimal_point_digits hwhole hwholeDigits hpartDigits
  obtain ⟨d, ds, rfl⟩ := List.exists_cons_of_ne_nil hwhole
  have hd := hwholeDigits d List.mem_cons_self
  obtain ⟨hspace, hminus, hplus⟩ := digit_plain hd
  obtain ⟨hinf, hnan⟩ := digit_no_name hd
  obtain ⟨rest, hrest⟩ : ∃ rest, decimalText (d :: ds) part = d :: rest := ⟨_, rfl⟩
  have hstart : (d :: rest).dropWhile isSpace = d :: rest :=
    List.dropWhile_cons_of_neg (by rw [hspace]; decide)
  rw [hrest] at hvalue ⊢
  unfold atof
  dsimp only
  rw [hstart]
  simp only [List.head?_cons, Option.some.injEq, hminus, hplus, or_self, if_false,
    List.take_succ_cons, List.map_cons, List.cons.injEq, hinf, hnan, false_and]
  rw [hvalue]

/-- A word that fills the field. -/
theorem scan_word_append {word : List UInt8} (hne : word ≠ [])
    (hword : ∀ b ∈ word, isSpace b = false) (rest : List UInt8) :
    scanWord word.length (word ++ rest) = some (word, rest) := by
  have hstart : (word ++ rest).dropWhile isSpace = word ++ rest := by
    obtain ⟨b, bs, rfl⟩ := List.exists_cons_of_ne_nil hne
    have hb := hword b List.mem_cons_self
    rw [List.cons_append, List.dropWhile_cons_of_neg (by rw [hb]; decide)]
  have htake : ((word ++ rest).take word.length).takeWhile (fun b => !isSpace b) = word := by
    rw [List.take_left, List.takeWhile_eq_self_iff]
    intro b hb
    rw [hword b hb]
    rfl
  unfold scanWord
  dsimp only
  rw [hstart, htake, if_neg hne, List.drop_left]

theorem hex_value_lt {b : UInt8} {n : Nat} (h : hexValue b = some n) : n < 16 := by
  unfold hexValue at h
  simp only [UInt8.le_iff_toNat_le, UInt8.reduceToNat] at h
  split at h
  · obtain rfl := Option.some.inj h
    omega
  · split at h
    · obtain rfl := Option.some.inj h
      omega
    · split at h
      · obtain rfl := Option.some.inj h
        omega
      · cases h

/-- A byte without a value is none of the digits. -/
theorem hex_value_ne {b c : UInt8} {n : Nat} (h : hexValue b = some n) (hc : hexValue c = none) :
    b ≠ c := by
  rintro rfl
  rw [h] at hc
  cases hc

/-- Two digits fill a field of two. -/
theorem scan_hex_pair {high low : UInt8} {h l : Nat} (hhigh : hexValue high = some h)
    (hlow : hexValue low = some l) (rest : List UInt8) :
    scanHex 2 (high :: low :: rest) = some (.ofNat (16 * h + l)) := by
  have hspace : isSpace high = false := by
    have hcontrol : ¬ (9 ≤ high ∧ high ≤ 13) := by
      rintro ⟨hge, hle⟩
      have hvalue : ∀ c : UInt8, 9 ≤ c → c ≤ 13 → hexValue c = none := by
        intro c hge hle
        rw [UInt8.le_iff_toNat_le] at hge hle
        simp only [hexValue, UInt8.le_iff_toNat_le, UInt8.reduceToNat] at hge hle ⊢
        rw [if_neg (by omega), if_neg (by omega), if_neg (by omega)]
      exact hex_value_ne hhigh (hvalue high hge hle) rfl
    unfold isSpace
    rw [decide_eq_false (hex_value_ne hhigh (c := 32) rfl), decide_eq_false hcontrol]
    rfl
  have hfield : ((high :: low :: rest).dropWhile isSpace).take 2 = [high, low] := by
    rw [List.dropWhile_cons_of_neg (by rw [hspace]; decide)]
    rfl
  have hminus : ¬ ([high, low].head? = some 45) := by
    simpa using hex_value_ne hhigh (c := 45) rfl
  have hplus : ¬ ([high, low].head? = some 43) := by
    simpa using hex_value_ne hhigh (c := 43) rfl
  -- the second one is a digit, so that the two are not the `0x` of a number
  have hmarker : ¬ ([high, low].take 2 = [48, 120] ∨ [high, low].take 2 = [48, 88]) := by
    have hlower : low ≠ 120 := hex_value_ne hlow rfl
    have hupper : low ≠ 88 := hex_value_ne hlow rfl
    simp [hlower, hupper]
  have hnumber : [high, low].takeWhile (fun b => (hexValue b).isSome) = [high, low] := by
    simp [hhigh, hlow]
  have hsum : [high, low].foldl (fun n b => 16 * n + (hexValue b).getD 0) 0 = 16 * h + l := by
    simp [hhigh, hlow]
  have hh := hex_value_lt hhigh
  have hl := hex_value_lt hlow
  unfold scanHex
  dsimp only
  rw [hfield, if_neg (not_or.mpr ⟨hminus, hplus⟩), if_neg hmarker, hnumber, hsum,
    if_neg (List.cons_ne_nil _ _), if_neg hminus, min_eq_right (by omega)]

end LinkFPGA.CString
