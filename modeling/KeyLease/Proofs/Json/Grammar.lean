import KeyLease.Proofs.Json.Written

set_option autoImplicit false

/-!
# The grammar of JSON texts

The texts of JSON by their grammar, apart from any reader: white space, strings, numbers and values
(`Derives`). A string that is read stands for a text, and every escape spelling of it counts
(`Spells`); one that is passed over only has to keep to the grammar (`IsString`).

The readers take all of these texts: a string is read as the text that it spells
(`stringBody_spelled`), and every value is passed over, however deep it is nested and wherever its
white space stands (`skipValue_of_derives`).
-/

namespace KeyLease.Json

/-! ## White space -/

/-- White space, or nothing. -/
def IsBlank (cs : List Char) : Prop := ∀ c ∈ cs, isSpace c = true

instance (cs : List Char) : Decidable (IsBlank cs) :=
  decidable_of_iff (cs.all isSpace = true) List.all_eq_true

theorem isBlank_nil : IsBlank [] := List.forall_mem_nil _

/-- White space does not matter before a token. -/
theorem skipSpace_blank {ws : List Char} (hws : IsBlank ws) (cs : List Char) :
    skipSpace (ws ++ cs) = skipSpace cs :=
  List.dropWhile_append_of_pos hws

theorem skipSpace_cons {c : Char} (hc : isSpace c = false) (cs : List Char) :
    skipSpace (c :: cs) = c :: cs :=
  List.dropWhile_cons_of_neg (by simp [hc])

/-- The first character behind white space. -/
theorem skipSpace_blank_cons {ws : List Char} (hws : IsBlank ws) {c : Char} (hc : isSpace c = false)
    (cs : List Char) : skipSpace (ws ++ c :: cs) = c :: cs := by
  rw [skipSpace_blank hws, skipSpace_cons hc]

theorem skipSpace_skipSpace (cs : List Char) : skipSpace (skipSpace cs) = skipSpace cs := by
  induction cs with
  | nil => rfl
  | cons c cs ih =>
      by_cases hc : isSpace c = true
      · have hskip : skipSpace (c :: cs) = skipSpace cs := List.dropWhile_cons_of_pos hc
        rw [hskip, ih]
      · have hskip := skipSpace_cons (Bool.eq_false_iff.mpr hc) cs
        rw [hskip, hskip]

/-- No number goes on behind white space, a comma or a closing bracket. -/
theorem endsNumber_blank {ws : List Char} (hws : IsBlank ws) {rest : List Char}
    (hrest : EndsNumber rest) : EndsNumber (ws ++ rest) := by
  cases ws with
  | nil => exact hrest
  | cons w ws =>
      rintro c ⟨⟩
      have hspace : ((w = ' ' ∨ w = '\n') ∨ w = '\t') ∨ w = '\r' := by
        simpa [isSpace] using hws w List.mem_cons_self
      obtain ((rfl | rfl) | rfl) | rfl := hspace <;> decide

theorem endsNumber_nil : EndsNumber [] := nofun

theorem endsNumber_comma (rest : List Char) : EndsNumber (',' :: rest) := by
  rintro c ⟨⟩
  decide

theorem endsNumber_bracket (rest : List Char) : EndsNumber (']' :: rest) := by
  rintro c ⟨⟩
  decide

theorem endsNumber_brace (rest : List Char) : EndsNumber ('\x7d' :: rest) := by
  rintro c ⟨⟩
  decide

/-! ## Strings -/

/-- A character that stands for itself in a string. -/
def IsPlain (c : Char) : Prop := 0x20 ≤ c.toNat ∧ c ≠ '"' ∧ c ≠ '\\'

instance : DecidablePred IsPlain := fun c =>
  inferInstanceAs (Decidable (0x20 ≤ c.toNat ∧ c ≠ '"' ∧ c ≠ '\\'))

/-- The escapes of one letter: what stands behind the backslash, and the character that is meant. -/
def shortEscapes : List (Char × Char) :=
  [('"', '"'), ('\\', '\\'), ('/', '/'), ('b', '\x08'), ('f', '\x0c'), ('n', '\n'), ('r', '\r'),
    ('t', '\t')]

/-- Four hexadecimal digits, of either case, and the number that they write. -/
inductive IsHexUnit : Nat → List Char → Prop
  | digits {a b c d : Char} {w x y z : Nat}
      (ha : Text.PercentCoding.hexDigit? a = some w) (hb : Text.PercentCoding.hexDigit? b = some x)
      (hc : Text.PercentCoding.hexDigit? c = some y)
      (hd : Text.PercentCoding.hexDigit? d = some z) :
      IsHexUnit (((w * 16 + x) * 16 + y) * 16 + z) [a, b, c, d]

/-- A spelling of a character: as it is, by one of its escapes of one letter, or by its code point,
which takes two escapes, one for each half, if it lies beyond 16 bits. -/
inductive SpellsChar : List Char → Char → Prop
  | plain {c : Char} (hc : IsPlain c) : SpellsChar [c] c
  | short {e c : Char} (he : (e, c) ∈ shortEscapes) : SpellsChar ['\\', e] c
  | unit {c : Char} {ds : List Char} (hds : IsHexUnit c.toNat ds) : SpellsChar ('\\' :: 'u' :: ds) c
  | pair {c : Char} {high low : List Char} (hc : 0x10000 ≤ c.toNat)
      (hhigh : IsHexUnit (0xD800 + (c.toNat - 0x10000) / 1024) high)
      (hlow : IsHexUnit (0xDC00 + (c.toNat - 0x10000) % 1024) low) :
      SpellsChar ('\\' :: 'u' :: (high ++ '\\' :: 'u' :: low)) c

/-- A spelling of a text between the quotes of a string. -/
inductive Spells : List Char → List Char → Prop
  | nil : Spells [] []
  | cons {spelled cs text : List Char} {c : Char} (head : SpellsChar spelled c)
      (tail : Spells cs text) : Spells (spelled ++ cs) (c :: text)

/-- A text without anything to escape spells itself. -/
theorem spells_self {text : List Char} (h : text.all fun c => IsPlain c) : Spells text text := by
  induction text with
  | nil => exact .nil
  | cons c text ih =>
      rw [List.all_cons, Bool.and_eq_true] at h
      exact .cons (.plain (of_decide_eq_true h.1)) (ih h.2)

theorem Spells.append {cs ds s t : List Char} (h : Spells cs s) (h' : Spells ds t) :
    Spells (cs ++ ds) (s ++ t) := by
  induction h with
  | nil => exact h'
  | cons head tail ih =>
      rw [List.append_assoc]
      exact .cons head ih

/-- What the grammar lets stand between the quotes of a string: there, the code point of an escape
may be half of a pair. -/
inductive IsString : List Char → Prop
  | nil : IsString []
  | plain {c : Char} {cs : List Char} (hc : IsPlain c) (tail : IsString cs) : IsString (c :: cs)
  | short {e c : Char} {cs : List Char} (he : (e, c) ∈ shortEscapes) (tail : IsString cs) :
      IsString ('\\' :: e :: cs)
  | unit {n : Nat} {ds cs : List Char} (hds : IsHexUnit n ds) (tail : IsString cs) :
      IsString ('\\' :: 'u' :: (ds ++ cs))

theorem hexUnit_append {n : Nat} {ds : List Char} (h : IsHexUnit n ds) (rest : List Char) :
    hexUnit (ds ++ rest) = .ok (n, rest) := by
  cases h with
  | digits ha hb hc hd =>
      simp only [List.cons_append, List.nil_append, hexUnit, ha, hb, hc, hd]

theorem stringChar_plain (paired : Bool) {c : Char} (hc : IsPlain c) (rest : List Char) :
    stringChar paired (c :: rest) = .ok (some c, rest) := by
  obtain ⟨hlarge, hquote, hback⟩ := hc
  have hnot : ¬ c.toNat < 0x20 := by omega
  unfold stringChar
  split
  · simp_all
  · simp_all
  · simp_all
  · simp_all

theorem stringChar_short (paired : Bool) {e c : Char} (he : (e, c) ∈ shortEscapes)
    (rest : List Char) : stringChar paired ('\\' :: e :: rest) = .ok (some c, rest) := by
  simp only [shortEscapes, List.mem_cons, Prod.mk.injEq, List.not_mem_nil, or_false] at he
  obtain ⟨rfl, rfl⟩ | ⟨rfl, rfl⟩ | ⟨rfl, rfl⟩ | ⟨rfl, rfl⟩ | ⟨rfl, rfl⟩ | ⟨rfl, rfl⟩ | ⟨rfl, rfl⟩
    | ⟨rfl, rfl⟩ := he
  all_goals rfl

/-- No character has a code point that is half of a pair. -/
theorem not_half_of_char (c : Char) : isLowHalf c.toNat = false ∧ isHighHalf c.toNat = false := by
  have hvalid : c.toNat < 0xD800 ∨ 0xDFFF < c.toNat ∧ c.toNat < 0x110000 := c.valid
  simp only [isLowHalf, isHighHalf, Bool.and_eq_false_iff, decide_eq_false_iff_not]
  omega

/-- A spelling of a character is read as that character. -/
theorem stringChar_spelled {spelled : List Char} {c : Char} (h : SpellsChar spelled c)
    (rest : List Char) : stringChar true (spelled ++ rest) = .ok (some c, rest) := by
  cases h with
  | plain hc => exact stringChar_plain true hc rest
  | short he => exact stringChar_short true he rest
  | unit hds =>
      obtain ⟨hlow, hhigh⟩ := not_half_of_char c
      have hunit := hexUnit_append hds rest
      simp only [List.cons_append, stringChar, codePoint, hunit, hlow, hhigh, Char.ofNat_toNat]
      simp
  | pair hc hhigh hlow =>
      rename_i high low
      have hbound : c.toNat < 0x110000 := by
        have hvalid : c.toNat < 0xD800 ∨ 0xDFFF < c.toNat ∧ c.toNat < 0x110000 := c.valid
        omega
      have hfirst := hexUnit_append hhigh ('\\' :: 'u' :: (low ++ rest))
      have hsecond := hexUnit_append hlow rest
      generalize hm : c.toNat - 0x10000 = m at hfirst hsecond
      have hnotlow : isLowHalf (0xD800 + m / 1024) = false := by
        simp only [isLowHalf, Bool.and_eq_false_iff, decide_eq_false_iff_not]
        omega
      have hishigh : isHighHalf (0xD800 + m / 1024) = true := by
        simp only [isHighHalf, Bool.and_eq_true, decide_eq_true_eq]
        omega
      have hislow : isLowHalf (0xDC00 + m % 1024) = true := by
        simp only [isLowHalf, Bool.and_eq_true, decide_eq_true_eq]
        omega
      have hjoin : joinHalves (0xD800 + m / 1024) (0xDC00 + m % 1024) = c.toNat := by
        simp only [joinHalves]
        omega
      have happ : '\\' :: 'u' :: (high ++ '\\' :: 'u' :: low) ++ rest
          = '\\' :: 'u' :: (high ++ '\\' :: 'u' :: (low ++ rest)) := by simp
      rw [happ]
      simp only [stringChar, codePoint, hfirst, hsecond, hnotlow, hishigh, hislow, hjoin,
        Char.ofNat_toNat]
      simp

/-- A spelling of a text is read as that text. -/
theorem stringBody_spelled {cs text : List Char} (h : Spells cs text) (rest : List Char) :
    stringBody true (cs ++ '"' :: rest) = .ok (text, rest) := by
  induction h with
  | nil => exact stringBody_of_none rfl
  | cons head tail ih =>
      rw [List.append_assoc]
      exact stringBody_of_some (stringChar_spelled head _) ih

/-- Every string of the grammar is passed over. -/
theorem skipString_of_isString {cs : List Char} (h : IsString cs) (rest : List Char) :
    skipString (cs ++ '"' :: rest) = .ok rest := by
  have hread : ∃ text, stringBody false (cs ++ '"' :: rest) = .ok (text, rest) := by
    induction h with
    | nil => exact ⟨[], stringBody_of_none rfl⟩
    | plain hc tail ih =>
        obtain ⟨text, htext⟩ := ih
        exact ⟨_, stringBody_of_some (stringChar_plain false hc _) htext⟩
    | short he tail ih =>
        obtain ⟨text, htext⟩ := ih
        exact ⟨_, stringBody_of_some (stringChar_short false he _) htext⟩
    | @unit n ds cs hds tail ih =>
        obtain ⟨text, htext⟩ := ih
        have hunit := hexUnit_append hds (cs ++ '"' :: rest)
        have hchar : stringChar false ('\\' :: 'u' :: (ds ++ (cs ++ '"' :: rest)))
            = .ok (some (Char.ofNat n), cs ++ '"' :: rest) := by
          simp only [stringChar, codePoint, hunit]
          simp
        refine ⟨_, stringBody_of_some (c := Char.ofNat n) ?_ htext⟩
        simpa using hchar
  obtain ⟨text, htext⟩ := hread
  rw [skipString, htext]
  rfl

/-! ## Numbers -/

/-- One or more digits. -/
def IsDigits (cs : List Char) : Prop := cs ≠ [] ∧ ∀ c ∈ cs, c.isDigit = true

/-- Digits of a whole number: no zero before others. -/
def IsWhole (cs : List Char) : Prop := IsDigits cs ∧ (cs.head? = some '0' → cs = ['0'])

/-- The exponent of a number, or nothing. -/
inductive IsExponent : List Char → Prop
  | absent : IsExponent []
  | present {e : Char} {sign ds : List Char} (he : e = 'e' ∨ e = 'E')
      (hsign : sign = [] ∨ sign = ['+'] ∨ sign = ['-']) (hds : IsDigits ds) :
      IsExponent (e :: (sign ++ ds))

/-- The decimals of a number, or nothing. -/
inductive IsFraction : List Char → Prop
  | absent : IsFraction []
  | present {ds : List Char} (hds : IsDigits ds) : IsFraction ('.' :: ds)

/-- A number. -/
inductive IsNumber : List Char → Prop
  | parts {sign whole fraction exponent : List Char} (hsign : sign = [] ∨ sign = ['-'])
      (hwhole : IsWhole whole) (hfraction : IsFraction fraction) (hexponent : IsExponent exponent) :
      IsNumber (sign ++ (whole ++ (fraction ++ exponent)))

theorem IsDigits.exists_cons {cs : List Char} (h : IsDigits cs) :
    ∃ c ds, cs = c :: ds ∧ c.isDigit = true := by
  obtain ⟨c, ds, rfl⟩ := List.exists_cons_of_ne_nil h.1
  exact ⟨c, ds, rfl, h.2 c List.mem_cons_self⟩

theorem ne_of_isDigit {c d : Char} (hc : c.isDigit = true) (hd : d.isDigit = false) : c ≠ d := by
  rintro rfl
  rw [hc] at hd
  cases hd

/-- Digits are all taken where no digit follows. -/
theorem IsDigits.leadingDigits {cs : List Char} (h : IsDigits cs) {rest : List Char}
    (hrest : ∀ c ∈ rest.head?, Text.digit? c = none) :
    ∃ d ds, Json.leadingDigits (cs ++ rest) = (d :: ds, rest) ∧ digitsOf cs = d :: ds := by
  have hread := leadingDigits_digits h.2 hrest
  obtain ⟨c, cs, rfl, -⟩ := h.exists_cons
  exact ⟨_, _, hread, rfl⟩

theorem skipExponent_digits {sign ds : List Char}
    (hsign : sign = [] ∨ sign = ['+'] ∨ sign = ['-']) (hds : IsDigits ds) {rest : List Char}
    (hrest : EndsNumber rest) : skipExponent (sign ++ ds ++ rest) = .ok rest := by
  have hskip : skipSign (sign ++ ds ++ rest) = ds ++ rest := by
    obtain rfl | rfl | rfl := hsign
    · obtain ⟨c, cs, rfl, hc⟩ := hds.exists_cons
      have hplus := ne_of_isDigit hc (d := '+') (by decide)
      have hminus := ne_of_isDigit hc (d := '-') (by decide)
      simp only [List.nil_append, List.cons_append, skipSign]
      split <;> simp_all
    · rfl
    · rfl
  obtain ⟨d, more, hread, -⟩ := hds.leadingDigits fun c hc => (hrest c hc).1
  simp only [skipExponent, hskip, hread]

/-- No digits go on with an exponent. -/
theorem IsExponent.head_not_digit {cs : List Char} (h : IsExponent cs) {rest : List Char}
    (hrest : EndsNumber rest) : ∀ c ∈ (cs ++ rest).head?, Text.digit? c = none := by
  cases h with
  | absent => exact fun c hc => (hrest c hc).1
  | present he hsign hds =>
      rintro c ⟨⟩
      obtain rfl | rfl := he <;> decide

theorem skipDecimals_digits {ds exponent : List Char} (hds : IsDigits ds)
    (hexponent : IsExponent exponent) {rest : List Char} (hrest : EndsNumber rest) :
    skipDecimals (ds ++ (exponent ++ rest)) = .ok rest := by
  obtain ⟨d, more, hread, -⟩ := hds.leadingDigits (hexponent.head_not_digit hrest)
  unfold skipDecimals
  rw [hread]
  cases hexponent with
  | absent =>
      -- What follows the number is no exponent.
      cases rest with
      | nil => rfl
      | cons c rest =>
          obtain ⟨-, -, he, hE⟩ := hrest c rfl
          simp only [List.nil_append]
          split <;> simp_all
  | present he hsign hds' =>
      have hskip := skipExponent_digits hsign hds' hrest
      obtain rfl | rfl := he
      · simpa using hskip
      · simpa using hskip

/-- The text behind the decimals or the exponent that follow the digits of a whole number, if there
are any. -/
def skipBehindWhole : List Char → Except Fault (List Char)
  | '.' :: rest => skipDecimals rest
  | 'e' :: rest => skipExponent rest
  | 'E' :: rest => skipExponent rest
  | rest => .ok rest

theorem skipNumber_of_leadingDigits {cs rest : List Char} {ds : List Nat}
    (hread : leadingDigits cs = (ds, rest)) (hsome : ds ≠ [])
    (hzero : ∀ d more, ds ≠ 0 :: d :: more) : skipNumber cs = skipBehindWhole rest := by
  unfold skipNumber skipBehindWhole
  rw [hread]
  split
  · simp_all
  · rename_i heq
    exact absurd (Prod.mk.inj heq).1 (hzero _ _)
  all_goals simp_all

theorem skipBehindWhole_endsNumber {rest : List Char} (hrest : EndsNumber rest) :
    skipBehindWhole rest = .ok rest := by
  cases rest with
  | nil => rfl
  | cons c rest =>
      obtain ⟨-, hpoint, he, hE⟩ := hrest c rfl
      unfold skipBehindWhole
      split <;> simp_all

/-- A number is passed over up to what follows it. -/
theorem skipNumber_whole {whole fraction exponent : List Char} (hwhole : IsWhole whole)
    (hfraction : IsFraction fraction) (hexponent : IsExponent exponent) {rest : List Char}
    (hrest : EndsNumber rest) :
    skipNumber (whole ++ (fraction ++ (exponent ++ rest))) = .ok rest := by
  have hhead : ∀ c ∈ (fraction ++ (exponent ++ rest)).head?, Text.digit? c = none := by
    cases hfraction with
    | absent => exact hexponent.head_not_digit hrest
    | present hds =>
        rintro c ⟨⟩
        decide
  obtain ⟨d, more, hread, hdigits⟩ := hwhole.1.leadingDigits hhead
  -- A zero in front is the only digit.
  have hzero : ∀ d' ds', d :: more ≠ 0 :: d' :: ds' := by
    intro d' ds' heq
    rw [heq] at hdigits
    have hone := hwhole.2 (head?_of_digitsOf hwhole.1.2 hdigits)
    rw [hone] at hdigits
    cases hdigits
  rw [skipNumber_of_leadingDigits hread (List.cons_ne_nil d more) hzero]
  cases hfraction with
  | present hds => simpa [skipBehindWhole] using skipDecimals_digits hds hexponent hrest
  | absent =>
      cases hexponent with
      | absent => exact skipBehindWhole_endsNumber hrest
      | present he hsign hds =>
          have hskip := skipExponent_digits hsign hds hrest
          obtain rfl | rfl := he
          · simpa [skipBehindWhole] using hskip
          · simpa [skipBehindWhole] using hskip

/-- A number begins with a sign or a digit, and is passed over up to what follows it. -/
theorem skipScalar_number {cs : List Char} (h : IsNumber cs) {rest : List Char}
    (hrest : EndsNumber rest) :
    ∃ c tail, cs = c :: tail ∧ (c = '-' ∨ c.isDigit = true) ∧ skipScalar (cs ++ rest) = .ok rest := by
  cases h with
  | @parts sign whole fraction exponent hsign hwhole hfraction hexponent =>
      have hskip := skipNumber_whole hwhole hfraction hexponent hrest
      obtain rfl | rfl := hsign
      · obtain ⟨c, ds, rfl, hc⟩ := hwhole.1.exists_cons
        refine ⟨c, ds ++ (fraction ++ exponent), by simp, .inr hc, ?_⟩
        have hdigit := Text.digit?_of_isDigit hc
        have hcs : [] ++ (c :: ds ++ (fraction ++ exponent)) ++ rest
            = c :: (ds ++ (fraction ++ (exponent ++ rest))) := by simp
        rw [hcs]
        unfold skipScalar
        -- No word, no string and no sign begins with a digit.
        split
        case h_7 heq =>
          cases heq
          simpa [hdigit] using hskip
        all_goals
          rename_i heq
          cases heq
        all_goals exact absurd hc (by decide)
      · refine ⟨'-', whole ++ (fraction ++ exponent), by simp, .inl rfl, ?_⟩
        simpa [skipScalar] using hskip

/-! ## Values -/

/-- What the grammar of values speaks of: a value, the elements of an array, or the members of an
object, of which there is one at least. -/
inductive Form
  | value
  | elements
  | members

/-- The texts of a form, without white space at the ends of a value. -/
inductive Derives : Form → List Char → Prop
  | word {cs : List Char} (hcs : cs ∈ ["null".toList, "true".toList, "false".toList]) :
      Derives .value cs
  | number {cs : List Char} (hcs : IsNumber cs) : Derives .value cs
  | string {cs : List Char} (hcs : IsString cs) : Derives .value ('"' :: (cs ++ ['"']))
  | emptyArray {ws : List Char} (hws : IsBlank ws) : Derives .value ('[' :: (ws ++ [']']))
  | array {cs : List Char} (hcs : Derives .elements cs) : Derives .value ('[' :: (cs ++ [']']))
  | emptyObject {ws : List Char} (hws : IsBlank ws) : Derives .value ('\x7b' :: (ws ++ ['\x7d']))
  | object {cs : List Char} (hcs : Derives .members cs) :
      Derives .value ('\x7b' :: (cs ++ ['\x7d']))
  | lastElement {before value after : List Char} (hbefore : IsBlank before)
      (hvalue : Derives .value value) (hafter : IsBlank after) :
      Derives .elements (before ++ (value ++ after))
  | element {before value after cs : List Char} (hbefore : IsBlank before)
      (hvalue : Derives .value value) (hafter : IsBlank after) (hcs : Derives .elements cs) :
      Derives .elements (before ++ (value ++ (after ++ ',' :: cs)))
  | lastMember {before name between behind value after : List Char} (hbefore : IsBlank before)
      (hname : IsString name) (hbetween : IsBlank between) (hbehind : IsBlank behind)
      (hvalue : Derives .value value) (hafter : IsBlank after) :
      Derives .members
        (before ++ '"' :: (name ++ '"' :: (between ++ ':' :: (behind ++ (value ++ after)))))
  | member {before name between behind value after cs : List Char} (hbefore : IsBlank before)
      (hname : IsString name) (hbetween : IsBlank between) (hbehind : IsBlank behind)
      (hvalue : Derives .value value) (hafter : IsBlank after) (hcs : Derives .members cs) :
      Derives .members
        (before ++ '"' :: (name ++ '"' ::
          (between ++ ':' :: (behind ++ (value ++ (after ++ ',' :: cs))))))

/-! ## The steps of passing over a value -/

/-- The character that opens a bracket. -/
def Bracket.opening : Bracket → Char
  | .array => '['
  | .object => '\x7b'

/-- The character that closes it. -/
def Bracket.closing : Bracket → Char
  | .array => ']'
  | .object => '\x7d'

section

variable {opened : List Bracket} {b : Bracket} {cs rest last : List Char} {c : Char}

/-- A value, by its first character. -/
theorem skipFrom_value (opened : List Bracket) (cs : List Char) :
    skipFrom .value opened cs = match skipSpace cs with
      | [] => .error .truncated
      | '[' :: rest => skipFrom (.next true) (.array :: opened) rest
      | '\x7b' :: rest => skipFrom (.next true) (.object :: opened) rest
      | c :: rest =>
          match skipScalar (c :: rest) with
          | .error e => .error e
          | .ok rest => skipFrom (.next false) opened rest := by
  rw [skipFrom.eq_def]
  dsimp only
  split
  · simp_all
  · simp_all
  · simp_all
  · rename_i c rest harray hobject hskip
    rw [hskip]
    split <;> simp_all

/-- White space before a value does not matter. -/
theorem skipFrom_value_skipSpace (opened : List Bracket) (cs : List Char) :
    skipFrom .value opened (skipSpace cs) = skipFrom .value opened cs := by
  rw [skipFrom_value, skipFrom_value, skipSpace_skipSpace]

theorem skipFrom_scalar (hskip : skipSpace cs = c :: rest) (harray : c ≠ '[')
    (hobject : c ≠ '\x7b') (hscalar : skipScalar (c :: rest) = .ok last) :
    skipFrom .value opened cs = skipFrom (.next false) opened last := by
  rw [skipFrom_value, hskip]
  simp only [hscalar]

theorem skipFrom_open (hskip : skipSpace cs = b.opening :: rest) :
    skipFrom .value opened cs = skipFrom (.next true) (b :: opened) rest := by
  rw [skipFrom_value, hskip]
  cases b <;> rfl

/-- What a bracket holds next: an element, or the value behind a name. -/
def skipItem (b : Bracket) (opened : List Bracket) (cs : List Char) : Except Fault (List Char) :=
  match b with
  | .array => skipFrom .value (b :: opened) cs
  | .object =>
      match skipName cs with
      | .error e => .error e
      | .ok rest => skipFrom .value (b :: opened) rest

/-- The place behind a value or an opening bracket, by the next character. -/
theorem skipFrom_next (first : Bool) (b : Bracket) (opened : List Bracket) (cs : List Char) :
    skipFrom (.next first) (b :: opened) cs = match skipSpace cs with
      | [] => .error .truncated
      | c :: rest =>
          if c = b.closing then skipFrom (.next false) opened rest
          else if c = ',' ∧ ¬ first then skipItem b opened rest
          else if ¬ first then .error .malformed
          else skipItem b opened (c :: rest) := by
  rw [skipFrom.eq_def (.next first)]
  dsimp only
  split
  · simp_all
  · rename_i c rest hskip
    rw [hskip]
    cases b with
    | array => rfl
    | object =>
        by_cases hclose : c = '\x7d'
        · simp [Bracket.closing, hclose]
        · by_cases hcomma : c = ',' ∧ ¬ first = true
          · simp only [Bracket.closing, skipItem, if_neg hclose, if_pos hcomma]
            split <;> simp_all
          · simp only [Bracket.closing, skipItem, if_neg hclose, if_neg hcomma]
            split
            · rfl
            · split <;> simp_all

theorem skipFrom_close (first : Bool) (b : Bracket) (opened : List Bracket)
    (hskip : skipSpace cs = b.closing :: rest) :
    skipFrom (.next first) (b :: opened) cs = skipFrom (.next false) opened rest := by
  rw [skipFrom_next, hskip]
  simp

theorem skipFrom_comma (b : Bracket) (opened : List Bracket) (hskip : skipSpace cs = ',' :: rest) :
    skipFrom (.next false) (b :: opened) cs = skipItem b opened rest := by
  have hcomma : ',' ≠ b.closing := by cases b <;> decide
  rw [skipFrom_next, hskip]
  simp [hcomma]

theorem skipFrom_first (hskip : skipSpace cs = c :: rest) (hclose : c ≠ b.closing) :
    skipFrom (.next true) (b :: opened) cs = skipItem b opened (c :: rest) := by
  rw [skipFrom_next, hskip]
  simp [hclose]

theorem skipItem_object (hname : skipName cs = .ok last) :
    skipItem .object opened cs = skipFrom .value (.object :: opened) last := by
  simp only [skipItem, hname]

/-- The name of a member and its colon. -/
theorem skipName_member {before name between : List Char} (hbefore : IsBlank before)
    (hname : IsString name) (hbetween : IsBlank between) (rest : List Char) :
    skipName (before ++ '"' :: (name ++ '"' :: (between ++ ':' :: rest))) = .ok rest := by
  rw [skipName, skipSpace_blank_cons hbefore (by decide)]
  simp only [skipString_of_isString hname, skipSpace_blank_cons hbetween (c := ':') (by decide)]

/-- White space before a name does not matter. -/
theorem skipName_eq_of_skipSpace (hskip : skipSpace cs = '"' :: rest) :
    skipName ('"' :: rest) = skipName cs := by
  rw [skipName, skipName, hskip, skipSpace_cons (by decide)]

end

/-! ## Every value is passed over -/

/-- The reader passes over a text as a value, whatever white space stands before it, whatever
brackets are open around it and whatever follows. -/
structure PassesValue (cs : List Char) : Prop where
  head : ∃ c tail, cs = c :: tail ∧ isSpace c = false ∧ c ≠ ']'
  passes : ∀ opened ws rest, IsBlank ws → EndsNumber rest →
    skipFrom .value opened (ws ++ (cs ++ rest)) = skipFrom (.next false) opened rest

/-- The reader passes over a text as the elements of an array, up to the closing bracket. -/
structure PassesElements (cs : List Char) : Prop where
  head : ∀ rest, ∃ c tail, skipSpace (cs ++ rest) = c :: tail ∧ c ≠ ']'
  passes : ∀ outer rest,
    skipFrom .value (.array :: outer) (cs ++ ']' :: rest) = skipFrom (.next false) outer rest

/-- The reader passes over a text as the members of an object, up to the closing bracket. -/
structure PassesMembers (cs : List Char) : Prop where
  head : ∀ rest, ∃ tail, skipSpace (cs ++ rest) = '"' :: tail
  passes : ∀ outer rest, ∃ last, skipName (cs ++ '\x7d' :: rest) = .ok last ∧
    skipFrom .value (.object :: outer) last = skipFrom (.next false) outer rest

/-- The reader passes over a text of a form. -/
def Passes : Form → List Char → Prop
  | .value => PassesValue
  | .elements => PassesElements
  | .members => PassesMembers

theorem passesValue_scalar {cs : List Char} {c : Char} {tail : List Char} (hcs : cs = c :: tail)
    (hspace : isSpace c = false) (harray : c ≠ '[') (hclose : c ≠ ']') (hobject : c ≠ '\x7b')
    (hscalar : ∀ rest, EndsNumber rest → skipScalar (cs ++ rest) = .ok rest) : PassesValue cs := by
  refine ⟨⟨c, tail, hcs, hspace, hclose⟩, ?_⟩
  intro opened ws rest hws hrest
  subst hcs
  exact skipFrom_scalar (skipSpace_blank_cons hws hspace _) harray hobject (hscalar rest hrest)

/-- A bracket is passed over if what fills it is. -/
theorem passesValue_bracket (b : Bracket) {cs : List Char}
    (hfills : ∀ outer rest, skipFrom (.next true) (b :: outer) (cs ++ b.closing :: rest)
      = skipFrom (.next false) outer rest) :
    PassesValue (b.opening :: (cs ++ [b.closing])) := by
  have hopening : isSpace b.opening = false ∧ b.opening ≠ ']' := by cases b <;> decide
  refine ⟨⟨_, _, rfl, hopening⟩, ?_⟩
  intro opened ws rest hws hrest
  have happ : b.opening :: (cs ++ [b.closing]) ++ rest
      = b.opening :: (cs ++ b.closing :: rest) := by simp
  rw [happ, skipFrom_open (skipSpace_blank_cons hws hopening.1 _), hfills]

/-- White space fills a bracket. -/
theorem passesValue_blank (b : Bracket) {ws : List Char} (hws : IsBlank ws) :
    PassesValue (b.opening :: (ws ++ [b.closing])) :=
  passesValue_bracket b fun _ _ =>
    skipFrom_close true b _ (skipSpace_blank_cons hws (by cases b <;> decide) _)

theorem PassesElements.bracket {cs : List Char} (h : PassesElements cs) :
    PassesValue ('[' :: (cs ++ [']'])) := by
  refine passesValue_bracket .array fun outer rest => ?_
  obtain ⟨c, tail, hskip, hclose⟩ := h.head (']' :: rest)
  have hpasses := h.passes outer rest
  rw [← skipFrom_value_skipSpace, hskip] at hpasses
  exact (skipFrom_first (b := .array) hskip hclose).trans hpasses

theorem PassesMembers.bracket {cs : List Char} (h : PassesMembers cs) :
    PassesValue ('\x7b' :: (cs ++ ['\x7d'])) := by
  refine passesValue_bracket .object fun outer rest => ?_
  obtain ⟨tail, hskip⟩ := h.head ('\x7d' :: rest)
  obtain ⟨last, hname, hpasses⟩ := h.passes outer rest
  rw [← skipName_eq_of_skipSpace hskip] at hname
  exact (skipFrom_first hskip (by decide)).trans ((skipItem_object hname).trans hpasses)

/-- The reader passes over every text of every form. -/
theorem passes_of_derives {form : Form} {cs : List Char} (h : Derives form cs) : Passes form cs := by
  induction h with
  | word hcs =>
      simp only [List.mem_cons, List.not_mem_nil, or_false] at hcs
      obtain rfl | rfl | rfl := hcs
      · exact passesValue_scalar (c := 'n') rfl (by decide) (by decide) (by decide) (by decide)
          fun _ _ => rfl
      · exact passesValue_scalar (c := 't') rfl (by decide) (by decide) (by decide) (by decide)
          fun _ _ => rfl
      · exact passesValue_scalar (c := 'f') rfl (by decide) (by decide) (by decide) (by decide)
          fun _ _ => rfl
  | number hcs =>
      obtain ⟨c, tail, rfl, hc, -⟩ := skipScalar_number hcs endsNumber_nil
      have hscalar : ∀ rest, EndsNumber rest → skipScalar (c :: tail ++ rest) = .ok rest := by
        intro rest hrest
        obtain ⟨-, -, -, -, hskip⟩ := skipScalar_number hcs hrest
        exact hskip
      have hnot : isSpace c = false ∧ c ≠ '[' ∧ c ≠ ']' ∧ c ≠ '\x7b' := by
        obtain rfl | hdigit := hc
        · decide
        · exact ⟨not_isSpace_of_isDigit hdigit, ne_of_isDigit hdigit (by decide),
            ne_of_isDigit hdigit (by decide), ne_of_isDigit hdigit (by decide)⟩
      exact passesValue_scalar rfl hnot.1 hnot.2.1 hnot.2.2.1 hnot.2.2.2 hscalar
  | string hcs =>
      refine passesValue_scalar (c := '"') rfl (by decide) (by decide) (by decide) (by decide)
        fun rest _ => ?_
      have hskip := skipString_of_isString hcs rest
      simpa [skipScalar] using hskip
  | emptyArray hws => exact passesValue_blank .array hws
  | array hcs ih => exact PassesElements.bracket ih
  | emptyObject hws => exact passesValue_blank .object hws
  | object hcs ih => exact PassesMembers.bracket ih
  | @lastElement before value after hbefore hvalue hafter ih =>
      have ih : PassesValue value := ih
      refine ⟨fun rest => ?_, fun outer rest => ?_⟩
      · obtain ⟨c, tail, rfl, hspace, hclose⟩ := ih.head
        exact ⟨c, _, by simpa using skipSpace_blank_cons hbefore hspace _, hclose⟩
      · have hvalue := ih.passes (.array :: outer) before (after ++ ']' :: rest) hbefore
          (endsNumber_blank hafter (endsNumber_bracket rest))
        have hclose := skipFrom_close false .array outer
          (skipSpace_blank_cons hafter (by decide) rest)
        simpa using hvalue.trans hclose
  | @element before value after cs hbefore hvalue hafter hcs ihvalue ih =>
      have ihvalue : PassesValue value := ihvalue
      have ih : PassesElements cs := ih
      refine ⟨fun rest => ?_, fun outer rest => ?_⟩
      · obtain ⟨c, tail, rfl, hspace, hclose⟩ := ihvalue.head
        exact ⟨c, _, by simpa using skipSpace_blank_cons hbefore hspace _, hclose⟩
      · have hvalue := ihvalue.passes (.array :: outer) before (after ++ ',' :: (cs ++ ']' :: rest))
          hbefore (endsNumber_blank hafter (endsNumber_comma _))
        have hcomma := skipFrom_comma .array outer
          (skipSpace_blank_cons hafter (c := ',') (by decide) (cs ++ ']' :: rest))
        simpa using hvalue.trans (hcomma.trans (ih.passes outer rest))
  | @lastMember before name between behind value after hbefore hname hbetween hbehind hvalue hafter
      ih =>
      have ih : PassesValue value := ih
      refine ⟨fun rest => ⟨_, by simpa using skipSpace_blank_cons hbefore (c := '"') (by decide) _⟩,
        fun outer rest => ⟨behind ++ (value ++ (after ++ '\x7d' :: rest)), ?_, ?_⟩⟩
      · simpa using skipName_member hbefore hname hbetween
          (behind ++ (value ++ (after ++ '\x7d' :: rest)))
      · have hclose := skipFrom_close false .object outer
          (skipSpace_blank_cons hafter (by decide) rest)
        exact (ih.passes _ _ _ hbehind (endsNumber_blank hafter (endsNumber_brace rest))).trans hclose
  | @member before name between behind value after cs hbefore hname hbetween hbehind hvalue hafter
      hcs ihvalue ih =>
      have ihvalue : PassesValue value := ihvalue
      have ih : PassesMembers cs := ih
      refine ⟨fun rest => ⟨_, by simpa using skipSpace_blank_cons hbefore (c := '"') (by decide) _⟩,
        fun outer rest => ⟨behind ++ (value ++ (after ++ ',' :: (cs ++ '\x7d' :: rest))), ?_, ?_⟩⟩
      · simpa using skipName_member hbefore hname hbetween
          (behind ++ (value ++ (after ++ ',' :: (cs ++ '\x7d' :: rest))))
      · obtain ⟨last, hlast, hpasses⟩ := ih.passes outer rest
        have hcomma := (skipFrom_comma .object outer
          (skipSpace_blank_cons hafter (by decide) (cs ++ '\x7d' :: rest))).trans
          (skipItem_object hlast)
        exact (ihvalue.passes _ _ _ hbehind (endsNumber_blank hafter (endsNumber_comma _))).trans
          (hcomma.trans hpasses)

/-- A value is passed over, up to what follows it. -/
theorem skipValue_of_derives {ws cs rest : List Char} (hws : IsBlank ws) (h : Derives .value cs)
    (hrest : EndsNumber rest) : skipValue (ws ++ (cs ++ rest)) = .ok rest := by
  have hpasses : PassesValue cs := passes_of_derives h
  rw [skipValue, hpasses.passes [] ws rest hws hrest, skipFrom]

end KeyLease.Json
