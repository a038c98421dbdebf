import KeyLease.Config.Document

set_option autoImplicit false

/-!
# Tokens read as they are written

A string that is written as JSON reads back as itself, whatever characters it has
(`stringBody_escaped`), and so does a number of 64 bits where nothing follows that could go on with
it (`readNatural_written`). Conversely every number that is read has 64 bits
(`lt_of_readNatural`).
-/

namespace KeyLease

/-! ## Digits -/

theorem Text.digit?_of_isDigit {c : Char} (h : c.isDigit = true) :
    Text.digit? c = some (c.toNat - '0'.toNat) := by
  have hrange : '0' ≤ c ∧ c ≤ '9' := by
    simp only [Char.isDigit, Bool.and_eq_true, decide_eq_true_eq] at h
    exact h
  exact if_pos hrange

theorem Text.PercentCoding.hexDigit?_digitChar {n : Nat} (h : n < 16) :
    hexDigit? n.digitChar = some n := by
  have hall : ∀ n : Fin 16, hexDigit? n.val.digitChar = some n.val := by decide
  exact hall ⟨n, h⟩

/-- No positive number is written with a zero in front. -/
theorem Text.head?_toDigits_ne_zero {n : Nat} (h : 0 < n) :
    (Nat.toDigits 10 n).head? ≠ some '0' := by
  induction n using Nat.strongRecOn with
  | ind n ih =>
      by_cases hlt : n < 10
      · have hchar := Nat.toNat_digitChar_of_lt_ten hlt
        rw [Nat.toDigits_of_lt_base hlt]
        intro heq
        have hzero : n.digitChar.toNat = 48 := congrArg Char.toNat (Option.some.inj heq)
        omega
      · have hrest := ih (n / 10) (by omega) (by omega)
        rw [Nat.toDigits_of_base_le (by omega) (by omega), List.head?_append]
        cases hhead : (Nat.toDigits 10 (n / 10)).head? with
        | none => exact absurd (List.head?_eq_none_iff.mp hhead) Nat.toDigits_ne_nil
        | some c =>
            rw [hhead] at hrest
            simpa using hrest

namespace Json

/-! ## Strings -/

/-- The escape of a character of one byte by its code point. -/
theorem codePoint_byte {n : Nat} (h : n < 256) (rest : List Char) :
    codePoint true ('0' :: '0' :: (n / 16).digitChar :: (n % 16).digitChar :: rest)
      = .ok (Char.ofNat n, rest) := by
  have hhigh := Text.PercentCoding.hexDigit?_digitChar (n := n / 16) (by omega)
  have hlow := Text.PercentCoding.hexDigit?_digitChar (n := n % 16) (by omega)
  have hzero : Text.PercentCoding.hexDigit? '0' = some 0 := by decide
  have hvalue : ((0 * 16 + 0) * 16 + n / 16) * 16 + n % 16 = n := by omega
  have hunit : hexUnit ('0' :: '0' :: (n / 16).digitChar :: (n % 16).digitChar :: rest)
      = .ok (n, rest) := by
    simp only [hexUnit, hzero, hhigh, hlow, hvalue]
  have hhalves : isLowHalf n = false ∧ isHighHalf n = false := by
    simp [isLowHalf, isHighHalf]
    omega
  simp [codePoint, hunit, hhalves]

/-- A character that is written is read back, and nothing more. -/
theorem stringChar_escaped (c : Char) (rest : List Char) :
    stringChar true (escapedChar c ++ rest) = .ok (some c, rest) := by
  unfold escapedChar
  split
  · simp_all [stringChar]
  split
  · simp_all [stringChar]
  split
  · simp_all [stringChar]
  split
  · simp_all [stringChar]
  split
  · simp_all [stringChar]
  split
  · simp_all [stringChar]
  split
  · simp_all [stringChar]
  split
  · rename_i hsmall
    rw [Nat.toDigits_of_lt_base (by omega), Nat.toDigits_of_lt_base (by omega)]
    have hcode := codePoint_byte (n := c.toNat) (by omega) rest
    simp only [List.cons_append, List.nil_append, stringChar, hcode, Char.ofNat_toNat]
  · -- A character that is written as it is: the first two rows of the reader are for others.
    rename_i hquote hback _ _ _ _ _ hlarge
    unfold stringChar
    split
    · simp_all
    · simp_all
    · simp_all
    · simp_all

/-- A string goes on behind each of its characters. -/
theorem stringBody_of_some {paired : Bool} {c : Char} {cs s rest last : List Char}
    (hc : stringChar paired cs = .ok (some c, rest)) (hs : stringBody paired rest = .ok (s, last)) :
    stringBody paired cs = .ok (c :: s, last) := by
  rw [stringBody]
  split <;> simp_all

theorem stringBody_of_none {paired : Bool} {cs rest : List Char}
    (hc : stringChar paired cs = .ok (none, rest)) : stringBody paired cs = .ok ([], rest) := by
  rw [stringBody]
  split <;> simp_all

/-- A string that is written is read back, and nothing more. -/
theorem stringBody_escaped (s rest : List Char) :
    stringBody true (s.flatMap escapedChar ++ '"' :: rest) = .ok (s, rest) := by
  induction s with
  | nil => exact stringBody_of_none rfl
  | cons c s ih =>
      rw [List.flatMap_cons, List.append_assoc]
      exact stringBody_of_some (stringChar_escaped c _) ih

/-! ## Numbers -/

/-- What a number ends before: the text goes on with nothing that could belong to a number. -/
def EndsNumber (rest : List Char) : Prop :=
  ∀ c ∈ rest.head?, Text.digit? c = none ∧ c ≠ '.' ∧ c ≠ 'e' ∧ c ≠ 'E'

/-- The digits that a text is made of, as numbers. -/
def digitsOf (cs : List Char) : List Nat := cs.map fun c => c.toNat - '0'.toNat

/-- The digits before a text that begins with none. -/
theorem leadingDigits_digits {cs rest : List Char} (hcs : ∀ c ∈ cs, c.isDigit = true)
    (hrest : ∀ c ∈ rest.head?, Text.digit? c = none) :
    leadingDigits (cs ++ rest) = (digitsOf cs, rest) := by
  induction cs with
  | nil =>
      cases rest with
      | nil => rfl
      | cons c rest =>
          have hnone := hrest c rfl
          simp [leadingDigits, hnone, digitsOf]
  | cons c cs ih =>
      have hdigit := Text.digit?_of_isDigit (hcs c List.mem_cons_self)
      have htail := ih fun d hd => hcs d (List.mem_cons_of_mem c hd)
      simp only [List.cons_append, leadingDigits, hdigit, htail]
      rfl

theorem leadingDigits_append {cs rest : List Char} (hcs : ∀ c ∈ cs, c.isDigit = true)
    (hrest : EndsNumber rest) :
    leadingDigits (cs ++ rest) = (digitsOf cs, rest) :=
  leadingDigits_digits hcs fun c hc => (hrest c hc).1

theorem le_ofDigitChars (cs : List Char) (acc : Nat) : acc ≤ Nat.ofDigitChars 10 cs acc := by
  have hpos : 0 < 10 ^ cs.length := Nat.pow_pos (by decide)
  rw [Nat.ofDigitChars_eq_ofDigitChars_zero]
  exact Nat.le_trans (Nat.le_mul_of_pos_left acc hpos) (Nat.le_add_right _ _)

/-- Digits that write a number below the bound are all taken. -/
theorem accumulate_of_lt {bound acc : Nat} {cs : List Char}
    (h : Nat.ofDigitChars 10 cs acc < bound) :
    accumulate bound acc (digitsOf cs) = (Nat.ofDigitChars 10 cs acc, []) := by
  induction cs generalizing acc with
  | nil => rfl
  | cons c cs ih =>
      rw [Nat.ofDigitChars_cons] at h ⊢
      have hstep : acc * 10 + (c.toNat - '0'.toNat) = 10 * acc + (c.toNat - '0'.toNat) := by omega
      have hlt := Nat.lt_of_le_of_lt (le_ofDigitChars cs _) h
      simp only [digitsOf, List.map_cons, accumulate, hstep, if_pos hlt]
      exact ih h

/-- What has been taken stays below the bound. -/
theorem accumulate_lt {bound acc : Nat} (h : acc < bound) (ds : List Nat) :
    (accumulate bound acc ds).1 < bound := by
  induction ds generalizing acc with
  | nil => exact h
  | cons d ds ih =>
      unfold accumulate
      split
      · rename_i hlt
        exact ih hlt
      · exact h

/-- Only the digit zero counts for nothing. -/
theorem head?_of_digitsOf {cs : List Char} (hcs : ∀ c ∈ cs, c.isDigit = true) {ds : List Nat}
    (h : digitsOf cs = 0 :: ds) : cs.head? = some '0' := by
  obtain ⟨c, rest, rfl, hc, -⟩ := List.map_eq_cons_iff.mp h
  have hge : '0'.toNat ≤ c.toNat := by
    have hdigit := hcs c List.mem_cons_self
    simp only [Char.isDigit, Bool.and_eq_true, decide_eq_true_eq] at hdigit
    exact hdigit.1
  exact congrArg some (Char.toNat_inj.mp (Nat.le_antisymm (Nat.sub_eq_zero_iff_le.mp hc) hge))

/-- No number is written as a zero and more digits. -/
theorem digitsOf_toDigits_ne (n d : Nat) (ds : List Nat) :
    digitsOf (Nat.toDigits 10 n) ≠ 0 :: d :: ds := by
  intro heq
  by_cases hpos : 0 < n
  · have hdigits : ∀ c ∈ Nat.toDigits 10 n, c.isDigit = true :=
      fun c hc => Nat.isDigit_of_mem_toDigits (by decide) (by decide) hc
    exact Text.head?_toDigits_ne_zero hpos (head?_of_digitsOf hdigits heq)
  · have hzero : n = 0 := by omega
    subst hzero
    cases heq

/-- A number of 64 bits that is written is read back. -/
theorem numeral_written {n : Nat} (hn : n < 0x10000000000000000) {rest : List Char}
    (hrest : EndsNumber rest) :
    numeral false (writeNatural n ++ rest) = .ok (.natural n, rest) := by
  have hread : leadingDigits (writeNatural n ++ rest) = (digitsOf (Nat.toDigits 10 n), rest) :=
    leadingDigits_append (fun c hc => Nat.isDigit_of_mem_toDigits (by decide) (by decide) hc) hrest
  have hvalue : Nat.ofDigitChars 10 (Nat.toDigits 10 n) 0 = n :=
    Nat.ofDigitChars_ten_toDigits
  have htaken : accumulate 0x10000000000000000 0 (digitsOf (Nat.toDigits 10 n)) = (n, []) := by
    rw [accumulate_of_lt (hvalue.symm ▸ hn), hvalue]
  have hsome : digitsOf (Nat.toDigits 10 n) ≠ [] := by
    simp [digitsOf, Nat.toDigits_ne_nil]
  have hzero := digitsOf_toDigits_ne n
  unfold numeral
  rw [hread]
  generalize digitsOf (Nat.toDigits 10 n) = ds at htaken hsome hzero
  split
  · rename_i heq
    exact absurd (Prod.mk.inj heq).1 hsome
  · rename_i heq
    exact absurd (Prod.mk.inj heq).1 hsome
  · rename_i heq
    exact absurd (Prod.mk.inj heq).1 (hzero _ _)
  · -- Whatever follows is no point and no exponent.
    rename_i heq
    cases heq
    simp only [htaken]
    split
    · exact absurd rfl (hrest _ rfl).2.1
    · exact absurd rfl (hrest _ rfl).2.2.1
    · exact absurd rfl (hrest _ rfl).2.2.2
    · simp

theorem not_isSpace_of_isDigit {c : Char} (h : c.isDigit = true) : isSpace c = false := by
  simp only [isSpace, Bool.or_eq_false_iff, decide_eq_false_iff_not]
  refine ⟨⟨⟨?_, ?_⟩, ?_⟩, ?_⟩
  all_goals
    rintro rfl
    cases h

/-- A number that is written begins with a digit, and no white space stands before it. -/
theorem exists_skipSpace_writeNatural (n : Nat) (rest : List Char) :
    ∃ c cs, c.isDigit = true ∧ writeNatural n ++ rest = c :: cs ∧
      skipSpace (writeNatural n ++ rest) = c :: cs := by
  obtain ⟨c, cs, hcs⟩ := List.exists_cons_of_ne_nil (Nat.toDigits_ne_nil (n := n) (b := 10))
  have hdigit : c.isDigit = true :=
    Nat.isDigit_of_mem_toDigits (by decide) (by decide) (hcs ▸ List.mem_cons_self)
  have hwritten : writeNatural n ++ rest = c :: (cs ++ rest) := by
    rw [writeNatural, hcs, List.cons_append]
  refine ⟨c, cs ++ rest, hdigit, hwritten, ?_⟩
  rw [hwritten]
  exact List.dropWhile_cons_of_neg (by simp [not_isSpace_of_isDigit hdigit])

/-- A number of 64 bits that is written is read back, and nothing more. -/
theorem readNatural_written {n : Nat} (hn : n < 0x10000000000000000) {rest : List Char}
    (hrest : EndsNumber rest) :
    Config.readNatural (writeNatural n ++ rest) = .ok (n, rest) := by
  have hnumeral := numeral_written hn hrest
  obtain ⟨c, cs, hdigit, hwritten, hskip⟩ := exists_skipSpace_writeNatural n rest
  have hsome := Text.digit?_of_isDigit hdigit
  have hminus : c ≠ '-' := by
    rintro rfl
    cases hdigit
  rw [hwritten] at hnumeral
  simp only [Config.readNatural, hskip, hsome, hnumeral]
  simp [Except.bind, Config.asNatural]

/-- So it is where `null` could stand as well. -/
theorem readOptionalNatural_written {n : Nat} (hn : n < 0x10000000000000000) {rest : List Char}
    (hrest : EndsNumber rest) :
    Config.readOptionalNatural (writeNatural n ++ rest) = .ok (some n, rest) := by
  have hread := readNatural_written hn hrest
  obtain ⟨c, cs, hdigit, hwritten, hskip⟩ := exists_skipSpace_writeNatural n rest
  have hnull : c ≠ 'n' := by
    rintro rfl
    cases hdigit
  rw [hwritten] at hread
  unfold Config.readOptionalNatural
  rw [hskip]
  split
  · rename_i heq
    exact absurd (List.cons.inj heq).1 hnull
  · rw [hread]
    rfl

/-! ## Numbers of 64 bits -/

theorem floating_of_floating {negative : Bool} {significand : Nat} {power : Int}
    {rest last : List Char} {m : Numeral}
    (h : floating negative significand power rest = .ok (m, last)) :
    ∃ text, m = .floating text := by
  unfold floating at h
  split at h
  · cases h
    exact ⟨_, rfl⟩
  · cases h

theorem floating_of_exponent {negative : Bool} {significand : Nat} {power : Int}
    {cs last : List Char} {m : Numeral}
    (h : exponent negative significand power cs = .ok (m, last)) : ∃ text, m = .floating text := by
  unfold exponent at h
  split at h
  split at h
  · cases h
  · cases h
  · split at h
    · exact floating_of_floating h
    · split at h
      · cases h
      · cases h
        exact ⟨_, rfl⟩

theorem floating_of_decimals {negative : Bool} {significand : Nat} {power : Int}
    {cs last : List Char} {m : Numeral}
    (h : decimals negative significand power cs = .ok (m, last)) : ∃ text, m = .floating text := by
  unfold decimals at h
  split at h
  · cases h
  · cases h
  · split at h
    simp only at h
    split at h
    · exact floating_of_exponent h
    · exact floating_of_exponent h
    · exact floating_of_floating h

theorem lt_of_numeral {negative : Bool} {cs rest : List Char} {n : Nat}
    (h : numeral negative cs = .ok (.natural n, rest)) : n < 0x10000000000000000 := by
  unfold numeral at h
  split at h
  · cases h
  · cases h
  · cases h
  · rename_i ds _ _ _ _ _
    have hlt : (accumulate 0x10000000000000000 0 ds).1 < 0x10000000000000000 :=
      accumulate_lt (by decide) ds
    split at h
    rename_i significand dropped hacc
    rw [hacc] at hlt
    split at h
    · obtain ⟨text, htext⟩ := floating_of_decimals h
      cases htext
    · obtain ⟨text, htext⟩ := floating_of_exponent h
      cases htext
    · obtain ⟨text, htext⟩ := floating_of_exponent h
      cases htext
    · split at h
      · obtain ⟨text, htext⟩ := floating_of_floating h
        cases htext
      · split at h
        · cases h
          exact hlt
        · split at h
          · obtain ⟨text, htext⟩ := floating_of_floating h
            cases htext
          · cases h

/-- Every number that is read has 64 bits. -/
theorem lt_of_readNatural {cs rest : List Char} {n : Nat}
    (h : Config.readNatural cs = .ok (n, rest)) : n < 0x10000000000000000 := by
  have hnatural : ∀ {negative : Bool} {ds : List Char},
      (numeral negative ds).bind Config.asNatural = .ok (n, rest) → n < 0x10000000000000000 := by
    intro negative ds hbind
    rcases hnumeral : numeral negative ds with _ | ⟨m, last⟩
    · simp [hnumeral, Except.bind] at hbind
    · cases m with
      | natural k =>
          simp only [hnumeral, Except.bind, Config.asNatural, Except.ok.injEq,
            Prod.mk.injEq] at hbind
          exact hbind.1 ▸ lt_of_numeral hnumeral
      | negative k => simp [hnumeral, Except.bind, Config.asNatural] at hbind
      | floating text => simp [hnumeral, Except.bind, Config.asNatural] at hbind
  unfold Config.readNatural at h
  split at h
  · exact hnatural h
  · split at h
    · exact hnatural h
    · cases h
  · cases h

end Json

end KeyLease
