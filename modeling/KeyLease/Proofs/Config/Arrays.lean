import KeyLease.Proofs.Config.Texts

set_option autoImplicit false

/-!
# Arrays

An array gives the members in their order, the last two or the last one of them perhaps not. The
reader takes its elements one by one (`Takes`), and what is behind the second as
`readOptionalElements`.
-/

namespace KeyLease.Config

open Json

/-! ## Elements -/

/-- A reader takes a text as a value, whatever follows that no number could go on with. -/
structure Takes {α : Type} (read : List Char → Except Fault (α × List Char)) (value : List Char)
    (a : α) : Prop where
  head : ∃ c tail, value = c :: tail ∧ isSpace c = false ∧ c ≠ ']'
  reads : ∀ rest, EndsNumber rest → read (value ++ rest) = .ok (a, rest)

theorem head_writeNatural (n : Nat) :
    ∃ c tail, writeNatural n = c :: tail ∧ c.isDigit = true ∧ isSpace c = false ∧ c ≠ ']' := by
  obtain ⟨c, tail, hc, hwritten, -⟩ := exists_skipSpace_writeNatural n []
  rw [List.append_nil] at hwritten
  exact ⟨c, tail, hwritten, hc, not_isSpace_of_isDigit hc, ne_of_isDigit hc (by decide)⟩

theorem takes_uri {u : String} {value : List Char} (h : (Field.uri u).ValueText value) :
    Takes readString value u := by
  cases h with
  | @uri _ cs hcs =>
      refine ⟨⟨'"', _, rfl, by decide⟩, fun rest _ => ?_⟩
      simpa using readString_spelled isBlank_nil hcs rest

theorem takes_natural {n : Nat} (hn : n < 0x10000000000000000) :
    Takes readNatural (writeNatural n) n := by
  obtain ⟨c, tail, hc, -, hnot⟩ := head_writeNatural n
  exact ⟨⟨c, tail, hc, hnot⟩, fun rest hrest => readNatural_written hn hrest⟩

theorem takes_sweepInterval {n : Option Nat} {value : List Char}
    (h : (Field.sweepInterval n).ValueText value) (hfits : (Field.sweepInterval n).Fits) :
    Takes readOptionalNatural value n := by
  cases h with
  | sweepInterval k =>
      obtain ⟨c, tail, hc, -, hnot⟩ := head_writeNatural k
      exact ⟨⟨c, tail, hc, hnot⟩, fun rest hrest => readOptionalNatural_written (hfits k rfl) hrest⟩
  | unset => exact ⟨⟨'n', _, rfl, by decide⟩, fun rest _ => rfl⟩

section

variable {α : Type} {read : List Char → Except Fault (α × List Char)} {value rest : List Char}
  {a : α} {before after : List Char}

theorem nextElement_first {c : Char} (hbefore : IsBlank before) (hc : isSpace c = false)
    (hclose : c ≠ ']') (rest : List Char) :
    nextElement true (before ++ c :: rest) = .ok (some (c :: rest)) := by
  rw [nextElement, skipSpace_blank_cons hbefore hc]
  split <;> simp_all

theorem nextElement_comma {c : Char} (hafter : IsBlank after) (hbefore : IsBlank before)
    (hc : isSpace c = false) (hclose : c ≠ ']') (rest : List Char) :
    nextElement false (after ++ ',' :: (before ++ c :: rest)) = .ok (some (c :: rest)) := by
  rw [nextElement, skipSpace_blank_cons hafter (by decide)]
  simp only [skipSpace_blank_cons hbefore hc, Bool.false_eq_true, if_false]
  split <;> simp_all

theorem nextElement_closing (first : Bool) (hafter : IsBlank after) (rest : List Char) :
    nextElement first (after ++ ']' :: rest) = .ok none := by
  simp only [nextElement, skipSpace_blank_cons hafter (c := ']') (by decide)]

theorem readElement_first (h : Takes read value a) (hbefore : IsBlank before)
    (hrest : EndsNumber rest) :
    readElement read 0 (before ++ (value ++ rest)) = .ok (a, rest) := by
  obtain ⟨c, tail, rfl, hc, hclose⟩ := h.head
  have hnext := nextElement_first hbefore hc hclose (tail ++ rest)
  have hread := h.reads rest hrest
  simp only [List.cons_append] at hread ⊢
  simp only [readElement, decide_true, hnext, hread]

theorem readElement_comma (h : Takes read value a) (index : Nat) (hafter : IsBlank after)
    (hbefore : IsBlank before) (hrest : EndsNumber rest) :
    readElement read (index + 1) (after ++ ',' :: (before ++ (value ++ rest))) = .ok (a, rest) := by
  obtain ⟨c, tail, rfl, hc, hclose⟩ := h.head
  have hnext := nextElement_comma hafter hbefore hc hclose (tail ++ rest)
  have hread := h.reads rest hrest
  simp only [List.cons_append] at hread ⊢
  simp [readElement, hnext, hread]

theorem readLastElement_comma (h : Takes read value a) (hafter : IsBlank after)
    (hbefore : IsBlank before) (hrest : EndsNumber rest) :
    readLastElement read (after ++ ',' :: (before ++ (value ++ rest))) = .ok (some a, rest) := by
  obtain ⟨c, tail, rfl, hc, hclose⟩ := h.head
  have hnext := nextElement_comma hafter hbefore hc hclose (tail ++ rest)
  have hread := h.reads rest hrest
  simp only [List.cons_append] at hread ⊢
  simp only [readLastElement, hnext, hread]
  rfl

theorem readLastElement_closing (read : List Char → Except Fault (α × List Char))
    (hafter : IsBlank after) (rest : List Char) :
    readLastElement read (after ++ ']' :: rest) = .ok (none, after ++ ']' :: rest) := by
  simp only [readLastElement, nextElement_closing false hafter]

end

theorem closeArray_blank {ws : List Char} (hws : IsBlank ws) (rest : List Char) :
    closeArray (ws ++ ']' :: rest) = .ok rest := by
  simp only [closeArray, skipSpace_blank_cons hws (c := ']') (by decide)]

/-! ## Arrays that are read -/

/-- What an array holds behind the first two elements. -/
def readOptionalElements (u : String) (t : Nat) (cs : List Char) :
    Except Fault (Config × List Char) := do
  let (opTimeout, cs) ← readLastElement readNatural cs
  let (sweepInterval, cs) ← readLastElement readOptionalNatural cs
  let rest ← closeArray cs
  return (ofMillis u t opTimeout (sweepInterval.getD none), rest)

/-- The first two elements of an array. -/
theorem readArray_of_takes {u : String} {t : Nat} {uri ttl before after before' rest : List Char}
    (huri : Takes readString uri u) (httl : Takes readNatural ttl t) (hbefore : IsBlank before)
    (hafter : IsBlank after) (hbefore' : IsBlank before') (hrest : EndsNumber rest) :
    readArray (before ++ (uri ++ (after ++ ',' :: (before' ++ (ttl ++ rest)))))
      = readOptionalElements u t rest := by
  have hfirst := readElement_first huri hbefore
    (endsNumber_blank hafter (endsNumber_comma (before' ++ (ttl ++ rest))))
  have hsecond := readElement_comma httl 0 hafter hbefore' hrest
  simp only [readArray, bind, Except.bind, hfirst, hsecond]
  rfl

/-- At the closing bracket nothing more is given. -/
theorem readOptionalElements_closing (u : String) (t : Nat) {after : List Char}
    (hafter : IsBlank after) (rest : List Char) :
    readOptionalElements u t (after ++ ']' :: rest) = .ok (ofMillis u t none none, rest) := by
  simp only [readOptionalElements, bind, Except.bind, readLastElement_closing _ hafter,
    closeArray_blank hafter]
  rfl

theorem readOptionalElements_one (u : String) (t : Nat) {o : Nat} {value before after after' : List Char}
    (h : Takes readNatural value o) (hafter : IsBlank after) (hbefore : IsBlank before)
    (hafter' : IsBlank after') (rest : List Char) :
    readOptionalElements u t (after ++ ',' :: (before ++ (value ++ (after' ++ ']' :: rest))))
      = .ok (ofMillis u t (some o) none, rest) := by
  have hone := readLastElement_comma h hafter hbefore
    (endsNumber_blank hafter' (endsNumber_bracket rest))
  simp only [readOptionalElements, bind, Except.bind, hone, readLastElement_closing _ hafter',
    closeArray_blank hafter']
  rfl

theorem readOptionalElements_two (u : String) (t : Nat) {o : Nat} {s : Option Nat}
    {limit sweep after before after' before' after'' : List Char} (hlimit : Takes readNatural limit o)
    (hsweep : Takes readOptionalNatural sweep s) (hafter : IsBlank after) (hbefore : IsBlank before)
    (hafter' : IsBlank after') (hbefore' : IsBlank before') (hafter'' : IsBlank after'')
    (rest : List Char) :
    readOptionalElements u t (after ++ ',' :: (before ++ (limit ++ (after' ++ ',' ::
        (before' ++ (sweep ++ (after'' ++ ']' :: rest)))))))
      = .ok (ofMillis u t (some o) s, rest) := by
  have hone := readLastElement_comma hlimit hafter hbefore
    (endsNumber_blank hafter' (endsNumber_comma (before' ++ (sweep ++ (after'' ++ ']' :: rest)))))
  have htwo := readLastElement_comma hsweep hafter' hbefore'
    (endsNumber_blank hafter'' (endsNumber_bracket rest))
  simp only [readOptionalElements, bind, Except.bind, hone, htwo, closeArray_blank hafter'']
  rfl

/-- An array of these fields, of which none is left out before another, is read as they are. -/
theorem readArray_elements {u : String} {t : Nat} {o : Option Nat} {s : Option (Option Nat)}
    {cs : List Char} (h : ElementsText (fields u t o s) cs) (hfits : ∀ f ∈ fields u t o s, f.Fits)
    (hlast : o = none → s = none) (rest : List Char) :
    readArray (cs ++ ']' :: rest) = .ok (ofMillis u t o (s.getD none), rest) := by
  have httl : t < 0x10000000000000000 := hfits (.defaultTtl t) (by simp [fields])
  cases h with
  | cons hb₁ hu ha₁ hmore =>
  have hu := takes_uri hu
  cases o with
  | none =>
      obtain rfl := hlast rfl
      cases hmore with
      | last hb₂ ht ha₂ =>
          cases ht
          have harray := readArray_of_takes hu (takes_natural httl) hb₁ ha₁ hb₂
            (endsNumber_blank ha₂ (endsNumber_bracket rest))
          simpa using harray.trans (readOptionalElements_closing u t ha₂ rest)
      | cons _ _ _ hmore => cases hmore
  | some n =>
      have hn : n < 0x10000000000000000 := hfits (.opTimeout n) (by simp [fields])
      cases s with
      | none =>
          cases hmore with
          | cons hb₂ ht ha₂ hmore =>
          cases ht
          cases hmore with
          | cons _ _ _ hmore => cases hmore
          | last hb₃ ho ha₃ =>
              cases ho
              have hone := readOptionalElements_one u t (takes_natural hn) ha₂ hb₃ ha₃ rest
              have harray := (readArray_of_takes hu (takes_natural httl) hb₁ ha₁ hb₂
                (endsNumber_blank ha₂ (endsNumber_comma _))).trans hone
              simpa using harray
      | some v =>
          have hv : (Field.sweepInterval v).Fits := hfits (.sweepInterval v) (by simp [fields])
          cases hmore with
          | cons hb₂ ht ha₂ hmore =>
          cases ht
          cases hmore with
          | cons hb₃ ho ha₃ hmore =>
          cases ho
          cases hmore with
          | cons _ _ _ hmore => cases hmore
          | last hb₄ hs ha₄ =>
              have htwo := readOptionalElements_two u t (takes_natural hn)
                (takes_sweepInterval hs hv) ha₂ hb₃ ha₃ hb₄ ha₄ rest
              have harray := (readArray_of_takes hu (takes_natural httl) hb₁ ha₁ hb₂
                (endsNumber_blank ha₂ (endsNumber_comma _))).trans htwo
              simpa using harray

/-- An array of these fields is the configuration that the objects with them are. -/
theorem read_array {u : String} {t : Nat} {o : Option Nat} {s : Option (Option Nat)} {text : String}
    (h : ArrayText (fields u t o s) text.toList) (hfits : ∀ f ∈ fields u t o s, f.Fits)
    (hlast : o = none → s = none) : read text = .ok (ofMillis u t o (s.getD none)) := by
  unfold read
  generalize text.toList = cs at h
  cases h with
  | @elements _ before cs after hbefore hcs hafter =>
      apply readChars_of_blank hafter
      rw [skipSpace_blank_cons hbefore (by decide)]
      exact readArray_elements hcs hfits hlast after

/-! ## Arrays that are refused -/

/-- Where a string is expected, nothing else will do. -/
theorem readString_of_ne {c : Char} (hc : isSpace c = false) (hquote : c ≠ '"') (cs : List Char) :
    ∃ fault, readString (c :: cs) = .error fault := by
  rw [readString, skipSpace_cons hc]
  split
  · simp_all
  · exact ⟨_, rfl⟩

/-- No field but the URI is a string. -/
theorem Field.ValueText.head_of_ne_uri {f : Field} {value : List Char} (h : f.ValueText value)
    (hne : f.member ≠ .uri) :
    ∃ c tail, value = c :: tail ∧ isSpace c = false ∧ c ≠ ']' ∧ c ≠ '"' := by
  have hnumber (n : Nat) :
      ∃ c tail, writeNatural n = c :: tail ∧ isSpace c = false ∧ c ≠ ']' ∧ c ≠ '"' := by
    obtain ⟨c, tail, hc, hdigit, hspace, hclose⟩ := head_writeNatural n
    exact ⟨c, tail, hc, hspace, hclose, ne_of_isDigit hdigit (by decide)⟩
  cases h with
  | uri hcs => exact absurd rfl hne
  | defaultTtl n => exact hnumber n
  | opTimeout n => exact hnumber n
  | sweepInterval n => exact hnumber n
  | unset => exact ⟨'n', _, rfl, by decide⟩

/-- An array that begins with no URI has none at its first place. -/
theorem readArray_of_ne_uri {f : Field} {value before : List Char} (hvalue : f.ValueText value)
    (hne : f.member ≠ .uri) (hbefore : IsBlank before) (rest : List Char) :
    ∃ fault, readArray (before ++ (value ++ rest)) = .error fault := by
  obtain ⟨c, tail, rfl, hc, hclose, hquote⟩ := hvalue.head_of_ne_uri hne
  have hnext := nextElement_first hbefore hc hclose (tail ++ rest)
  obtain ⟨fault, hfault⟩ := readString_of_ne hc hquote (tail ++ rest)
  refine ⟨fault, ?_⟩
  simp only [readArray, readElement, decide_true, List.cons_append, hnext, hfault, bind, Except.bind]

/-- An array without a URI and another element is refused. -/
theorem read_array_refused {fs : List Field} {text : String} (h : ArrayText fs text.toList)
    (hbad : ∀ u f more, fs ≠ .uri u :: f :: more) : ∃ fault, read text = .error fault := by
  unfold read
  generalize text.toList = cs at h
  have hrefused {before inner after : List Char} (hbefore : IsBlank before) (hafter : IsBlank after)
      (harray : ∃ fault, readArray (inner ++ ']' :: after) = .error fault) :
      ∃ fault, readChars (before ++ '[' :: (inner ++ ']' :: after)) = .error fault := by
    obtain ⟨fault, hfault⟩ := harray
    refine ⟨fault, readChars_of_blank hafter ?_⟩
    rw [skipSpace_blank_cons hbefore (by decide)]
    exact hfault
  cases h with
  | @empty before inner after hbefore hinner hafter =>
      refine hrefused hbefore hafter ⟨.mismatch (.tooShort 0), ?_⟩
      simp only [readArray, readElement, decide_true, nextElement_closing true hinner, bind,
        Except.bind]
  | @elements _ before cs after hbefore hcs hafter =>
      refine hrefused hbefore hafter ?_
      cases hcs with
      | @last f before' value after' hbefore' hvalue hafter' =>
          by_cases huri : f.member = .uri
          · obtain ⟨u, rfl⟩ : ∃ u, f = .uri u := by cases f <;> simp_all [Field.member]
            have hfirst := readElement_first (takes_uri hvalue) hbefore'
              (endsNumber_blank hafter' (endsNumber_bracket after))
            refine ⟨.mismatch (.tooShort 1), ?_⟩
            simp only [List.append_assoc, readArray, hfirst, bind, Except.bind]
            simp only [readElement, Nat.one_ne_zero, decide_false,
              nextElement_closing false hafter']
          · simpa using readArray_of_ne_uri hvalue huri hbefore' (after' ++ ']' :: after)
      | @cons f fs before' value after' more hbefore' hvalue hafter' hmore =>
          -- With a URI in front and another element behind it, nothing would be missing.
          have huri : f.member ≠ .uri := by
            intro huri
            obtain ⟨u, rfl⟩ : ∃ u, f = .uri u := by cases f <;> simp_all [Field.member]
            cases hmore with
            | last _ _ _ => exact hbad u _ [] rfl
            | cons _ _ _ _ => exact hbad u _ _ rfl
          simpa using readArray_of_ne_uri hvalue huri hbefore' (after' ++ ',' :: (more ++ ']' :: after))

end KeyLease.Config
