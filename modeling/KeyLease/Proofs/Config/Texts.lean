import KeyLease.Proofs.Config.RoundTrip
import KeyLease.Proofs.Json.Grammar

set_option autoImplicit false

/-!
# The texts of a configuration

A configuration may be written as an object, with its members in any order, under any spelling of
their names, with white space anywhere and with other members of any kind in between, or as an array
of its members in their order. `ObjectText` and `ArrayText` are these texts, apart from the reader.
-/

namespace KeyLease.Config

open Json

/-! ## Fields and their texts -/

/-- A member of a configuration with its value. -/
inductive Field
  | uri (u : String)
  | defaultTtl (n : Nat)
  | opTimeout (n : Nat)
  | sweepInterval (n : Option Nat)

namespace Field

/-- The member that a field gives. -/
def member : Field → Member
  | uri _ => .uri
  | defaultTtl _ => .defaultTtl
  | opTimeout _ => .opTimeout
  | sweepInterval _ => .sweepInterval

/-- The number of a field, if it has one, has 64 bits. -/
def Fits : Field → Prop
  | uri _ => True
  | defaultTtl n => n < 0x10000000000000000
  | opTimeout n => n < 0x10000000000000000
  | sweepInterval n => ∀ k ∈ n, k < 0x10000000000000000

/-- The texts of the value of a field: a string in any spelling, a whole number, or `null` for a
sweep interval that is not set. -/
inductive ValueText : Field → List Char → Prop
  | uri {u : String} {cs : List Char} (hcs : Spells cs u.toList) :
      ValueText (.uri u) ('"' :: (cs ++ ['"']))
  | defaultTtl (n : Nat) : ValueText (.defaultTtl n) (writeNatural n)
  | opTimeout (n : Nat) : ValueText (.opTimeout n) (writeNatural n)
  | sweepInterval (n : Nat) : ValueText (.sweepInterval (some n)) (writeNatural n)
  | unset : ValueText (.sweepInterval none) "null".toList

end Field

/-- The texts of one member of an object: a field, or a member of another name with any value. -/
inductive MemberText : Option Field → List Char → Prop
  | known {f : Field} {name between behind value : List Char}
      (hname : Spells name f.member.name.toList) (hbetween : IsBlank between)
      (hbehind : IsBlank behind) (hvalue : f.ValueText value) :
      MemberText (some f) ('"' :: (name ++ '"' :: (between ++ ':' :: (behind ++ value))))
  | other {name text between behind value : List Char} (hname : Spells name text)
      (hother : ∀ m : Member, text ≠ m.name.toList) (hbetween : IsBlank between)
      (hbehind : IsBlank behind) (hvalue : Derives .value value) :
      MemberText none ('"' :: (name ++ '"' :: (between ++ ':' :: (behind ++ value))))

/-- The texts of the members of an object, one at least. -/
inductive MembersText : List (Option Field) → List Char → Prop
  | last {item : Option Field} {before cs after : List Char} (hbefore : IsBlank before)
      (hcs : MemberText item cs) (hafter : IsBlank after) :
      MembersText [item] (before ++ (cs ++ after))
  | cons {item : Option Field} {items : List (Option Field)} {before cs after more : List Char}
      (hbefore : IsBlank before) (hcs : MemberText item cs) (hafter : IsBlank after)
      (hmore : MembersText items more) :
      MembersText (item :: items) (before ++ (cs ++ (after ++ ',' :: more)))

/-- The texts of an object with these members, where other members stand for none. -/
inductive ObjectText : List (Option Field) → List Char → Prop
  | empty {before inner after : List Char} (hbefore : IsBlank before) (hinner : IsBlank inner)
      (hafter : IsBlank after) : ObjectText [] (before ++ '\x7b' :: (inner ++ '\x7d' :: after))
  | members {items : List (Option Field)} {before cs after : List Char} (hbefore : IsBlank before)
      (hcs : MembersText items cs) (hafter : IsBlank after) :
      ObjectText items (before ++ '\x7b' :: (cs ++ '\x7d' :: after))

/-- The texts of the elements of an array, one at least. -/
inductive ElementsText : List Field → List Char → Prop
  | last {f : Field} {before value after : List Char} (hbefore : IsBlank before)
      (hvalue : f.ValueText value) (hafter : IsBlank after) :
      ElementsText [f] (before ++ (value ++ after))
  | cons {f : Field} {fs : List Field} {before value after more : List Char}
      (hbefore : IsBlank before) (hvalue : f.ValueText value) (hafter : IsBlank after)
      (hmore : ElementsText fs more) :
      ElementsText (f :: fs) (before ++ (value ++ (after ++ ',' :: more)))

/-- The texts of an array of these fields. -/
inductive ArrayText : List Field → List Char → Prop
  | empty {before inner after : List Char} (hbefore : IsBlank before) (hinner : IsBlank inner)
      (hafter : IsBlank after) : ArrayText [] (before ++ '[' :: (inner ++ ']' :: after))
  | elements {fs : List Field} {before cs after : List Char} (hbefore : IsBlank before)
      (hcs : ElementsText fs cs) (hafter : IsBlank after) :
      ArrayText fs (before ++ '[' :: (cs ++ ']' :: after))

/-- The fields of a configuration that gives a URI and a default time to live, and the other two
members or not. -/
def fields (u : String) (t : Nat) (o : Option Nat) (s : Option (Option Nat)) : List Field :=
  [.uri u, .defaultTtl t] ++ (o.map Field.opTimeout).toList ++ (s.map Field.sweepInterval).toList

/-! ## Reading a document and the value of a field -/

/-- What the first character of a document begins. -/
def readBracket : List Char → Except Fault (Config × List Char)
  | '[' :: rest => readArray rest
  | '\x7b' :: rest => readObject rest
  | other => .error (unwanted .config other)

theorem readChars_eq (cs : List Char) :
    readChars cs = match readBracket (skipSpace cs) with
      | .error e => .error e
      | .ok (c, rest) => if (skipSpace rest).isEmpty then .ok c else .error .malformed := by
  rfl

/-- A document is what its first bracket begins, with nothing but white space behind it. -/
theorem readChars_of_blank {cs after : List Char} {found : Except Fault Config}
    (hafter : IsBlank after) (h : readBracket (skipSpace cs) = found.map (·, after)) :
    readChars cs = found := by
  have hend : skipSpace after = [] := by
    simpa [skipSpace] using skipSpace_blank hafter []
  rw [readChars_eq, h]
  cases found with
  | error e => rfl
  | ok c => simp [Except.map, hend]

/-- The draft with one more field. -/
def Draft.put (d : Draft) : Field → Draft
  | .uri u => { d with uri := some u }
  | .defaultTtl n => { d with defaultTtl := some n }
  | .opTimeout n => { d with opTimeout := some n }
  | .sweepInterval n => { d with sweepInterval := some n }

theorem readNatural_blank {ws : List Char} (hws : IsBlank ws) (cs : List Char) :
    readNatural (ws ++ cs) = readNatural cs := by
  rw [readNatural, readNatural, skipSpace_blank hws]

theorem readOptionalNatural_blank {ws : List Char} (hws : IsBlank ws) (cs : List Char) :
    readOptionalNatural (ws ++ cs) = readOptionalNatural cs := by
  rw [readOptionalNatural, readOptionalNatural, skipSpace_blank hws]

theorem readString_spelled {ws cs : List Char} {u : String} (hws : IsBlank ws)
    (hcs : Spells cs u.toList) (rest : List Char) :
    readString (ws ++ '"' :: (cs ++ '"' :: rest)) = .ok (u, rest) := by
  rw [readString, skipSpace_blank_cons hws (by decide)]
  simp only [stringBody_spelled hcs]
  simp [Except.map]

/-- The text of a field is read as the field. -/
theorem Draft.readMember_text (d : Draft) {f : Field} {value : List Char} (hvalue : f.ValueText value)
    (hfits : f.Fits) {ws : List Char} (hws : IsBlank ws) {rest : List Char}
    (hrest : EndsNumber rest) :
    d.readMember f.member (ws ++ (value ++ rest)) = .ok (d.put f, rest) := by
  cases hvalue with
  | uri hcs =>
      have hread := readString_spelled hws hcs rest
      simp only [Field.member, readMember, List.cons_append, List.append_assoc, List.nil_append,
        hread]
      rfl
  | defaultTtl n =>
      simp only [Field.member, readMember, readNatural_blank hws, readNatural_written hfits hrest]
      rfl
  | opTimeout n =>
      simp only [Field.member, readMember, readNatural_blank hws, readNatural_written hfits hrest]
      rfl
  | sweepInterval n =>
      have hn : n < 0x10000000000000000 := hfits n rfl
      simp only [Field.member, readMember, readOptionalNatural_blank hws,
        readOptionalNatural_written hn hrest]
      rfl
  | unset =>
      simp only [Field.member, readMember, readOptionalNatural_blank hws]
      rfl

end KeyLease.Config
