import KeyLease.Proofs.Json.Written

set_option autoImplicit false

/-!
# Configurations written and read back

A document keeps a configuration up to its durations, of which it holds whole milliseconds of 64
bits. Writing a configuration and reading it back succeeds for every URI and all durations, and
cuts each duration to that (`read_write`). So exactly the configurations whose durations fit come
back unchanged, and every configuration that was read is one of them (`inMillis_of_read`).

`Draft.Fills` says which draft a reader has after the texts of some members; the reader of an
object goes through any such texts with commas between them (`readMembers_of_fills`).
`Draft.Bounded` is what every step of a reader keeps: the numbers have 64 bits.
-/

namespace KeyLease

open Json

/-! ## Durations of a document -/

namespace Duration

/-- The duration of the whole milliseconds of a duration, counted modulo `2 ^ 64`. -/
def cutToMillis (d : Duration) : Duration := .ofMillis (d.nanos / 1000000 % 0x10000000000000000)

/-- A whole number of milliseconds below `2 ^ 64`. -/
def InMillis (d : Duration) : Prop := ∃ n < 0x10000000000000000, d = .ofMillis n

/-- Beyond 64 bits the count of milliseconds begins anew. -/
example : (ofMillis (2 ^ 64 + 5)).cutToMillis = ofMillis 5 := by decide

theorem cutToMillis_eq_self_iff {d : Duration} : d.cutToMillis = d ↔ d.InMillis := by
  constructor
  · intro h
    exact ⟨d.nanos / 1000000 % 0x10000000000000000, Nat.mod_lt _ (by decide), h.symm⟩
  · rintro ⟨n, hn, rfl⟩
    simp only [cutToMillis, ofMillis, Duration.mk.injEq]
    omega

end Duration

namespace Config

/-- The durations that a configuration gives. -/
def durations (c : Config) : List Duration := [c.defaultTtl, c.opTimeout] ++ c.sweepInterval.toList

/-- A configuration with all its durations changed. -/
def mapDurations (f : Duration → Duration) (c : Config) : Config :=
  { c with
    defaultTtl := f c.defaultTtl
    opTimeout := f c.opTimeout
    sweepInterval := c.sweepInterval.map f }

/-- Nothing changes exactly if none of the durations does. -/
theorem mapDurations_eq_self_iff {f : Duration → Duration} {c : Config} :
    c.mapDurations f = c ↔ ∀ d ∈ c.durations, f d = d := by
  rcases c with ⟨uri, ttl, limit, _ | sweep⟩
  · simp [mapDurations, durations]
  · simp [mapDurations, durations]

/-! ## Members read one after the other -/

/-- A reader with one draft has another after these texts of members. Each text begins with the
quote of its name, and its value ends where a comma or a bracket follows. -/
inductive Draft.Fills : Draft → List (List Char) → Draft → Prop
  | nil (d : Draft) : Fills d [] d
  | cons {d d₁ d₂ : Draft} {body : List Char} {texts : List (List Char)}
      (reads : ∀ rest, EndsNumber rest → d.readNamed (body ++ rest) = .ok (d₁, rest))
      (fills : Fills d₁ texts d₂) : Fills d (('"' :: body) :: texts) d₂

/-- The texts of members behind the first one, each with its comma. -/
def following (texts : List (List Char)) : List Char := texts.flatMap (',' :: ·)

theorem intercalate_cons (text : List Char) (texts : List (List Char)) :
    [','].intercalate (text :: texts) = text ++ following texts := by
  induction texts generalizing text with
  | nil => simp [following]
  | cons t ts ih =>
      rw [List.intercalate_cons_cons, ih]
      simp [following]

/-- A text that joins members is as long as there are members, but for one comma. -/
theorem length_le_intercalate (texts : List (List Char)) :
    texts.length ≤ ([','].intercalate texts).length + 1 := by
  cases texts with
  | nil => simp
  | cons text texts =>
      have hle : texts.length ≤ (following texts).length := by
        induction texts with
        | nil => simp
        | cons t ts ih =>
            simp only [following, List.flatMap_cons, List.length_append, List.length_cons] at ih ⊢
            omega
      rw [intercalate_cons, List.length_append, List.length_cons]
      omega

/-- No number goes on with a further member or a closing bracket. -/
theorem endsNumber_following (texts : List (List Char)) (rest : List Char) :
    EndsNumber (following texts ++ '\x7d' :: rest) := by
  intro c hc
  cases texts with
  | nil =>
      cases hc
      decide
  | cons t ts =>
      cases hc
      decide

theorem readMembers_name {first : Bool} {d d₁ : Draft} {cs rest last : List Char}
    (hnext : nextMember first cs = .ok (.name rest)) (hread : d.readNamed rest = .ok (d₁, last))
    (fuel : Nat) : readMembers first d cs (fuel + 1) = readMembers false d₁ last fuel := by
  simp only [readMembers, hnext, hread]

theorem readMembers_following {d d' : Draft} {texts : List (List Char)} (h : d.Fills texts d')
    (rest : List Char) {fuel : Nat} (hfuel : texts.length < fuel) :
    readMembers false d (following texts ++ '\x7d' :: rest) fuel = .ok (d', rest) := by
  obtain ⟨fuel, rfl⟩ := Nat.exists_eq_succ_of_ne_zero (Nat.ne_zero_of_lt hfuel)
  induction h generalizing fuel with
  | nil d => rfl
  | @cons d d₁ d₂ body texts reads fills ih =>
      have hlen : texts.length < fuel := Nat.lt_of_succ_lt_succ hfuel
      obtain ⟨fuel, rfl⟩ := Nat.exists_eq_succ_of_ne_zero (Nat.ne_zero_of_lt hlen)
      have hnext : nextMember false (following (('"' :: body) :: texts) ++ '\x7d' :: rest)
          = .ok (.name (body ++ (following texts ++ '\x7d' :: rest))) := by
        simp [following, nextMember, skipSpace, isSpace]
      rw [readMembers_name hnext (reads _ (endsNumber_following texts rest))]
      exact ih fuel hlen

/-- The reader of an object goes through members that are separated by commas. -/
theorem readMembers_of_fills {d d' : Draft} {texts : List (List Char)} (hsome : texts ≠ [])
    (h : d.Fills texts d') (rest : List Char) {fuel : Nat} (hfuel : texts.length < fuel) :
    readMembers true d ([','].intercalate texts ++ '\x7d' :: rest) fuel = .ok (d', rest) := by
  cases h with
  | nil => exact absurd rfl hsome
  | @cons _ d₁ _ body texts reads fills =>
      obtain ⟨fuel, rfl⟩ := Nat.exists_eq_succ_of_ne_zero (Nat.ne_zero_of_lt hfuel)
      have hlen : texts.length < fuel := Nat.lt_of_succ_lt_succ hfuel
      rw [intercalate_cons, List.append_assoc, List.cons_append,
        readMembers_name rfl (reads _ (endsNumber_following texts rest))]
      exact readMembers_following fills rest hlen

/-! ## The members that are written -/

theorem Member.ofName?_name (m : Member) : ofName? m.name = some m := by
  cases m <;> decide

/-- A member that is new to the draft is read as it is written. -/
theorem Draft.fills_writeMember {d d₁ d₂ : Draft} {m : Member} {value : List Char}
    {texts : List (List Char)} (hnew : d.has m = false)
    (hvalue : ∀ rest, EndsNumber rest → d.readMember m (value ++ rest) = .ok (d₁, rest))
    (h : d₁.Fills texts d₂) : d.Fills (writeMember m.name value :: texts) d₂ := by
  have htext : writeMember m.name value
      = '"' :: (m.name.toList.flatMap escapedChar ++ '"' :: ':' :: value) := by
    simp [writeMember, writeString]
  rw [htext]
  refine .cons (fun rest hrest => ?_) h
  have hname := stringBody_escaped m.name.toList (':' :: value ++ rest)
  have hcolon : colon (':' :: value ++ rest) = .ok (value ++ rest) := rfl
  rw [List.append_assoc]
  simp only [readNamed, List.cons_append] at hname hcolon ⊢
  rw [hname]
  simp [Member.ofName?_name, hnew, hcolon, Except.bind, hvalue rest hrest]

theorem storedMillis_lt (d : Duration) : storedMillis d < 0x10000000000000000 :=
  Nat.mod_lt _ (by decide)

theorem readString_written (s : String) (rest : List Char) :
    readString (writeString s ++ rest) = .ok (s, rest) := by
  have hbody := stringBody_escaped s.toList rest
  have hquote : skipSpace (writeString s ++ rest)
      = '"' :: (s.toList.flatMap escapedChar ++ '"' :: rest) := by
    simp [writeString, skipSpace, isSpace]
  simp only [readString, hquote, hbody]
  simp [Except.map]

/-- The members of a configuration fill the draft of a reader. -/
theorem fills_members (c : Config) :
    Draft.Fills {} c.members
      { uri := some c.uri
        defaultTtl := some (storedMillis c.defaultTtl)
        opTimeout := some (storedMillis c.opTimeout)
        sweepInterval := c.sweepInterval.map fun d => some (storedMillis d) } := by
  rcases c with ⟨uri, ttl, limit, sweep⟩
  let d₁ : Draft := { uri := some uri }
  let d₂ : Draft := { d₁ with defaultTtl := some (storedMillis ttl) }
  let d₃ : Draft := { d₂ with opTimeout := some (storedMillis limit) }
  have huri : ∀ rest, EndsNumber rest →
      Draft.readMember {} .uri (writeString uri ++ rest) = .ok (d₁, rest) := by
    intro rest _
    simp only [Draft.readMember, readString_written]
    rfl
  have httl : ∀ rest, EndsNumber rest →
      d₁.readMember .defaultTtl (writeNatural (storedMillis ttl) ++ rest) = .ok (d₂, rest) := by
    intro rest hrest
    simp only [Draft.readMember, readNatural_written (storedMillis_lt ttl) hrest]
    rfl
  have hlimit : ∀ rest, EndsNumber rest →
      d₂.readMember .opTimeout (writeNatural (storedMillis limit) ++ rest) = .ok (d₃, rest) := by
    intro rest hrest
    simp only [Draft.readMember, readNatural_written (storedMillis_lt limit) hrest]
    rfl
  have hhead : ∀ {texts : List (List Char)} {d : Draft}, d₃.Fills texts d →
      Draft.Fills {}
        (writeMember "uri" (writeString uri)
          :: writeMember "default_ttl_ms" (writeNatural (storedMillis ttl))
          :: writeMember "op_timeout_ms" (writeNatural (storedMillis limit)) :: texts) d := by
    intro texts d hrest
    exact Draft.fills_writeMember (m := .uri) rfl huri
      (Draft.fills_writeMember (m := .defaultTtl) rfl httl
        (Draft.fills_writeMember (m := .opTimeout) rfl hlimit hrest))
  cases sweep with
  | none => exact hhead (.nil _)
  | some d =>
      have hsweep : ∀ rest, EndsNumber rest →
          d₃.readMember .sweepInterval (writeNatural (storedMillis d) ++ rest)
            = .ok ({ d₃ with sweepInterval := some (some (storedMillis d)) }, rest) := by
        intro rest hrest
        simp only [Draft.readMember, readOptionalNatural_written (storedMillis_lt d) hrest]
        rfl
      exact hhead (Draft.fills_writeMember (m := .sweepInterval) rfl hsweep (.nil _))

/-- What is written is read, with the durations cut to whole milliseconds. -/
theorem read_write (c : Config) : read c.write = .ok (c.mapDurations .cutToMillis) := by
  let body := [','].intercalate c.members ++ ['\x7d']
  have hlong : c.members.length < body.length + 1 := by
    have hle := length_le_intercalate c.members
    simp only [body, List.length_append, List.length_singleton]
    omega
  have hmembers : readMembers true {} body (body.length + 1) = .ok (_, []) :=
    readMembers_of_fills (by simp [members]) (fills_members c) [] hlong
  have hobject : readObject body = .ok (c.mapDurations .cutToMillis, []) := by
    simp only [readObject, hmembers]
    rcases c with ⟨uri, ttl, limit, _ | sweep⟩
    · rfl
    · rfl
  have hskip : skipSpace ('\x7b' :: body) = '\x7b' :: body := by simp [skipSpace, isSpace]
  have hchars : c.write.toList = '\x7b' :: body := by
    simp [write, writeChars, body]
  unfold read readChars
  rw [hchars, hskip]
  simp only [hobject]
  rfl

/-! ## The durations that are read -/

theorem exists_of_map_eq_ok {ε α β : Type} {f : α → β} {x : Except ε α} {b : β}
    (h : x.map f = .ok b) : ∃ a, x = .ok a ∧ f a = b := by
  cases x with
  | error e => cases h
  | ok a => exact ⟨a, rfl, Except.ok.inj h⟩

theorem exists_of_bind_eq_ok {ε α β : Type} {f : α → Except ε β} {x : Except ε α} {b : β}
    (h : x.bind f = .ok b) : ∃ a, x = .ok a ∧ f a = .ok b := by
  cases x with
  | error e => cases h
  | ok a => exact ⟨a, rfl, h⟩

theorem eq_ok_of_toOption {α : Type} {x : Except Fault α} {a : α} (h : x.toOption = some a) :
    x = .ok a := by
  cases x with
  | error e => cases h
  | ok b => exact congrArg Except.ok (Option.some.inj h)

/-- A number of milliseconds that a document can hold. -/
def IsMillis (n : Nat) : Prop := n < 0x10000000000000000

theorem isMillis_of_readOptionalNatural {cs rest : List Char} {n : Option Nat}
    (h : readOptionalNatural cs = .ok (n, rest)) : ∀ k ∈ n, IsMillis k := by
  unfold readOptionalNatural at h
  split at h
  · obtain ⟨last, -, heq⟩ := exists_of_map_eq_ok h
    cases heq
    nofun
  · obtain ⟨⟨k, last⟩, hread, heq⟩ := exists_of_map_eq_ok h
    cases heq
    rintro _ ⟨⟩
    exact lt_of_readNatural hread

/-- The numbers of a draft are such numbers. -/
structure Draft.Bounded (d : Draft) : Prop where
  defaultTtl : ∀ n ∈ d.defaultTtl, IsMillis n
  opTimeout : ∀ n ∈ d.opTimeout, IsMillis n
  sweepInterval : ∀ n ∈ d.sweepInterval.getD none, IsMillis n

theorem Draft.bounded_empty : Draft.Bounded {} := by
  refine ⟨?_, ?_, ?_⟩
  all_goals
    intro n hn
    cases hn

namespace Draft.Bounded

variable {d d' : Draft}

theorem readMember (h : d.Bounded) {m : Member} {cs rest : List Char}
    (hread : d.readMember m cs = .ok (d', rest)) : d'.Bounded := by
  cases m with
  | uri =>
      obtain ⟨⟨s, last⟩, -, heq⟩ := exists_of_map_eq_ok hread
      cases heq
      exact ⟨h.defaultTtl, h.opTimeout, h.sweepInterval⟩
  | defaultTtl =>
      obtain ⟨⟨n, last⟩, hn, heq⟩ := exists_of_map_eq_ok hread
      cases heq
      refine ⟨?_, h.opTimeout, h.sweepInterval⟩
      rintro _ ⟨⟩
      exact lt_of_readNatural hn
  | opTimeout =>
      obtain ⟨⟨n, last⟩, hn, heq⟩ := exists_of_map_eq_ok hread
      cases heq
      refine ⟨h.defaultTtl, ?_, h.sweepInterval⟩
      rintro _ ⟨⟩
      exact lt_of_readNatural hn
  | sweepInterval =>
      obtain ⟨⟨n, last⟩, hn, heq⟩ := exists_of_map_eq_ok hread
      cases heq
      exact ⟨h.defaultTtl, h.opTimeout, isMillis_of_readOptionalNatural hn⟩

theorem readNamed (h : d.Bounded) {cs rest : List Char}
    (hread : d.readNamed cs = .ok (d', rest)) : d'.Bounded := by
  unfold Draft.readNamed at hread
  split at hread
  · cases hread
  · split at hread
    · split at hread
      · cases hread
      · obtain ⟨last, -, hmember⟩ := exists_of_bind_eq_ok hread
        exact h.readMember hmember
    · -- A member of another name leaves the draft as it is.
      obtain ⟨last, -, heq⟩ := exists_of_map_eq_ok hread
      cases heq
      exact h

theorem readMembers (h : d.Bounded) {first : Bool} {cs rest : List Char} {fuel : Nat}
    (hread : Config.readMembers first d cs fuel = .ok (d', rest)) : d'.Bounded := by
  induction fuel generalizing first d cs with
  | zero => cases hread
  | succ fuel ih =>
      unfold Config.readMembers at hread
      split at hread
      · cases hread
      · cases hread
        exact h
      · split at hread
        · cases hread
        · rename_i hnamed
          exact ih (h.readNamed hnamed) hread

end Draft.Bounded

/-- A configuration of such numbers gives durations that a document can hold. -/
theorem inMillis_ofMillis {uri : String} {ttl : Nat} {limit sweep : Option Nat}
    (httl : IsMillis ttl) (hlimit : ∀ n ∈ limit, IsMillis n) (hsweep : ∀ n ∈ sweep, IsMillis n) :
    ∀ d ∈ (ofMillis uri ttl limit sweep).durations, d.InMillis := by
  have hdefault : defaultHealthTimeout.InMillis := ⟨3000, by decide, rfl⟩
  have hlim : ((limit.map Duration.ofMillis).getD defaultHealthTimeout).InMillis := by
    cases limit with
    | none => exact hdefault
    | some n => exact ⟨n, hlimit n rfl, rfl⟩
  intro d hd
  simp only [durations, ofMillis, List.mem_append, List.mem_cons, List.not_mem_nil, or_false,
    Option.mem_toList, Option.map_eq_some_iff] at hd
  rcases hd with (rfl | rfl) | ⟨n, hn, rfl⟩
  · exact ⟨ttl, httl, rfl⟩
  · exact hlim
  · exact ⟨n, hsweep n hn, rfl⟩

theorem inMillis_of_readObject {cs rest : List Char} {c : Config}
    (h : readObject cs = .ok (c, rest)) : ∀ d ∈ c.durations, d.InMillis := by
  unfold readObject at h
  split at h
  · cases h
  · rename_i d last hmembers
    have hbounded : d.Bounded := Draft.Bounded.readMembers Draft.bounded_empty hmembers
    obtain ⟨c', hfinish, heq⟩ := exists_of_map_eq_ok h
    cases heq
    unfold Draft.finish at hfinish
    split at hfinish
    · cases hfinish
    · cases hfinish
    · rename_i uri ttl _ httl
      cases hfinish
      exact inMillis_ofMillis (hbounded.defaultTtl ttl httl) hbounded.opTimeout
        hbounded.sweepInterval

theorem exists_of_readElement {α : Type} {read : List Char → Except Fault (α × List Char)}
    {index : Nat} {cs rest : List Char} {a : α} (h : readElement read index cs = .ok (a, rest)) :
    ∃ found, read found = .ok (a, rest) := by
  unfold readElement at h
  split at h
  · cases h
  · cases h
  · exact ⟨_, h⟩

theorem exists_of_readLastElement {α : Type} {read : List Char → Except Fault (α × List Char)}
    {cs rest : List Char} {a : α} (h : readLastElement read cs = .ok (some a, rest)) :
    ∃ found, read found = .ok (a, rest) := by
  unfold readLastElement at h
  split at h
  · cases h
  · cases h
  · obtain ⟨⟨b, last⟩, hread, heq⟩ := exists_of_map_eq_ok h
    cases heq
    exact ⟨_, hread⟩

theorem inMillis_of_readArray {cs rest : List Char} {c : Config}
    (h : readArray cs = .ok (c, rest)) : ∀ d ∈ c.durations, d.InMillis := by
  obtain ⟨⟨uri, cs₁⟩, -, h⟩ := exists_of_bind_eq_ok h
  obtain ⟨⟨ttl, cs₂⟩, httl, h⟩ := exists_of_bind_eq_ok h
  obtain ⟨⟨limit, cs₃⟩, hlimit, h⟩ := exists_of_bind_eq_ok h
  obtain ⟨⟨sweep, cs₄⟩, hsweep, h⟩ := exists_of_bind_eq_ok h
  obtain ⟨last, -, h⟩ := exists_of_bind_eq_ok h
  cases h
  refine inMillis_ofMillis ?_ ?_ ?_
  · obtain ⟨found, hread⟩ := exists_of_readElement httl
    exact lt_of_readNatural hread
  · rintro n ⟨⟩
    obtain ⟨found, hread⟩ := exists_of_readLastElement hlimit
    exact lt_of_readNatural hread
  · intro n hn
    cases sweep with
    | none => cases hn
    | some sweep =>
        obtain ⟨found, hread⟩ := exists_of_readLastElement hsweep
        exact isMillis_of_readOptionalNatural hread n hn

/-- Every duration of a configuration that is read is one that a document can hold. -/
theorem inMillis_of_read {text : String} {c : Config} (h : read text = .ok c) :
    ∀ d ∈ c.durations, d.InMillis := by
  unfold read readChars at h
  simp only at h
  split at h
  · cases h
  · rename_i c' rest hfound
    split at h
    · cases h
      split at hfound
      · exact inMillis_of_readArray hfound
      · exact inMillis_of_readObject hfound
      · cases hfound
    · cases h

/-! ## There and back -/

/-- **A document keeps what it can hold.** Every configuration can be written and read back, and
comes back with its durations cut to whole milliseconds of 64 bits. It comes back unchanged exactly
if all its durations are such, as they are in every configuration that was read from a text. -/
theorem documents_keep (c : Config) :
    read c.write = .ok
      { uri := c.uri
        defaultTtl := c.defaultTtl.cutToMillis
        opTimeout := c.opTimeout.cutToMillis
        sweepInterval := c.sweepInterval.map .cutToMillis } ∧
    (read c.write = .ok c ↔ ∀ d ∈ c.durations, d.InMillis) ∧
    ∀ text, read text = .ok c → read c.write = .ok c := by
  have hback : read c.write = .ok c ↔ ∀ d ∈ c.durations, d.InMillis := by
    rw [read_write, Except.ok.injEq, mapDurations_eq_self_iff]
    exact forall₂_congr fun d _ => Duration.cutToMillis_eq_self_iff
  exact ⟨c.read_write, hback, fun text h => hback.mpr (inMillis_of_read h)⟩

/-- A text with its members in another order, escapes and white space, and what it holds. -/
theorem documents_keep_spelled :
    let text := "\x7b \"default_ttl_ms\":1500 ,\n\"sweep_interval_ms\":null,"
      ++ "\"u\\u0072i\":\"memory:\\/\\/\\ud83d\\ude00\\\"\"\x7d"
    let c : Config := ⟨"memory://😀\"", .ofMillis 1500, .ofMillis 3000, none⟩
    read text = .ok c ∧ read c.write = .ok c := by
  intro text c
  have hread : read text = .ok c := eq_ok_of_toOption (by decide +kernel)
  exact ⟨hread, (documents_keep c).2.2 text hread⟩

end Config

end KeyLease
