import Mathlib.Data.List.ReduceOption
import KeyLease.Proofs.Config.Texts

set_option autoImplicit false

/-!
# Objects, and in what order their members stand

What the reader makes of an object is one equation over all of its texts (`read_object`): it takes
the known members one after the other (`Draft.take`) and passes over all others. So the order does
not count, and neither does what is passed over (`read_object_of_perm`); and an object in which a
member is missing or repeated is refused (`read_object_refused`).
-/

namespace KeyLease.Config

open Json

/-! ## Reading the members of an object -/

/-- A known member is taken unless it has been taken before; any other leaves the draft as it is. -/
def Draft.step (d : Draft) : Option Field → Except Fault Draft
  | none => .ok d
  | some f =>
      if d.has f.member then .error (.mismatch (.duplicate f.member.name)) else .ok (d.put f)

/-- The members of an object, one after the other. -/
def Draft.take (d : Draft) : List (Option Field) → Except Fault Draft
  | [] => .ok d
  | item :: items => (d.step item).bind (·.take items)

theorem Member.ofName?_eq_none {text : List Char} (h : ∀ m : Member, text ≠ m.name.toList) :
    Member.ofName? (String.ofList text) = none := by
  rw [ofName?, List.find?_eq_none]
  intro m _
  have hne : m.name ≠ String.ofList text := by
    intro heq
    exact h m (by rw [heq, String.toList_ofList])
  simpa using hne

theorem colon_blank {ws : List Char} (hws : IsBlank ws) (rest : List Char) :
    colon (ws ++ ':' :: rest) = .ok rest := by
  simp only [colon, skipSpace_blank_cons hws (c := ':') (by decide)]

/-- Every member begins with a quote, and is read from there on as its step. -/
theorem Draft.readNamed_text (d : Draft) {item : Option Field} {cs : List Char}
    (h : MemberText item cs) (hfits : ∀ f ∈ item, f.Fits) :
    ∃ body, cs = '"' :: body ∧ ∀ rest, EndsNumber rest →
      d.readNamed (body ++ rest) = (d.step item).map (·, rest) := by
  cases h with
  | @known f name between behind value hname hbetween hbehind hvalue =>
      refine ⟨_, rfl, fun rest hrest => ?_⟩
      have hbody := stringBody_spelled hname (between ++ ':' :: (behind ++ (value ++ rest)))
      have hread := d.readMember_text hvalue (hfits f rfl) hbehind hrest
      have happ : name ++ '"' :: (between ++ ':' :: (behind ++ value)) ++ rest
          = name ++ '"' :: (between ++ ':' :: (behind ++ (value ++ rest))) := by simp
      rw [happ]
      simp only [readNamed, hbody, String.ofList_toList, Member.ofName?_name, step,
        colon_blank hbetween]
      split
      · rfl
      · exact hread
  | @other name text between behind value hname hother hbetween hbehind hvalue =>
      refine ⟨_, rfl, fun rest hrest => ?_⟩
      have hbody := stringBody_spelled hname (between ++ ':' :: (behind ++ (value ++ rest)))
      -- The name is not known, so the value is passed over.
      have hskip := skipValue_of_derives hbehind hvalue hrest
      have happ : name ++ '"' :: (between ++ ':' :: (behind ++ value)) ++ rest
          = name ++ '"' :: (between ++ ':' :: (behind ++ (value ++ rest))) := by simp
      rw [happ]
      simp only [readNamed, hbody, Member.ofName?_eq_none hother, step, colon_blank hbetween,
        Except.bind, hskip]
      rfl

theorem nextMember_first {ws : List Char} (hws : IsBlank ws) (rest : List Char) :
    nextMember true (ws ++ '"' :: rest) = .ok (.name rest) := by
  simp only [nextMember, skipSpace_blank_cons hws (c := '"') (by decide), if_true]

theorem nextMember_comma {after before : List Char} (hafter : IsBlank after)
    (hbefore : IsBlank before) (rest : List Char) :
    nextMember false (after ++ ',' :: (before ++ '"' :: rest)) = .ok (.name rest) := by
  simp only [nextMember, skipSpace_blank_cons hafter (c := ',') (by decide),
    skipSpace_blank_cons hbefore (c := '"') (by decide), Bool.false_eq_true, if_false]

theorem nextMember_closing (first : Bool) {ws : List Char} (hws : IsBlank ws) (rest : List Char) :
    nextMember first (ws ++ '\x7d' :: rest) = .ok (.closing rest) := by
  simp only [nextMember, skipSpace_blank_cons hws (c := '\x7d') (by decide)]

/-- At the closing bracket the members are at an end. -/
theorem readMembers_closing (first : Bool) (d : Draft) {ws : List Char} (hws : IsBlank ws)
    (rest : List Char) (fuel : Nat) :
    readMembers first d (ws ++ '\x7d' :: rest) (fuel + 1) = .ok (d, rest) := by
  simp only [readMembers, nextMember_closing first hws]

/-- One member is read as its step, and then those behind it. -/
theorem readMembers_step {item : Option Field} {cs : List Char} (hcs : MemberText item cs)
    (hfits : ∀ f ∈ item, f.Fits) {d : Draft} {first : Bool} {lead before behind : List Char}
    (hlead : ∀ name, nextMember first (lead ++ (before ++ '"' :: name)) = .ok (.name name))
    (hends : EndsNumber behind) (fuel : Nat) :
    readMembers first d (lead ++ (before ++ (cs ++ behind))) (fuel + 1)
      = (d.step item).bind fun d => readMembers false d behind fuel := by
  obtain ⟨body, rfl, hread⟩ := d.readNamed_text hcs hfits
  simp only [readMembers, List.cons_append, hlead, hread behind hends]
  cases d.step item with
  | error e => rfl
  | ok d' => rfl

/-- The reader of an object takes its members one after the other. What leads to the first of them
is nothing, or the text behind the one before. -/
theorem readMembers_text {items : List (Option Field)} {cs : List Char} (h : MembersText items cs)
    (hfits : ∀ item ∈ items, ∀ f ∈ item, f.Fits) (rest : List Char) (d : Draft) (first : Bool)
    (lead : List Char) {fuel : Nat} (hfuel : items.length < fuel)
    (hlead : ∀ ws name, IsBlank ws →
      nextMember first (lead ++ (ws ++ '"' :: name)) = .ok (.name name)) :
    readMembers first d (lead ++ (cs ++ '\x7d' :: rest)) fuel = (d.take items).map (·, rest) := by
  induction h generalizing d first lead fuel with
  | @last item before cs after hbefore hcs hafter =>
      obtain ⟨fuel, rfl⟩ := Nat.exists_eq_add_of_lt hfuel
      have hstep := readMembers_step (d := d) hcs (hfits item List.mem_cons_self)
        (fun name => hlead before name hbefore)
        (endsNumber_blank hafter (endsNumber_brace rest)) (fuel + 1)
      have happ : lead ++ (before ++ (cs ++ after) ++ '\x7d' :: rest)
          = lead ++ (before ++ (cs ++ (after ++ '\x7d' :: rest))) := by simp
      have hcount : [item].length + fuel + 1 = fuel + 1 + 1 := by
        simp only [List.length_singleton]
        omega
      rw [happ, hcount, hstep]
      simp only [Draft.take, readMembers_closing false _ hafter]
      cases d.step item with
      | error e => rfl
      | ok d' => rfl
  | @cons item items before cs after more hbefore hcs hafter hmore ih =>
      obtain ⟨fuel, rfl⟩ := Nat.exists_eq_add_of_lt hfuel
      have hstep := readMembers_step (d := d) hcs (hfits item List.mem_cons_self)
        (fun name => hlead before name hbefore)
        (endsNumber_blank hafter (endsNumber_comma (more ++ '\x7d' :: rest)))
        (items.length + fuel + 1)
      have happ : lead ++ (before ++ (cs ++ (after ++ ',' :: more)) ++ '\x7d' :: rest)
          = lead ++ (before ++ (cs ++ (after ++ ',' :: (more ++ '\x7d' :: rest)))) := by simp
      have hcount : (item :: items).length + fuel + 1 = items.length + fuel + 1 + 1 := by
        simp only [List.length_cons]
        omega
      rw [happ, hcount, hstep]
      cases hone : d.step item with
      | error e => simp [Draft.take, hone, Except.bind, Except.map]
      | ok d' =>
          have hlong : items.length < items.length + fuel + 1 := by omega
          -- What leads to the next member is what follows this one, up to the comma.
          have hrest := ih (fun item hitem => hfits item (List.mem_cons_of_mem _ hitem))
            d' false (after ++ [',']) hlong
            (fun ws name hws => by simpa using nextMember_comma hafter hws name)
          simpa [Draft.take, hone, Except.bind] using hrest

/-- A text of members is as long as there are members. -/
theorem MembersText.length_le {items : List (Option Field)} {cs : List Char}
    (h : MembersText items cs) : items.length ≤ cs.length := by
  have hone {item : Option Field} {cs : List Char} (h : MemberText item cs) : 1 ≤ cs.length := by
    cases h <;> simp
  induction h with
  | last hbefore hcs hafter =>
      have hle := hone hcs
      simp only [List.length_singleton, List.length_append]
      omega
  | cons hbefore hcs hafter hmore ih =>
      simp only [List.length_append, List.length_cons]
      omega

/-- The reader of an object behind the opening bracket. -/
theorem readObject_of_readMembers (items : List (Option Field)) {body rest : List Char}
    (h : readMembers true {} body (body.length + 1) = (Draft.take {} items).map (·, rest)) :
    readObject body = ((Draft.take {} items).bind Draft.finish).map (·, rest) := by
  rw [readObject, h]
  cases Draft.take {} items with
  | error e => rfl
  | ok d => rfl

/-- **What the reader makes of an object.** It takes the members one after the other, and has a
configuration if none is missing at the end. -/
theorem read_object {items : List (Option Field)} {text : String} (h : ObjectText items text.toList)
    (hfits : ∀ item ∈ items, ∀ f ∈ item, f.Fits) :
    read text = (Draft.take {} items).bind Draft.finish := by
  unfold read
  generalize text.toList = cs at h
  cases h with
  | @empty before inner after hbefore hinner hafter =>
      have hmembers := readMembers_closing true {} hinner after
        (inner ++ '\x7d' :: after).length
      apply readChars_of_blank hafter
      rw [skipSpace_blank_cons hbefore (by decide)]
      exact readObject_of_readMembers [] hmembers
  | @members _ before cs after hbefore hcs hafter =>
      have hlong : items.length < (cs ++ '\x7d' :: after).length + 1 := by
        have hle := hcs.length_le
        simp only [List.length_append]
        omega
      have hmembers := readMembers_text hcs hfits after {} true [] hlong
        fun ws name hws => nextMember_first hws name
      apply readChars_of_blank hafter
      rw [skipSpace_blank_cons hbefore (by decide)]
      exact readObject_of_readMembers items hmembers

/-! ## The members that have been taken -/

/-- A draft has this field. -/
def Draft.Holds (d : Draft) : Field → Prop
  | .uri u => d.uri = some u
  | .defaultTtl n => d.defaultTtl = some n
  | .opTimeout n => d.opTimeout = some n
  | .sweepInterval n => d.sweepInterval = some n

namespace Draft

theorem holds_put (d : Draft) (f : Field) : (d.put f).Holds f := by
  cases f <;> rfl

theorem holds_put_of_ne {d : Draft} {f g : Field} (hne : g.member ≠ f.member) :
    (d.put f).Holds g ↔ d.Holds g := by
  cases f <;> cases g <;> first | exact Iff.rfl | exact absurd rfl hne

theorem has_put (d : Draft) (f : Field) (m : Member) :
    (d.put f).has m = (decide (f.member = m) || d.has m) := by
  cases f <;> cases m <;> simp [put, has, Field.member]

/-- Fields one after the other leave alone what none of them gives. -/
theorem holds_foldl_of_ne {fs : List Field} {f : Field} (hne : ∀ g ∈ fs, f.member ≠ g.member)
    (d : Draft) : (fs.foldl put d).Holds f ↔ d.Holds f := by
  induction fs generalizing d with
  | nil => rfl
  | cons g fs ih =>
      rw [List.foldl_cons, ih fun g' hg' => hne g' (List.mem_cons_of_mem g hg')]
      exact holds_put_of_ne (hne g List.mem_cons_self)

/-- Of fields that give different members all are held. -/
theorem holds_foldl {fs : List Field} (hnodup : (fs.map Field.member).Nodup) {f : Field}
    (hf : f ∈ fs) (d : Draft) : (fs.foldl put d).Holds f := by
  induction fs generalizing d with
  | nil => cases hf
  | cons g fs ih =>
      obtain ⟨hnot, htail⟩ := List.nodup_cons.mp hnodup
      rcases List.mem_cons.mp hf with rfl | hmem
      · have hne : ∀ g' ∈ fs, f.member ≠ g'.member := by
          intro g' hg' heq
          exact hnot (heq ▸ List.mem_map_of_mem hg')
        exact (holds_foldl_of_ne hne _).mpr (d.holds_put f)
      · exact ih htail hmem (d.put g)

theorem has_foldl {fs : List Field} {d : Draft} {m : Member} :
    (fs.foldl put d).has m = true ↔ m ∈ fs.map Field.member ∨ d.has m = true := by
  induction fs generalizing d with
  | nil => simp
  | cons f fs ih =>
      rw [List.foldl_cons, ih, has_put]
      simp only [Bool.or_eq_true, decide_eq_true_eq, List.map_cons, List.mem_cons]
      constructor
      · rintro (hmem | rfl | hhas)
        · exact .inl (.inr hmem)
        · exact .inl (.inl rfl)
        · exact .inr hhas
      · rintro ((rfl | hmem) | hhas)
        · exact .inr (.inl rfl)
        · exact .inl hmem
        · exact .inr (.inr hhas)

/-- The fields are new to a draft: it has none of their members, and they give each only once. -/
def New (d : Draft) (fs : List Field) : Prop :=
  (fs.map Field.member).Nodup ∧ ∀ f ∈ fs, d.has f.member = false

theorem new_cons {d : Draft} {f : Field} {fs : List Field} :
    d.New (f :: fs) ↔ d.has f.member = false ∧ (d.put f).New fs := by
  simp only [New, List.map_cons, List.nodup_cons, List.mem_cons, forall_eq_or_imp, has_put,
    Bool.or_eq_false_iff, decide_eq_false_iff_not, List.mem_map, not_exists, not_and]
  constructor
  · rintro ⟨⟨hnot, hnodup⟩, hf, hfs⟩
    exact ⟨hf, hnodup, fun g hg => ⟨fun heq => hnot g hg heq.symm, hfs g hg⟩⟩
  · rintro ⟨hf, hnodup, hfs⟩
    exact ⟨⟨fun g hg heq => (hfs g hg).1 heq.symm, hnodup⟩, hf, fun g hg => (hfs g hg).2⟩

/-- Fields that are new are all taken. -/
theorem take_of_new {items : List (Option Field)} {d : Draft} (h : d.New items.reduceOption) :
    d.take items = .ok (items.reduceOption.foldl put d) := by
  induction items generalizing d with
  | nil => rfl
  | cons item items ih =>
      cases item with
      | none => exact ih (by simpa using h)
      | some f =>
          rw [List.reduceOption_cons_of_some, new_cons] at h
          simp only [take, step, h.1, Bool.false_eq_true, if_false, Except.bind,
            List.reduceOption_cons_of_some, List.foldl_cons]
          exact ih h.2

/-- If they are not, the first that is repeated is refused. -/
theorem take_of_not_new {items : List (Option Field)} {d : Draft} (h : ¬ d.New items.reduceOption) :
    ∃ m : Member, d.take items = .error (.mismatch (.duplicate m.name)) := by
  induction items generalizing d with
  | nil => exact absurd ⟨List.nodup_nil, List.forall_mem_nil _⟩ h
  | cons item items ih =>
      cases item with
      | none => exact ih (by simpa using h)
      | some f =>
          rw [List.reduceOption_cons_of_some, new_cons] at h
          cases hhas : d.has f.member with
          | true => exact ⟨f.member, by simp [take, step, hhas, Except.bind]⟩
          | false =>
              obtain ⟨m, hm⟩ := ih fun hnew => h ⟨hhas, hnew⟩
              exact ⟨m, by simpa [take, step, hhas, Except.bind] using hm⟩

end Draft

/-! ## Objects -/

theorem nodup_fields (u : String) (t : Nat) (o : Option Nat) (s : Option (Option Nat)) :
    ((fields u t o s).map Field.member).Nodup := by
  cases o <;> cases s <;> simp [fields, Field.member]

theorem has_empty (m : Member) : Draft.has {} m = false := by
  cases m <;> rfl

/-- The draft that has taken these fields, in whatever order. -/
theorem foldl_put_of_perm {fs : List Field} {u : String} {t : Nat} {o : Option Nat}
    {s : Option (Option Nat)} (h : fs.Perm (fields u t o s)) :
    fs.foldl Draft.put {} = ⟨some u, some t, o, s⟩ := by
  have hnodup : (fs.map Field.member).Nodup := (h.map _).nodup_iff.mpr (nodup_fields u t o s)
  have hholds {f : Field} (hf : f ∈ fields u t o s) : (fs.foldl Draft.put {}).Holds f :=
    Draft.holds_foldl hnodup (h.mem_iff.mpr hf) {}
  have hlacks {m : Member} (hm : m ∉ (fields u t o s).map Field.member) :
      (fs.foldl Draft.put {}).has m = false := by
    rw [Bool.eq_false_iff, ne_eq, Draft.has_foldl, (h.map Field.member).mem_iff, has_empty]
    simp [hm]
  have huri : (fs.foldl Draft.put {}).uri = some u := hholds (f := .uri u) (by simp [fields])
  have httl : (fs.foldl Draft.put {}).defaultTtl = some t :=
    hholds (f := .defaultTtl t) (by simp [fields])
  have hlimit : (fs.foldl Draft.put {}).opTimeout = o := by
    cases o with
    | some n => exact hholds (f := .opTimeout n) (by simp [fields])
    | none =>
        have hnone := hlacks (m := .opTimeout) (by cases s <;> simp [fields, Field.member])
        simpa [Draft.has] using hnone
  have hsweep : (fs.foldl Draft.put {}).sweepInterval = s := by
    cases s with
    | some n => exact hholds (f := .sweepInterval n) (by simp [fields])
    | none =>
        have hnone := hlacks (m := .sweepInterval) (by cases o <;> simp [fields, Field.member])
        simpa [Draft.has] using hnone
  generalize fs.foldl Draft.put {} = d at huri httl hlimit hsweep
  cases d
  simp_all

/-- An object with these fields, in any order and among any others, is the one configuration. -/
theorem read_object_of_perm {items : List (Option Field)} {text : String} {u : String} {t : Nat}
    {o : Option Nat} {s : Option (Option Nat)} (h : ObjectText items text.toList)
    (hfits : ∀ f ∈ fields u t o s, f.Fits) (hperm : items.reduceOption.Perm (fields u t o s)) :
    read text = .ok (ofMillis u t o (s.getD none)) := by
  have hall : ∀ item ∈ items, ∀ f ∈ item, f.Fits := by
    rintro _ hitem f rfl
    exact hfits f (hperm.mem_iff.mp (List.reduceOption_mem_iff.mpr hitem))
  have hnew : Draft.New {} items.reduceOption :=
    ⟨(hperm.map _).nodup_iff.mpr (nodup_fields u t o s), fun f _ => has_empty f.member⟩
  rw [read_object h hall, Draft.take_of_new hnew, foldl_put_of_perm hperm]
  rfl

/-- An object in which a member is missing or repeated is refused, for that reason. -/
theorem read_object_refused {items : List (Option Field)} {text : String}
    (h : ObjectText items text.toList) (hfits : ∀ item ∈ items, ∀ f ∈ item, f.Fits)
    (hbad : Member.uri ∉ items.reduceOption.map Field.member ∨
      Member.defaultTtl ∉ items.reduceOption.map Field.member ∨
      ¬ (items.reduceOption.map Field.member).Nodup) :
    ∃ m : Member, read text = .error (.mismatch (.missing m.name)) ∨
      read text = .error (.mismatch (.duplicate m.name)) := by
  rw [read_object h hfits]
  by_cases hnodup : (items.reduceOption.map Field.member).Nodup
  · have hnew : Draft.New {} items.reduceOption := ⟨hnodup, fun f _ => has_empty f.member⟩
    rw [Draft.take_of_new hnew]
    have hlacks {m : Member} (hm : m ∉ items.reduceOption.map Field.member) :
        (items.reduceOption.foldl Draft.put {}).has m = false := by
      rw [Bool.eq_false_iff, ne_eq, Draft.has_foldl, has_empty]
      simpa using hm
    generalize items.reduceOption.foldl Draft.put {} = d at hlacks
    obtain ⟨uri, ttl, limit, sweep⟩ := d
    cases uri with
    | none => exact ⟨.uri, .inl rfl⟩
    | some u =>
        -- The URI is there, so it is the other one that is missing.
        have hmissing : Member.defaultTtl ∉ items.reduceOption.map Field.member := by
          rcases hbad with huri | httl | hrepeated
          · cases hlacks huri
          · exact httl
          · exact absurd hnodup hrepeated
        have httl : ttl = none := by simpa [Draft.has] using hlacks hmissing
        exact ⟨.defaultTtl, .inl (by rw [httl]; rfl)⟩
  · have hrepeated : ¬ Draft.New {} items.reduceOption := fun hnew => hnodup hnew.1
    obtain ⟨m, hm⟩ := Draft.take_of_not_new hrepeated
    exact ⟨m, .inr (by rw [hm]; rfl)⟩

end KeyLease.Config
