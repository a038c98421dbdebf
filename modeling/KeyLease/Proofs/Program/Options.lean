import KeyLease.CommandLine.Invocation
import KeyLease.Proofs.Json.Written

set_option autoImplicit false

/-!
# Options as they are written

An option is written as one word, `--name=value`, or as two, `--name` and then the value if that
does not begin with a minus sign. `OptionWords` is that, and `OptionsWords` says it of options one
after the other. A reader of a level that comes to such words goes through them
(`OptionsWords.exists_goes`) and has settled the options in the end, except that the last of them
may still be pending: `Reading.At` says what a reader has once that is settled too.
-/

namespace KeyLease

/-! ## Numbers -/

namespace Text

/-- Digits are read as the number that they write. -/
theorem digitsFrom_eq {cs : List Char} (h : ∀ c ∈ cs, c.isDigit = true) (acc : Nat) :
    digitsFrom acc cs = some (Nat.ofDigitChars 10 cs acc) := by
  induction cs generalizing acc with
  | nil => simp [digitsFrom]
  | cons c cs ih =>
      have hrest : ∀ c ∈ cs, c.isDigit = true := fun c hc => h c (List.mem_cons_of_mem _ hc)
      simp only [digitsFrom, digit?_of_isDigit (h c List.mem_cons_self), ih hrest,
        Nat.ofDigitChars_cons, Nat.mul_comm]

/-- A number that is written is read back, if it is below the bound. -/
theorem natBelow?_toDigits {bound n : Nat} (h : n < bound) :
    natBelow? bound (Nat.toDigits 10 n) = some n := by
  have hdigits : ∀ c ∈ Nat.toDigits 10 n, c.isDigit = true :=
    fun c hc => Nat.isDigit_of_mem_toDigits (by decide) (by decide) hc
  have hvalue := digitsFrom_eq hdigits 0
  rw [Nat.ofDigitChars_ten_toDigits] at hvalue
  obtain ⟨c, cs, hcs⟩ := List.exists_cons_of_ne_nil (Nat.toDigits_ne_nil (n := n) (b := 10))
  rw [hcs] at hdigits hvalue ⊢
  have hplus : c ≠ '+' := by
    rintro rfl
    cases hdigits _ List.mem_cons_self
  unfold natBelow?
  split
  · rename_i heq
    cases heq
    exact absurd rfl hplus
  · simp [magnitude?, hvalue, h]

/-- A text is cut at the first of some character. -/
theorem splitFirst_of_not_mem {sep : Char} {front : List Char} (h : sep ∉ front)
    (back : List Char) : splitFirst [sep] (front ++ sep :: back) = some (front, back) := by
  induction front with
  | nil => simp [splitFirst]
  | cons c front ih =>
      have hc : ¬ sep = c := fun heq => h (by simp [heq])
      have hfront : sep ∉ front := fun hmem => h (List.mem_cons_of_mem _ hmem)
      simp [splitFirst, List.isPrefixOf, hc, ih hfront]

/-- A text without that character is not cut. -/
theorem splitFirst_eq_none {sep : Char} {cs : List Char} (h : sep ∉ cs) :
    splitFirst [sep] cs = none := by
  cases hcut : splitFirst [sep] cs with
  | none => rfl
  | some cut => exact absurd (by simp [eq_append_of_splitFirst hcut]) h

end Text

namespace CommandLine

/-- A value as a word. -/
def Value.word : Value → String
  | .text s => s
  | .number n => n.repr

theorem ValueKind.read_text (s : String) :
    ValueKind.text.read (Value.text s).word = .ok (.text s) := rfl

theorem ValueKind.read_number {n : Nat} (h : n < 0x10000000000000000) :
    ValueKind.number.read (Value.number n).word = .ok (.number n) := by
  simp [ValueKind.read, Value.word, Nat.repr_eq_ofList_toDigits, Text.natBelow?_toDigits h]

theorem ValueKind.read_path {s : String} (h : s ≠ "") :
    ValueKind.path.read (Value.text s).word = .ok (.text s) := by
  simp [ValueKind.read, Value.word, h]

/-- A word begins with a minus sign. -/
def Dashed (word : String) : Prop := word.toList.head? = some '-'

instance (word : String) : Decidable (Dashed word) :=
  inferInstanceAs (Decidable (word.toList.head? = some '-'))

/-- A number can always be a word of its own. -/
theorem not_dashed_number (n : Nat) : ¬ Dashed (Value.number n).word := by
  intro h
  have hmem : '-' ∈ Nat.toDigits 10 n := List.mem_of_head? (by simpa [Dashed, Value.word] using h)
  cases Nat.isDigit_of_mem_toDigits (by decide) (by decide) hmem

/-! ## Words of options -/

/-- The words that give one option. -/
inductive OptionWords (name : String) (v : Value) : List String → Prop
  | attached : OptionWords name v ["--" ++ name ++ "=" ++ v.word]
  | apart (h : ¬ Dashed v.word) : OptionWords name v ["--" ++ name, v.word]

/-- The words that give some options one after the other. -/
inductive OptionsWords : List (String × Value) → List String → Prop
  | nil : OptionsWords [] []
  | cons {name : String} {v : Value} {options : List (String × Value)} {words more : List String}
      (first : OptionWords name v words) (rest : OptionsWords options more) :
      OptionsWords ((name, v) :: options) (words ++ more)

/-- The names of a level's options differ, are not empty and free of the sign that goes before a
value, and none asks for help. -/
structure Level.WellNamed (l : Level) : Prop where
  distinct : (l.options.map (·.1)).Nodup
  unreserved : ∀ o ∈ l.options, '=' ∉ o.1.toList ∧ o.1 ≠ "help" ∧ o.1 ≠ ""

/-- A level has an option that can take a value. -/
def Level.Admits (l : Level) (option : String × Value) : Prop :=
  ∃ kind, l.options.lookup option.1 = some kind ∧ kind.read option.2.word = .ok option.2

namespace Reading

variable {l : Level} {r : Reading}

/-- What a reader has of a level when the pending option, if there is one, is settled. -/
structure At (l : Level) (r : Reading) (values : List (String × Value)) (key : Option String) :
    Prop where
  onlyKeys : r.onlyKeys = false
  awaits : r.awaitsValue = false
  hasKey : r.key = key
  settle : r.settle l = .ok { values, key }

variable {values : List (String × Value)} {key : Option String}

theorem at_settled (l : Level) (values : List (String × Value)) (key : Option String) :
    At l { values, key } values key := ⟨rfl, rfl, rfl, rfl⟩

/-! ## Single words -/

theorem take_long {word : String} {part : List Char} (hopen : r.onlyKeys = false)
    (hword : word.toList = '-' :: '-' :: part) (hpart : part ≠ []) :
    r.take l word = r.takeLong l part := by
  obtain ⟨c, cs, rfl⟩ := List.exists_cons_of_ne_nil hpart
  simp [take, hopen, hword]

/-- A word without a minus sign is a value or a key. -/
theorem take_of_not_dashed {word : String} (hopen : r.onlyKeys = false) (hword : ¬ Dashed word) :
    r.take l word =
      match r.pending with
      | some (name, none) => .ok { r with pending := some (name, some word) }
      | _ => r.takeKey l word := by
  unfold Dashed at hword
  unfold take
  rw [if_neg (by simp [hopen])]
  split
  · rename_i hlist
    simp [hlist] at hword
  · rename_i hlist
    simp [hlist] at hword
  · rename_i hlist
    simp [hlist] at hword
  · rfl

/-- The option that a word `--name` or `--name=value` is about. -/
theorem takeLong_eq (h : At l r values key) {name : String} (attached : Option String)
    {part : List Char} (hnamed : '=' ∉ name.toList ∧ name ≠ "help")
    (hpart : part = name.toList ++ (attached.map fun v => '=' :: v.toList).getD [])
    (hknown : l.options.lookup name ≠ none) :
    r.takeLong l part =
      match attached with
      | some value => ({ values, key } : Reading).give l name value
      | none => .ok { values, key, pending := some (name, none) } := by
  have hknown : (l.options.lookup name).isNone = false := by
    simpa [Option.isNone_iff_eq_none, Bool.eq_false_iff] using hknown
  cases attached with
  | none =>
      have hcut : Text.splitFirst ['='] part = none := by
        rw [hpart]
        exact Text.splitFirst_eq_none (by simpa using hnamed.1)
      have hname : String.ofList part = name := by simp [hpart]
      simp [takeLong, hcut, hname, hnamed.2, hknown, h.settle]
  | some value =>
      have hcut : Text.splitFirst ['='] part = some (name.toList, value.toList) := by
        rw [hpart]
        exact Text.splitFirst_of_not_mem hnamed.1 value.toList
      simp [takeLong, hcut, hnamed.2, hknown, h.settle]

/-- What giving an option adds to a reading. -/
theorem exists_of_give_eq_ok {name value : String} {r' : Reading}
    (h : r.give l name value = .ok r') :
    ∃ kind v, l.options.lookup name = some kind ∧ kind.read value = .ok v ∧
      r' = { r with values := r.values ++ [(name, v)] } := by
  unfold give at h
  split at h
  · cases h
  · split at h
    · cases h
    · rename_i kind hkind
      split at h
      · rename_i v hread
        exact ⟨kind, v, hkind, hread, (Except.ok.inj h).symm⟩
      · cases h

theorem value?_eq_none_iff {name : String} :
    r.value? name = none ↔ name ∉ r.values.map Prod.fst := by
  rw [value?, List.lookup_eq_none_iff]
  constructor
  · intro h hmem
    obtain ⟨p, hp, rfl⟩ := List.mem_map.mp hmem
    simpa using h p hp
  · intro h p hp
    simpa using fun heq => h (List.mem_map.mpr ⟨p, hp, heq.symm⟩)

/-- An option that is new gets its value. -/
theorem give_of_new {name value : String} {kind : ValueKind} {v : Value}
    (hnew : r.value? name = none) (hkind : l.options.lookup name = some kind)
    (hread : kind.read value = .ok v) :
    r.give l name value = .ok { r with values := r.values ++ [(name, v)] } := by
  simp [give, hnew, hkind, hread]

/-! ## One word after the other -/

/-- A reader goes through words that are options and values of options. -/
inductive Goes (l : Level) : Reading → List String → Reading → Prop
  | nil (r : Reading) : Goes l r [] r
  | cons {r r₁ r₂ : Reading} {word : String} {words : List String} (hopen : r.onlyKeys = false)
      (own : r.awaitsValue = true ∨ isPlain word = false) (htake : r.take l word = .ok r₁)
      (rest : Goes l r₁ words r₂) : Goes l r (word :: words) r₂

theorem Goes.append {r₁ r₂ : Reading} {words more : List String} (h : Goes l r words r₁)
    (hmore : Goes l r₁ more r₂) : Goes l r (words ++ more) r₂ := by
  induction h with
  | nil => exact hmore
  | cons hopen own htake _ ih => exact .cons hopen own htake (ih hmore)

theorem takeAll_of_goes {r' : Reading} {words : List String} (h : Goes l r words r')
    (more : List String) : r.takeAll l (words ++ more) = r'.takeAll l more := by
  induction h with
  | nil => rfl
  | cons hopen own htake _ ih => simp only [List.cons_append, takeAll, htake, ih]

end Reading

theorem not_isPlain_long (part : String) : isPlain ("--" ++ part) = false := by
  have hword : "--" ++ part ≠ "-" := by
    intro heq
    simpa using congrArg String.toList heq
  simp [isPlain, hword]

variable {l : Level} {r : Reading} {values : List (String × Value)} {key : Option String}

/-- The words of an option that is new and can be given are gone through. -/
theorem OptionWords.exists_goes (hl : l.WellNamed) {name : String} {v : Value}
    {words : List String} (h : OptionWords name v words) (hr : r.At l values key)
    (hadmits : l.Admits (name, v)) (hnew : name ∉ values.map Prod.fst) :
    ∃ r', r.Goes l words r' ∧ r'.At l (values ++ [(name, v)]) key := by
  obtain ⟨kind, hkind, hread⟩ := hadmits
  obtain ⟨hsign, hhelp, hempty⟩ : '=' ∉ name.toList ∧ name ≠ "help" ∧ name ≠ "" :=
    hl.unreserved _ ((Leases.lookup_eq_some_iff_mem hl.distinct).mp hkind)
  have hknown : l.options.lookup name ≠ none := by simp [hkind]
  have hgive : ({ values, key } : Reading).give l name v.word =
      .ok { values := values ++ [(name, v)], key } :=
    Reading.give_of_new (Reading.value?_eq_none_iff.mpr hnew) hkind hread
  cases h with
  | attached =>
      have htake : r.take l ("--" ++ name ++ "=" ++ v.word) =
          .ok { values := values ++ [(name, v)], key } := by
        have hword : ("--" ++ name ++ "=" ++ v.word).toList =
            '-' :: '-' :: (name.toList ++ '=' :: v.word.toList) := by simp
        rw [Reading.take_long hr.onlyKeys hword (by simp),
          Reading.takeLong_eq hr (some v.word) ⟨hsign, hhelp⟩ (by simp) hknown]
        exact hgive
      refine ⟨_, .cons hr.onlyKeys (.inr ?_) htake (.nil _), Reading.at_settled l _ _⟩
      simpa [String.append_assoc] using not_isPlain_long (name ++ "=" ++ v.word)
  | apart hplain =>
      have hname : r.take l ("--" ++ name) = .ok { values, key, pending := some (name, none) } := by
        have hword : ("--" ++ name).toList = '-' :: '-' :: name.toList := by simp
        rw [Reading.take_long hr.onlyKeys hword (by simpa using hempty),
          Reading.takeLong_eq hr none ⟨hsign, hhelp⟩ (by simp) hknown]
      have hvalue : Reading.take l { values, key, pending := some (name, none) } v.word =
          .ok { values, key, pending := some (name, some v.word) } := by
        rw [Reading.take_of_not_dashed rfl hplain]
      refine ⟨_, .cons hr.onlyKeys (.inr (not_isPlain_long name)) hname
        (.cons rfl (.inl rfl) hvalue (.nil _)), rfl, rfl, rfl, ?_⟩
      simpa [Reading.settle] using hgive

/-- The words of options are gone through if no two of the options have one name. -/
theorem OptionsWords.exists_goes (hl : l.WellNamed) {options : List (String × Value)}
    {words : List String} (h : OptionsWords options words) (hr : r.At l values key)
    (hadmits : ∀ o ∈ options, l.Admits o) (hnew : ((values ++ options).map Prod.fst).Nodup) :
    ∃ r', r.Goes l words r' ∧ r'.At l (values ++ options) key := by
  induction h generalizing r values with
  | nil => exact ⟨r, .nil r, by simpa using hr⟩
  | @cons name v options words more first _ ih =>
      have hfresh : name ∉ values.map Prod.fst := by
        intro hmem
        rw [List.map_append, List.nodup_append] at hnew
        exact hnew.2.2 _ hmem name (by simp) rfl
      obtain ⟨r₁, hgoes, hr₁⟩ := first.exists_goes hl hr (hadmits _ List.mem_cons_self) hfresh
      obtain ⟨r₂, hmore, hr₂⟩ := ih hr₁ (fun o ho => hadmits o (List.mem_cons_of_mem _ ho))
        (by simpa using hnew)
      exact ⟨r₂, hgoes.append hmore, by simpa using hr₂⟩

/-! ## Levels -/

/-- A key goes to the reader that still wants one. -/
theorem Reading.At.take_key (h : r.At l values none) (hkey : l.takesKey = true) {word : String}
    (hword : ¬ Dashed word) : r.take l word = .ok { values, key := some word } := by
  have hpending : r.take l word = r.takeKey l word := by
    rw [take_of_not_dashed h.onlyKeys hword]
    split
    · rename_i name hname
      have := h.awaits
      simp [awaitsValue, hname] at this
    · rfl
  rw [hpending]
  simp [takeKey, hkey, h.hasKey, h.settle, Except.map]

/-- That all further words are keys does not change how a value is given. -/
theorem Reading.give_keysOnly (l : Level) (r : Reading) (name value : String) :
    Reading.give l { r with onlyKeys := true } name value =
      (r.give l name value).map fun r => { r with onlyKeys := true } := by
  have hsame : Reading.value? { r with onlyKeys := true } name = r.value? name := rfl
  unfold give
  rw [hsame]
  by_cases hgiven : (r.value? name).isSome
  · rw [if_pos hgiven, if_pos hgiven]
    rfl
  · rw [if_neg hgiven, if_neg hgiven]
    cases l.options.lookup name with
    | none => rfl
    | some kind => cases h : kind.read value <;> simp [h, Except.map]

/-- Nor how a pending option is settled. -/
theorem Reading.settle_keysOnly (l : Level) (r : Reading) :
    Reading.settle l { r with onlyKeys := true } =
      (r.settle l).map fun r => { r with onlyKeys := true } := by
  obtain ⟨values, pending, key, onlyKeys⟩ := r
  rcases pending with _ | ⟨name, _ | value⟩
  · rfl
  · rfl
  · exact give_keysOnly l { values, key, onlyKeys } name value

/-- Behind two minus signs a word is the key, whatever it begins with. -/
theorem Reading.At.takeAll_key (h : r.At l values none) (hkey : l.takesKey = true) (word : String) :
    r.takeAll l ["--", word] = .ok { values, key := some word, onlyKeys := true } := by
  have hopen : r.take l "--" = .ok { r with onlyKeys := true } := by simp [take, h.onlyKeys]
  have hsettled : Reading.settle l { r with onlyKeys := true } =
      .ok { values, key := none, onlyKeys := true } := by
    rw [settle_keysOnly, h.settle]
    rfl
  have htake : Reading.take l { r with onlyKeys := true } word =
      .ok { values, key := some word, onlyKeys := true } := by
    rw [take, if_pos rfl, takeKey, if_pos ⟨hkey, by simp [h.hasKey]⟩, hsettled]
    rfl
  simp [takeAll, hopen, htake, Reading.settle]

/-- At the end of the words the pending option is settled. -/
theorem Reading.At.takeAll_nil (h : r.At l values key) :
    r.takeAll l [] = .ok { values, key } := h.settle

/-- The program's own options are gone through as those of their level. -/
theorem readSettings_of_goes {r' : Reading} {words : List String}
    (h : r.Goes settingsLevel words r') (rest : List String) :
    readSettings r (words ++ rest) = readSettings r' rest := by
  induction h with
  | nil => rfl
  | cons hopen own htake _ ih =>
      rw [List.cons_append, readSettings, if_neg (by simp [hopen]),
        if_pos (by simpa using own), htake]
      exact ih

/-- The name of a command ends the program's own options. -/
theorem readSettings_verb (h : r.At settingsLevel values key) (v : Verb) (rest : List String) :
    readSettings r (v.word :: rest) = .ok (r, some (v, rest)) := by
  obtain ⟨hplain, hhelp, hverb⟩ :
      isPlain v.word = true ∧ v.word ≠ helpWord ∧ Verb.ofWord? v.word = some v := by
    cases v <;> decide +kernel
  rw [readSettings, if_neg (by simp [h.onlyKeys]), if_neg (by simp [h.awaits, hplain]),
    if_neg hhelp, hverb]

end CommandLine

end KeyLease
