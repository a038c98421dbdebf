import KeyLease.Proofs.Program.Options
import Mathlib.Data.List.Perm.Subperm

set_option autoImplicit false

/-!
# Command lines that write an invocation out

The words of a command line write an invocation out if they give some of its settings, in any order,
then the name of its command, and then the command's options, in any order before or after the key;
`Invocation.WordsOf` is that. What such a line leaves open is up to the environment and the
defaults, `Invocation.Supplied`.

In whatever way a line writes an invocation out, it is read as that invocation if the environment
and the defaults supply what it leaves open, and what the environment has of the settings that the
line gives makes no difference (`Invocation.reading_inverts_writing`).
-/

namespace KeyLease.CommandLine

/-! ## Values by name -/

/-- A value that an option can have: any text, or a number below `2 ^ 64`. -/
def Value.InRange : Value → Prop
  | .text _ => True
  | .number n => n < 0x10000000000000000

/-- An option with its value, if it has one. -/
def optional (name : String) (v : Option Value) : List (String × Value) :=
  (v.map fun v => (name, v)).toList

@[simp] theorem lookup_optional_append (name other : String) (v : Option Value)
    (rest : List (String × Value)) :
    (optional name v ++ rest).lookup other =
      if other = name then v.or (rest.lookup other) else rest.lookup other := by
  cases v with
  | none => simp [optional]
  | some v =>
      by_cases h : other = name
      · simp [optional, h]
      · have hbeq : (other == name) = false := by simpa using h
        simp [optional, List.lookup_cons, h, hbeq]

@[simp] theorem lookup_optional (name other : String) (v : Option Value) :
    (optional name v).lookup other = if other = name then v else none := by
  simpa using lookup_optional_append name other v []

theorem mem_optional_iff {name : String} {v : Option Value} {o : String × Value} :
    o ∈ optional name v ↔ ∃ w, v = some w ∧ o = (name, w) := by
  cases v <;> simp [optional]

theorem optional_names_sublist (name : String) (v : Option Value) :
    ((optional name v).map Prod.fst).Sublist [name] := by
  cases v <;> simp [optional]

theorem admits_number {l : Level} {name : String} (hl : l.options.lookup name = some .number)
    {n : Option Nat} {o : String × Value} (ho : o ∈ optional name (n.map .number))
    (hrange : o.2.InRange) : l.Admits o := by
  obtain ⟨w, hw, rfl⟩ := mem_optional_iff.mp ho
  obtain ⟨n, -, rfl⟩ := Option.map_eq_some_iff.mp hw
  exact ⟨.number, hl, ValueKind.read_number hrange⟩

theorem admits_text {l : Level} {name : String} (hl : l.options.lookup name = some .text)
    {s : Option String} {o : String × Value} (ho : o ∈ optional name (s.map .text)) :
    l.Admits o := by
  obtain ⟨w, hw, rfl⟩ := mem_optional_iff.mp ho
  obtain ⟨s, -, rfl⟩ := Option.map_eq_some_iff.mp hw
  exact ⟨.text, hl, ValueKind.read_text s⟩

/-- The order of options with different names does not matter. -/
theorem lookup_eq_of_perm {options options' : List (String × Value)} (h : options.Perm options')
    (hdistinct : (options'.map Prod.fst).Nodup) (name : String) :
    options.lookup name = options'.lookup name := by
  have hdistinct' : (options.map Prod.fst).Nodup := (h.map Prod.fst).nodup_iff.mpr hdistinct
  apply Option.ext
  intro v
  rw [Leases.lookup_eq_some_iff_mem hdistinct', Leases.lookup_eq_some_iff_mem hdistinct, h.mem_iff]

theorem Reading.number?_eq {r : Reading} {name : String} {n : Option Nat}
    (h : r.value? name = n.map .number) : r.number? name = n := by
  cases n <;> simp [number?, h]

theorem Reading.text?_eq {r : Reading} {name : String} {s : Option String}
    (h : r.value? name = s.map .text) : r.text? name = s := by
  cases s <;> simp [text?, h]

/-! ## Commands -/

namespace Command

/-- The verb of a command. -/
def verb : Command → Verb
  | .lock .. => .lock
  | .unlock .. => .unlock
  | .validate .. => .validate
  | .exists .. => .exists
  | .health => .health

/-- The name of a command. -/
def word : Command → String
  | .lock .. => "lock"
  | .unlock .. => "unlock"
  | .validate .. => "validate"
  | .exists .. => "exists"
  | .health => "health"

theorem verb_word (c : Command) : c.verb.word = c.word := by
  cases c <;> rfl

/-- The key that a command is about. -/
def key? : Command → Option String
  | .lock key .. | .unlock key _ | .validate key .. | .exists key _ => some key
  | .health => none

/-- The options of a command with their values. -/
def options : Command → List (String × Value)
  | .lock _ ttlMs holdMs ns =>
      optional "ttl-ms" (ttlMs.map .number) ++ optional "hold-ms" (holdMs.map .number) ++
        optional "namespace" (ns.map .text)
  | .unlock _ ns => optional "namespace" (ns.map .text)
  | .validate _ ttlMs ns =>
      optional "ttl-ms" (ttlMs.map .number) ++ optional "namespace" (ns.map .text)
  | .exists _ ns => [("namespace", .text ns)]
  | .health => []

/-- The options that are written of a command: all that it has, in any order. The namespace of the
locks, which is the default of `exists`, may be left out. -/
inductive Written : Command → List (String × Value) → Prop
  | all {c : Command} {given : List (String × Value)} (h : given.Perm c.options) : Written c given
  | default (key : String) : Written (.exists key "dlm") []

/-- The words of a command behind its name. A key that begins with a minus sign comes last, behind
two of them. -/
inductive WordsOf (c : Command) : List String → Prop
  | bare {key : String} {before behind : List (String × Value)} {words more : List String}
      (hkey : c.key? = some key) (hplain : ¬ Dashed key) (hgiven : c.Written (before ++ behind))
      (front : OptionsWords before words) (back : OptionsWords behind more) :
      WordsOf c (words ++ key :: more)
  | last {key : String} {given : List (String × Value)} {words : List String}
      (hkey : c.key? = some key) (hgiven : c.Written given) (front : OptionsWords given words) :
      WordsOf c (words ++ ["--", key])
  | keyless {given : List (String × Value)} {words : List String}
      (hkey : c.key? = none) (hgiven : c.Written given) (front : OptionsWords given words) :
      WordsOf c words

end Command

theorem Verb.wellNamed (v : Verb) : v.level.WellNamed := by
  cases v <;> exact ⟨by decide +kernel, by decide +kernel⟩

namespace Command

variable {c : Command}

/-- A command has only options of its level, each at most once. -/
theorem names_sublist (c : Command) :
    (c.options.map Prod.fst).Sublist (c.verb.level.options.map Prod.fst) := by
  have hoptional := optional_names_sublist
  cases c with
  | lock key ttlMs holdMs ns =>
      simpa [options, verb, Verb.level] using
        ((hoptional _ _).append (hoptional _ _)).append (hoptional _ _)
  | unlock key ns => exact hoptional _ _
  | validate key ttlMs ns =>
      simpa [options, verb, Verb.level] using (hoptional _ _).append (hoptional _ _)
  | «exists» key ns => exact List.Sublist.refl _
  | health => exact List.Sublist.refl _

theorem distinct (c : Command) : (c.options.map Prod.fst).Nodup :=
  c.verb.wellNamed.distinct.sublist c.names_sublist

/-- The level of a command has its options, and they can have their values. -/
theorem admits (hc : ∀ o ∈ c.options, o.2.InRange) : ∀ o ∈ c.options, c.verb.level.Admits o := by
  intro o ho
  have hrange := hc o ho
  cases c with
  | lock key ttlMs holdMs ns =>
      simp only [options, List.mem_append] at ho
      rcases ho with (ho | ho) | ho
      · exact admits_number rfl ho hrange
      · exact admits_number rfl ho hrange
      · exact admits_text rfl ho
  | unlock key ns => exact admits_text rfl ho
  | validate key ttlMs ns =>
      simp only [options, List.mem_append] at ho
      rcases ho with ho | ho
      · exact admits_number rfl ho hrange
      · exact admits_text rfl ho
  | «exists» key ns =>
      obtain rfl := List.mem_singleton.mp ho
      exact ⟨.text, rfl, rfl⟩
  | health => cases ho

end Command

/-- From the options of a command and its key the command is made, whatever the order. -/
theorem Verb.command_of_written {c : Command} {given : List (String × Value)} {r : Reading}
    (h : c.Written given) (hvalues : r.values = given) (hkey : r.key = c.key?) :
    c.verb.command r = .ok c := by
  cases h with
  | all h =>
      have hvalue (name : String) : r.value? name = c.options.lookup name := by
        rw [Reading.value?, hvalues]
        exact lookup_eq_of_perm h c.distinct name
      have hnumber (name : String) {n : Option Nat} (h : c.options.lookup name = n.map .number) :
          r.number? name = n := Reading.number?_eq ((hvalue name).trans h)
      have htext (name : String) {s : Option String} (h : c.options.lookup name = s.map .text) :
          r.text? name = s := Reading.text?_eq ((hvalue name).trans h)
      cases c with
      | lock key ttlMs holdMs ns =>
          have httl : r.number? "ttl-ms" = ttlMs := hnumber _ (by simp [Command.options])
          have hhold : r.number? "hold-ms" = holdMs := hnumber _ (by simp [Command.options])
          have hns : r.text? "namespace" = ns := htext _ (by simp [Command.options])
          simp [command, hkey, Command.key?, Command.verb, httl, hhold, hns]
      | unlock key ns =>
          have hns : r.text? "namespace" = ns := htext _ (by simp [Command.options])
          simp [command, hkey, Command.key?, Command.verb, hns]
      | validate key ttlMs ns =>
          have httl : r.number? "ttl-ms" = ttlMs := hnumber _ (by simp [Command.options])
          have hns : r.text? "namespace" = ns := htext _ (by simp [Command.options])
          simp [command, hkey, Command.key?, Command.verb, httl, hns]
      | «exists» key ns =>
          have hns : r.text? "namespace" = some ns := htext _ (by simp [Command.options])
          simp [command, hkey, Command.key?, Command.verb, hns]
      | health => simp [command, Command.verb]
  | default key =>
      simp [command, Command.verb, hkey, Command.key?, Reading.text?, Reading.value?, hvalues,
        Namespace.locks]

theorem Command.takesKey_of_key? {c : Command} {key : String} (h : c.key? = some key) :
    c.verb.level.takesKey = true := by
  cases c with
  | health => cases h
  | _ => rfl

/-- The options that are written of a command have different names and can be given. -/
theorem Command.Written.sound {c : Command} {given : List (String × Value)} (h : c.Written given)
    (hc : ∀ o ∈ c.options, o.2.InRange) :
    (∀ o ∈ given, c.verb.level.Admits o) ∧ (given.map Prod.fst).Nodup := by
  cases h with
  | all h => exact ⟨fun o ho => c.admits hc o (h.mem_iff.mp ho), (h.map _).nodup_iff.mpr c.distinct⟩
  | default key => exact ⟨by simp, by simp⟩

/-- Words of a command leave a reader with the options that they give and the key. -/
theorem Command.WordsOf.exists_takeAll {c : Command} {words : List String} (h : c.WordsOf words)
    (hc : ∀ o ∈ c.options, o.2.InRange) :
    ∃ r, Reading.takeAll c.verb.level {} words = .ok r ∧ c.Written r.values ∧ r.key = c.key? := by
  have hstart : Reading.At c.verb.level {} [] none := Reading.at_settled _ _ _
  cases h with
  | @bare key before behind words more hkey hplain hgiven front back =>
      obtain ⟨hadmits, hdistinct⟩ := hgiven.sound hc
      obtain ⟨r₁, hfront, hr₁⟩ := front.exists_goes c.verb.wellNamed hstart
        (fun o ho => hadmits o (List.mem_append_left _ ho))
        (by simpa using (List.nodup_append.mp (by simpa using hdistinct)).1)
      obtain ⟨r₂, hback, hr₂⟩ := back.exists_goes c.verb.wellNamed
        (Reading.at_settled _ before (some key))
        (fun o ho => hadmits o (List.mem_append_right _ ho)) hdistinct
      have hread : Reading.takeAll c.verb.level {} (words ++ key :: more) =
          .ok { values := before ++ behind, key := some key } := by
        rw [Reading.takeAll_of_goes hfront, Reading.takeAll,
          hr₁.take_key (c.takesKey_of_key? hkey) hplain]
        simpa using (Reading.takeAll_of_goes hback []).trans hr₂.takeAll_nil
      exact ⟨_, hread, hgiven, hkey.symm⟩
  | @last key given words hkey hgiven front =>
      obtain ⟨hadmits, hdistinct⟩ := hgiven.sound hc
      obtain ⟨r, hfront, hr⟩ := front.exists_goes c.verb.wellNamed hstart hadmits hdistinct
      have hread : Reading.takeAll c.verb.level {} (words ++ ["--", key]) =
          .ok { values := given, key := some key, onlyKeys := true } := by
        rw [Reading.takeAll_of_goes hfront, hr.takeAll_key (c.takesKey_of_key? hkey)]
        rfl
      exact ⟨_, hread, hgiven, hkey.symm⟩
  | @keyless given words hkey hgiven front =>
      obtain ⟨hadmits, hdistinct⟩ := hgiven.sound hc
      obtain ⟨r, hfront, hr⟩ := front.exists_goes c.verb.wellNamed hstart hadmits hdistinct
      have hread : Reading.takeAll c.verb.level {} words = .ok { values := given } := by
        simpa using (Reading.takeAll_of_goes hfront []).trans hr.takeAll_nil
      exact ⟨_, hread, hgiven, hkey.symm⟩

/-- A command is read from its words. -/
theorem Verb.read_of_wordsOf {c : Command} {words : List String}
    (hc : ∀ o ∈ c.options, o.2.InRange) (h : c.WordsOf words) : c.verb.read words = .ok c := by
  obtain ⟨r, hread, hgiven, hkey⟩ := h.exists_takeAll hc
  rw [Verb.read, hread]
  exact command_of_written hgiven rfl hkey

/-! ## Settings -/

/-- The settings of an invocation with their values. -/
def Invocation.values (i : Invocation) : List (String × Value) :=
  [("uri", .text i.uri), ("default-ttl-ms", .number i.defaultTtlMs),
    ("op-timeout-ms", .number i.opTimeoutMs), ("pool-size", .number i.poolSize)] ++
    optional "config" (i.configPath.map .text)

/-- An invocation can be written: its numbers are below `2 ^ 64`, and the path of its configuration
file is not empty. -/
structure Invocation.Writable (i : Invocation) : Prop where
  settings : ∀ o ∈ i.values, o.2.InRange
  options : ∀ o ∈ i.command.options, o.2.InRange
  path : i.configPath ≠ some ""

/-- The words of a command line that write an invocation out and give some of its settings. -/
inductive Invocation.WordsOf (i : Invocation) (given : List (String × Value)) : List String → Prop
  | mk {words more : List String} (hgiven : given.Subperm i.values)
      (front : OptionsWords given words) (back : i.command.WordsOf more) :
      WordsOf i given (words ++ i.command.word :: more)

/-- The names of the settings that an invocation has. -/
def settingNames : List String :=
  ["uri", "default-ttl-ms", "op-timeout-ms", "pool-size", "config"]

/-- The variable of the environment for a setting: its name in capitals with underscores. -/
def envVariable (name : String) : String :=
  "LATCH_" ++ String.ofList (name.toList.map fun c => if c = '-' then '_' else c.toUpper)

/-- The value of a setting that nothing gives. -/
def defaultValue? (name : String) : Option Value :=
  [("uri", .text "memory://"), ("default-ttl-ms", .number 30000), ("op-timeout-ms", .number 3000),
    ("pool-size", .number 4)].lookup name

/-- What gives an invocation a setting that the line leaves open. -/
inductive Invocation.Supplied (env : List (String × String)) (i : Invocation) (name : String) : Prop
  | environment {v : Value} (hvalue : i.values.lookup name = some v)
      (henv : env.lookup (envVariable name) = some v.word)
  | default (henv : env.lookup (envVariable name) = none)
      (hvalue : i.values.lookup name = defaultValue? name)

theorem settingsLevel_wellNamed : settingsLevel.WellNamed :=
  ⟨by decide +kernel, by decide +kernel⟩

theorem settings_distinct : (settings.map (·.name)).Nodup := by
  simpa [settingsLevel, Function.comp_def] using settingsLevel_wellNamed.distinct

/-- The program has these settings, with these variables and defaults. -/
theorem Setting.mem_names {s : Setting} (hs : s ∈ settings) :
    s.name ∈ settingNames ∧ s.envName = envVariable s.name ∧ s.fallback = defaultValue? s.name := by
  have hall : ∀ s ∈ settings, s.name ∈ settingNames ∧ s.envName = envVariable s.name ∧
      s.fallback = defaultValue? s.name := by decide +kernel
  exact hall s hs

namespace Invocation

variable {i : Invocation}

theorem names_sublist (i : Invocation) :
    (i.values.map Prod.fst).Sublist (settingsLevel.options.map Prod.fst) := by
  have hconfig := optional_names_sublist "config" (i.configPath.map .text)
  simpa [values, settingsLevel, settings] using hconfig

theorem distinct (i : Invocation) : (i.values.map Prod.fst).Nodup :=
  settingsLevel_wellNamed.distinct.sublist i.names_sublist

theorem distinct_of_subperm {given : List (String × Value)} (h : given.Subperm i.values) :
    (given.map Prod.fst).Nodup := by
  obtain ⟨kept, hperm, hsub⟩ := h
  exact (hperm.map _).nodup_iff.mp ((hsub.map _).nodup i.distinct)

/-- The program has the settings of an invocation as options, and they can have their values. -/
theorem Writable.admits (hi : i.Writable) : ∀ o ∈ i.values, settingsLevel.Admits o := by
  intro o ho
  have hrange := hi.settings o ho
  simp only [values, List.mem_append, List.mem_cons, List.not_mem_nil, or_false] at ho
  rcases ho with (rfl | rfl | rfl | rfl) | ho
  · exact ⟨.text, rfl, rfl⟩
  · exact ⟨.number, rfl, ValueKind.read_number hrange⟩
  · exact ⟨.number, rfl, ValueKind.read_number hrange⟩
  · exact ⟨.number, rfl, ValueKind.read_number hrange⟩
  · obtain ⟨w, hw, rfl⟩ := mem_optional_iff.mp ho
    obtain ⟨path, hpath, rfl⟩ := Option.map_eq_some_iff.mp hw
    have hne : path ≠ "" := fun heq => hi.path (by rw [hpath, heq])
    exact ⟨.path, rfl, ValueKind.read_path hne⟩

theorem WordsOf.subperm {given : List (String × Value)} {words : List String}
    (h : i.WordsOf given words) : given.Subperm i.values := by
  cases h with
  | mk hgiven => exact hgiven

/-- The settings of a line are read up to the name of its command. -/
theorem WordsOf.exists_readSettings {given : List (String × Value)} {words : List String}
    (h : i.WordsOf given words) (hi : i.Writable) :
    ∃ r rest, readSettings {} words = .ok (r, some (i.command.verb, rest)) ∧
      i.command.WordsOf rest ∧ r.At settingsLevel given none := by
  obtain ⟨hgiven, front, back⟩ := h
  have hdistinct := distinct_of_subperm hgiven
  have hadmits : ∀ o ∈ given, settingsLevel.Admits o := fun o ho => hi.admits o (hgiven.subset ho)
  obtain ⟨r, hgoes, hr⟩ := front.exists_goes settingsLevel_wellNamed
    (Reading.at_settled settingsLevel [] none) hadmits hdistinct
  refine ⟨r, _, ?_, back, hr⟩
  rw [readSettings_of_goes hgoes, ← Command.verb_word]
  exact readSettings_verb hr _ _

/-- What a line leaves open is filled in behind what it gives. -/
theorem WordsOf.read_eq {given : List (String × Value)} {words : List String}
    (h : i.WordsOf given words) (hi : i.Writable) (env : List (String × String)) :
    Invocation.read env words =
      (addEnvironment env { values := given } settings).map (invocation · i.command) := by
  obtain ⟨r, rest, hread, hwords, hr⟩ := h.exists_readSettings hi
  have hcommand := Verb.read_of_wordsOf hi.options hwords
  simp only [Invocation.read, hread, Option.mapM_some, hcommand, hr.settle, Except.bind]
  cases addEnvironment env { values := given } settings <;> rfl

end Invocation

/-! ## What a line leaves open -/

namespace Reading

variable {r : Reading}

theorem value?_add_of_ne {name other : String} (h : other ≠ name) (v : Value) :
    value? { r with values := r.values ++ [(name, v)] } other = r.value? other := by
  have hbeq : (other == name) = false := by simpa using h
  simp [value?, List.lookup_append, List.lookup_cons, hbeq]

theorem value?_add_self {name : String} (h : r.value? name = none) (v : Value) :
    value? { r with values := r.values ++ [(name, v)] } name = some v := by
  unfold value? at h
  simp [value?, List.lookup_append, h]

theorem value?_eq_none_of_add {name other : String} {v : Value}
    (h : value? { r with values := r.values ++ [(name, v)] } other = none) :
    r.value? other = none := by
  simp only [value?, List.lookup_append, Option.or_eq_none_iff] at h
  exact h.1

/-- The value of a setting: the one that was read, or the default. -/
def setting? (r : Reading) (s : Setting) : Option Value := (r.value? s.name).or s.fallback

/-- Values of settings with different names are found by name. -/
theorem lookup_filterMap {ss : List Setting} (hdistinct : (ss.map (·.name)).Nodup)
    (value : Setting → Option Value) {s : Setting} (hs : s ∈ ss) :
    (ss.filterMap fun s => (value s).map fun v => (s.name, v)).lookup s.name = value s := by
  induction ss with
  | nil => cases hs
  | cons t ss ih =>
      obtain ⟨hnot, hrest⟩ := List.nodup_cons.mp hdistinct
      rcases List.mem_cons.mp hs with rfl | hs
      · cases hvalue : value s with
        | some v => simp [hvalue]
        | none =>
            rw [List.filterMap_cons_none (by simp [hvalue]), List.lookup_eq_none_iff]
            rintro p hp
            obtain ⟨t, ht, hp⟩ := List.mem_filterMap.mp hp
            obtain ⟨v, -, rfl⟩ := Option.map_eq_some_iff.mp hp
            simpa using fun heq : s.name = t.name => hnot (List.mem_map.mpr ⟨t, ht, heq.symm⟩)
      · have hbeq : (s.name == t.name) = false := by
          simpa using fun heq : s.name = t.name => hnot (List.mem_map.mpr ⟨s, hs, heq⟩)
        cases hvalue : value t with
        | some v => simpa [hvalue, List.lookup_cons, hbeq] using ih hrest hs
        | none => simpa [hvalue] using ih hrest hs

theorem value?_addDefaults {s : Setting} (hs : s ∈ settings) :
    (addDefaults r).value? s.name = r.setting? s := by
  have hdefaults := lookup_filterMap settings_distinct
    (fun s => if (r.value? s.name).isSome then none else s.fallback) hs
  simp only [apply_ite (Option.map _), Option.map_none] at hdefaults
  have happend : (addDefaults r).value? s.name = (r.value? s.name).or
      (if (r.value? s.name).isSome then none else s.fallback) := by
    rw [← hdefaults]
    exact List.lookup_append
  cases h : r.value? s.name <;> simp [happend, setting?, h]

end Reading

/-- The environment and the defaults complete what a line gives of an invocation. -/
theorem exists_addEnvironment {env : List (String × String)} {i : Invocation} (hi : i.Writable)
    {ss : List Setting} (hss : ss ⊆ settings) (hdistinct : (ss.map (·.name)).Nodup) {r : Reading}
    (h : ∀ s ∈ ss, (∃ v, i.values.lookup s.name = some v ∧ r.value? s.name = some v) ∨
      (r.value? s.name = none ∧ i.Supplied env s.name)) :
    ∃ r', addEnvironment env r ss = .ok r' ∧
      (∀ name ∉ ss.map (·.name), r'.value? name = r.value? name) ∧
      ∀ s ∈ ss, r'.setting? s = i.values.lookup s.name := by
  induction ss generalizing r with
  | nil => exact ⟨r, rfl, fun _ _ => rfl, by simp⟩
  | cons s ss ih =>
      obtain ⟨hnot, hrest⟩ := List.nodup_cons.mp hdistinct
      obtain ⟨-, hvariable, hdefault⟩ := Setting.mem_names (hss List.mem_cons_self)
      -- In each case one reading `r₁` goes on to the other settings.
      obtain ⟨r₁, hstep, hothers, hown⟩ : ∃ r₁,
          addEnvironment env r (s :: ss) = addEnvironment env r₁ ss ∧
          (∀ name ≠ s.name, r₁.value? name = r.value? name) ∧
          r₁.setting? s = i.values.lookup s.name := by
        rcases h s List.mem_cons_self with ⟨v, hv, hread⟩ | ⟨hnone, hsupplied⟩
        · exact ⟨r, by simp [addEnvironment, hread], fun _ _ => rfl,
            by simp [Reading.setting?, hread, hv]⟩
        · cases hsupplied with
          | @environment v hv henv =>
              obtain ⟨kind, hkind, hkindRead⟩ :=
                hi.admits _ ((Leases.lookup_eq_some_iff_mem i.distinct).mp hv)
              refine ⟨{ r with values := r.values ++ [(s.name, v)] }, ?_,
                fun name hne => Reading.value?_add_of_ne hne v, ?_⟩
              · rw [← hvariable] at henv
                simp [addEnvironment, hnone, henv, Reading.give_of_new hnone hkind hkindRead]
              · simp [Reading.setting?, Reading.value?_add_self hnone, hv]
          | default henv hv =>
              rw [← hvariable] at henv
              exact ⟨r, by simp [addEnvironment, hnone, henv], fun _ _ => rfl,
                by simp [Reading.setting?, hnone, hdefault, hv]⟩
      have hne : ∀ t ∈ ss, t.name ≠ s.name :=
        fun t ht heq => hnot (List.mem_map.mpr ⟨t, ht, heq⟩)
      have hopen : ∀ t ∈ ss, (∃ v, i.values.lookup t.name = some v ∧ r₁.value? t.name = some v) ∨
          (r₁.value? t.name = none ∧ i.Supplied env t.name) := by
        intro t ht
        rw [hothers _ (hne t ht)]
        exact h t (List.mem_cons_of_mem _ ht)
      obtain ⟨r', hread, hkept, hvalues⟩ := ih (List.subset_of_cons_subset hss) hrest hopen
      refine ⟨r', hstep.trans hread, ?_, ?_⟩
      · intro name hname
        obtain ⟨hname, hnames⟩ := not_or.mp (mt List.mem_cons.mpr hname)
        exact (hkept name hnames).trans (hothers name hname)
      · intro t ht
        rcases List.mem_cons.mp ht with rfl | ht
        · rw [Reading.setting?, hkept _ hnot]
          exact hown
        · exact hvalues t ht

/-- The environment counts only for settings that a line does not give. -/
theorem addEnvironment_congr {env env' : List (String × String)} {ss : List Setting} {r : Reading}
    (h : ∀ s ∈ ss, r.value? s.name = none → env.lookup s.envName = env'.lookup s.envName) :
    addEnvironment env r ss = addEnvironment env' r ss := by
  induction ss generalizing r with
  | nil => rfl
  | cons s ss ih =>
      have hrest := fun t ht => h t (List.mem_cons_of_mem s ht)
      cases hvalue : r.value? s.name with
      | some v => simpa [addEnvironment, hvalue] using ih hrest
      | none =>
          have hsame := h s List.mem_cons_self hvalue
          cases henv : env'.lookup s.envName with
          | none => simpa [addEnvironment, hvalue, hsame, henv] using ih hrest
          | some value =>
              cases hgive : r.give settingsLevel s.name value with
              | error e => simp [addEnvironment, hvalue, hsame, henv, hgive]
              | ok r' =>
                  obtain ⟨kind, v, -, -, rfl⟩ := Reading.exists_of_give_eq_ok hgive
                  simpa [addEnvironment, hvalue, hsame, henv, hgive] using
                    ih fun t ht hnone => hrest t ht (Reading.value?_eq_none_of_add hnone)

/-- An invocation is made of its settings. -/
theorem invocation_eq {r : Reading} {i : Invocation}
    (h : ∀ s ∈ settings, r.setting? s = i.values.lookup s.name) :
    invocation r i.command = i := by
  have hvalue (name : String) (hname : name ∈ settings.map (·.name)) :
      (addDefaults r).value? name = i.values.lookup name := by
    obtain ⟨s, hs, rfl⟩ := List.mem_map.mp hname
    exact (Reading.value?_addDefaults hs).trans (h s hs)
  have hnumber (name : String) {n : Nat} (hname : name ∈ settings.map (·.name))
      (h : i.values.lookup name = some (.number n)) : (addDefaults r).number? name = some n :=
    Reading.number?_eq ((hvalue name hname).trans h)
  have htext (name : String) {s : Option String} (hname : name ∈ settings.map (·.name))
      (h : i.values.lookup name = s.map .text) : (addDefaults r).text? name = s :=
    Reading.text?_eq ((hvalue name hname).trans h)
  have huri : (addDefaults r).text? "uri" = some i.uri := htext _ (by decide) rfl
  have httl : (addDefaults r).number? "default-ttl-ms" = some i.defaultTtlMs :=
    hnumber _ (by decide) rfl
  have hlimit : (addDefaults r).number? "op-timeout-ms" = some i.opTimeoutMs :=
    hnumber _ (by decide) rfl
  have hpool : (addDefaults r).number? "pool-size" = some i.poolSize := hnumber _ (by decide) rfl
  have hconfig : (addDefaults r).text? "config" = i.configPath :=
    htext _ (by decide) (by simp [Invocation.values, List.lookup_cons])
  simp [invocation, huri, httl, hlimit, hpool, hconfig]

/-- **Reading inverts writing.** However a command line writes an invocation out, it is read as that
invocation if the environment and the defaults have the settings that it leaves open, and the
environment counts for no others. -/
theorem Invocation.reading_inverts_writing {i : Invocation} (hi : i.Writable)
    {given : List (String × Value)} {words : List String} (h : i.WordsOf given words) :
    (∀ env, (∀ name ∈ settingNames, name ∉ given.map Prod.fst → i.Supplied env name) →
        Invocation.read env words = .ok i) ∧
      ∀ env env', (∀ name ∈ settingNames, name ∉ given.map Prod.fst →
          env.lookup (envVariable name) = env'.lookup (envVariable name)) →
        Invocation.read env words = Invocation.read env' words := by
  have hread := h.read_eq hi
  constructor
  · intro env hsupplied
    let r₀ : Reading := { values := given }
    have hstart (s : Setting) (hs : s ∈ settings) :
        (∃ v, i.values.lookup s.name = some v ∧ r₀.value? s.name = some v) ∨
          (r₀.value? s.name = none ∧ i.Supplied env s.name) := by
      by_cases hname : s.name ∈ given.map Prod.fst
      · obtain ⟨⟨name, v⟩, ho, rfl⟩ := List.mem_map.mp hname
        have hvalue : i.values.lookup s.name = some v :=
          (Leases.lookup_eq_some_iff_mem i.distinct).mpr (h.subperm.subset ho)
        have hread : given.lookup s.name = some v :=
          (Leases.lookup_eq_some_iff_mem (distinct_of_subperm h.subperm)).mpr ho
        exact .inl ⟨v, hvalue, hread⟩
      · have hlisted := (Setting.mem_names hs).1
        exact .inr ⟨Reading.value?_eq_none_iff.mpr hname, hsupplied _ hlisted hname⟩
    obtain ⟨r, hr, -, hvalues⟩ :=
      exists_addEnvironment hi (List.Subset.refl _) settings_distinct hstart
    rw [hread, hr, Except.map, invocation_eq hvalues]
  · intro env env' hsame
    rw [hread, hread, addEnvironment_congr]
    intro s hs hnone
    obtain ⟨hlisted, hvariable, -⟩ := Setting.mem_names hs
    rw [hvariable]
    exact hsame _ hlisted (Reading.value?_eq_none_iff.mp hnone)

/-- A line that gives two settings before a lock of a key that begins with a minus sign; the size of
the pool is in the environment, and so is another store, which does not count. -/
theorem Invocation.reading_inverts_writing_nightly :
    Invocation.read [("LATCH_POOL_SIZE", "16"), ("LATCH_URI", "ftp://elsewhere")]
        ["--default-ttl-ms", "500", "--uri=redis://cache:6379/1", "lock", "--namespace=nightly",
          "--ttl-ms", "250", "--", "-job"] =
      .ok ⟨"redis://cache:6379/1", 500, 3000, 16, none,
        .lock "-job" (some 250) none (some "nightly")⟩ := by
  have hfront : OptionsWords
      [("default-ttl-ms", .number 500), ("uri", .text "redis://cache:6379/1")] _ :=
    .cons (.apart (not_dashed_number _)) (.cons .attached .nil)
  have hoptions : OptionsWords [("namespace", .text "nightly"), ("ttl-ms", .number 250)] _ :=
    .cons .attached (.cons (.apart (not_dashed_number _)) .nil)
  have hcommand : (Command.lock "-job" (some 250) none (some "nightly")).WordsOf _ :=
    .last rfl (.all (.swap _ _ _)) hoptions
  have hwords : Invocation.WordsOf ⟨"redis://cache:6379/1", 500, 3000, 16, none,
      .lock "-job" (some 250) none (some "nightly")⟩ _ _ := .mk (by decide +kernel) hfront hcommand
  have hwritable : Invocation.Writable ⟨"redis://cache:6379/1", 500, 3000, 16, none,
      .lock "-job" (some 250) none (some "nightly")⟩ := by
    constructor
    · simp [Invocation.values, optional, Value.InRange]
    · simp [Command.options, optional, Value.InRange]
    · simp
  refine (Invocation.reading_inverts_writing hwritable hwords).1 _ ?_
  intro name hname hopen
  simp only [settingNames, List.mem_cons, List.not_mem_nil, or_false] at hname
  rcases hname with rfl | rfl | rfl | rfl | rfl
  · exact absurd (by decide) hopen
  · exact absurd (by decide) hopen
  · exact .default (by decide +kernel) rfl
  · exact .environment rfl (by decide +kernel)
  · exact .default (by decide +kernel) rfl

end KeyLease.CommandLine
