import KeyLease.Proofs.Program.Rendering
import KeyLease.Proofs.Config.RoundTrip

set_option autoImplicit false

/-!
# The configuration that a command line asks for

A reader settles only options of its level, with values that they can have (`Reading.Sound`). So
whatever is read of a command line, in any environment, is an invocation that could be written
(`Invocation.writable_of_read`); in particular all its numbers are below `2 ^ 64`.

An invocation that names no file asks for the configuration of its settings, one that names a file
for what the file holds. If the file holds the document of that same configuration, the two come to
the same, whatever settings are given beside the file (`Invocation.settings_and_file_agree`).
-/

namespace KeyLease

/-! ## Values that are read -/

theorem Text.lt_of_natBelow? {bound n : Nat} {cs : List Char} (h : natBelow? bound cs = some n) :
    n < bound := by
  simp only [natBelow?] at h
  split at h
  · obtain ⟨hlt, rfl⟩ : _ ∧ _ := by simpa using h
    exact hlt
  · cases h

namespace CommandLine

theorem ValueKind.inRange_of_read {kind : ValueKind} {word : String} {v : Value}
    (h : kind.read word = .ok v) : v.InRange := by
  unfold ValueKind.read at h
  split at h
  · cases h
    trivial
  · split at h
    · rename_i n hn
      cases h
      exact Text.lt_of_natBelow? hn
    · cases h
  · split at h
    · cases h
    · cases h
      trivial

/-- A value that is read can be written as a word and read again. -/
theorem ValueKind.read_word {kind : ValueKind} {word : String} {v : Value}
    (h : kind.read word = .ok v) : kind.read v.word = .ok v := by
  have hrange := inRange_of_read h
  cases kind with
  | text =>
      cases h
      rfl
  | number =>
      cases v with
      | text s => 
          simp only [read] at h
          split at h <;> cases h
      | number n => exact read_number hrange
  | path =>
      simp only [read] at h
      split at h
      · cases h
      · rename_i hpath
        cases h
        exact read_path (by simpa using hpath)

theorem Level.Admits.inRange {l : Level} {o : String × Value} (h : l.Admits o) : o.2.InRange := by
  obtain ⟨kind, -, hread⟩ := h
  exact ValueKind.inRange_of_read hread

namespace Reading

/-- A word of an option settles the one before; then it gives the option a value or leaves it
pending. -/
theorem exists_of_takeLong_eq_ok {l : Level} {r r' : Reading} {part : List Char}
    (h : r.takeLong l part = .ok r') :
    ∃ r₁, r.settle l = .ok r₁ ∧
      ((∃ name value, r₁.give l name value = .ok r') ∨
        ∃ name, r' = { r₁ with pending := some (name, none) }) := by
  rcases hcut : Text.splitFirst ['='] part with _ | ⟨name, value⟩
  all_goals
    simp only [takeLong, hcut] at h
    split at h
    · -- A word that asks for help is never taken.
      cases hsettle : r.settle l <;> simp [hsettle] at h
    split at h
    · cases h
    split at h
    · cases h
    rename_i r₁ hsettle
    refine ⟨r₁, hsettle, ?_⟩
  · exact .inr ⟨_, (Except.ok.inj h).symm⟩
  · exact .inl ⟨_, _, h⟩

/-- Everything that a reader has settled is an option of the level with a value that it can have. -/
def Sound (l : Level) (r : Reading) : Prop := ∀ o ∈ r.values, l.Admits o

namespace Sound

variable {l : Level} {r r' : Reading}

theorem empty (l : Level) : Sound l {} := by
  intro o ho
  cases ho

theorem give (h : r.Sound l) {name word : String} (hgive : r.give l name word = .ok r') :
    r'.Sound l := by
  obtain ⟨kind, v, hkind, hread, rfl⟩ := exists_of_give_eq_ok hgive
  intro o ho
  rcases List.mem_append.mp ho with ho | ho
  · exact h o ho
  · obtain rfl := List.mem_singleton.mp ho
    exact ⟨kind, hkind, ValueKind.read_word hread⟩

theorem settle (h : r.Sound l) (hsettle : r.settle l = .ok r') : r'.Sound l := by
  unfold Reading.settle at hsettle
  split at hsettle
  · cases hsettle
    exact h
  · cases hsettle
  · exact give (r := { r with pending := none }) h hsettle

theorem takeKey (h : r.Sound l) {word : String} (htake : r.takeKey l word = .ok r') :
    r'.Sound l := by
  unfold Reading.takeKey at htake
  split at htake
  · obtain ⟨r₁, hsettle, rfl⟩ := Config.exists_of_map_eq_ok htake
    have hsound : r₁.Sound l := h.settle hsettle
    exact hsound
  · cases htake

theorem takeLong (h : r.Sound l) {part : List Char} (htake : r.takeLong l part = .ok r') :
    r'.Sound l := by
  obtain ⟨r₁, hsettle, hrest⟩ := exists_of_takeLong_eq_ok htake
  rcases hrest with ⟨name, value, hgive⟩ | ⟨name, rfl⟩
  · exact (h.settle hsettle).give hgive
  · have hsound : r₁.Sound l := h.settle hsettle
    exact hsound

/-- Each word that is taken leaves the reader sound. -/
theorem take (h : r.Sound l) {word : String} (htake : r.take l word = .ok r') : r'.Sound l := by
  unfold Reading.take at htake
  split at htake
  · exact h.takeKey htake
  · split at htake
    · cases htake
      exact h
    · exact h.takeLong htake
    · unfold takeShort at htake
      split at htake
      · split at htake <;> cases htake
      · cases htake
    · split at htake
      · cases htake
        exact h
      · exact h.takeKey htake

/-- So do all words of a level. -/
theorem takeAll (h : r.Sound l) {words : List String} (htake : r.takeAll l words = .ok r') :
    r'.Sound l := by
  induction words generalizing r with
  | nil => exact h.settle htake
  | cons word words ih =>
      unfold Reading.takeAll at htake
      split at htake
      · cases htake
      · rename_i r₁ hword
        exact ih (h.take hword) htake

end Sound

end Reading

/-! ## Settings that are read -/

theorem sound_of_readSettings {words : List String} {r r' : Reading}
    {named : Option (Verb × List String)} (h : r.Sound settingsLevel)
    (hread : readSettings r words = .ok (r', named)) : r'.Sound settingsLevel := by
  induction words generalizing r with
  | nil =>
      cases hread
      exact h
  | cons word words ih =>
      unfold readSettings at hread
      split at hread
      · cases hread
      · split at hread
        · split at hread
          · cases hread
          · rename_i r₁ htake
            exact ih (h.take htake) hread
        · split at hread
          · cases hread
          · split at hread
            · cases hread
              exact h
            · cases hread

theorem sound_of_addEnvironment {env : List (String × String)} {ss : List Setting} {r r' : Reading}
    (h : r.Sound settingsLevel) (hread : addEnvironment env r ss = .ok r') :
    r'.Sound settingsLevel := by
  induction ss generalizing r with
  | nil =>
      cases hread
      exact h
  | cons s ss ih =>
      unfold addEnvironment at hread
      split at hread
      · split at hread
        · cases hread
        · rename_i r₁ hgive
          exact ih (h.give hgive) hread
      · exact ih h hread

/-- A setting can have its default. -/
theorem Setting.admits_fallback {s : Setting} (hs : s ∈ settings) {v : Value}
    (hv : s.fallback = some v) : settingsLevel.Admits (s.name, v) := by
  simp only [settings, List.mem_cons, List.not_mem_nil, or_false] at hs
  rcases hs with rfl | rfl | rfl | rfl | rfl
  · cases hv
    exact ⟨.text, rfl, rfl⟩
  · cases hv
    exact ⟨.number, rfl, ValueKind.read_number (by decide)⟩
  · cases hv
    exact ⟨.number, rfl, ValueKind.read_number (by decide)⟩
  · cases hv
    exact ⟨.number, rfl, ValueKind.read_number (by decide)⟩
  · cases hv

theorem sound_addDefaults {r : Reading} (h : r.Sound settingsLevel) :
    (addDefaults r).Sound settingsLevel := by
  intro o ho
  rcases List.mem_append.mp ho with ho | ho
  · exact h o ho
  · obtain ⟨s, hs, ho⟩ := List.mem_filterMap.mp ho
    split at ho
    · cases ho
    · obtain ⟨v, hv, rfl⟩ := Option.map_eq_some_iff.mp ho
      exact Setting.admits_fallback hs hv

/-! ## Invocations that are read -/

namespace Reading.Sound

variable {l : Level} {r : Reading}

theorem admits (h : r.Sound l) {name : String} {v : Value} (hv : r.value? name = some v) :
    l.Admits (name, v) := by
  obtain ⟨front, back, heq, -⟩ := List.lookup_eq_some_iff.mp hv
  exact h _ (by simp [heq])

theorem number_lt (h : r.Sound l) {name : String} {n : Nat} (hn : r.number? name = some n) :
    n < 0x10000000000000000 := by
  unfold number? at hn
  split at hn
  · rename_i m hvalue
    cases hn
    exact (h.admits hvalue).inRange
  · cases hn

theorem number_getD_lt (h : r.Sound l) (name : String) :
    (r.number? name).getD 0 < 0x10000000000000000 := by
  cases hn : r.number? name with
  | none => decide
  | some n => exact h.number_lt hn

theorem text_ne_empty (h : r.Sound l) {name s : String} (hname : l.options.lookup name = some .path)
    (hs : r.text? name = some s) : s ≠ "" := by
  unfold text? at hs
  split at hs
  · rename_i t hvalue
    cases hs
    obtain ⟨kind, hkind, hread⟩ := h.admits hvalue
    obtain rfl : kind = .path := Option.some.inj (hkind.symm.trans hname)
    rintro rfl
    cases hread
  · cases hs

/-- The numbers that a command has from its options are in range. -/
theorem optional_inRange (h : r.Sound l) {name : String} {o : String × Value}
    (ho : o ∈ optional name ((r.number? name).map .number)) : o.2.InRange := by
  obtain ⟨w, hw, rfl⟩ := mem_optional_iff.mp ho
  obtain ⟨n, hn, rfl⟩ := Option.map_eq_some_iff.mp hw
  exact h.number_lt hn

end Reading.Sound

theorem inRange_of_text {name : String} {s : Option String} {o : String × Value}
    (ho : o ∈ optional name (s.map .text)) : o.2.InRange := by
  obtain ⟨w, hw, rfl⟩ := mem_optional_iff.mp ho
  obtain ⟨s, -, rfl⟩ := Option.map_eq_some_iff.mp hw
  trivial

theorem Verb.inRange_of_command {v : Verb} {r : Reading} {c : Command} (h : r.Sound v.level)
    (hc : v.command r = .ok c) : ∀ o ∈ c.options, o.2.InRange := by
  unfold Verb.command at hc
  intro o ho
  split at hc
  · cases hc
    cases ho
  · cases hc
  · cases hc
    simp only [Command.options, List.mem_append] at ho
    rcases ho with (ho | ho) | ho
    · exact h.optional_inRange ho
    · exact h.optional_inRange ho
    · exact inRange_of_text ho
  · cases hc
    exact inRange_of_text ho
  · cases hc
    simp only [Command.options, List.mem_append] at ho
    rcases ho with ho | ho
    · exact h.optional_inRange ho
    · exact inRange_of_text ho
  · cases hc
    obtain rfl := List.mem_singleton.mp ho
    trivial

theorem Verb.inRange_of_read {v : Verb} {words : List String} {c : Command}
    (h : v.read words = .ok c) : ∀ o ∈ c.options, o.2.InRange := by
  unfold Verb.read at h
  split at h
  · cases h
  · rename_i r htake
    exact inRange_of_command ((Reading.Sound.empty _).takeAll htake) h

theorem invocation_writable {r : Reading} (h : r.Sound settingsLevel) {c : Command}
    (hc : ∀ o ∈ c.options, o.2.InRange) : (invocation r c).Writable := by
  have hsound := sound_addDefaults h
  constructor
  · intro o ho
    simp only [invocation, Invocation.values, List.mem_append, List.mem_cons, List.not_mem_nil,
      or_false] at ho
    rcases ho with (rfl | rfl | rfl | rfl) | ho
    · trivial
    · exact hsound.number_getD_lt _
    · exact hsound.number_getD_lt _
    · exact hsound.number_getD_lt _
    · exact inRange_of_text ho
  · exact hc
  · intro hpath
    exact hsound.text_ne_empty rfl hpath rfl

/-- What is read of a command line, in any environment, can be written. -/
theorem Invocation.writable_of_read {env : List (String × String)} {words : List String}
    {i : Invocation} (h : Invocation.read env words = .ok i) : i.Writable := by
  unfold Invocation.read at h
  split at h
  · cases h
  · rename_i r named hsettings
    split at h
    · cases h
    · rename_i command hcommand
      split at h
      · cases h
      · rename_i r' hopen
        split at h
        · rename_i c
          cases h
          obtain ⟨r₁, hsettle, hadd⟩ := Config.exists_of_bind_eq_ok hopen
          have hsound := sound_of_readSettings (Reading.Sound.empty _) hsettings
          have hread : ∃ verb rest, Verb.read verb rest = .ok c := by
            cases named with
            | none => cases hcommand
            | some named =>
                obtain ⟨c', hc', heq⟩ := Config.exists_of_map_eq_ok hcommand
                cases heq
                exact ⟨named.1, named.2, hc'⟩
          obtain ⟨verb, rest, hread⟩ := hread
          exact invocation_writable (sound_of_addEnvironment (hsound.settle hsettle) hadd)
            (Verb.inRange_of_read hread)
        · cases h

/-! ## Settings and files -/

/-- A file with the bytes of a text has that text. -/
theorem Files.text_of_toUTF8 {files : Files} {path text : String}
    (h : files path = .ok text.toUTF8) : files.text path = .ok text := by
  have htext : String.fromUTF8? text.toUTF8 = some text := by
    simp [String.fromUTF8?, String.toUTF8, String.fromUTF8, text.isValidUTF8]
  simp only [Files.text, h, htext]

/-- A configuration of durations that a document can hold is read back unchanged. -/
theorem read_write_of_inMillis {c : Config} (h : ∀ d ∈ c.durations, d.InMillis) :
    Config.read c.write = .ok c := by
  rw [Config.read_write, Config.mapDurations_eq_self_iff.mpr]
  exact fun d hd => Duration.cutToMillis_eq_self_iff.mpr (h d hd)

namespace Invocation

variable {i : Invocation} {files : Files}

theorem Writable.millis_lt (h : i.Writable) :
    i.defaultTtlMs < 0x10000000000000000 ∧ i.opTimeoutMs < 0x10000000000000000 :=
  ⟨h.settings ("default-ttl-ms", .number i.defaultTtlMs) (by simp [values]),
    h.settings ("op-timeout-ms", .number i.opTimeoutMs) (by simp [values])⟩

theorem statedConfig_of_file {path : String} {c : Config} (hpath : i.configPath = some path)
    (hfile : files path = .ok c.write.toUTF8) (hmillis : ∀ d ∈ c.durations, d.InMillis) :
    i.statedConfig files = .ok c := by
  simp [statedConfig, hpath, Files.text_of_toUTF8 hfile, read_write_of_inMillis hmillis]

/-- What is stated is then judged, and nothing else can go wrong. -/
theorem config_of_stated {c : Config} (h : i.statedConfig files = .ok c) :
    i.config files = (c.check.map fun () => c).mapError .refused := by
  simp only [config, h]
  cases c.check <;> rfl

/-- **Settings and a file agree.** An invocation without configuration file, with numbers below
`2 ^ 64` as in all that are read of command lines, asks for the configuration of its URI, its
default time to live and its limit, judged. So does every invocation that names a file with the
document of that configuration, whatever its own settings are. -/
theorem settings_and_file_agree {j : Invocation} {c : Config} {path : String} {files' : Files}
    (hrange : i.defaultTtlMs < 0x10000000000000000 ∧ i.opTimeoutMs < 0x10000000000000000 ∨
      ∃ env words, Invocation.read env words = .ok i)
    (hi : i.configPath = none)
    (hc : c = ⟨i.uri, .ofMillis i.defaultTtlMs, .ofMillis i.opTimeoutMs, none⟩)
    (hj : j.configPath = some path) (hfile : files' path = .ok c.write.toUTF8) :
    i.config files = (c.check.map fun () => c).mapError .refused ∧
      j.config files' = i.config files := by
  obtain ⟨httl, hlimit⟩ :
      i.defaultTtlMs < 0x10000000000000000 ∧ i.opTimeoutMs < 0x10000000000000000 := by
    rcases hrange with hlt | ⟨env, words, hread⟩
    · exact hlt
    · exact (writable_of_read hread).millis_lt
  have hmillis : ∀ d ∈ c.durations, d.InMillis := by
    intro d hd
    simp only [hc, Config.durations, Option.toList_none, List.append_nil, List.mem_cons,
      List.not_mem_nil, or_false] at hd
    rcases hd with rfl | rfl
    · exact ⟨_, httl, rfl⟩
    · exact ⟨_, hlimit, rfl⟩
  have hsettings : i.statedConfig files = .ok c := by simp [statedConfig, hi, flagConfig, hc]
  have hstated : j.statedConfig files' = .ok c := statedConfig_of_file hj hfile hmillis
  exact ⟨config_of_stated hsettings,
    (config_of_stated hstated).trans (config_of_stated hsettings).symm⟩

/-- Settings from an option and from the environment on one side, a file beside other settings on
the other. -/
theorem settings_and_file_agree_cache :
    let text := "\x7b\"uri\":\"redis://cache\",\"default_ttl_ms\":1500,\"op_timeout_ms\":3000\x7d"
    ∃ i j,
      Invocation.read [("LATCH_DEFAULT_TTL_MS", "1500")] ["--uri", "redis://cache", "health"] =
        .ok i ∧
      Invocation.read [("LATCH_POOL_SIZE", "0"), ("LATCH_CONFIG", "latch.json")]
        ["--uri=memory://", "--op-timeout-ms=0", "health"] = .ok j ∧
      j.config (fun _ => .ok text.toUTF8) = i.config fun _ => .error .notFound := by
  intro text
  have hread : Invocation.read [("LATCH_DEFAULT_TTL_MS", "1500")]
      ["--uri", "redis://cache", "health"] =
        .ok ⟨"redis://cache", 1500, 3000, 4, none, .health⟩ := by decide +kernel
  have htext : text = Config.write ⟨"redis://cache", .ofMillis 1500, .ofMillis 3000, none⟩ := by
    decide +kernel
  refine ⟨_, ⟨"memory://", 30000, 0, 0, some "latch.json", .health⟩, hread, by decide +kernel, ?_⟩
  exact (settings_and_file_agree (.inr ⟨_, _, hread⟩) rfl rfl rfl (by rw [htext])).2

end Invocation

end CommandLine

end KeyLease
