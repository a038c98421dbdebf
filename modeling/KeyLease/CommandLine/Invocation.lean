import KeyLease.CommandLine.Level
import KeyLease.CommandLine.Files
import KeyLease.Config.Document
import KeyLease.Key
import KeyLease.Redis.Store

set_option autoImplicit false

/-!
# Invocations

What a command line says: the settings of the store and one command. `Invocation.read` reads it from
the words of the line and the environment. A setting that the line gives wins over the environment,
and that over the default; what the environment says of a setting that the line gives is not even
looked at.

`Invocation.config` is the configuration that an invocation asks for: that of its configuration
file, if it names one, or else that of its settings, and in either case judged.
-/

namespace KeyLease.CommandLine

/-- One command. -/
inductive Command
  /-- Takes a lock, and gives it back after `holdMs` if that is given. -/
  | lock (key : String) (ttlMs holdMs : Option Nat) (ns : Option String)
  /-- Gives a lock back. -/
  | unlock (key : String) (ns : Option String)
  /-- Admits a key. -/
  | validate (key : String) (ttlMs : Option Nat) (ns : Option String)
  /-- Looks whether a key of a namespace is held. -/
  | exists (key : String) (ns : String)
  /-- Asks both questions about the store's health. -/
  | health
  deriving DecidableEq, Repr

/-- Whether a command listens for an interrupt itself: one that holds a lock gives it back. -/
def Command.handlesInterrupt : Command → Bool
  | .lock _ _ (some _) _ => true
  | _ => false

/-- What a command line says. -/
structure Invocation where
  uri : String
  defaultTtlMs : Nat
  opTimeoutMs : Nat
  poolSize : Nat
  configPath : Option String
  command : Command
  deriving DecidableEq, Repr

/-! ## The grammar -/

/-- A setting of the program: its option, the variable of the environment that gives it too, and its
default. -/
structure Setting where
  name : String
  kind : ValueKind
  envName : String
  fallback : Option Value
  deriving DecidableEq, Repr

/-- The settings of the program, in the order in which the environment is looked at. -/
def settings : List Setting :=
  [⟨"uri", .text, "LATCH_URI", some (.text "memory://")⟩,
   ⟨"default-ttl-ms", .number, "LATCH_DEFAULT_TTL_MS", some (.number 30000)⟩,
   ⟨"op-timeout-ms", .number, "LATCH_OP_TIMEOUT_MS", some (.number 3000)⟩,
   ⟨"pool-size", .number, "LATCH_POOL_SIZE", some (.number Redis.defaultPoolSize)⟩,
   ⟨"config", .path, "LATCH_CONFIG", none⟩]

/-- The level of the program's own options. -/
def settingsLevel : Level := ⟨settings.map fun s => (s.name, s.kind), false⟩

/-- The names of the commands. -/
inductive Verb
  | lock
  | unlock
  | validate
  | exists
  | health
  deriving DecidableEq, Repr

namespace Verb

/-- All commands. -/
def all : List Verb := [.lock, .unlock, .validate, .exists, .health]

/-- The word for a command. -/
def word : Verb → String
  | .lock => "lock"
  | .unlock => "unlock"
  | .validate => "validate"
  | .exists => "exists"
  | .health => "health"

/-- The command that a word stands for. -/
def ofWord? (w : String) : Option Verb := all.find? (·.word = w)

/-- The options of a command. -/
def level : Verb → Level
  | .lock => ⟨[("ttl-ms", .number), ("hold-ms", .number), ("namespace", .text)], true⟩
  | .unlock => ⟨[("namespace", .text)], true⟩
  | .validate => ⟨[("ttl-ms", .number), ("namespace", .text)], true⟩
  | .exists => ⟨[("namespace", .text)], true⟩
  | .health => ⟨[], false⟩

/-- The command that was read at its level. -/
def command (v : Verb) (r : Reading) : Except UsageError Command :=
  match v, r.key with
  | .health, _ => .ok .health
  | _, none => .error .missingKey
  | .lock, some key =>
      .ok (.lock key (r.number? "ttl-ms") (r.number? "hold-ms") (r.text? "namespace"))
  | .unlock, some key => .ok (.unlock key (r.text? "namespace"))
  | .validate, some key => .ok (.validate key (r.number? "ttl-ms") (r.text? "namespace"))
  | .exists, some key => .ok (.exists key ((r.text? "namespace").getD Namespace.locks.name))

/-- The command that the words behind its name give. -/
def read (v : Verb) (words : List String) : Except UsageError Command :=
  match Reading.takeAll v.level {} words with
  | .error e => .error e
  | .ok r => v.command r

end Verb

/-- The word that asks for help on a command. -/
def helpWord : String := "help"

/-- What a request for help on some words comes to: help, if they name at most one command. -/
def helpOn : List String → UsageError
  | [] => .help
  | [w] => if w = helpWord ∨ (Verb.ofWord? w).isSome then .help else .unknownSubcommand
  | _ => .unknownSubcommand

/-! ## Reading -/

/-- A word that is no option. -/
def isPlain (word : String) : Bool := word.toList.head? ≠ some '-' || word = "-"

/-- The program's own options up to the name of a command, with that and the words behind it. -/
def readSettings (r : Reading) :
    List String → Except UsageError (Reading × Option (Verb × List String))
  | [] => .ok (r, none)
  | word :: rest =>
      if r.onlyKeys then
        .error (if word = helpWord ∨ (Verb.ofWord? word).isSome then .unknownArgument
                else .unknownSubcommand)
      else if r.awaitsValue ∨ ¬ isPlain word then
        match r.take settingsLevel word with
        | .error e => .error e
        | .ok r => readSettings r rest
      else if word = helpWord then .error (helpOn rest)
      else
        match Verb.ofWord? word with
        | some verb => .ok (r, some (verb, rest))
        | none => .error .unknownSubcommand

/-- Fills in the settings that the line does not give from the environment. -/
def addEnvironment (env : List (String × String)) (r : Reading) :
    List Setting → Except UsageError Reading
  | [] => .ok r
  | s :: rest =>
      match r.value? s.name, env.lookup s.envName with
      | none, some value =>
          match r.give settingsLevel s.name value with
          | .error e => .error e
          | .ok r => addEnvironment env r rest
      | _, _ => addEnvironment env r rest

/-- A reading with the defaults of the settings that nothing gives. -/
def addDefaults (r : Reading) : Reading :=
  { r with values := r.values ++ settings.filterMap fun s =>
      if (r.value? s.name).isSome then none else s.fallback.map fun v => (s.name, v) }

/-- The settings of a level once it has been read and all given values filled in. -/
def invocation (r : Reading) (command : Command) : Invocation :=
  let r := addDefaults r
  { uri := (r.text? "uri").getD ""
    defaultTtlMs := (r.number? "default-ttl-ms").getD 0
    opTimeoutMs := (r.number? "op-timeout-ms").getD 0
    poolSize := (r.number? "pool-size").getD 0
    configPath := r.text? "config"
    command }

/-- Reads the words of a command line in an environment. The command is read first, then what the
program's own options leave open. -/
def Invocation.read (env : List (String × String)) (words : List String) :
    Except UsageError Invocation :=
  match readSettings {} words with
  | .error e => .error e
  | .ok (r, named) =>
      match named.mapM fun (verb, rest) => verb.read rest with
      | .error e => .error e
      | .ok command =>
          -- The program's own last option is settled only now, so faults of the command come first.
          match (r.settle settingsLevel).bind (addEnvironment env · settings) with
          | .error e => .error e
          | .ok r =>
              match command with
              | some command => .ok (invocation r command)
              | none => .error (if r.values.isEmpty then .helpForNothing else .missingSubcommand)

/-! ## The configuration asked for -/

/-- Why an invocation has no configuration. -/
inductive ConfigProblem
  | unreadable (path : String) (fault : ReadFault)
  | unsound (path : String) (fault : Json.Fault)
  | refused (failure : Failure)
  deriving DecidableEq, Repr

/-- What is said of it. -/
def ConfigProblem.message : ConfigProblem → String
  | .unreadable path _ => "failed to read config " ++ path
  | .unsound path _ => "failed to parse config " ++ path
  | .refused failure => failure.message

/-- The configuration of the settings alone. -/
def Invocation.flagConfig (i : Invocation) : Config :=
  { uri := i.uri, defaultTtl := .ofMillis i.defaultTtlMs, opTimeout := .ofMillis i.opTimeoutMs }

/-- The configuration before it is judged. -/
def Invocation.statedConfig (i : Invocation) (files : Files) : Except ConfigProblem Config :=
  match i.configPath with
  | none => .ok i.flagConfig
  | some path =>
      match files.text path with
      | .error fault => .error (.unreadable path fault)
      | .ok text =>
          match Config.read text with
          | .error fault => .error (.unsound path fault)
          | .ok config => .ok config

/-- The configuration that an invocation asks for. -/
def Invocation.config (i : Invocation) (files : Files) : Except ConfigProblem Config :=
  match i.statedConfig files with
  | .error e => .error e
  | .ok config =>
      match config.check with
      | .ok () => .ok config
      | .error failure => .error (.refused failure)

end KeyLease.CommandLine
