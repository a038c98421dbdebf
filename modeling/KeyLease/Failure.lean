import KeyLease.Duration
import KeyLease.Text.Quoted
import KeyLease.Redis.Address
import KeyLease.Redis.Trouble

set_option autoImplicit false

/-!
# Failures

Every operation of the library that can fail answers a `Failure`. A failure is a cause: its code and
its message are read off it by `Failure.code` and `Failure.message`. Two of them, `alreadyLocked`
and `conflict`, are contention: someone else holds the key, and nothing is wrong.
-/

namespace KeyLease

/-- The URI schemes that a store can be built from. -/
def supportedSchemes : List String := ["memory", "redis", "rediss"]

/-- The longest time to live that a store accepts: 365 days. -/
def maxTtl : Duration := .ofSeconds 31536000

/-- Why a configuration, or a time to live, is refused. -/
inductive ConfigFault
  | emptyUri
  | missingScheme (uri : String)
  | unsupportedScheme (scheme : String)
  | defaultTtl (ttl : Duration)
  | zeroOpTimeout
  | zeroSweepInterval
  | zeroTtl
  | ttlTooLong (ttl : Duration)
  | ttlBeyondClock (ttl : Duration)
  | ttlBeyondMillis (ttl : Duration)
  | notMemory (uri : String)
  | notRedis (uri : String)
  | address (fault : Redis.AddressFault)
  | stated (text : String)
  deriving DecidableEq, Repr

/-- What the fault of a configuration says. -/
def ConfigFault.message : ConfigFault → String
  | .emptyUri => "uri must not be empty"
  | .missingScheme uri => "uri has no scheme: " ++ uri
  | .unsupportedScheme scheme =>
      "unsupported uri scheme '" ++ scheme ++ "' (expected one of "
        ++ Text.quotedList supportedSchemes ++ ")"
  | .defaultTtl ttl =>
      "default_ttl must be positive and at most " ++ maxTtl.text ++ ", got " ++ ttl.text
  | .zeroOpTimeout => "op_timeout must be positive"
  | .zeroSweepInterval => "sweep_interval must be positive when set"
  | .zeroTtl => "ttl must be positive"
  | .ttlTooLong ttl => "ttl " ++ ttl.text ++ " exceeds the maximum of " ++ maxTtl.text
  | .ttlBeyondClock ttl => "ttl " ++ ttl.text ++ " overflows the clock"
  | .ttlBeyondMillis ttl => "ttl " ++ ttl.text ++ " does not fit PX"
  | .notMemory uri => "memory store cannot serve uri " ++ uri
  | .notRedis uri => "redis store cannot serve uri " ++ uri
  | .address fault => "invalid redis uri: " ++ fault.message
  | .stated text => text

/-- Why a backend gave no answer. -/
inductive Outage
  | failed (verb : Redis.Verb) (trouble : Redis.Trouble)
  | timedOut (verb : Redis.Verb) (limit : Duration)
  | healthTimedOut (limit : Duration)
  | stated (text : String)
  deriving DecidableEq, Repr

/-- What an outage says. -/
def Outage.message : Outage → String
  | .failed verb trouble => verb.text ++ " failed: " ++ trouble.message
  | .timedOut verb limit => verb.text ++ " timed out after " ++ limit.text
  | .healthTimedOut limit => "health check timed out after " ++ limit.text
  | .stated text => text

/-- Why an operation did not succeed. -/
inductive Failure
  | configInvalid (fault : ConfigFault)
  | alreadyConnected
  | notConnected
  | keyEmpty
  | alreadyLocked (key : String)
  | notLocked (key : String)
  | conflict (key : String)
  | backendUnavailable (outage : Outage)
  deriving DecidableEq, Repr

namespace Failure

/-- The code of a failure, for programs. -/
def code : Failure → String
  | .configInvalid _ => "CONFIG_INVALID"
  | .alreadyConnected => "ALREADY_CONNECTED"
  | .notConnected => "NOT_CONNECTED"
  | .keyEmpty => "KEY_EMPTY"
  | .alreadyLocked _ => "ALREADY_LOCKED"
  | .notLocked _ => "NOT_LOCKED"
  | .conflict _ => "CONFLICT"
  | .backendUnavailable _ => "BACKEND_UNAVAILABLE"

/-- The message of a failure, for people. -/
def message : Failure → String
  | .configInvalid fault => "Invalid configuration: " ++ fault.message
  | .alreadyConnected => "Already connected"
  | .notConnected => "Not connected"
  | .keyEmpty => "Key must not be empty"
  | .alreadyLocked key => "Key already locked: " ++ key
  | .notLocked key => "Key not locked: " ++ key
  | .conflict key => "Key already admitted: " ++ key
  | .backendUnavailable outage => "Backend unavailable: " ++ outage.message

/-- Whether a failure only says that someone else holds the key. -/
def isContention : Failure → Bool
  | .alreadyLocked _ | .conflict _ => true
  | _ => false

end Failure

end KeyLease
