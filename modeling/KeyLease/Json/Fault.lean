import KeyLease.Text.Quoted

set_option autoImplicit false

/-!
# Faults of a JSON text

A text read as a document fails in one of three ways: it ends too early, it breaks the grammar of
JSON, or it is sound so far but holds a value that the reader has no use for. Reading goes once
through the text, and the first of these that it meets is the fault of the text.
-/

namespace KeyLease.Json

/-- A value that stands where another was expected. -/
inductive Found
  | null
  | boolean (b : Bool)
  | integer (n : Int)
  | floating (text : String)
  | string (s : String)
  | sequence
  | map
  deriving DecidableEq, Repr

/-- How a fault names the value. -/
def Found.text : Found → String
  | .null => "null"
  | .boolean b => "boolean `" ++ (if b then "true" else "false") ++ "`"
  | .integer n =>
      "integer `" ++ (if n < 0 then "-" else "") ++ n.natAbs.repr ++ "`"
  | .floating text => "floating point `" ++ text ++ "`"
  | .string s => "string " ++ Text.quoted s
  | .sequence => "sequence"
  | .map => "map"

/-- What a reader expects. -/
inductive Expected
  | config
  | string
  | natural
  deriving DecidableEq, Repr

/-- How a fault names what was expected. -/
def Expected.text : Expected → String
  | .config => "struct Config"
  | .string => "a string"
  | .natural => "u64"

/-- A sound value that does not fit. -/
inductive Mismatch
  | kind (found : Found) (expected : Expected)
  | value (found : Found) (expected : Expected)
  | tooShort (length : Nat)
  | missing (member : String)
  | duplicate (member : String)
  deriving DecidableEq, Repr

/-- What a mismatch says. -/
def Mismatch.message : Mismatch → String
  | .kind found expected => "invalid type: " ++ found.text ++ ", expected " ++ expected.text
  | .value found expected => "invalid value: " ++ found.text ++ ", expected " ++ expected.text
  | .tooShort length =>
      "invalid length " ++ length.repr ++ ", expected struct Config with 4 elements"
  | .missing member => "missing field `" ++ member ++ "`"
  | .duplicate member => "duplicate field `" ++ member ++ "`"

/-- Why a text is no document. -/
inductive Fault
  | truncated
  | malformed
  | mismatch (m : Mismatch)
  deriving DecidableEq, Repr

end KeyLease.Json
