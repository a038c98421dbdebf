import KeyLease.Text.Unprintable

set_option autoImplicit false

/-!
# Quoted text

A text between double quotes, written so that every character of it can be told: quotes,
backslashes and the common control characters have an escape of two characters, and a character
that would not show, or a first character that would join the opening quote, is written as its
code point in hexadecimal between braces.
-/

namespace KeyLease.Text

/-- A code point in hexadecimal between braces. -/
def codePointEscape (c : Char) : List Char :=
  ['\\', 'u', '\x7b'] ++ Nat.toDigits 16 c.toNat ++ ['\x7d']

/-- How one character is written; `leading` tells whether it is the first of its text. -/
def quotedChar (leading : Bool) (c : Char) : List Char :=
  if c = '\x00' then ['\\', '0']
  else if c = '\t' then ['\\', 't']
  else if c = '\n' then ['\\', 'n']
  else if c = '\r' then ['\\', 'r']
  else if c = '"' then ['\\', '"']
  else if c = '\\' then ['\\', '\\']
  else if isUnprintable c || (leading && isExtending c) then codePointEscape c
  else [c]

/-- A text between quotes, with its escapes. -/
def quoted (s : String) : String :=
  let body := match s.toList with
    | [] => []
    | c :: cs => quotedChar true c ++ cs.flatMap (quotedChar false)
  String.ofList ('"' :: body ++ ['"'])

/-- A list of texts, each quoted, between brackets. -/
def quotedList (xs : List String) : String :=
  "[" ++ ", ".intercalate (xs.map quoted) ++ "]"

end KeyLease.Text
