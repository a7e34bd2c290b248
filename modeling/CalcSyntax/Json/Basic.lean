/-!
# Json — records as text

A small value type for records whose fields keep their order, and its
layout over several lines: two spaces a step, one element or field to a
line, nothing between the brackets of an empty list or record. Numbers
are natural, which is all that places and counts need.

In strings, quotes, backslashes and controls are escaped; every other
character stands for itself.
-/

set_option autoImplicit false

namespace CalcSyntax

/-- A value of a record. -/
inductive Json where
  | null
  | bool (value : Bool)
  | num (value : Nat)
  | str (value : String)
  | arr (elements : List Json)
  /-- Fields in the order in which they are written. -/
  | obj (fields : List (String × Json))

namespace Json

/-- A record of one field: a value under the name of its kind. -/
def tagged (tag : String) (value : Json) : Json := obj [(tag, value)]

/-- A text, or null. -/
def ofText? : Option String → Json
  | some s => str s
  | none => null

/-- The digits of a control in an escape: always four. -/
def controlDigits (n : Nat) : List Char :=
  let digits := Nat.toDigits 16 n
  List.replicate (4 - digits.length) '0' ++ digits

/-- One character of a string. -/
def escapedChar (c : Char) : List Char :=
  if c = '"' then ['\\', '"']
  else if c = '\\' then ['\\', '\\']
  else if c = '\x08' then ['\\', 'b']
  else if c = '\t' then ['\\', 't']
  else if c = '\n' then ['\\', 'n']
  else if c = '\x0c' then ['\\', 'f']
  else if c = '\r' then ['\\', 'r']
  else if c.toNat < 0x20 then '\\' :: 'u' :: controlDigits c.toNat
  else [c]

/-- A string with its quotes. -/
def literal (s : String) : String :=
  String.ofList ('"' :: s.toList.flatMap escapedChar ++ ['"'])

/-- The line break in front of what is so many steps in. -/
def newline (depth : Nat) : String :=
  String.ofList ('\n' :: List.replicate (2 * depth) ' ')

/-- Elements between brackets, each on its line. -/
def bracketed (opening closing : String) (depth : Nat) (elements : List String) : String :=
  if elements.isEmpty then opening ++ closing
  else
    opening ++ newline (depth + 1) ++ ("," ++ newline (depth + 1)).intercalate elements
      ++ newline depth ++ closing

mutual

/-- The value as text over several lines, so many steps in. -/
def prettyAt (depth : Nat) : Json → String
  | null => "null"
  | bool b => if b then "true" else "false"
  | num n => toString n
  | str s => literal s
  | arr elements => bracketed "[" "]" depth (prettyElements (depth + 1) elements)
  | obj fields => bracketed "\x7b" "\x7d" depth (prettyFields (depth + 1) fields)

/-- The texts of the elements of a list. -/
def prettyElements (depth : Nat) : List Json → List String
  | [] => []
  | e :: es => prettyAt depth e :: prettyElements depth es

/-- The texts of the fields of a record. -/
def prettyFields (depth : Nat) : List (String × Json) → List String
  | [] => []
  | f :: fs => prettyField depth f :: prettyFields depth fs

/-- The text of a field. -/
def prettyField (depth : Nat) : String × Json → String
  | (name, value) => literal name ++ ": " ++ prettyAt depth value

end

/-- The value as text over several lines. -/
def pretty (j : Json) : String := prettyAt 0 j

end Json

end CalcSyntax
