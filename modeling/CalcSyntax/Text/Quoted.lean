import CalcSyntax.Text.Printable

/-!
# Quoted — a text between quotes, on one line

Listings and outlines show raw text in double quotes. Quotes, backslashes
and the usual controls have a short escape, every other character without
a form of its own is written by its code point in hexadecimal, and all
else stands for itself. What comes out holds no line break, so one entry
stays on one line.
-/

set_option autoImplicit false

namespace CalcSyntax

/-- A number in hexadecimal, in small letters and as short as can be. -/
def hexDigits (n : Nat) : List Char := Nat.toDigits 16 n

/-- One character of a quoted text. -/
def quotedChar (c : Char) : List Char :=
  if c = '\x00' then ['\\', '0']
  else if c = '\t' then ['\\', 't']
  else if c = '\n' then ['\\', 'n']
  else if c = '\r' then ['\\', 'r']
  else if c = '"' then ['\\', '"']
  else if c = '\\' then ['\\', '\\']
  else if isPrintable c then [c]
  else ['\\', 'u', '\x7b'] ++ hexDigits c.toNat ++ ['\x7d']

/-- A text in double quotes. -/
def quoted (text : String) : String :=
  String.ofList ('"' :: text.toList.flatMap quotedChar ++ ['"'])

end CalcSyntax
