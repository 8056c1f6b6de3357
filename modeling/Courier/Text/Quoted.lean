import Courier.Text.Hidden
/-!
# Quoted text

The form in which a text stands inside an inspection text or an error text: between double quotes,
with backslash escapes for quotes, backslashes and line controls, and with the number of any other
character that has no glyph of its own.
-/

namespace Courier.Text

def hexadecimal (n : Nat) : String :=
  String.ofList (Nat.toDigits 16 n)

def paddedHexadecimal (width n : Nat) : String :=
  let digits := Nat.toDigits 16 n
  String.ofList (List.replicate (width - digits.length) '0' ++ digits)

def quotedChar (c : Char) : String :=
  match c with
  | '\x00' => "\\0"
  | '\t' => "\\t"
  | '\n' => "\\n"
  | '\r' => "\\r"
  | '"' => "\\\""
  | '\\' => "\\\\"
  | _ =>
    if ' ' ≤ c ∧ c ≤ '~' then c.toString
    else if c.toNat < 0x80 ∨ isHidden c then "\\u\x7b" ++ hexadecimal c.toNat ++ "\x7d"
    else c.toString

/-- The text between double quotes, every character in its quoted form. -/
def quoted (s : String) : String :=
  "\"" ++ String.join (s.toList.map quotedChar) ++ "\""

end Courier.Text
