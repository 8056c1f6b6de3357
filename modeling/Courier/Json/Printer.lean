import Courier.Json
/-!
# JSON texts

`Json.print` writes a value with a given spacing: `compact`, without any, and `indented`, two
spaces deeper on a line of its own for every part. A string is escaped byte by byte: quotes,
backslashes and bytes below space are escaped, every other byte of the UTF-8 form stands for
itself.
-/

namespace Courier.Json

/-- What stands between the parts of arrays and objects. -/
structure Spacing where
  lineBreak : Nat → Bytes
  colon : Bytes

def compact : Spacing := ⟨fun _ => [], [0x3A]⟩

def indented : Spacing := ⟨fun depth => 0x0A :: List.replicate (2 * depth) 0x20, [0x3A, 0x20]⟩

def hexDigit (n : UInt8) : UInt8 :=
  if n < 10 then 0x30 + n else 0x57 + n

/-- One byte of a string, escaped where it has to be. -/
def escapedByte (b : UInt8) : Bytes :=
  if b = 0x22 then [0x5C, 0x22]
  else if b = 0x5C then [0x5C, 0x5C]
  else if b < 0x20 then
    if b = 0x08 then [0x5C, 0x62]
    else if b = 0x09 then [0x5C, 0x74]
    else if b = 0x0A then [0x5C, 0x6E]
    else if b = 0x0C then [0x5C, 0x66]
    else if b = 0x0D then [0x5C, 0x72]
    else [0x5C, 0x75, 0x30, 0x30, hexDigit (b >>> 4), hexDigit (b &&& 0x0F)]
  else [b]

def printString (s : String) : Bytes :=
  0x22 :: (Text.bytes s).flatMap escapedByte ++ [0x22]

mutual

def printAt (spacing : Spacing) (depth : Nat) : Json → Bytes
  | null => [0x6E, 0x75, 0x6C, 0x6C]
  | bool true => [0x74, 0x72, 0x75, 0x65]
  | bool false => [0x66, 0x61, 0x6C, 0x73, 0x65]
  | integer value => Text.bytes (toString value)
  | float value => Text.bytes (value.render floatLayout)
  | string value => printString value
  | array items => 0x5B :: printItems spacing depth true items
  | object members => 0x7B :: printMembers spacing depth true members

def printItems (spacing : Spacing) (depth : Nat) (first : Bool) : List Json → Bytes
  | [] => (if first then [] else spacing.lineBreak depth) ++ [0x5D]
  | item :: rest =>
    (if first then [] else [0x2C]) ++ spacing.lineBreak (depth + 1) ++
      printAt spacing (depth + 1) item ++
      printItems spacing depth false rest

def printMembers (spacing : Spacing) (depth : Nat) (first : Bool) : List (String × Json) → Bytes
  | [] => (if first then [] else spacing.lineBreak depth) ++ [0x7D]
  | (name, value) :: rest =>
    (if first then [] else [0x2C]) ++ spacing.lineBreak (depth + 1) ++
      printString name ++ spacing.colon ++
      printAt spacing (depth + 1) value ++ printMembers spacing depth false rest

end

def print (spacing : Spacing) (value : Json) : Bytes :=
  printAt spacing 0 value

end Courier.Json
