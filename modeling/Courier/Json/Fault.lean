import Courier.Bytes
/-!
# Faults of JSON texts

What can be wrong with a JSON text, and where. A `Rejection` says how many bytes of the text were
left when the fault was found; its place is the line and the column of the last byte before those.
-/

namespace Courier.Json

inductive Fault where
  | endInValue
  | endInList
  | endInObject
  | endInString
  | expectedColon
  | expectedListCommaOrEnd
  | expectedObjectCommaOrEnd
  | expectedIdent
  | expectedValue
  | invalidEscape
  | invalidNumber
  | numberOutOfRange
  | invalidUnicode
  | controlCharacter
  | keyMustBeString
  | loneSurrogate
  | trailingComma
  | trailingCharacters
  | endOfHexEscape
  | recursionLimit
  deriving DecidableEq, Repr

def Fault.message : Fault → String
  | endInValue => "EOF while parsing a value"
  | endInList => "EOF while parsing a list"
  | endInObject => "EOF while parsing an object"
  | endInString => "EOF while parsing a string"
  | expectedColon => "expected `:`"
  | expectedListCommaOrEnd => "expected `,` or `]`"
  | expectedObjectCommaOrEnd => "expected `,` or `\x7d`"
  | expectedIdent => "expected ident"
  | expectedValue => "expected value"
  | invalidEscape => "invalid escape"
  | invalidNumber => "invalid number"
  | numberOutOfRange => "number out of range"
  | invalidUnicode => "invalid unicode code point"
  | controlCharacter => "control character (\\u0000-\\u001F) found while parsing a string"
  | keyMustBeString => "key must be a string"
  | loneSurrogate => "lone leading surrogate in hex escape"
  | trailingComma => "trailing comma"
  | trailingCharacters => "trailing characters"
  | endOfHexEscape => "unexpected end of hex escape"
  | recursionLimit => "recursion limit exceeded"

/-- A fault and the number of bytes that follow its place. -/
structure Rejection where
  fault : Fault
  remaining : Nat
  deriving DecidableEq, Repr

def reject {α : Type} (fault : Fault) (rest : Bytes) : Except Rejection α :=
  .error ⟨fault, rest.length⟩

def rejectNext {α : Type} (fault : Fault) (rest : Bytes) : Except Rejection α :=
  .error ⟨fault, rest.length - 1⟩

def Rejection.message (r : Rejection) (text : Bytes) : String :=
  let before := text.take (text.length - r.remaining)
  let line := before.count 0x0A + 1
  let column := (before.reverse.takeWhile (· ≠ 0x0A)).length
  r.fault.message ++ " at line " ++ toString line ++ " column " ++ toString column

end Courier.Json
