import Courier.SortedMap
import Courier.Json.Number
/-!
# Reading JSON texts

`Json.parse` reads one value that takes up the whole text. Strings are gathered as bytes, escapes
resolved, and have to be UTF-8 at their closing quote; members of an object go to their place in
name order, a later one replacing an earlier one of the same name; brackets nest at most 127 deep.
-/

namespace Courier.Json

def isSpace (b : UInt8) : Bool :=
  b == 0x20 || b == 0x0A || b == 0x09 || b == 0x0D

def skipSpace (text : Bytes) : Bytes :=
  text.dropWhile isSpace

def hexValue? (b : UInt8) : Option Nat :=
  if isDigit b then some (b.toNat - 0x30)
  else if 0x61 ≤ b ∧ b ≤ 0x66 then some (b.toNat - 0x57)
  else if 0x41 ≤ b ∧ b ≤ 0x46 then some (b.toNat - 0x37)
  else none

def hexNumber? (a b c d : UInt8) : Option Nat := do
  let a ← hexValue? a
  let b ← hexValue? b
  let c ← hexValue? c
  let d ← hexValue? d
  return ((a * 16 + b) * 16 + c) * 16 + d

def letterEscape? (b : UInt8) : Option UInt8 :=
  if b = 0x22 ∨ b = 0x5C ∨ b = 0x2F then some b
  else if b = 0x62 then some 0x08
  else if b = 0x66 then some 0x0C
  else if b = 0x6E then some 0x0A
  else if b = 0x72 then some 0x0D
  else if b = 0x74 then some 0x09
  else none

def isLeadingSurrogate (n : Nat) : Bool :=
  0xD800 ≤ n && n ≤ 0xDBFF

def isTrailingSurrogate (n : Nat) : Bool :=
  0xDC00 ≤ n && n ≤ 0xDFFF

def pushCodePoint (n : Nat) (gathered : Bytes) : Bytes :=
  (String.utf8EncodeChar (Char.ofNat n)).reverse ++ gathered

def gatherString (gathered : Bytes) : Bytes → Except Rejection (Bytes × Bytes)
  | [] => reject .endInString []
  | b :: rest =>
    if b = 0x22 then .ok (gathered, rest)
    else if b < 0x20 then reject .controlCharacter rest
    else if b = 0x5C then
      match rest with
      | [] => reject .endInString []
      | e :: rest =>
        match letterEscape? e with
        | some c => gatherString (c :: gathered) rest
        | none =>
          if e = 0x75 then
            match rest with
            | h₁ :: h₂ :: h₃ :: h₄ :: rest =>
              match hexNumber? h₁ h₂ h₃ h₄ with
              | none => reject .invalidEscape rest
              | some n =>
                if isTrailingSurrogate n then reject .loneSurrogate rest
                else if isLeadingSurrogate n then
                  match rest with
                  | [] => reject .endInString []
                  | s :: rest =>
                    if s = 0x5C then
                      match rest with
                      | [] => reject .endInString []
                      | u :: rest =>
                        if u = 0x75 then
                          match rest with
                          | l₁ :: l₂ :: l₃ :: l₄ :: rest =>
                            match hexNumber? l₁ l₂ l₃ l₄ with
                            | none => reject .invalidEscape rest
                            | some m =>
                              if isTrailingSurrogate m then
                                gatherString
                                  (pushCodePoint ((n - 0xD800) * 0x400 + (m - 0xDC00) +
                                    0x10000) gathered) rest
                              else reject .loneSurrogate rest
                          | _ => reject .endInString []
                        else reject .endOfHexEscape rest
                    else reject .endOfHexEscape rest
                else gatherString (pushCodePoint n gathered) rest
            | _ => reject .endInString []
          else reject .invalidEscape rest
    else gatherString (b :: gathered) rest

def readString (text : Bytes) : Except Rejection (String × Bytes) := do
  let (gathered, rest) ← gatherString [] text
  let content := gathered.reverse
  match Text.ofBytes? content with
  | some s => return (s, rest)
  | none => throw ⟨.invalidUnicode, rest.length + (content.length - Text.validLength content)⟩

def readLetters : (letters : Bytes) → Bytes → Except Rejection Bytes
  | [], text => .ok text
  | _ :: _, [] => reject .endInValue []
  | letter :: letters, b :: rest =>
    if b = letter then readLetters letters rest else reject .expectedIdent rest

/-- How deep brackets may nest, plus one. -/
def nestingLimit : Nat := 128

inductive Turn where
  | close (rest : Bytes)
  | part (text : Bytes)

/-- What stands next in an array, a comma before an item that is not the first consumed. -/
def itemTurn (first : Bool) (text : Bytes) : Except Rejection Turn :=
  match skipSpace text with
  | [] => rejectNext .endInList []
  | b :: rest =>
    if b = 0x5D then .ok (.close rest)
    else if first then .ok (.part (b :: rest))
    else if b = 0x2C then
      match skipSpace rest with
      | [] => rejectNext .endInValue []
      | c :: rest =>
        if c = 0x5D then rejectNext .trailingComma (c :: rest) else .ok (.part (c :: rest))
    else rejectNext .expectedListCommaOrEnd (b :: rest)

def memberTurn (first : Bool) (text : Bytes) : Except Rejection Turn :=
  match skipSpace text with
  | [] => rejectNext .endInObject []
  | b :: rest =>
    if b = 0x7D then .ok (.close rest)
    else if first then
      if b = 0x22 then .ok (.part rest) else rejectNext .keyMustBeString (b :: rest)
    else if b = 0x2C then
      match skipSpace rest with
      | [] => rejectNext .endInValue []
      | c :: rest =>
        if c = 0x22 then .ok (.part rest)
        else if c = 0x7D then rejectNext .trailingComma (c :: rest)
        else rejectNext .keyMustBeString (c :: rest)
    else rejectNext .expectedObjectCommaOrEnd (b :: rest)

def readName (text : Bytes) : Except Rejection (String × Bytes) := do
  let (name, rest) ← readString text
  match skipSpace rest with
  | [] => rejectNext .endInObject []
  | b :: rest => if b = 0x3A then return (name, rest) else rejectNext .expectedColon (b :: rest)

mutual

/-- Reads a value. `depth` brackets may still open, the last of which is one too many; `fuel`
bounds the number of steps. -/
def readValue (depth : Nat) : (fuel : Nat) → Bytes → Except Rejection (Json × Bytes)
  | 0, text => rejectNext .expectedValue text
  | fuel + 1, text =>
    match skipSpace text with
    | [] => rejectNext .endInValue []
    | b :: rest =>
      if b = 0x22 then do
        let (s, rest) ← readString rest
        return (.string s, rest)
      else if b = 0x7B then
        if depth ≤ 1 then rejectNext .recursionLimit (b :: rest)
        else readMembers (depth - 1) fuel true [] rest
      else if b = 0x5B then
        if depth ≤ 1 then rejectNext .recursionLimit (b :: rest)
        else readItems (depth - 1) fuel true [] rest
      else if b = 0x2D then readNumber false rest
      else if isDigit b then readNumber true (b :: rest)
      else if b = 0x6E then do
        let rest ← readLetters [0x75, 0x6C, 0x6C] rest
        return (.null, rest)
      else if b = 0x74 then do
        let rest ← readLetters [0x72, 0x75, 0x65] rest
        return (.bool true, rest)
      else if b = 0x66 then do
        let rest ← readLetters [0x61, 0x6C, 0x73, 0x65] rest
        return (.bool false, rest)
      else rejectNext .expectedValue (b :: rest)

def readItems (depth : Nat) :
    (fuel : Nat) → (first : Bool) → List Json → Bytes → Except Rejection (Json × Bytes)
  | 0, _, _, text => rejectNext .expectedValue text
  | fuel + 1, first, items, text =>
    match itemTurn first text with
    | .error r => .error r
    | .ok (.close rest) => .ok (.array items.reverse, rest)
    | .ok (.part text) =>
      match readValue depth fuel text with
      | .error r => .error r
      | .ok (value, rest) => readItems depth fuel false (value :: items) rest

def readMembers (depth : Nat) :
    (fuel : Nat) → (first : Bool) → List (String × Json) → Bytes → Except Rejection (Json × Bytes)
  | 0, _, _, text => rejectNext .expectedValue text
  | fuel + 1, first, members, text =>
    match memberTurn first text with
    | .error r => .error r
    | .ok (.close rest) => .ok (.object members, rest)
    | .ok (.part text) =>
      match readName text with
      | .error r => .error r
      | .ok (name, rest) =>
        match readValue depth fuel rest with
        | .error r => .error r
        | .ok (value, rest) => readMembers depth fuel false (insertEntry name value members) rest

end

/-- Reads a value that takes up the whole text. Every step but at most every second one consumes a
byte, which bounds the number of steps. -/
def parse (text : Bytes) : Except Rejection Json := do
  let (value, rest) ← readValue nestingLimit (2 * text.length + 2) text
  match skipSpace rest with
  | [] => return value
  | b :: rest => rejectNext .trailingCharacters (b :: rest)

end Courier.Json
