import Courier.Text.Quoted
/-!
# Inspection texts

A `Shape` is the text by which a value is shown to a person, in two layouts: on one line, and
spread over lines with four spaces of indentation and a comma after every part. Each way of
putting shapes together (record, tuple, list, map) is written once and gives both layouts.
-/

namespace Courier

/-- A value shown to a person, on one line and spread over lines. -/
structure Shape where
  oneLine : String
  lines : List String
  deriving Repr, DecidableEq

namespace Shape

def atom (text : String) : Shape :=
  ⟨text, [text]⟩

def number (n : Nat) : Shape :=
  atom (toString n)

def flag (b : Bool) : Shape :=
  atom (if b then "true" else "false")

def text (s : String) : Shape :=
  atom (Text.quoted s)

def spread (s : Shape) : String :=
  String.intercalate "\n" s.lines

def render (s : Shape) (spreadOut : Bool) : String :=
  if spreadOut then s.spread else s.oneLine

def indented (lines : List String) : List String :=
  lines.map ("    " ++ ·)

/-- The lines of a part with `before` in front of the first and a comma behind the last. -/
def partLines (before : String) : List String → List String
  | [] => []
  | [line] => [before ++ line ++ ","]
  | line :: rest =>
    (before ++ line) :: rest.dropLast ++ (rest.getLast?.map (· ++ ",")).toList

def enclosed (opening closing padding : String) (parts : List (String × Shape)) : Shape :=
  if parts.isEmpty then atom (opening ++ closing)
  else
    ⟨opening ++ padding ++ String.intercalate ", " (parts.map fun p => p.1 ++ p.2.oneLine) ++
      padding ++ closing,
      opening :: indented (parts.flatMap fun p => partLines p.1 p.2.lines) ++ [closing]⟩

def list (parts : List Shape) : Shape :=
  enclosed "[" "]" "" (parts.map fun p => ("", p))

def tuple (name : String) (parts : List Shape) : Shape :=
  enclosed (name ++ "(") ")" "" (parts.map fun p => ("", p))

def map (entries : List (Shape × Shape)) : Shape :=
  enclosed "\x7b" "\x7d" "" (entries.map fun e => (e.1.oneLine ++ ": ", e.2))

def record (name : String) (fields : List (String × Shape)) : Shape :=
  enclosed (name ++ " \x7b") "\x7d" " " (fields.map fun f => (f.1 ++ ": ", f.2))

def openRecord (name : String) (fields : List (String × Shape)) : Shape :=
  let shown := fields.map fun f => (f.1 ++ ": ", f.2)
  ⟨name ++ " \x7b " ++
    String.intercalate ", " (shown.map (fun p => p.1 ++ p.2.oneLine) ++ [".."]) ++ " \x7d",
    (name ++ " \x7b") :: indented (shown.flatMap (fun p => partLines p.1 p.2.lines) ++ [".."]) ++
      ["\x7d"]⟩

def option : Option Shape → Shape
  | none => atom "None"
  | some part => tuple "Some" [part]

end Shape

end Courier
