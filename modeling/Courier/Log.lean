/-!
# Event logs

What a call reports besides its result: a list of events, each with a severity, a text and named
values. A `Traced` result carries the events of its call, in order.
-/

namespace Courier

universe u

inductive Severity where
  | trace
  | debug
  | warn
  deriving DecidableEq, Repr

def Severity.name : Severity → String
  | trace => "TRACE"
  | debug => "DEBUG"
  | warn => "WARN"

structure Event where
  severity : Severity
  text : String
  fields : List (String × String)
  deriving DecidableEq, Repr

abbrev Log := List Event

/-- A result and the events of the call that gave it. -/
structure Traced (α : Type u) where
  result : α
  log : Log

end Courier
