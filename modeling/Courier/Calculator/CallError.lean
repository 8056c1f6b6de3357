import Courier.Failure
/-!
# Failures of a call

Why a call of a remote method has no result: the messages did not get through, the server reports
an error, the response cannot be read, or it answers another request.
-/

namespace Courier.Calculator

/-- Why a call failed. -/
inductive CallError where
  | protocol (cause : WireError)
  | remote (error : String)
  | decode (cause : TransportError)
  | mismatchedId (expected found : UInt64)
  deriving DecidableEq, Repr

namespace CallError

def message : CallError → String
  | protocol cause => "Protocol error: " ++ cause.message
  | remote error => "Remote error: " ++ error
  | decode cause => "Failed to decode response: " ++ cause.message
  | mismatchedId expected found =>
    "Response id " ++ toString found.toNat ++ " does not match request id " ++
      toString expected.toNat

def causeMessage : CallError → Option String
  | protocol cause => some cause.message
  | decode cause => some cause.message
  | remote _ | mismatchedId _ _ => none

def name : CallError → String
  | protocol _ => "Protocol"
  | remote _ => "Remote"
  | decode _ => "Decode"
  | mismatchedId _ _ => "MismatchedId"

end CallError

end Courier.Calculator
