import CacheHierarchy.Access.Token
import CacheHierarchy.Text.Cut
import CacheHierarchy.Text.Numeral

/-!
# One line of a trace

A trace line names the kind of an access and its address in hexadecimal, separated by white space.
A number sign starts a comment that runs to the end of the line. A line of white space and comment
alone holds no record.
-/

namespace CacheHierarchy

structure TraceRecord where
  kind : AccessKind
  addr : Nat
  deriving DecidableEq, Repr, Inhabited

namespace Trace

/-- Why a line holds no record and is not blank either. -/
inductive LineError
  | missingAddress
  | unexpectedField (field : List Char)
  | unknownKind (field : List Char)
  | badAddress (field : List Char) (cause : Text.NumeralError)
  deriving DecidableEq, Repr, Inhabited

/-- The chain of messages of a line error, outermost first. -/
def LineError.chain : LineError → List String
  | missingAddress => ["missing address"]
  | unexpectedField field => ["unexpected field '" ++ String.ofList field ++ "'"]
  | unknownKind field => [AccessKind.unknownWord field]
  | badAddress field cause =>
    ["invalid hex address '" ++ String.ofList field ++ "'", cause.message]

/-- The text of a line in front of its comment. -/
def beforeComment (line : List Char) : List Char := line.takeWhile (· != '#')

def ofFields (kind addr : List Char) : Except LineError TraceRecord :=
  match AccessKind.ofWord? kind with
  | none => .error (.unknownKind kind)
  | some kind =>
    match Text.readHex (Text.dropHexMark addr) with
    | .error cause => .error (.badAddress addr cause)
    | .ok addr => .ok { kind, addr }

def ofLine (line : List Char) : Except LineError (Option TraceRecord) :=
  match Text.fields (beforeComment line) with
  | [] => .ok none
  | [_] => .error .missingAddress
  | [kind, addr] => (ofFields kind addr).map some
  | _ :: _ :: extra :: _ => .error (.unexpectedField extra)

end Trace

end CacheHierarchy
