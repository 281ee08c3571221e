import CacheHierarchy.Trace.Line

/-!
# Traces

A trace is read from bytes, line by line. Each line has to be UTF-8 and to hold a record or
nothing; the first one that does not is reported with its number, counted from one.
-/

namespace CacheHierarchy.Trace

/-- Why a text is no trace: the number of a line and what is wrong with it. -/
inductive Error
  | notText (line : Nat)
  | badLine (line : Nat) (text : String) (cause : LineError)
  deriving DecidableEq, Repr, Inhabited

/-- The chain of messages of a trace error, outermost first. -/
def Error.chain : Error → List String
  | notText line => [s!"cannot read trace line {line}", "stream did not contain valid UTF-8"]
  | badLine line text cause =>
    ("trace line " ++ toString line ++ ": '" ++ text ++ "'") :: cause.chain

/-- The record of line number `number`, if it has one. -/
def ofBytesLine (number : Nat) (bytes : List UInt8) : Except Error (Option TraceRecord) :=
  match String.fromUTF8? ⟨bytes.toArray⟩ with
  | none => .error (.notText number)
  | some text => (ofLine text.toList).mapError (.badLine number text)

/-- The records of a trace, or what is wrong with its first line that holds none and is not
blank. -/
def ofBytes (bytes : List UInt8) : Except Error (List TraceRecord) := do
  let found ← ((Text.lines bytes).zipIdx 1).mapM fun (line, number) => ofBytesLine number line
  return found.filterMap id

end CacheHierarchy.Trace
