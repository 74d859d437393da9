set_option autoImplicit false

/-!
# Log entries

What readers and searches tell about their work, as values: a severity, the part of the library that
speaks, and a sentence.
-/

namespace CnfSearch

/-- How much attention an entry asks for. -/
inductive Severity where
  | warn
  | debug
  | trace
  deriving DecidableEq

/-- The name under which a severity is written. -/
def Severity.text : Severity → String
  | .warn => "WARN"
  | .debug => "DEBUG"
  | .trace => "TRACE"

/-- One sentence about the work of one part of the library. -/
structure LogEntry where
  severity : Severity
  topic : String
  message : String
  deriving DecidableEq

/-- The written form: severity, topic and sentence. -/
def LogEntry.text (entry : LogEntry) : String :=
  entry.severity.text ++ " " ++ entry.topic ++ ": " ++ entry.message

end CnfSearch
