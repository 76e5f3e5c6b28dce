/-! Records of what a run noticed on its way, in the order in which it noticed it. -/
namespace Sketchbook

inductive LogLevel where
  | debug | info | warn
  deriving DecidableEq, Repr

structure LogRecord where
  level : LogLevel
  message : String
  deriving DecidableEq, Repr

def LogLevel.label : LogLevel → String
  | .debug => "DEBUG"
  | .info => "INFO"
  | .warn => "WARN"

def LogRecord.render (record : LogRecord) : String :=
  record.level.label ++ " " ++ record.message

end Sketchbook
