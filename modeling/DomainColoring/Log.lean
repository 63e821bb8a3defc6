/-!
# Log lines

What a plot reports to whoever watches over it. Lines that only help to debug are left out.
-/

namespace DomainColoring

inductive LogLevel where
  | info
  | warn
  | error
deriving DecidableEq, Repr

def LogLevel.name : LogLevel → String
  | info => "INFO"
  | warn => "WARN"
  | error => "ERROR"

structure LogLine where
  level : LogLevel
  text : String
deriving DecidableEq, Repr

namespace LogLine

def info (text : String) : LogLine := ⟨.info, text⟩

def warn (text : String) : LogLine := ⟨.warn, text⟩

def error (text : String) : LogLine := ⟨.error, text⟩

/-- The level before the text. -/
def render (line : LogLine) : String := line.level.name ++ " " ++ line.text

end LogLine

end DomainColoring
