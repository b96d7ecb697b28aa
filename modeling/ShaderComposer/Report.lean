/-!
# Reports

What building and drawing tell about themselves: texts with a level that says how grave they are.
-/

namespace ShaderComposer

inductive LogLevel where
  | error
  | warn
  | info
  | debug
deriving DecidableEq, Inhabited

namespace LogLevel

def name : LogLevel → String
  | error => "error"
  | warn => "warn"
  | info => "info"
  | debug => "debug"

def rank : LogLevel → Nat
  | error => 1
  | warn => 2
  | info => 3
  | debug => 4

end LogLevel

structure LogRecord where
  level : LogLevel
  text : String
deriving DecidableEq, Inhabited

end ShaderComposer
