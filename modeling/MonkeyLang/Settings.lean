import MonkeyLang.Eval.Evaluate
import MonkeyLang.Text.Decimal
import MonkeyLang.Text.Lower
import MonkeyLang.Text.Quoted

/-!
Settings, read from environment variables. The debug flag alone decides on debug messages; messages
of other levels are compared with the log level.
-/
namespace MonkeyLang

inductive Level where
  | debug
  | info
  | warning
  | error
  | critical
deriving DecidableEq

namespace Level

def name : Level → String
  | debug => "debug"
  | info => "info"
  | warning => "warning"
  | error => "error"
  | critical => "critical"

def severity : Level → Nat
  | debug => 10
  | info => 20
  | warning => 30
  | error => 40
  | critical => 50

def ofName? (name : String) : Option Level :=
  [debug, info, warning, error, critical].find? (·.name = name)

end Level

structure Settings where
  debug : Bool := false
  logLevel : String := "warning"
  recursionLimit : Option Int := none
deriving DecidableEq

namespace Settings

def isTruthy (text : String) : Bool :=
  ["1", "true", "yes", "on"].contains (Text.lower (Text.trim text))

def ofEnvironment (lookup? : String → Option String) : Settings where
  debug := ((lookup? "MONKEY_DEBUG").map isTruthy).getD false
  logLevel := Text.lower (Text.trim ((lookup? "MONKEY_LOG_LEVEL").getD "warning"))
  recursionLimit := (lookup? "MONKEY_RECURSION_LIMIT").bind Text.integer?

/-- The level from which messages are logged; an unknown name counts as warning. -/
def threshold (s : Settings) : Level := (Level.ofName? s.logLevel).getD .warning

def shouldLog (s : Settings) (level : String) : Bool :=
  if level = "debug" then s.debug
  else s.threshold.severity ≤ ((Level.ofName? level).getD .debug).severity

def loggerLevel (s : Settings) : Level := if s.debug then .debug else s.threshold

def logLine? (s : Settings) (message : String) (data : Option String) (level : String) :
    Option String :=
  if s.shouldLog level then
    match data with
    | some data => some (evaluatorLine (message ++ ": " ++ data))
    | none => some (evaluatorLine message)
  else none

def depth (s : Settings) : Nat :=
  match s.recursionLimit with
  | some limit => if 0 < limit then min limit.toNat defaultDepth else defaultDepth
  | none => defaultDepth

def display (s : Settings) : String :=
  "MonkeyConfig(enable_debug_logs=" ++ (if s.debug then "True" else "False") ++ ", log_level=" ++
    Text.quoted s.logLevel ++ ", recursion_limit=" ++
    ((s.recursionLimit.map toString).getD "None") ++ ")"

end Settings

end MonkeyLang
