import MonkeyLang.Layout.Panel

/-!
Failures as they are reported to the user of a run: in one line, as a formatted text, and as a
panel.
-/
namespace MonkeyLang

inductive Failure where
  | malformed (messages : List String) (filename : String)
  | runtime (message : String) (filename : String)
  | general (message : String)
deriving DecidableEq

namespace Failure

def defaultFilename : String := "<stdin>"

def message : Failure → String
  | malformed messages filename =>
    toString messages.length ++ " syntax error(s) in " ++ filename
  | runtime message _ => message
  | general message => message

def filename? : Failure → Option String
  | malformed _ filename => some filename
  | runtime _ filename => some filename
  | general _ => none

def malformedLines (messages : List String) (filename : String) : List String :=
  ("parser errors in " ++ filename ++ ":") :: messages.map ("  " ++ ·)

def formatted : Failure → String
  | malformed messages filename => "\n".intercalate (malformedLines messages filename)
  | runtime message _ => "ERROR: " ++ message
  | general message => message

def title : Failure → String
  | malformed _ _ => "Syntax Error"
  | _ => "Runtime Error"

def panel (failure : Failure) : String := Layout.panel failure.title failure.formatted

end Failure

end MonkeyLang
