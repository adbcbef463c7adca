import MonkeyLang.CommandLine.Similar
import MonkeyLang.CommandLine.Usage
import MonkeyLang.Text.Quoted

/-!
Refusals: why arguments cannot be used, and the report of it. An unknown word is reported with the
known words that are similar to it.
-/
namespace MonkeyLang.CommandLine

inductive Refusal where
  | unknownFlag (name : String) (suggestions : List String)
  | flagValue (flag : Flag)
  | missingCommand
  | unknownCommand (word : String) (suggestions : List String)
  | missingOperand (name : String)
  | missingFile (name : String)
  | directory (name : String)
  | extraOperands (operands : List String)
deriving DecidableEq

def suggestions (known : List String) (word : String) : List String :=
  (known.filter fun candidate => similar candidate word).mergeSort (· ≤ ·)

def withSuggestions (sentence : String) : List String → String
  | [] => sentence
  | [one] => sentence ++ " Did you mean " ++ Text.quoted one ++ "?"
  | several =>
    sentence ++ " (Did you mean one of: " ++ ", ".intercalate (several.map Text.quoted) ++ "?)"

namespace Refusal

def message : Refusal → String
  | unknownFlag name suggestions =>
    withSuggestions ("No such option " ++ Text.quoted name ++ ".") suggestions
  | flagValue flag => "Option " ++ Text.quoted flag.name ++ " does not take a value."
  | missingCommand => "Missing command."
  | unknownCommand word suggestions =>
    withSuggestions ("No such command " ++ Text.quoted word ++ ".") suggestions
  | missingOperand name => "Missing argument '" ++ name ++ "'."
  | missingFile name => "Invalid value for 'FILE': File " ++ Text.quoted name ++ " does not exist."
  | directory name => "Invalid value for 'FILE': File " ++ Text.quoted name ++ " is a directory."
  | extraOperands operands =>
    "Got unexpected extra argument" ++ (if operands.length = 1 then "" else "s") ++ " (" ++
      " ".intercalate operands ++ ")"

def showsUsage : Refusal → Bool
  | flagValue _ => false
  | _ => true

def report (program : String) (command : Option Command) (refusal : Refusal) : String :=
  (if refusal.showsUsage then usageHint program command else "") ++ "Error: " ++ refusal.message ++
    "\n"

end Refusal

end MonkeyLang.CommandLine
