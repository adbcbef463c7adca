import MonkeyLang.CommandLine.Execute
import MonkeyLang.Text.Letter

/-!
The program. It reads the environment, the arguments and the one file that they name, and prints
what the command line answers.
-/
namespace MonkeyLang.CommandLine

def settingVariables : List String := ["MONKEY_DEBUG", "MONKEY_LOG_LEVEL", "MONKEY_RECURSION_LIMIT"]

def readSettings : IO Settings := do
  let values ← settingVariables.mapM fun name => return (name, ← IO.getEnv name)
  return .ofEnvironment fun name => (values.lookup name).join

def readEntry (path : String) : IO Entry := do
  try
    return .file (← IO.FS.readBinFile path).toList
  catch
    | .noFileOrDirectory .. => return .missing
    | _ => return .directory

end MonkeyLang.CommandLine

open MonkeyLang CommandLine in
def main (arguments : List String) : IO UInt32 := do
  let settings ← readSettings
  let invocation := Invocation.ofArguments (expandShort arguments)
  let entry ← match invocation.file? with
    | some path => readEntry path
    | none => pure .missing
  let output := invocation.execute "monkey" settings entry
  IO.print output.stdout
  IO.eprint output.stderr
  if let some crash := output.crash then
    IO.eprintln crash.message
  return output.exit.toUInt32
