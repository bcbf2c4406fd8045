import Permalink.Command

namespace Permalink.Command

def readFile (path : String) : IO (Option String) := do
  try
    return some (← IO.FS.readFile path)
  catch _ => return none

def settingNames : List String := ["schema_file", "bind", "log_filter", "hooks"]

/-- The variables of the environment that are spelled in capital or in small letters only. -/
def readVariables : IO (List Variable) := do
  let names := settingNames.map (Settings.variableMark ++ ·)
  let found ← (names ++ names.map (·.map Char.toUpper)).filterMapM fun name => do
    return (← IO.getEnv name).map fun value => Variable.mk name value
  return found

def usage : String :=
  "usage: permalink [--config <file>] (parse <url>... | construct <state-json>)"

end Permalink.Command

open Permalink.Command in
def main (arguments : List String) : IO UInt32 := do
  let outcome ← (script arguments (← readVariables)).run readFile
  for line in outcome.lines do
    IO.println line
  if outcome.succeeded then return 0
  IO.eprintln usage
  return 1
