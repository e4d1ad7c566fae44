import Fixity.CommandLine

/-!
Contract: the program.

Owns: reading files, writing streams, waiting, and the exit code. A run that asks for a file is
started again once the file has been looked for, since nothing is written before a run has ended.
-/

namespace Fixity.CommandLine

/-- The system's words and number for a failure. -/
private def systemReason (words : String) (number : UInt32) : String :=
  words ++ " (os error " ++ toString number ++ ")"

/-- Why a file could not be read. -/
private def reason : IO.Error → String
  | .noFileOrDirectory _ _ _ => noFile
  | .permissionDenied _ number words => systemReason words number
  | .inappropriateType _ number words => systemReason words number
  | .userError _ => "stream did not contain valid UTF-8"
  | other => toString other

/-- What reading a file gave. -/
private def lookFor (path : String) : IO (Except String String) := do
  try
    return .ok (← IO.FS.readFile path)
  catch failure =>
    return .error (reason failure)

private def carryOut (effect : Effect) : IO Unit := do
  match effect with
  | .line text => IO.println text
  | .pause seconds => IO.sleep (seconds * 1000.0).toUInt32

/-- Runs the command line with the files looked for so far, and looks for those it asks for. -/
private def runWith (arguments : List String) (found : List (String × Except String String)) :
    (tries : Nat) → IO UInt32
  | 0 => return 1
  | tries + 1 => do
      match run (fun path => found.lookup path) arguments with
      | .fileNeeded path => runWith arguments ((path, ← lookFor path) :: found) tries
      | .done report =>
          report.effects.forM carryOut
          IO.eprint report.errors
          return report.code.toUInt32

/-- The program on a list of arguments. -/
def start (arguments : List String) : IO UInt32 := runWith arguments [] 1000000

end Fixity.CommandLine

/-- The entry point. -/
def main (arguments : List String) : IO UInt32 := Fixity.CommandLine.start arguments
