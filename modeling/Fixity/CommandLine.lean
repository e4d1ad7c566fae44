import Fixity.Library

/-!
Contract: the command line, as a function of its arguments and of the files it may read.

Owns:
- the reading of the arguments: switches, alone or run together, and one text;
- the functions that the command line adds for programs: `print`, `load` and `sleep`;
- `CommandLine.run`, the exit code, the effects and what is written on either stream.

Does not own: files, clocks and streams themselves.
-/

namespace Fixity.CommandLine

/-- What the arguments ask for. -/
structure Options where
  /-- The text names a file that holds the program. -/
  file : Bool
  /-- The value of the program is written. -/
  pipeMode : Bool
  /-- The standard library is left out. -/
  noLibrary : Bool
  /-- The texts among the arguments; there must be one. -/
  texts : List String

namespace Options

private def withSwitch (options : Options) (switch : String) : Option Options :=
  if switch = "f" ∨ switch = "file" then
    if options.file then none else some { options with file := true }
  else if switch = "p" ∨ switch = "pipe-mode" then
    if options.pipeMode then none else some { options with pipeMode := true }
  else if switch = "n" ∨ switch = "no-stdlib" then
    if options.noLibrary then none else some { options with noLibrary := true }
  else none

private def withText (options : Options) (text : String) : Options :=
  { options with texts := options.texts ++ [text] }

/-- Reads arguments; behind `--` all of them are texts, and no switch may stand twice. -/
private def readFrom (options : Options) : List String → Option Options
  | [] => some options
  | argument :: rest =>
      match argument.toList with
      | ['-', '-'] => some (rest.foldl withText options)
      | '-' :: '-' :: name => do readFrom (← options.withSwitch (String.ofList name)) rest
      | '-' :: first :: others => do
          readFrom
            (← (first :: others).foldlM (fun options char => options.withSwitch char.toString)
              options)
            rest
      | _ => readFrom (options.withText argument) rest

/-- The options of a list of arguments, if it is well formed. -/
def read? (arguments : List String) : Option (Options × String) := do
  let options ← readFrom ⟨false, false, false, []⟩ arguments
  match options.texts with
  | [text] => some (options, text)
  | _ => none

end Options

/-! ## Files -/

/-- What is known about files: the content, or why it can not be read; none if nobody looked yet. -/
abbrev Files := String → Option (Except String String)

/-- Why a file that is not there can not be read. -/
def noFile : String := "No such file or directory (os error 2)"

/-- The files of a directory that holds nothing else, by name. A name may start with `./`. -/
def listedFiles (files : List (String × String)) : Files := fun path =>
  let parts := (Text.splitAt path.toList ['/']).map String.ofList
  let plain :=
    match parts with
    | "" :: _ => path
    | parts => String.intercalate "/" (parts.filter fun part => part ≠ "." ∧ part ≠ "")
  match files.lookup plain with
  | some content => some (.ok content)
  | none => some (.error noFile)

/-! ## Functions for programs -/

/-- The length of time that a number of seconds stands for, if there is one. -/
def duration (seconds : Float) : Outcome Float :=
  if seconds < 0.0 then
    .error (.invalidArgument (.sleepDuration seconds
      "cannot convert float seconds to Duration: value is negative"))
  else if seconds < 18446744073709551616.0 then .ok seconds
  else
    .error (.invalidArgument (.sleepDuration seconds
      "cannot convert float seconds to Duration: value is either too big or NaN"))

/-- The names of the functions that the command line adds. -/
def hostNames : List String := ["print", "load", "sleep"]

/-- What the functions that the command line adds do. -/
def host (files : Files) : Host := fun name interpreter arguments => do
  if name = "print" then
    let heap := (← get).heap
    Eval.emit (.line (String.intercalate " " (arguments.map heap.display)))
    return arguments.getLastD .zero
  else
    match arguments with
    | [argument] =>
        if name = "load" then
          let path ← OnHeap.textOf argument "the path given to load"
          match files path with
          | some (.ok content) => interpreter.evaluate content
          | some (.error reason) => Eval.fail (.invalidArgument (.unreadable path reason))
          | none => throw (.fileNeeded path)
        else
          let seconds ← argument.asReal "the duration given to sleep"
          let length ← duration seconds
          Eval.emit (.pause length)
          return .zero
    | _ => Eval.fail (.argumentCount "1" arguments.length)

/-! ## Running -/

/-- What a run of the command line does. -/
structure Report where
  code : Nat
  effects : List Effect
  errors : String

/-- How a run ended, or the file it can not go on without. -/
inductive Result where
  | done (report : Report)
  | fileNeeded (path : String)

/-- Evaluates a program in the scope that the options ask for. -/
def evaluation (files : Files) (options : Options) (program : String) : Eval Unit := do
  if options.noLibrary then Library.useNative else Library.useStandard
  let scope ← Library.registerHost (← Eval.scope) hostNames
  Eval.modifyScope fun _ => scope
  let value ← (Eval.interpreter (host files)).evaluate program
  if options.pipeMode then Eval.emit (.line ((← get).heap.display value))

/-- The result of evaluating a program. -/
def runProgram (files : Files) (options : Options) (program : String) : Result :=
  match evaluation files options program (.initial .empty .empty) with
  | .ok _ state => .done ⟨0, state.effects.toList, ""⟩
  | .error (.error error) state => .done ⟨1, state.effects.toList, error.message ++ "\n"⟩
  | .error (.fileNeeded path) _ => .fileNeeded path
  | .error .conflict state =>
      .done ⟨101, state.effects.toList, "a cell was read while it was being changed\n"⟩
  | .error .exhausted state =>
      .done ⟨101, state.effects.toList, "the bound on evaluation was reached\n"⟩

/-- The result of running the command line. -/
def run (files : Files) (arguments : List String) : Result :=
  match Options.read? arguments with
  | none => .done ⟨2, [], ""⟩
  | some (options, text) =>
      if options.file then
        match files text with
        | none => .fileNeeded text
        | some (.ok program) => runProgram files options program
        | some (.error _) =>
            .done ⟨1, [], "Failed to read the input file '" ++ text ++
              "'. Perhaps this file does not exist?\n"⟩
      else
        runProgram files options text

end Fixity.CommandLine
