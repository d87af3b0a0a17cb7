/-
  The command line program: reads the source that the arguments ask for, and prints the outcome.
-/
import ProcLang.Command.Run

open ProcLang.Command

/-- The read error of a system error number, which may come negated in 32 bits. -/
def readErrorOfNumber (number : UInt32) (text : String) : ReadError :=
  let n := if number < 0x80000000 then number.toNat else (0 - number).toNat
  (([.notFound, .notDirectory, .isDirectory] : List ReadError).find? fun
    | .system m _ => m = n
    | .invalidText => false).getD (.system n text)

/-- The read error that stands for a refusal of the system. -/
def readErrorOf : IO.Error → ReadError
  | .noFileOrDirectory _ number text => readErrorOfNumber number text
  | .inappropriateType _ number text => readErrorOfNumber number text
  | .permissionDenied _ number text => readErrorOfNumber number text
  | e => .system 5 (toString e)

/-- Reads a file, or the standard input to its end. -/
def readSource (file? : Option String) : IO (Except ReadError String) := do
  try
    match file? with
    | some path => pure (decode (← IO.FS.readBinFile path))
    | none => pure (decode (← (← IO.getStdin).readBinToEnd))
  catch e => pure (.error (readErrorOf e))

/-- Runs the command; the source is read only when a check is asked for. -/
def main (arguments : List String) : IO UInt32 := do
  let source ←
    match request arguments with
    | .ok (.check o) => readSource o.file?
    | _ => pure (.ok "")
  let outcome := run arguments fun _ => source
  IO.print outcome.stdout
  IO.eprint outcome.stderr
  pure outcome.exitCode.toUInt32
