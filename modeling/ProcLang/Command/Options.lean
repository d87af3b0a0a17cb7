/-
  The arguments of the command.

  Arguments are read from left to right, and the first one that asks for help or the version, or
  cannot be accepted, settles the matter.  Options in one letter can be joined behind one dash;
  behind `--` everything is the name of a file.
-/

namespace ProcLang.Command

/-- How to check a source. -/
structure Options where
  /-- The file to check; the standard input when there is none. -/
  file? : Option String
  /-- Show the symbol table after a successful check. -/
  dumpSymbols : Bool
  /-- Do not say `ok` after a successful check. -/
  quiet : Bool
deriving DecidableEq, Repr

/-- The options of a command without arguments. -/
def Options.default : Options := ⟨none, false, false⟩

/-- What a command line asks for. -/
inductive Request where
  | check (options : Options)
  | help
  | version
deriving DecidableEq, Repr

/-- Why a command line is refused. -/
inductive UsageError where
  /-- No such option, or a second file. -/
  | unexpected (argument : String)
  /-- An option that is given twice. -/
  | repeated (option : String)
  /-- A value for an option that takes none. -/
  | needless (option value : String)
  /-- An empty file name. -/
  | noFile
deriving DecidableEq, Repr

/-- The text of a usage error. -/
def UsageError.message : UsageError → String
  | unexpected a => "unexpected argument '" ++ a ++ "' found"
  | repeated o => "the argument '" ++ o ++ "' cannot be used multiple times"
  | needless o v => "unexpected value '" ++ v ++ "' for '" ++ o ++ "' found; no more were expected"
  | noFile => "a value is required for '[FILE]' but none was supplied"

/-! ## Options -/

/-- The options of the command. -/
inductive Flag where
  | dumpSymbols | quiet | help | version
deriving DecidableEq, Repr

/-- The name of an option, as error messages show it. -/
def Flag.name : Flag → String
  | dumpSymbols => "--dump-symbols"
  | quiet => "--quiet"
  | help => "--help"
  | version => "--version"

/-- The option of a long name. -/
def longFlag? (name : String) : Option Flag :=
  [Flag.dumpSymbols, .quiet, .help, .version].find? fun f => f.name = name

/-- The option of a letter. -/
def shortFlag? : Char → Option Flag
  | 'q' => some .quiet
  | 'h' => some .help
  | 'V' => some .version
  | _ => none

/-- Reading goes on with more options, or comes to its end. -/
abbrev Step := Except (Except UsageError Request) Options

/-- Takes an option. -/
def Options.set (o : Options) : Flag → Step
  | .help => .error (.ok .help)
  | .version => .error (.ok .version)
  | .dumpSymbols =>
    if o.dumpSymbols then .error (.error (.repeated Flag.dumpSymbols.name))
    else .ok { o with dumpSymbols := true }
  | .quiet =>
    if o.quiet then .error (.error (.repeated Flag.quiet.name)) else .ok { o with quiet := true }

/-- Takes options in one letter each. -/
def Options.setAll (o : Options) : List Char → Step
  | [] => .ok o
  | c :: cs =>
    match shortFlag? c with
    | some f => do (← o.set f).setAll cs
    | none => .error (.error (.unexpected ("-" ++ String.singleton c)))

/-- Takes an option by its long name, which cannot have a value behind an equals sign. -/
def Options.setLong (o : Options) (argument : String) : Step :=
  let name := String.ofList (argument.toList.takeWhile (· ≠ '='))
  match longFlag? name, argument.toList.dropWhile (· ≠ '=') with
  | some f, [] => o.set f
  | some f, _ :: value => .error (.error (.needless f.name (String.ofList value)))
  | none, _ => .error (.error (.unexpected name))

/-- Takes the name of the file to check. -/
def Options.setFile (o : Options) (name : String) : Step :=
  if o.file?.isSome then .error (.error (.unexpected name))
  else if name.isEmpty then .error (.error .noFile)
  else .ok { o with file? := some name }

/-- Takes one argument in front of `--`. -/
def Options.setArgument (o : Options) (argument : String) : Step :=
  match argument.toList with
  | '-' :: '-' :: _ => o.setLong argument
  | '-' :: c :: cs => o.setAll (c :: cs)
  | _ => o.setFile argument

/-- Takes arguments behind `--`, and then before it. -/
def Options.read (o : Options) : List String → Step
  | [] => .ok o
  | a :: as =>
    if a = "--" then as.foldlM Options.setFile o else do (← o.setArgument a).read as

/-- What a command line asks for. -/
def request (arguments : List String) : Except UsageError Request :=
  match Options.default.read arguments with
  | .ok o => .ok (.check o)
  | .error settled => settled

end ProcLang.Command
