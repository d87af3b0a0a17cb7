/-
  The command: what it prints, and its exit status.

  A check reads one source and either finds nothing wrong (status 0), or cannot read it or finds
  a lexical or syntax error (status 1), or finds a violation of the static rules, which has a
  status of its own.  Only a status of 0 goes with text on the standard output.

  An error that cannot be shown to the end, because its arrow is too long, ends the command at
  once, with a status for that.  What the system adds to the error output then is left out here.
-/
import ProcLang.Command.Options
import ProcLang.Command.Source
import ProcLang.Diagnostic.Excerpt
import ProcLang.Grammar.Program
import ProcLang.Scope.Dump
import ProcLang.Token.Tokenize
import ProcLang.Typing.Procedure

namespace ProcLang.Command

/-- What a command leaves behind. -/
structure Outcome where
  exitCode : Nat
  stdout : String
  stderr : String
deriving DecidableEq, Repr

/-! ## Stages -/

/-- The stage at which a source is found to be no program. -/
inductive Stage where
  | lexical
  | grammatical
deriving DecidableEq, Repr

/-- Reads a source as a program; `file?` names it for the tokens and `parsedAs` for the grammar. -/
def readProgram (source : String) (file? : Option String) (parsedAs : String) :
    Except (Stage × Diagnostic) Program := do
  let tokens ← (tokenize source file?).mapError fun d => (.lexical, d)
  (Grammar.parse parsedAs tokens).mapError fun d => (.grammatical, d)

/-- The exit status of a command that breaks off. -/
def brokenOff : Nat := 101

/-- Shows a lexical or syntax error. -/
def showError (d : Diagnostic) (source : String) : Outcome :=
  ⟨if (d.report source).complete then 1 else brokenOff, "", d.render source⟩

/-- Checks a source that is known to messages as `name`. -/
def check (o : Options) (name source : String) : Outcome :=
  match readProgram source (some name) name with
  | .error (_, d) => showError d source
  | .ok p =>
    let v := p.typeCheck
    match v.result with
    | .error e => ⟨e.violation.exitCode, "", e.message ++ "\n"⟩
    | .ok () =>
      ⟨0, (if o.dumpSymbols then v.table.dump else "") ++ (if o.quiet then "" else "ok\n"), ""⟩

/-! ## Texts -/

/-- The name and version of the program. -/
def versionText : String := "typecheck 0.1.0\n"

/-- How to call the command. -/
def usageLine : String := "Usage: typecheck [OPTIONS] [FILE]"

/-- The help text. -/
def helpText : String :=
  "Semantic checker for the procedure language\n\n" ++ usageLine ++ "\n\n" ++
  "Arguments:\n" ++
  "  [FILE]  Source file to check (reads stdin when omitted)\n\n" ++
  "Options:\n" ++
  "      --dump-symbols  Print every scope of the symbol table after a successful check\n" ++
  "  -q, --quiet         Do not print anything on success\n" ++
  "  -h, --help          Print help\n" ++
  "  -V, --version       Print version\n"

/-- The text shown for a usage error. -/
def usageText (e : UsageError) : String :=
  "error: " ++ e.message ++ "\n\n" ++ usageLine ++ "\n\nFor more information, try '--help'.\n"

/-! ## Running -/

/-- Answers a request; `read` gives the text of a file, or of the standard input. -/
def answer (read : Option String → Except ReadError String) : Request → Outcome
  | .help => ⟨0, helpText, ""⟩
  | .version => ⟨0, versionText, ""⟩
  | .check o =>
    match read o.file? with
    | .error e => ⟨1, "", "error: " ++ e.message ++ "\n"⟩
    | .ok source => check o ((o.file?.map displayName).getD "stdin") source

/-- Runs a command line. -/
def run (arguments : List String) (read : Option String → Except ReadError String) : Outcome :=
  match request arguments with
  | .error e => ⟨2, "", usageText e⟩
  | .ok r => answer read r

/-- The text that bytes encode. -/
def decode (bytes : ByteArray) : Except ReadError String :=
  match String.fromUTF8? bytes with
  | some text => .ok text
  | none => .error .invalidText

end ProcLang.Command
