/-
  Reading statements and nested blocks.

  As for expressions, the forms take the reader of inner statements as a parameter.  An inner
  statement starts behind the brace of its block, so as many levels as there are tokens left
  are enough.
-/
import ProcLang.Grammar.Declaration
import ProcLang.Grammar.Expression
import ProcLang.Tree.Stmt

namespace ProcLang.Grammar

open Parse

/-! ## Assignments -/

/-- Arguments in parentheses, with commas between them. -/
def arguments (rules : Rules) : Parse (List Expr) := do
  let _ ← expect .openParen
  let es ← listBefore .closeParen (separatedBy .comma (expression rules .default))
  let _ ← expect .closeParen
  pure es

/-- What stands behind the sign of an assignment to `target`: a string literal, a call, which is
    a name with an opening parenthesis behind it, or any expression. -/
def assigned (rules : Rules) (line : Nat) (target : Location) : Parse Stmt := do
  let t ← current
  if t.kind = .stringLiteral then
    let text ← advance
    pure (.assignString (.bare line) target text.value)
  else if t.kind = .identifier ∧ (← peek 1) = .openParen then
    let callee ← advance
    let es ← arguments rules
    pure (.call (.bare line) target callee.value es)
  else
    let e ← expression rules .default
    pure (.assign (.bare line) target e)

/-- An assignment, up to its semicolon. -/
def assignment (rules : Rules) : Parse Stmt := do
  let t ← current
  let target ← location rules
  let _ ← expect .assignment
  let stmt ← assigned rules t.line target
  let _ ← expect .semicolon
  pure stmt

/-! ## Forms, over a reader of inner statements -/

/-- A condition in parentheses. -/
def condition (rules : Rules) : Parse Expr := do
  let _ ← expect .openParen
  let e ← expression rules .default
  let _ ← expect .closeParen
  pure e

section Forms

variable (inner : Parse Stmt)

/-- A nested block: declarations and statements in braces. -/
def blockWith : Parse Block := do
  let t ← expect .openCurly
  let ds ← declarations
  let ss ← manyWhile (fun t => t.kind ≠ .closeCurly ∧ t.kind ≠ .eof) inner
  let _ ← expect .closeCurly
  pure (.mk ds ss (.bare t.line))

/-- An `if`, with or without an `else`. -/
def conditional (rules : Rules) : Parse Stmt := do
  let t ← advance
  let e ← condition rules
  let body ← blockWith inner
  if (← current).kind = .else then
    let _ ← advance
    let otherwise ← blockWith inner
    pure (.ifElse (.bare t.line) e body otherwise)
  else pure (.ifThen (.bare t.line) e body)

/-- A `while`. -/
def loop (rules : Rules) : Parse Stmt := do
  let t ← advance
  let e ← condition rules
  let body ← blockWith inner
  pure (.loop (.bare t.line) e body)

/-- A block as a statement. -/
def blockStmt : Parse Stmt := do
  let t ← current
  let body ← blockWith inner
  pure (.block (.bare t.line) body)

/-- A statement, of the form that its first token calls for. -/
def statementWith (rules : Rules) : Parse Stmt := do
  match rules.stmtStart? (← current).kind with
  | some .conditional => conditional inner rules
  | some .loop => loop inner rules
  | some .block => blockStmt inner
  | some .assignment => assignment rules
  | none => assignment rules

end Forms

/-! ## The knot -/

/-- Statements that nest at most `n` levels deep. -/
def statementUpTo (rules : Rules) : Nat → Parse Stmt
  | 0 => statementWith (unexpected "expected statement") rules
  | n + 1 => statementWith (statementUpTo rules n) rules

/-- A statement. -/
def statement (rules : Rules) : Parse Stmt := fun s => statementUpTo rules s.remaining s

/-- A nested block. -/
def block (rules : Rules) : Parse Block := blockWith (statement rules)

end ProcLang.Grammar
