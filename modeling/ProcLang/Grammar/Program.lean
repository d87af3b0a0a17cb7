/-
  Reading procedures and programs.

  A body holds procedures of its own; an inner procedure starts behind the brace of its body,
  so as many levels as there are tokens left are enough.
-/
import ProcLang.Grammar.Statement
import ProcLang.Tree.Program

namespace ProcLang.Grammar

open Parse

/-- The parameters of a procedure, in parentheses, with semicolons between the groups. -/
def parameters : Parse (List Decl) := do
  let _ ← expect .openParen
  let ds ← listBefore .closeParen (separatedBy .semicolon parameter)
  let _ ← expect .closeParen
  pure ds

/-- The head of a procedure, up to its return type. -/
def header : Parse Header := do
  let t ← expect .procedure
  let name ← expectFor .identifier "expected procedure name"
  let ds ← parameters
  let _ ← expect .return
  let type ← declaredType
  pure ⟨name.value, ds, type, .bare t.line⟩

/-- A return and its value. -/
def result (rules : Rules) : Parse Return := do
  let t ← expect .return
  let e ← expression rules .default
  let _ ← expect .semicolon
  pure ⟨e, .bare t.line⟩

/-- The return at the end of a body. -/
def finalResult (rules : Rules) : Parse Return := do
  if (← current).kind = .return then result rules
  else unexpected "expected return statement at the end of the procedure"

/-! ## Forms, over a reader of inner procedures -/

section Forms

variable (inner : Parse Procedure)

/-- A procedure body in braces: procedures, declarations, statements and a return. -/
def bodyWith (rules : Rules) : Parse Body := do
  let t ← expect .openCurly
  let ps ← manyWhile (fun t => t.kind = .procedure) inner
  let ds ← declarations
  let ss ← manyWhile (fun t => t.kind ≠ .return ∧ t.kind ≠ .closeCurly ∧ t.kind ≠ .eof)
    (statement rules)
  let r ← finalResult rules
  let _ ← expect .closeCurly
  pure (.mk ps ds ss r (.bare t.line))

/-- A procedure. -/
def procedureWith (rules : Rules) : Parse Procedure := do
  let h ← header
  let b ← bodyWith inner rules
  pure (.mk h b)

end Forms

/-! ## The knot -/

/-- Procedures that nest at most `n` levels deep. -/
def procedureUpTo (rules : Rules) : Nat → Parse Procedure
  | 0 => procedureWith (unexpected "expected procedure") rules
  | n + 1 => procedureWith (procedureUpTo rules n) rules

/-- A procedure. -/
def procedure (rules : Rules) : Parse Procedure := fun s => procedureUpTo rules s.remaining s

/-- A procedure body. -/
def body (rules : Rules) : Parse Body := bodyWith (procedure rules) rules

/-! ## Programs -/

/-- A procedure at the top level, where nothing else can stand. -/
def topProcedure : Parse Procedure := do
  if (← current).kind = .procedure then procedure .standard
  else unexpected "expected procedure declaration"

/-- A program: procedures up to the end marker. -/
def program : Parse Program := do
  let ps ← manyWhile (fun t => t.kind ≠ .eof) topProcedure
  let t ← current
  pure ⟨ps, .bare t.line⟩

/-- Reads a token list as a program. -/
def parse (file : String) (tokens : List Token) : Except Diagnostic Program :=
  match program (.ofTokens file tokens) with
  | .ok p _ => .ok p
  | .error d _ => .error d

end ProcLang.Grammar
