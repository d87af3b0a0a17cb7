/-
  Reading types, declarations of variables and groups of parameters.
-/
import ProcLang.Grammar.Stream
import ProcLang.Text.Numeral
import ProcLang.Tree.Stmt

namespace ProcLang.Grammar

open ProcLang.Text Parse

/-- The types that are a single word. -/
def plainType? : Kind → Option DeclaredType
  | .integer => some .integer
  | .boolean => some .boolean
  | .char => some .char
  | .intPtr => some .intPtr
  | .charPtr => some .charPtr
  | _ => none

/-- A string type: the word, and its size in brackets. -/
def stringType : Parse TypeMark := do
  let t ← advance
  let _ ← expect .openBracket
  let size ← expect .number
  match arraySize? size.value with
  | some n => do
    let _ ← expect .closeBracket
    pure ⟨.string n, .bare t.line⟩
  | none => blame size .badNumber

/-- A declared type. -/
def declaredType : Parse TypeMark := do
  let t ← current
  match plainType? t.kind with
  | some declared => do
    let _ ← advance
    pure ⟨declared, .bare t.line⟩
  | none => if t.kind = .string then stringType else unexpected "expected type"

/-- Names with commas between them. -/
def names : Parse (List String) :=
  separatedBy .comma do
    let t ← expect .identifier
    pure t.value

/-- A group of parameters: names, a colon and their type. -/
def parameter : Parse Decl := do
  let t ← current
  let ns ← names
  let _ ← expect .colon
  let type ← declaredType
  pure ⟨ns, type, .bare t.line⟩

/-- A declaration of variables: `var`, names, a colon, their type and a semicolon. -/
def declaration : Parse Decl := do
  let t ← expect .var
  let ns ← names
  let _ ← expect .colon
  let type ← declaredType
  let _ ← expect .semicolon
  pure ⟨ns, type, .bare t.line⟩

/-- All declarations of variables that stand here. -/
def declarations : Parse (List Decl) := manyWhile (fun t => t.kind = .var) declaration

end ProcLang.Grammar
