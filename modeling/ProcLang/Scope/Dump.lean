/-
  The written form of a symbol table.

  Scopes come in the order of their numbers, each with a headline; the names of a scope follow
  in the order of their characters.  That is also the order of their UTF-8 bytes.
-/
import ProcLang.Scope.Table

namespace ProcLang

/-- The bindings of a scope in the order of their names. -/
def Scope.sorted (s : Scope) : List (String × Symbol) :=
  s.bindings.mergeSort fun a b => decide (a.1 ≤ b.1)

/-- What a binding says of its name. -/
def Entity.describe (e : Entity) : String :=
  if e.isProcedure then
    "procedure(" ++ ", ".intercalate (e.parameterTypes.map Basetype.name) ++ ") return " ++
      e.returnType.name
  else e.basetype.name

/-- The headline of a scope. -/
def Scope.headline (s : Scope) : String :=
  "scope " ++ toString s.id ++
    match s.parent? with
    | some p => " (parent " ++ toString p ++ ")"
    | none => " (global)"

/-- The lines of a scope. -/
def Scope.report (s : Scope) : List String :=
  s.headline :: s.sorted.map fun b => "  " ++ b.1 ++ ": " ++ b.2.entity.describe

/-- The lines of a table. -/
def Table.report (t : Table) : List String := t.scopes.toList.flatMap Scope.report

/-- The text of a table, a newline after every line. -/
def Table.dump (t : Table) : String := String.join (t.report.map (· ++ "\n"))

end ProcLang
