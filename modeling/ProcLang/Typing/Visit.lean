/-
  What a visit of the checker leaves behind.

  A visit puts basetypes into the node it is given, and stops at the first violation.  Either
  way it hands back the node as far as it got.  Visits of expressions read an environment and
  change nothing else (`Found`); visits of declarations, statements and procedures also hand
  back the symbol table (`Visit`).
-/
import ProcLang.Scope.Table
import ProcLang.Typing.Violation

namespace ProcLang

variable {α β γ δ : Type}

/-- What names stand for. -/
abbrev Env := String → Option Entity

/-- What the names of a table stand for, seen from its current scope. -/
def Table.env (t : Table) : Env := fun name => (t.lookup name).map Symbol.entity

/-- A violation found on line `line`. -/
def onLine (line : Nat) (verdict : Except Violation β) : Except SemanticError β :=
  verdict.mapError fun v => ⟨v, line⟩

/-! ## Visits that read an environment -/

/-- A node after a visit, and what the visit found. -/
structure Found (α β : Type) where
  node : α
  result : Except SemanticError β

namespace Found

/-- Goes on with what was found, or stops and puts the node into its place with `stop`. -/
def andThen (f : Found α β) (stop : α → γ) (go : α → β → Found γ δ) : Found γ δ :=
  match f.result with
  | .ok b => go f.node b
  | .error e => ⟨stop f.node, .error e⟩

/-- The end of a visit: a node with the attribute `a`, which takes the basetype of the verdict. -/
def conclude (a : Attribute) (verdict : Except Violation Basetype) (build : Attribute → α) :
    Found α Basetype :=
  match verdict with
  | .ok b => ⟨build (a.mark b), .ok b⟩
  | .error v => ⟨build a, .error ⟨v, a.line⟩⟩

end Found

/-! ## Visits that change the symbol table -/

/-- A node and the symbol table after a visit, and what the visit found. -/
structure Visit (α β : Type) where
  node : α
  table : Table
  result : Except SemanticError β

namespace Visit

/-- Goes on with what was found, or stops and puts the node into its place with `stop`. -/
def andThen (v : Visit α β) (stop : α → γ) (go : α → Table → β → Visit γ δ) : Visit γ δ :=
  match v.result with
  | .ok b => go v.node v.table b
  | .error e => ⟨stop v.node, v.table, .error e⟩

/-- Puts the node into its place. -/
def mapNode (f : α → γ) (v : Visit α β) : Visit γ β := ⟨f v.node, v.table, v.result⟩

/-- Forgets what was found. -/
def forget (v : Visit α β) : Visit α Unit := ⟨v.node, v.table, v.result.map fun _ => ()⟩

end Visit

/-- The visit of a node that leaves the table `t` alone. -/
def Found.within (f : Found α β) (t : Table) : Visit α β := ⟨f.node, t, f.result⟩

end ProcLang
