/-
  What a name can stand for.
-/
import ProcLang.Tree.Basetype

namespace ProcLang

/-- What a name is bound to: a variable, or a procedure with its parameter types in order and
    its return type. -/
inductive Entity where
  | value (type : Basetype)
  | procedure (parameters : List Basetype) (result : Basetype)
deriving DecidableEq, Repr

namespace Entity

/-- The basetype of a name. -/
def basetype : Entity → Basetype
  | value t => t
  | procedure _ _ => .procedure

/-- The parameter types; a variable has none. -/
def parameterTypes : Entity → List Basetype
  | value _ => []
  | procedure ps _ => ps

/-- The return type; a variable has none. -/
def returnType : Entity → Basetype
  | value _ => .unknown
  | procedure _ r => r

/-- Names that can be called. -/
def isProcedure (e : Entity) : Bool := e.basetype = .procedure

end Entity

/-- An entity bound in a scope. -/
structure Symbol where
  entity : Entity
  scope : Nat
deriving DecidableEq, Repr

end ProcLang
