/-
  Procedures and programs.

  A procedure is a header, which is all that its callers see, and a body.  The body has nested
  procedures, then variables, then statements, and ends with a return.
-/
import ProcLang.Tree.Stmt

namespace ProcLang

/-- The return at the end of a body. -/
structure Return where
  value : Expr
  attr : Attribute
deriving DecidableEq

/-- What callers see of a procedure.  The attribute is that of the whole procedure. -/
structure Header where
  name : String
  parameters : List Decl
  returnType : TypeMark
  attr : Attribute
deriving DecidableEq

/-- The types of the parameters, one for each name. -/
def Header.parameterTypes (h : Header) : List Basetype :=
  h.parameters.flatMap fun d => d.names.map fun _ => d.type.basetype

mutual

/-- Procedures. -/
inductive Procedure where
  | mk (header : Header) (body : Body)

/-- Procedure bodies.  Their names live in the scope of the parameters. -/
inductive Body where
  | mk (procedures : List Procedure) (decls : List Decl) (stmts : List Stmt) (result : Return)
      (attr : Attribute)

end

namespace Procedure

/-- What callers see of a procedure. -/
def header : Procedure → Header
  | mk h _ => h

/-- What a procedure does. -/
def body : Procedure → Body
  | mk _ b => b

/-- The procedure with another header and the body that it has. -/
def withHeader (p : Procedure) (h : Header) : Procedure := mk h p.body

end Procedure

namespace Body

/-- The procedures that are declared in a body. -/
def procedures : Body → List Procedure
  | mk ps _ _ _ _ => ps

/-- The variables of a body. -/
def decls : Body → List Decl
  | mk _ ds _ _ _ => ds

/-- The statements of a body, but for the return. -/
def stmts : Body → List Stmt
  | mk _ _ ss _ _ => ss

/-- The return that ends a body. -/
def result : Body → Return
  | mk _ _ _ r _ => r

/-- The attribute of a body. -/
def attr : Body → Attribute
  | mk _ _ _ _ a => a

end Body

/-- A whole program: its top level procedures. -/
structure Program where
  procedures : List Procedure
  attr : Attribute

end ProcLang
