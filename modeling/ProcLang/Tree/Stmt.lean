/-
  Declarations, statements and nested blocks.

  The value of an assignment is an expression, a string literal or a call: strings and calls
  are no expressions, so each has a statement of its own.
-/
import ProcLang.Tree.Expr

namespace ProcLang

/-- A declaration of variables, or a group of parameters, of one type. -/
structure Decl where
  names : List String
  type : TypeMark
  attr : Attribute
deriving DecidableEq

mutual

/-- Statements. -/
inductive Stmt where
  | assign (attr : Attribute) (target : Location) (value : Expr)
  | assignString (attr : Attribute) (target : Location) (text : String)
  | call (attr : Attribute) (target : Location) (callee : String) (arguments : List Expr)
  | ifThen (attr : Attribute) (condition : Expr) (body : Block)
  | ifElse (attr : Attribute) (condition : Expr) (body otherwise : Block)
  | loop (attr : Attribute) (condition : Expr) (body : Block)
  | block (attr : Attribute) (body : Block)

/-- A nested block, with its own declarations. -/
inductive Block where
  | mk (decls : List Decl) (stmts : List Stmt) (attr : Attribute)

end

/-- The attribute of a statement. -/
def Stmt.attr : Stmt → Attribute
  | .assign a _ _ => a
  | .assignString a _ _ => a
  | .call a _ _ _ => a
  | .ifThen a _ _ => a
  | .ifElse a _ _ _ => a
  | .loop a _ _ => a
  | .block a _ => a

namespace Block

/-- The variables of a block. -/
def decls : Block → List Decl
  | mk ds _ _ => ds

/-- The statements of a block. -/
def stmts : Block → List Stmt
  | mk _ ss _ => ss

/-- The attribute of a block. -/
def attr : Block → Attribute
  | mk _ _ a => a

end Block
end ProcLang
