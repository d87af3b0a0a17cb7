/-
  Expressions and locations.

  A location is what can be assigned to or have its address taken: a variable, what a pointer
  variable points to, or an element of an array.  Parentheses leave no trace in the tree.
-/
import ProcLang.Tree.Basetype

namespace ProcLang

/-- The operators between two operands. -/
inductive BinaryOp where
  | and | or
  | equals | notEquals
  | less | lessEquals | greater | greaterEquals
  | plus | minus | times | divide
deriving DecidableEq, Repr

/-- The spelling of an operator. -/
def BinaryOp.symbol : BinaryOp → String
  | .and => "&&"
  | .or => "||"
  | .equals => "=="
  | .notEquals => "!="
  | .less => "<"
  | .lessEquals => "<="
  | .greater => ">"
  | .greaterEquals => ">="
  | .plus => "+"
  | .minus => "-"
  | .times => "*"
  | .divide => "/"

/-- The operators on one operand: `!e`, `-e`, `|e|` and `^e`. -/
inductive UnaryOp where
  | not | negate | absolute | deref
deriving DecidableEq, Repr

mutual

/-- Expressions. -/
inductive Expr where
  | binary (attr : Attribute) (operator : BinaryOp) (left right : Expr)
  | unary (attr : Attribute) (operator : UnaryOp) (operand : Expr)
  | addressOf (attr : Attribute) (target : Location)
  | element (attr : Attribute) (name : String) (index : Expr)
  | named (attr : Attribute) (name : String)
  | integer (attr : Attribute) (value : Int)
  | char (attr : Attribute) (value : Char)
  | boolean (attr : Attribute) (value : Bool)
  | null (attr : Attribute)
deriving DecidableEq

/-- Locations: `x`, `^x` and `x[e]`. -/
inductive Location where
  | named (attr : Attribute) (name : String)
  | pointee (attr : Attribute) (name : String)
  | element (attr : Attribute) (name : String) (index : Expr)
deriving DecidableEq

end

/-- The attribute of an expression. -/
def Expr.attr : Expr → Attribute
  | .binary a _ _ _ => a
  | .unary a _ _ => a
  | .addressOf a _ => a
  | .element a _ _ => a
  | .named a _ => a
  | .integer a _ => a
  | .char a _ => a
  | .boolean a _ => a
  | .null a => a

/-- The attribute of a location. -/
def Location.attr : Location → Attribute
  | .named a _ => a
  | .pointee a _ => a
  | .element a _ _ => a

end ProcLang
