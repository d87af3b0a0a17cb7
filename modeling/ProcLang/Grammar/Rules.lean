/-
  The tables that drive the grammar of expressions and statements.

  For each kind of token they say which form of expression starts there, how strongly it binds
  as an operator between two operands, and which form of statement starts there.  A statement
  that is in no table is an assignment.  `Rules.standard` holds the language; a dash is in two
  tables, since it negates at the start of an expression and subtracts after an operand.
-/
import ProcLang.Token

namespace ProcLang

/-! ## Binding powers -/

/-- How strongly an operator binds, weakest first. -/
inductive Power where
  | default
  | logicalOr
  | logicalAnd
  | equality
  | relational
  | additive
  | multiplicative
  | unary
deriving DecidableEq, Repr

/-- The place of a power in their order. -/
def Power.rank : Power → Nat
  | .default => 0
  | .logicalOr => 1
  | .logicalAnd => 2
  | .equality => 3
  | .relational => 4
  | .additive => 5
  | .multiplicative => 6
  | .unary => 7

/-- True when `q` binds tighter than `p`. -/
def Power.weakerThan (p q : Power) : Bool := p.rank < q.rank

/-! ## Tables -/

/-- The forms that start an expression. -/
inductive ExprStart where
  /-- A literal, a variable or an array element. -/
  | primary
  /-- An operator in front of its operand. -/
  | unary
  /-- An operand between two pipes. -/
  | absolute
  /-- A location behind an ampersand. -/
  | addressOf
  /-- An expression in parentheses. -/
  | grouping
deriving DecidableEq, Repr

/-- The forms that start a statement. -/
inductive StmtStart where
  | conditional
  | loop
  | block
  | assignment
deriving DecidableEq, Repr

/-- The tables of a grammar. -/
structure Rules where
  exprStart? : Kind → Option ExprStart
  power? : Kind → Option Power
  stmtStart? : Kind → Option StmtStart

namespace Rules

/-- Tables without entries. -/
def empty : Rules := ⟨fun _ => none, fun _ => none, fun _ => none⟩

/-- The tables of the language. -/
def standard : Rules where
  exprStart?
    | .number | .charLiteral | .true | .false | .null | .identifier => some .primary
    | .not | .dash | .caret => some .unary
    | .ampersand => some .addressOf
    | .pipe => some .absolute
    | .openParen => some .grouping
    | _ => none
  power?
    | .or => some .logicalOr
    | .and => some .logicalAnd
    | .equals | .notEquals => some .equality
    | .less | .lessEquals | .greater | .greaterEquals => some .relational
    | .plus | .dash => some .additive
    | .star | .slash => some .multiplicative
    | _ => none
  stmtStart?
    | .if => some .conditional
    | .while => some .loop
    | .openCurly => some .block
    | _ => none

/-- The entries of `s`, and those of `r` where `s` has none. -/
def extend (r s : Rules) : Rules :=
  ⟨fun k => s.exprStart? k <|> r.exprStart? k, fun k => s.power? k <|> r.power? k,
    fun k => s.stmtStart? k <|> r.stmtStart? k⟩

/-- The tables in which `start` is the form of expression that starts at `kind`. -/
def setExprStart (r : Rules) (kind : Kind) (start : ExprStart) : Rules :=
  { r with exprStart? := fun k => if k = kind then some start else r.exprStart? k }

/-- The tables in which `kind` is an operator of power `power`. -/
def setPower (r : Rules) (kind : Kind) (power : Power) : Rules :=
  { r with power? := fun k => if k = kind then some power else r.power? k }

/-- The tables in which `start` is the form of statement that starts at `kind`. -/
def setStmtStart (r : Rules) (kind : Kind) (start : StmtStart) : Rules :=
  { r with stmtStart? := fun k => if k = kind then some start else r.stmtStart? k }

end Rules
end ProcLang
