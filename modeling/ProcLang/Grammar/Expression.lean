/-
  Reading expressions and locations.

  An expression is a start followed by operators.  A start is read by the form that its first
  token calls for.  Then, as long as the next operator binds tighter than the power that the
  caller asks for, it takes what is read so far as its left operand and an expression of its own
  power as its right one; so equal powers group to the left.

  The forms are written with the reader of inner expressions as a parameter.  `expression` ties
  the knot: each inner expression starts behind a token, so as many levels as there are tokens
  left are enough.
-/
import ProcLang.Grammar.Rules
import ProcLang.Grammar.Stream
import ProcLang.Text.Numeral
import ProcLang.Tree.Expr

namespace ProcLang.Grammar

open ProcLang.Text Parse

/-! ## Operators -/

/-- The operator that a token means between two operands. -/
def binaryOp? : Kind → Option BinaryOp
  | .and => some .and
  | .or => some .or
  | .equals => some .equals
  | .notEquals => some .notEquals
  | .less => some .less
  | .lessEquals => some .lessEquals
  | .greater => some .greater
  | .greaterEquals => some .greaterEquals
  | .plus => some .plus
  | .dash => some .minus
  | .star => some .times
  | .slash => some .divide
  | _ => none

/-- The operator that a token means in front of an operand. -/
def unaryOp? : Kind → Option UnaryOp
  | .not => some .not
  | .dash => some .negate
  | .caret => some .deref
  | _ => none

/-! ## Forms, over a reader of inner expressions -/

section Forms

variable (inner : Power → Parse Expr)

/-- An index in brackets. -/
def index : Parse Expr := do
  let _ ← expect .openBracket
  let e ← inner .default
  let _ ← expect .closeBracket
  pure e

/-- A location: a name, a name behind a caret, or a name with an index. -/
def locationWith : Parse Location := do
  let t ← current
  if t.kind = .caret then
    let _ ← advance
    let name ← expect .identifier
    pure (.pointee (.bare t.line) name.value)
  else
    let name ← expectFor .identifier "expected variable, dereferenced variable or array element"
    if (← current).kind = .openBracket then
      let i ← index inner
      pure (.element (.bare t.line) name.value i)
    else pure (.named (.bare t.line) name.value)

/-- A number, within its limits; a number outside of them is not passed. -/
def numberLiteral (t : Token) : Parse Expr :=
  match integerLiteral? t.value with
  | some n => do
    let _ ← advance
    pure (.integer (.bare t.line) n)
  | none => blame t .badNumber

/-- A character: the first one of the token's value. -/
def charLiteral (t : Token) : Parse Expr := do
  let _ ← advance
  match t.value.toList with
  | c :: _ => pure (.char (.bare t.line) c)
  | [] => blame t .unrecognised

/-- The literal that a reserved word is. -/
def wordLiteral? (t : Token) : Option Expr :=
  match t.kind with
  | .true => some (.boolean (.bare t.line) true)
  | .false => some (.boolean (.bare t.line) false)
  | .null => some (.null (.bare t.line))
  | _ => none

/-- A variable, or an array element when an index follows its name. -/
def reference (t : Token) : Parse Expr := do
  let _ ← advance
  if (← current).kind = .openBracket then
    let i ← index inner
    pure (.element (.bare t.line) t.value i)
  else pure (.named (.bare t.line) t.value)

/-- A literal, a variable or an array element. -/
def primary : Parse Expr := do
  let t ← current
  if t.kind = .number then numberLiteral t
  else if t.kind = .charLiteral then charLiteral t
  else if t.kind = .identifier then reference inner t
  else
    match wordLiteral? t with
    | some e => do
      let _ ← advance
      pure e
    | none => unexpected "expected literal or identifier"

/-- An operator in front of its operand, which binds tighter than any other operator. -/
def unary : Parse Expr := do
  let t ← advance
  match unaryOp? t.kind with
  | some op => do
    let e ← inner .unary
    pure (.unary (.bare t.line) op e)
  | none => blame t .unexpected

/-- An operand between two pipes. -/
def absolute : Parse Expr := do
  let t ← advance
  let e ← inner .default
  let _ ← expectFor .pipe "expected closing `|`"
  pure (.unary (.bare t.line) .absolute e)

/-- A location behind an ampersand. -/
def addressOf : Parse Expr := do
  let t ← advance
  let l ← locationWith inner
  pure (.addressOf (.bare t.line) l)

/-- An expression in parentheses. -/
def grouping : Parse Expr := do
  let _ ← advance
  let e ← inner .default
  let _ ← expect .closeParen
  pure e

/-- The expression that starts with a form of the tables. -/
def start : ExprStart → Parse Expr
  | .primary => primary inner
  | .unary => unary inner
  | .absolute => absolute inner
  | .addressOf => addressOf inner
  | .grouping => grouping inner

/-- An operator of power `power` and its right operand, behind the left one. -/
def binary (left : Expr) (power : Power) : Parse Expr := do
  let t ← advance
  match binaryOp? t.kind with
  | some op => do
    let right ← inner power
    pure (.binary (.bare t.line) op left right)
  | none => blame t .unexpected

/-- The power of the current token, if it is an operator that binds tighter than `power`. -/
def tighter? (rules : Rules) (power : Power) (t : Token) : Option Power :=
  (rules.power? t.kind).filter power.weakerThan

/-- At most `n` operators that bind tighter than `power`, behind the operand `left`. -/
def operatorsUpTo (rules : Rules) (power : Power) : Nat → Expr → Parse Expr
  | 0, left => pure left
  | n + 1, left => do
    match tighter? rules power (← current) with
    | some p => do
      let e ← binary inner left p
      operatorsUpTo rules power n e
    | none => pure left

/-- The operators behind an operand that bind tighter than `power`. -/
def operators (rules : Rules) (power : Power) (left : Expr) : Parse Expr := fun s =>
  operatorsUpTo inner rules power (s.remaining + 1) left s

/-- An expression of operators that bind tighter than `power`. -/
def expressionWith (rules : Rules) (power : Power) : Parse Expr := do
  match rules.exprStart? (← current).kind with
  | some form => do
    let left ← start inner form
    operators inner rules power left
  | none => unexpected "expected expression"

end Forms

/-! ## The knot -/

/-- Expressions that nest at most `n` levels deep. -/
def expressionUpTo (rules : Rules) : Nat → Power → Parse Expr
  | 0 => expressionWith (fun _ => unexpected "expected expression") rules
  | n + 1 => expressionWith (expressionUpTo rules n) rules

/-- An expression of operators that bind tighter than `power`. -/
def expression (rules : Rules) (power : Power) : Parse Expr := fun s =>
  expressionUpTo rules s.remaining power s

/-- A location. -/
def location (rules : Rules) : Parse Location := locationWith (expression rules)

end ProcLang.Grammar
