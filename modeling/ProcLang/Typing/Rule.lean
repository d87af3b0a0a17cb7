/-
  The static rules, one for each construct.

  A rule takes the basetypes of the parts of a construct and gives the basetype of the whole,
  or the violation.  It does not see the tree or the symbol table; names come in resolved.
-/
import ProcLang.Scope.Symbol
import ProcLang.Tree.Expr
import ProcLang.Typing.Violation

namespace ProcLang.Rule

/-! ## Operators -/

/-- `&&` and `||`: only the left operand is looked at. -/
def logical (left : Basetype) : Except Violation Basetype :=
  if left = .boolean then .ok .boolean else .error .expressionType

/-- `*` and `/`: integers.  Pointers are refused as such. -/
def multiplicative (left right : Basetype) : Except Violation Basetype :=
  if left = .integer ∧ right = .integer then .ok .integer
  else if left.isPointer || right.isPointer then .error .pointerArithmetic
  else .error .expressionType

/-- `+` and `-`: integers, or a character pointer and an integer in either order. -/
def additive : Basetype → Basetype → Except Violation Basetype
  | .integer, .integer => .ok .integer
  | .charPtr, .integer => .ok .charPtr
  | .integer, .charPtr => .ok .charPtr
  | _, _ => .error .pointerArithmetic

/-- Comparisons by size: integers. -/
def relational (left right : Basetype) : Except Violation Basetype :=
  if left = .integer ∧ right = .integer then .ok .boolean else .error .expressionType

/-- `null` against a pointer that points somewhere. -/
def nullAgainstPointer (left right : Basetype) : Bool :=
  (left = .null && right.isTypedPointer) || (right = .null && left.isTypedPointer)

/-- `==` and `!=`: operands of one basetype, or `null` and a pointer; never strings. -/
def equality (left right : Basetype) : Except Violation Basetype :=
  if left = .string ∨ right = .string then .error .expressionType
  else if left = right || nullAgainstPointer left right then .ok .boolean
  else .error .expressionType

/-- Operators between two operands. -/
def binary (operator : BinaryOp) (left right : Basetype) : Except Violation Basetype :=
  match operator with
  | .and | .or => logical left
  | .times | .divide => multiplicative left right
  | .plus | .minus => additive left right
  | .less | .lessEquals | .greater | .greaterEquals => relational left right
  | .equals | .notEquals => equality left right

/-- What a pointer points to. -/
def deref : Basetype → Except Violation Basetype
  | .intPtr => .ok .integer
  | .charPtr => .ok .char
  | _ => .error .invalidDeref

/-- Operators in front of an operand, and the length or absolute value between pipes. -/
def unary (operator : UnaryOp) (operand : Basetype) : Except Violation Basetype :=
  match operator with
  | .not => if operand = .boolean then .ok .boolean else .error .expressionType
  | .negate => if operand = .integer then .ok .integer else .error .expressionType
  | .absolute =>
    if operand = .integer ∨ operand = .string then .ok .integer else .error .absoluteValue
  | .deref => deref operand

/-- The address of a location. -/
def addressOf : Basetype → Except Violation Basetype
  | .integer => .ok .intPtr
  | .char => .ok .charPtr
  | _ => .error .addressOf

/-! ## Names -/

/-- A name as a variable. -/
def named (entity? : Option Entity) : Except Violation Basetype :=
  match entity? with
  | some e => .ok e.basetype
  | none => .error .variableUndefined

/-- A name with an index.  Its own type is judged before that of the index. -/
def element (entity? : Option Entity) (index : Basetype) : Except Violation Basetype :=
  if entity?.map Entity.basetype = some .string then
    if index = .integer then .ok .char else .error .arrayIndex
  else .error .notAnArray

/-! ## Statements and procedures -/

/-- An assignment; it has the basetype of its value. -/
def assignment (target value : Basetype) : Except Violation Basetype :=
  if target = value then .ok value else .error .incompatibleAssignment

/-- An assignment of a string literal. -/
def stringAssignment (target : Basetype) : Except Violation Basetype :=
  if target = .string then .ok .string else .error .incompatibleAssignment

/-- A call whose value goes to a location of the basetype `target`; it has the return type of
    the procedure. -/
def call (entity? : Option Entity) (arguments : List Basetype) (target : Basetype) :
    Except Violation Basetype :=
  match entity?.filter Entity.isProcedure with
  | none => .error .procedureUndefined
  | some callee =>
    if callee.parameterTypes.length ≠ arguments.length then .error .argumentCountMismatch
    else if callee.parameterTypes ≠ arguments then .error .argumentTypeMismatch
    else if callee.returnType ≠ target then .error .callTypeMismatch
    else .ok callee.returnType

/-- The value of a return; arrays cannot be returned. -/
def returned (value : Basetype) : Except Violation Basetype :=
  if value = .string then .error .returnTypeMismatch else .ok value

/-- A procedure, whose body returns what its header declares. -/
def procedure (declared body : Basetype) : Except Violation Basetype :=
  if declared = body then .ok .procedure else .error .returnTypeMismatch

/-- A condition; `violation` tells whose. -/
def predicate (condition : Basetype) (violation : Violation) : Except Violation Unit :=
  if condition = .boolean then .ok () else .error violation

end ProcLang.Rule
