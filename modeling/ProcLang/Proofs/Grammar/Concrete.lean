/-
  The grammar of the language, as the types of its derivations.

  There is one type for each syntactic category, and one constructor for each production; the
  leaves are tokens of the kinds that the production asks for.  A derivation has a `yield`, the
  tokens that it derives, and a `tree`, what it means.  No table of the reader is used.

  Expressions are stratified.  `Phrase 0` holds what stands between two operators, and a phrase
  of level `n + 1` is a phrase of level `n`, or a phrase of level `n + 1`, an operator of that
  level and a phrase of level `n`.  So tighter operators are deeper in the tree, and operators
  of one level group to the left:

      1  `*` `/`                2  `+` `-`          3  `<` `<=` `>` `>=`
      4  `==` `!=`              5  `&&`             6  `||`

  In the tree parentheses leave no trace, no basetype is known, and each node has the line of one
  token: a binary expression that of its operator, any other node that of its first token.
-/
import ProcLang.Proofs.Text.Numeral
import ProcLang.Token
import ProcLang.Tree.Program

namespace ProcLang.Concrete

open ProcLang.Text

/-! ## Tokens -/

/-- A token of the kind `k`. -/
abbrev Leaf (k : Kind) := {t : Token // t.kind = k}

/-- The attribute of a node that the token `t` introduces. -/
def attrOf (t : Token) : Attribute := .bare t.line

/-- Items with separators of the kind `k` between them. -/
structure Separated (k : Kind) (α : Type) where
  first : α
  rest : List (Leaf k × α)

namespace Separated

variable {k : Kind} {α : Type}

/-- The items of a list, without its separators. -/
def items (l : Separated k α) : List α := l.first :: l.rest.map Prod.snd

/-- The tokens of a list whose items derive the tokens `f`, with the separators in between. -/
def yield (f : α → List Token) (l : Separated k α) : List Token :=
  f l.first ++ l.rest.flatMap fun x => x.1.1 :: f x.2

end Separated

/-- The items of a list that can be missing. -/
def optionalItems {k : Kind} {α : Type} : Option (Separated k α) → List α
  | none => []
  | some l => l.items

/-- The tokens of a list that may be left out. -/
def optionalYield {k : Kind} {α : Type} (f : α → List Token) :
    Option (Separated k α) → List Token
  | none => []
  | some l => l.yield f

/-! ## Operators -/

/-- The operators of each level. -/
def operatorAt : Nat → Kind → Option BinaryOp
  | 1, .star => some .times
  | 1, .slash => some .divide
  | 2, .plus => some .plus
  | 2, .dash => some .minus
  | 3, .less => some .less
  | 3, .lessEquals => some .lessEquals
  | 3, .greater => some .greater
  | 3, .greaterEquals => some .greaterEquals
  | 4, .equals => some .equals
  | 4, .notEquals => some .notEquals
  | 5, .and => some .and
  | 6, .or => some .or
  | _, _ => none

/-- The operators in front of a phrase. -/
def prefixAt : Kind → Option UnaryOp
  | .not => some .not
  | .dash => some .negate
  | .caret => some .deref
  | _ => none

/-- An operator of level `n`. -/
structure Infix (n : Nat) where
  token : Token
  op : BinaryOp
  op_eq : operatorAt n token.kind = some op

/-- An operator in front of a phrase. -/
structure Prefix where
  token : Token
  op : UnaryOp
  op_eq : prefixAt token.kind = some op

/-! ## Expressions -/

/-- A literal; a number is at most the greatest 64 bit integer. -/
inductive Literal where
  | number (t : Leaf .number) (n : Nat) (worth : Numeral t.1.value.toList n) (small : n < 2 ^ 63)
  | char (t : Leaf .charLiteral) (c : Char) (single : t.1.value.toList = [c])
  | true (t : Leaf .true)
  | false (t : Leaf .false)
  | null (t : Leaf .null)

namespace Literal

/-- A literal is a single token, of any of the five kinds. -/
def token : Literal → Token
  | number t _ _ _ => t.1
  | char t _ _ => t.1
  | true t => t.1
  | false t => t.1
  | null t => t.1

/-- A number stands for its worth and a character literal for its character. -/
def tree : Literal → Expr
  | number t n _ _ => .integer (attrOf t.1) n
  | char t c _ => .char (attrOf t.1) c
  | true t => .boolean (attrOf t.1) .true
  | false t => .boolean (attrOf t.1) .false
  | null t => .null (attrOf t.1)

end Literal

mutual

/-- Expressions of a level. -/
inductive Phrase : Nat → Type
  | literal (l : Literal) : Phrase 0
  | name (x : Leaf .identifier) : Phrase 0
  | element (x : Leaf .identifier) (l : Leaf .openBracket) (i : Phrase 6)
      (r : Leaf .closeBracket) : Phrase 0
  | group (l : Leaf .openParen) (e : Phrase 6) (r : Leaf .closeParen) : Phrase 0
  | absolute (l : Leaf .pipe) (e : Phrase 6) (r : Leaf .pipe) : Phrase 0
  | prefixed (op : Prefix) (e : Phrase 0) : Phrase 0
  | addressOf (a : Leaf .ampersand) (p : Place) : Phrase 0
  | lift {n : Nat} (e : Phrase n) : Phrase (n + 1)
  | binary {n : Nat} (l : Phrase (n + 1)) (op : Infix (n + 1)) (r : Phrase n) : Phrase (n + 1)

/-- Locations. -/
inductive Place : Type
  | name (x : Leaf .identifier) : Place
  | pointee (c : Leaf .caret) (x : Leaf .identifier) : Place
  | element (x : Leaf .identifier) (l : Leaf .openBracket) (i : Phrase 6)
      (r : Leaf .closeBracket) : Place

end

mutual

/-- The tokens that a phrase derives, in the order of the text.  Lifting a phrase to the next level
    adds none. -/
def Phrase.yield {n : Nat} : Phrase n → List Token
  | .literal l => [l.token]
  | .name x => [x.1]
  | .element x l i r => x.1 :: l.1 :: (i.yield ++ [r.1])
  | .group l e r => l.1 :: (e.yield ++ [r.1])
  | .absolute l e r => l.1 :: (e.yield ++ [r.1])
  | .prefixed op e => op.token :: e.yield
  | .addressOf a p => a.1 :: p.yield
  | .lift e => e.yield
  | .binary l op r => l.yield ++ op.token :: r.yield

/-- The tokens that a place derives, in the order of the text. -/
def Place.yield : Place → List Token
  | .name x => [x.1]
  | .pointee c x => [c.1, x.1]
  | .element x l i r => x.1 :: l.1 :: (i.yield ++ [r.1])

end

mutual

/-- What a phrase means.  The grouping of a binary phrase is already in the derivation, so nothing
    is decided here. -/
def Phrase.tree {n : Nat} : Phrase n → Expr
  | .literal l => l.tree
  | .name x => .named (attrOf x.1) x.1.value
  | .element x _ i _ => .element (attrOf x.1) x.1.value i.tree
  | .group _ e _ => e.tree
  | .absolute l e _ => .unary (attrOf l.1) .absolute e.tree
  | .prefixed op e => .unary (attrOf op.token) op.op e.tree
  | .addressOf a p => .addressOf (attrOf a.1) p.tree
  | .lift e => e.tree
  | .binary l op r => .binary (attrOf op.token) op.op l.tree r.tree

/-- What a place means. -/
def Place.tree : Place → Location
  | .name x => .named (attrOf x.1) x.1.value
  | .pointee c x => .pointee (attrOf c.1) x.1.value
  | .element x _ i _ => .element (attrOf x.1) x.1.value i.tree

end

/-- Whole expressions. -/
abbrev Expression := Phrase 6

/-! ## Types and declarations -/

/-- The types that are a single word. -/
def typeAt : Kind → Option DeclaredType
  | .integer => some .integer
  | .boolean => some .boolean
  | .char => some .char
  | .intPtr => some .intPtr
  | .charPtr => some .charPtr
  | _ => none

/-- Types; the size of a string is decimal and has at most 32 bits. -/
inductive TypeName where
  | word (t : Token) (d : DeclaredType) (d_eq : typeAt t.kind = some d)
  | string (t : Leaf .string) (l : Leaf .openBracket) (size : Leaf .number) (n : Nat)
      (worth : Denotes 10 size.1.value.toList n) (small : n < 2 ^ 32) (r : Leaf .closeBracket)

namespace TypeName

/-- The tokens of a type: a keyword, or `string` with its size in brackets. -/
def yield : TypeName → List Token
  | word t _ _ => [t]
  | string t l size _ _ _ r => [t.1, l.1, size.1, r.1]

/-- The basetype that a type names, marked with the line of its first token. -/
def tree : TypeName → TypeMark
  | word t d _ => ⟨d, attrOf t⟩
  | string t _ _ n _ _ _ => ⟨.string n, attrOf t.1⟩

end TypeName

/-- Names with commas between them. -/
abbrev Names := Separated .comma (Leaf .identifier)

namespace Names

/-- The names and the commas in between. -/
def yield (ns : Names) : List Token := Separated.yield (fun x => [x.1]) ns

/-- The names alone, in the order of the text. -/
def tree (ns : Names) : List String := ns.items.map fun x => x.1.value

end Names

/-- A group of parameters. -/
structure Parameter where
  names : Names
  colon : Leaf .colon
  type : TypeName

namespace Parameter

/-- The tokens of a parameter group: names, a colon and their type. -/
def yield (p : Parameter) : List Token := p.names.yield ++ p.colon.1 :: p.type.yield

/-- One declaration for all the names of a group, with the line of the first name. -/
def tree (p : Parameter) : Decl := ⟨p.names.tree, p.type.tree, attrOf p.names.first.1⟩

end Parameter

/-- A declaration of variables. -/
structure Declaration where
  var : Leaf .var
  names : Names
  colon : Leaf .colon
  type : TypeName
  stop : Leaf .semicolon

namespace Declaration

/-- The tokens of a declaration, from `var` to the semicolon. -/
def yield (d : Declaration) : List Token :=
  d.var.1 :: (d.names.yield ++ d.colon.1 :: (d.type.yield ++ [d.stop.1]))

/-- One declaration for all its names, with the line of `var`. -/
def tree (d : Declaration) : Decl := ⟨d.names.tree, d.type.tree, attrOf d.var.1⟩

end Declaration

/-! ## Statements -/

/-- Arguments with commas between them. -/
abbrev Arguments := Option (Separated .comma Expression)

/-- A condition in parentheses. -/
structure Condition where
  l : Leaf .openParen
  e : Expression
  r : Leaf .closeParen

/-- The tokens of a condition with its parentheses. -/
def Condition.yield (c : Condition) : List Token := c.l.1 :: (c.e.yield ++ [c.r.1])

mutual

/-- Statements. -/
inductive Statement where
  | assignString (p : Place) (sign : Leaf .assignment) (text : Leaf .stringLiteral)
      (stop : Leaf .semicolon)
  | call (p : Place) (sign : Leaf .assignment) (callee : Leaf .identifier) (l : Leaf .openParen)
      (es : Arguments) (r : Leaf .closeParen) (stop : Leaf .semicolon)
  | assign (p : Place) (sign : Leaf .assignment) (e : Expression) (stop : Leaf .semicolon)
  | ifThen (w : Leaf .if) (c : Condition) (b : Nested)
  | ifElse (w : Leaf .if) (c : Condition) (b : Nested) (e : Leaf .else) (b' : Nested)
  | loop (w : Leaf .while) (c : Condition) (b : Nested)
  | block (b : Nested)

/-- Nested blocks. -/
inductive Nested where
  | mk (l : Leaf .openCurly) (ds : List Declaration) (ss : List Statement) (r : Leaf .closeCurly)

end

mutual

/-- The tokens that a statement derives.  Only the first three forms end in a semicolon of their
    own. -/
def Statement.yield : Statement → List Token
  | .assignString p sign text stop => p.yield ++ [sign.1, text.1, stop.1]
  | .call p sign callee l es r stop =>
    p.yield ++ sign.1 :: callee.1 :: l.1 :: (optionalYield Phrase.yield es ++ [r.1, stop.1])
  | .assign p sign e stop => p.yield ++ sign.1 :: (e.yield ++ [stop.1])
  | .ifThen w c b => w.1 :: (c.yield ++ b.yield)
  | .ifElse w c b e b' => w.1 :: (c.yield ++ (b.yield ++ e.1 :: b'.yield))
  | .loop w c b => w.1 :: (c.yield ++ b.yield)
  | .block b => b.yield

/-- The tokens of a block with its curly brackets. -/
def Nested.yield : Nested → List Token
  | .mk l ds ss r => l.1 :: (ds.flatMap Declaration.yield ++ (statementsYield ss ++ [r.1]))

/-- The tokens of statements in a row. -/
def statementsYield : List Statement → List Token
  | [] => []
  | s :: ss => s.yield ++ statementsYield ss

end

/-- The first token of a location. -/
def Place.head : Place → Token
  | .name x => x.1
  | .pointee c _ => c.1
  | .element x _ _ _ => x.1

/-- The first token of a nested block. -/
def Nested.head : Nested → Token
  | .mk l _ _ _ => l.1

mutual

/-- What a statement means.  An assignment has the line of the first token of its place. -/
def Statement.tree : Statement → Stmt
  | .assignString p _ text _ => .assignString (attrOf p.head) p.tree text.1.value
  | .call p _ callee _ es _ _ =>
    .call (attrOf p.head) p.tree callee.1.value ((optionalItems es).map Phrase.tree)
  | .assign p _ e _ => .assign (attrOf p.head) p.tree e.tree
  | .ifThen w c b => .ifThen (attrOf w.1) c.e.tree b.tree
  | .ifElse w c b _ b' => .ifElse (attrOf w.1) c.e.tree b.tree b'.tree
  | .loop w c b => .loop (attrOf w.1) c.e.tree b.tree
  | .block b => .block (attrOf b.head) b.tree

/-- What a block means, with the line of its opening bracket. -/
def Nested.tree : Nested → Block
  | .mk l ds ss _ => .mk (ds.map Declaration.tree) (statementsTree ss) (attrOf l.1)

/-- What statements in a row mean, one by one. -/
def statementsTree : List Statement → List Stmt
  | [] => []
  | s :: ss => s.tree :: statementsTree ss

end

/-! ## Procedures and programs -/

/-- The head of a procedure. -/
structure Head where
  word : Leaf .procedure
  name : Leaf .identifier
  l : Leaf .openParen
  parameters : Option (Separated .semicolon Parameter)
  r : Leaf .closeParen
  result : Leaf .return
  type : TypeName

namespace Head

/-- The tokens of a head, from `procedure` to the type of the result. -/
def yield (h : Head) : List Token :=
  h.word.1 :: h.name.1 :: h.l.1 :: (optionalYield Parameter.yield h.parameters ++
    h.r.1 :: h.result.1 :: h.type.yield)

/-- What a head means: a name, the parameter groups and the type of the result. -/
def tree (h : Head) : Header :=
  ⟨h.name.1.value, (optionalItems h.parameters).map Parameter.tree, h.type.tree,
    attrOf h.word.1⟩

end Head

/-- The return at the end of a body. -/
structure Final where
  word : Leaf .return
  e : Expression
  stop : Leaf .semicolon

namespace Final

/-- The tokens of the last statement of a body, from `return` to the semicolon. -/
def yield (f : Final) : List Token := f.word.1 :: (f.e.yield ++ [f.stop.1])

/-- What the last statement means, with the line of `return`. -/
def tree (f : Final) : Return := ⟨f.e.tree, attrOf f.word.1⟩

end Final

mutual

/-- Procedures. -/
inductive Routine where
  | mk (h : Head) (b : Interior)

/-- Procedure bodies. -/
inductive Interior where
  | mk (l : Leaf .openCurly) (ps : List Routine) (ds : List Declaration) (ss : List Statement)
      (f : Final) (r : Leaf .closeCurly)

end

mutual

/-- The tokens of a procedure. -/
def Routine.yield : Routine → List Token
  | .mk h b => h.yield ++ b.yield

/-- The tokens of a body: procedures, declarations and statements, in this order, and then the last
    statement. -/
def Interior.yield : Interior → List Token
  | .mk l ps ds ss f r =>
    l.1 :: (routinesYield ps ++ (ds.flatMap Declaration.yield ++
      (statementsYield ss ++ (f.yield ++ [r.1]))))

/-- The tokens of procedures in a row. -/
def routinesYield : List Routine → List Token
  | [] => []
  | p :: ps => p.yield ++ routinesYield ps

end

mutual

/-- What a procedure means. -/
def Routine.tree : Routine → Procedure
  | .mk h b => .mk h.tree b.tree

/-- What a body means, with the line of its opening bracket. -/
def Interior.tree : Interior → Body
  | .mk l ps ds ss f _ =>
    .mk (routinesTree ps) (ds.map Declaration.tree) (statementsTree ss) f.tree (attrOf l.1)

/-- What procedures in a row mean, one by one. -/
def routinesTree : List Routine → List Procedure
  | [] => []
  | p :: ps => p.tree :: routinesTree ps

end

/-- Programs. -/
structure ProgramText where
  routines : List Routine

namespace ProgramText

/-- The tokens of a program: procedures in a row, with nothing before or after them. -/
def yield (p : ProgramText) : List Token := routinesYield p.routines

/-- The tree of a program whose end marker stands on line `line`. -/
def tree (p : ProgramText) (line : Nat) : Program := ⟨routinesTree p.routines, .bare line⟩

end ProgramText

end ProcLang.Concrete
