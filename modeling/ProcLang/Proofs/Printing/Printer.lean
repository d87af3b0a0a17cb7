/-
  Writing programs down.

  `p.text` spells the lexemes of a program with one space between any two of them.  `p.words`
  are these lexemes; an expression is written in a context that takes phrases of some level, and
  it is put in parentheses when it is a binary expression of a weaker level.  The left operand
  of an operator may be of the level of the operator, the right one may not, and what stands
  behind a prefix takes no operators at all.

  * `p.Denotable`   — some source has the tree `p`: names are names, numbers and string sizes are
                      within their limits, no list of names is empty, and no basetype is known;
  * `p.eraseLines`  — `p` up to its line numbers.
-/
import Mathlib.Algebra.Group.Int.Defs
import Mathlib.Algebra.Group.Nat.Defs
import ProcLang.Token
import ProcLang.Tree.Program

namespace ProcLang

/-! ## Words -/

/-- The kinds of token that are spelled in one way, and their spelling. -/
def symbol : Kind → String
  | .openBracket => "["
  | .closeBracket => "]"
  | .openCurly => "\x7b"
  | .closeCurly => "\x7d"
  | .openParen => "("
  | .closeParen => ")"
  | .assignment => "="
  | .equals => "=="
  | .not => "!"
  | .notEquals => "!="
  | .less => "<"
  | .lessEquals => "<="
  | .greater => ">"
  | .greaterEquals => ">="
  | .or => "||"
  | .and => "&&"
  | .pipe => "|"
  | .ampersand => "&"
  | .caret => "^"
  | .semicolon => ";"
  | .colon => ":"
  | .comma => ","
  | .plus => "+"
  | .dash => "-"
  | .slash => "/"
  | .star => "*"
  | .procedure => "procedure"
  | .return => "return"
  | .var => "var"
  | .if => "if"
  | .else => "else"
  | .while => "while"
  | .integer => "integer"
  | .boolean => "boolean"
  | .char => "char"
  | .string => "string"
  | .intPtr => "intptr"
  | .charPtr => "charptr"
  | .true => "true"
  | .false => "false"
  | .null => "null"
  | .eof | .number | .charLiteral | .stringLiteral | .identifier => ""

/-- The lexemes of a program. -/
inductive Word where
  | symbol (k : Kind)
  | name (x : String)
  | number (n : Nat)
  | char (c : Char)
  | text (s : String)

namespace Word

/-- The kind of the token that a word means. -/
def kind : Word → Kind
  | symbol k => k
  | name _ => .identifier
  | number _ => .number
  | char _ => .charLiteral
  | text _ => .stringLiteral

/-- The value of the token that a word means. -/
def value : Word → String
  | symbol k => ProcLang.symbol k
  | name x => x
  | number n => String.ofList (Nat.toDigits 10 n)
  | char c => String.singleton c
  | text s => s

/-- A character literal escapes the quote and the backslash only. -/
def spellChar (c : Char) : List Char :=
  if c = '\x27' ∨ c = '\x5c' then ['\x27', '\x5c', c, '\x27'] else ['\x27', c, '\x27']

/-- How a word is written. -/
def spelling : Word → List Char
  | char c => spellChar c
  | text s => '"' :: (s.toList ++ ['"'])
  | w => w.value.toList

end Word

/-- Words with one space between any two of them. -/
def spaced : List Word → List Char
  | [] => []
  | w :: ws => w.spelling ++ ws.flatMap fun v => ' ' :: v.spelling

/-! ## Expressions -/

/-- The level of the phrases behind an operator; those in front of it may be one level weaker. -/
def BinaryOp.rank : BinaryOp → Nat
  | .times | .divide => 0
  | .plus | .minus => 1
  | .less | .lessEquals | .greater | .greaterEquals => 2
  | .equals | .notEquals => 3
  | .and => 4
  | .or => 5

/-- The kind of token that stands for a binary operator. -/
def BinaryOp.kind : BinaryOp → Kind
  | .and => .and
  | .or => .or
  | .equals => .equals
  | .notEquals => .notEquals
  | .less => .less
  | .lessEquals => .lessEquals
  | .greater => .greater
  | .greaterEquals => .greaterEquals
  | .plus => .plus
  | .minus => .dash
  | .times => .star
  | .divide => .slash

/-- The kind of token that a prefix is; for an absolute value, that of the bar on each side. -/
def UnaryOp.kind : UnaryOp → Kind
  | .not => .not
  | .negate => .dash
  | .absolute => .pipe
  | .deref => .caret

mutual

/-- The words of an expression where a phrase of level `n` is taken. -/
def Expr.words : Expr → Nat → List Word
  | .binary _ op l r, n =>
    let ws := l.words (op.rank + 1) ++ .symbol op.kind :: r.words op.rank
    if op.rank < n then ws else .symbol .openParen :: (ws ++ [.symbol .closeParen])
  | .unary _ .absolute e, _ => .symbol .pipe :: (e.words 6 ++ [.symbol .pipe])
  | .unary _ op e, _ => .symbol op.kind :: e.words 0
  | .addressOf _ l, _ => .symbol .ampersand :: l.words
  | .element _ x i, _ =>
    .name x :: .symbol .openBracket :: (i.words 6 ++ [.symbol .closeBracket])
  | .named _ x, _ => [.name x]
  | .integer _ i, _ => [.number i.toNat]
  | .char _ c, _ => [.char c]
  | .boolean _ b, _ => [.symbol (if b then .true else .false)]
  | .null _, _ => [.symbol .null]

/-- The words of a location; an index stands in brackets and needs no parentheses. -/
def Location.words : Location → List Word
  | .named _ x => [.name x]
  | .pointee _ x => [.symbol .caret, .name x]
  | .element _ x i => .name x :: .symbol .openBracket :: (i.words 6 ++ [.symbol .closeBracket])

end

/-! ## Declarations -/

/-- Items with words of the kind `k` between them. -/
def separated {α : Type} (k : Kind) (f : α → List Word) : List α → List Word
  | [] => []
  | x :: xs => f x ++ xs.flatMap fun y => .symbol k :: f y

/-- The words of a type: one for all types but strings, which have a size in brackets. -/
def TypeMark.words (t : TypeMark) : List Word :=
  match t.declared with
  | .integer => [.symbol .integer]
  | .boolean => [.symbol .boolean]
  | .char => [.symbol .char]
  | .string n => [.symbol .string, .symbol .openBracket, .number n, .symbol .closeBracket]
  | .intPtr => [.symbol .intPtr]
  | .charPtr => [.symbol .charPtr]

/-- Names with commas between them. -/
def nameWords (xs : List String) : List Word := separated .comma (fun x => [.name x]) xs

/-- The words of a group of parameters. -/
def Decl.parameterWords (d : Decl) : List Word :=
  nameWords d.names ++ .symbol .colon :: d.type.words

/-- A declaration of variables, as it stands in a block. -/
def Decl.words (d : Decl) : List Word :=
  .symbol .var :: (nameWords d.names ++ .symbol .colon :: (d.type.words ++ [.symbol .semicolon]))

/-! ## Statements -/

/-- The words of a condition. -/
def conditionWords (e : Expr) : List Word :=
  .symbol .openParen :: (e.words 6 ++ [.symbol .closeParen])

mutual

/-- The words of a statement. -/
def Stmt.words : Stmt → List Word
  | .assign _ l e => l.words ++ .symbol .assignment :: (e.words 6 ++ [.symbol .semicolon])
  | .assignString _ l s => l.words ++ [.symbol .assignment, .text s, .symbol .semicolon]
  | .call _ l f es =>
    l.words ++ .symbol .assignment :: .name f :: .symbol .openParen ::
      (separated .comma (fun e => e.words 6) es ++ [.symbol .closeParen, .symbol .semicolon])
  | .ifThen _ e b => .symbol .if :: (conditionWords e ++ b.words)
  | .ifElse _ e b b' =>
    .symbol .if :: (conditionWords e ++ (b.words ++ .symbol .else :: b'.words))
  | .loop _ e b => .symbol .while :: (conditionWords e ++ b.words)
  | .block _ b => b.words

/-- The words of a block: declarations and statements in braces. -/
def Block.words : Block → List Word
  | .mk ds ss _ =>
    .symbol .openCurly :: (ds.flatMap Decl.words ++ (stmtsWords ss ++ [.symbol .closeCurly]))

/-- The words of statements, one behind the other. -/
def stmtsWords : List Stmt → List Word
  | [] => []
  | s :: ss => s.words ++ stmtsWords ss

end

/-! ## Procedures and programs -/

/-- The words of a procedure in front of its body: name, parameters and result type. -/
def Header.words (h : Header) : List Word :=
  .symbol .procedure :: .name h.name :: .symbol .openParen ::
    (separated .semicolon Decl.parameterWords h.parameters ++
      .symbol .closeParen :: .symbol .return :: h.returnType.words)

/-- The words of the return that ends a body. -/
def Return.words (r : Return) : List Word :=
  .symbol .return :: (r.value.words 6 ++ [.symbol .semicolon])

mutual

/-- The words of a procedure. -/
def Procedure.words : Procedure → List Word
  | .mk h b => h.words ++ b.words

/-- The words of a body: procedures, declarations, statements and the return, in braces. -/
def Body.words : Body → List Word
  | .mk ps ds ss r _ =>
    .symbol .openCurly :: (proceduresWords ps ++ (ds.flatMap Decl.words ++
      (stmtsWords ss ++ (r.words ++ [.symbol .closeCurly]))))

/-- The words of procedures, one behind the other. -/
def proceduresWords : List Procedure → List Word
  | [] => []
  | p :: ps => p.words ++ proceduresWords ps

end

/-- The words of a program: those of its procedures. -/
def Program.words (p : Program) : List Word := proceduresWords p.procedures

/-- A program as text. -/
def Program.text (p : Program) : String := String.ofList (spaced p.words)

/-! ## Trees that sources have -/

/-- A letter or an underscore, then letters, digits and underscores, and not a reserved word. -/
structure IsName (x : String) : Prop where
  shape : ∃ c cs, x.toList = c :: cs ∧ (c.isAlpha = true ∨ c = '_') ∧
    ∀ d ∈ cs, d.isAlphanum = true ∨ d = '_'
  free : ∀ k, symbol k ≠ x

/-- A string literal can hold anything but a double quote and a newline. -/
def IsText (s : String) : Prop := ∀ c ∈ s.toList, c ≠ '"' ∧ c ≠ '\n'

/-- No basetype is known yet. -/
def Attribute.Bare (a : Attribute) : Prop := a.basetype = .unknown

mutual

/-- Some source has this expression: numbers are not negative and fit into 63 bits, names are names,
    and no basetype is known. -/
def Expr.Denotable : Expr → Prop
  | .binary a _ l r => a.Bare ∧ l.Denotable ∧ r.Denotable
  | .unary a _ e => a.Bare ∧ e.Denotable
  | .addressOf a l => a.Bare ∧ l.Denotable
  | .element a x i => a.Bare ∧ IsName x ∧ i.Denotable
  | .named a x => a.Bare ∧ IsName x
  | .integer a i => a.Bare ∧ 0 ≤ i ∧ i < 2 ^ 63
  | .char a _ => a.Bare
  | .boolean a _ => a.Bare
  | .null a => a.Bare

/-- Some source has this location. -/
def Location.Denotable : Location → Prop
  | .named a x => a.Bare ∧ IsName x
  | .pointee a x => a.Bare ∧ IsName x
  | .element a x i => a.Bare ∧ IsName x ∧ i.Denotable

end

/-- Some source has this type: the size of a string fits into 32 bits. -/
def TypeMark.Denotable (t : TypeMark) : Prop :=
  t.attr.Bare ∧ ∀ n, t.declared = .string n → n < 2 ^ 32

/-- Some source has this declaration: it has names, and they are names. -/
def Decl.Denotable (d : Decl) : Prop :=
  d.attr.Bare ∧ d.names ≠ [] ∧ (∀ x ∈ d.names, IsName x) ∧ d.type.Denotable

mutual

/-- Some source has this statement. -/
def Stmt.Denotable : Stmt → Prop
  | .assign a l e => a.Bare ∧ l.Denotable ∧ e.Denotable
  | .assignString a l s => a.Bare ∧ l.Denotable ∧ IsText s
  | .call a l f es => a.Bare ∧ l.Denotable ∧ IsName f ∧ ∀ e ∈ es, e.Denotable
  | .ifThen a e b => a.Bare ∧ e.Denotable ∧ b.Denotable
  | .ifElse a e b b' => a.Bare ∧ e.Denotable ∧ b.Denotable ∧ b'.Denotable
  | .loop a e b => a.Bare ∧ e.Denotable ∧ b.Denotable
  | .block a b => a.Bare ∧ b.Denotable

/-- Some source has this block. -/
def Block.Denotable : Block → Prop
  | .mk ds ss a => a.Bare ∧ (∀ d ∈ ds, d.Denotable) ∧ stmtsDenotable ss

/-- Some source has these statements. -/
def stmtsDenotable : List Stmt → Prop
  | [] => True
  | s :: ss => s.Denotable ∧ stmtsDenotable ss

end

/-- Some source has this header. -/
def Header.Denotable (h : Header) : Prop :=
  h.attr.Bare ∧ IsName h.name ∧ (∀ d ∈ h.parameters, d.Denotable) ∧ h.returnType.Denotable

/-- Some source has this return. -/
def Return.Denotable (r : Return) : Prop := r.attr.Bare ∧ r.value.Denotable

mutual

/-- Some source has this procedure. -/
def Procedure.Denotable : Procedure → Prop
  | .mk h b => h.Denotable ∧ b.Denotable

/-- Some source has this body. -/
def Body.Denotable : Body → Prop
  | .mk ps ds ss r a =>
    a.Bare ∧ proceduresDenotable ps ∧ (∀ d ∈ ds, d.Denotable) ∧ stmtsDenotable ss ∧ r.Denotable

/-- Some source has these procedures. -/
def proceduresDenotable : List Procedure → Prop
  | [] => True
  | p :: ps => p.Denotable ∧ proceduresDenotable ps

end

/-- Some source has this tree. -/
def Program.Denotable (p : Program) : Prop := p.attr.Bare ∧ proceduresDenotable p.procedures

/-! ## Trees without line numbers -/

/-- The attribute without its line: 0 is the line of no token. -/
def Attribute.eraseLine (a : Attribute) : Attribute := { a with line := 0 }

/-- Of a node that no check has visited, nothing is left. -/
theorem Attribute.eraseLine_bare (line : Nat) : (bare line).eraseLine = bare 0 := rfl

/-- Where no basetype is known, a line number is all that an attribute holds. -/
theorem Attribute.Bare.eraseLine_eq {a : Attribute} (h : a.Bare) : a.eraseLine = bare 0 := by
  obtain ⟨b, line⟩ := a
  obtain rfl : b = .unknown := h
  rfl

mutual

/-- The expression without its line numbers. -/
def Expr.eraseLines : Expr → Expr
  | .binary a op l r => .binary a.eraseLine op l.eraseLines r.eraseLines
  | .unary a op e => .unary a.eraseLine op e.eraseLines
  | .addressOf a l => .addressOf a.eraseLine l.eraseLines
  | .element a x i => .element a.eraseLine x i.eraseLines
  | .named a x => .named a.eraseLine x
  | .integer a i => .integer a.eraseLine i
  | .char a c => .char a.eraseLine c
  | .boolean a b => .boolean a.eraseLine b
  | .null a => .null a.eraseLine

/-- The location without its line numbers. -/
def Location.eraseLines : Location → Location
  | .named a x => .named a.eraseLine x
  | .pointee a x => .pointee a.eraseLine x
  | .element a x i => .element a.eraseLine x i.eraseLines

end

/-- The type without its line number. -/
def TypeMark.eraseLines (t : TypeMark) : TypeMark := ⟨t.declared, t.attr.eraseLine⟩

/-- The declaration without its line numbers. -/
def Decl.eraseLines (d : Decl) : Decl := ⟨d.names, d.type.eraseLines, d.attr.eraseLine⟩

mutual

/-- The statement without its line numbers. -/
def Stmt.eraseLines : Stmt → Stmt
  | .assign a l e => .assign a.eraseLine l.eraseLines e.eraseLines
  | .assignString a l s => .assignString a.eraseLine l.eraseLines s
  | .call a l f es => .call a.eraseLine l.eraseLines f (es.map Expr.eraseLines)
  | .ifThen a e b => .ifThen a.eraseLine e.eraseLines b.eraseLines
  | .ifElse a e b b' => .ifElse a.eraseLine e.eraseLines b.eraseLines b'.eraseLines
  | .loop a e b => .loop a.eraseLine e.eraseLines b.eraseLines
  | .block a b => .block a.eraseLine b.eraseLines

/-- The block without its line numbers. -/
def Block.eraseLines : Block → Block
  | .mk ds ss a => .mk (ds.map Decl.eraseLines) (eraseStmtLines ss) a.eraseLine

/-- The statements without their line numbers. -/
def eraseStmtLines : List Stmt → List Stmt
  | [] => []
  | s :: ss => s.eraseLines :: eraseStmtLines ss

end

/-- The header without its line numbers. -/
def Header.eraseLines (h : Header) : Header :=
  ⟨h.name, h.parameters.map Decl.eraseLines, h.returnType.eraseLines, h.attr.eraseLine⟩

/-- The return without its line numbers. -/
def Return.eraseLines (r : Return) : Return := ⟨r.value.eraseLines, r.attr.eraseLine⟩

mutual

/-- The procedure without its line numbers. -/
def Procedure.eraseLines : Procedure → Procedure
  | .mk h b => .mk h.eraseLines b.eraseLines

/-- The body without its line numbers. -/
def Body.eraseLines : Body → Body
  | .mk ps ds ss r a =>
    .mk (eraseProcedureLines ps) (ds.map Decl.eraseLines) (eraseStmtLines ss) r.eraseLines
      a.eraseLine

/-- The procedures without their line numbers. -/
def eraseProcedureLines : List Procedure → List Procedure
  | [] => []
  | p :: ps => p.eraseLines :: eraseProcedureLines ps

end

/-- The program with all line numbers set to zero. -/
def Program.eraseLines (p : Program) : Program :=
  ⟨eraseProcedureLines p.procedures, p.attr.eraseLine⟩

end ProcLang
