/-
  Readers do not look at the places of tokens.

  A `Relocation` puts other places into tokens: offsets, lines and the name of the source.  Kinds
  and values stay.  `Tracks r g p q`: on relocated streams the reader `q` does what `p` does on
  the streams before, passes the same tokens, and ends in what `g` makes of a result, or in the
  relocated error.  It is closed under sequencing without conditions (`Tracks.bind`), so every
  reader of the grammar tracks itself, where `g` puts the lines into the tree, and a relocated
  token list is read as the relocated program, or has the relocated error (`parse_relocate`).

  Places that no token has cannot come out of that.  A relocation that moves only those leaves
  the tokens as they are, and so the errors, which therefore lie where tokens do
  (`exists_start_of_parse_error`, `exists_line_of_typeCheck_error`).
-/
import ProcLang.Grammar.Program
import ProcLang.Proofs.Typing.Lines

namespace ProcLang

variable {α β γ δ : Type}

/-! ## Other places -/

/-- Other places for tokens: for the offsets where they start and stop, for their lines, and for
    the name of the source. -/
structure Relocation where
  file : String → String
  start : Nat → Nat
  stop : Nat → Nat
  line : Nat → Nat

/-- The tokens end with an end marker. -/
def Ended (ts : List Token) : Prop := ∃ us t, ts = us ++ [t] ∧ t.kind = .eof

namespace Relocation

variable (r : Relocation)

/-- The place of a start. -/
def position (p : Position) : Position := ⟨r.start p.offset, r.file p.file⟩

/-- A token at its other place. -/
def token (t : Token) : Token where
  kind := t.kind
  value := t.value
  span := ⟨r.position t.span.start, ⟨r.stop t.span.stop.offset, r.file t.span.stop.file⟩⟩
  line := r.line t.line

/-- The kind of a token is not moved. -/
theorem kind_token (t : Token) : (r.token t).kind = t.kind := rfl

/-- A token at its other place has the same value. -/
theorem value_token (t : Token) : (r.token t).value = t.value := rfl

/-- An error at its other place. -/
def diagnostic (d : Diagnostic) : Diagnostic := ⟨d.cause, r.position d.position⟩

/-- A stream of tokens at their other places. -/
def stream (s : Stream) : Stream where
  file := r.file s.file
  current := r.token s.current
  rest := s.rest.map r.token
  closed := by
    rw [List.getLastD_map]
    exact s.closed

/-- As many tokens are left as before. -/
theorem remaining_stream (s : Stream) : (r.stream s).remaining = s.remaining := List.length_map _

/-- A relocated stream moves on as the stream does. -/
theorem advance_stream (s : Stream) : (r.stream s).advance = r.stream s.advance := by
  obtain ⟨file, current, rest, h⟩ := s
  cases rest with
  | nil => rfl
  | cons t ts => rfl

/-- Looking ahead sees the same kinds. -/
theorem peek_stream (s : Stream) (n : Nat) : (r.stream s).peek n = s.peek n := by
  have htokens : (r.stream s).current :: (r.stream s).rest =
      (s.current :: s.rest).map r.token := rfl
  have hlast : (r.stream s).rest.getLastD (r.stream s).current =
      r.token (s.rest.getLastD s.current) := List.getLastD_map
  rw [Stream.peek, Stream.peek, htokens, hlast, List.getElem?_map]
  cases (s.current :: s.rest)[n]? <;> rfl

/-- The end of a run at other places; `g` puts them into the result. -/
def outcome (g : α → β) :
    EStateM.Result Diagnostic Stream α → EStateM.Result Diagnostic Stream β
  | .ok x s => .ok (g x) (r.stream s)
  | .error d s => .error (r.diagnostic d) (r.stream s)

/-- Relocated tokens are read as the relocated stream.  They have an end marker, so that none is put
    behind them, whose place would be one of no token. -/
theorem stream_ofTokens (file : String) {ts : List Token} (h : Ended ts) :
    Stream.ofTokens (r.file file) (ts.map r.token) = r.stream (.ofTokens file ts) := by
  obtain ⟨us, t, rfl, ht⟩ := h
  cases us with
  | nil => simp [Stream.ofTokens, stream, kind_token, ht]
  | cons u us => simp [Stream.ofTokens, stream, kind_token, ht]

end Relocation

/-! ## Readers that track one another -/

/-- At other places `q` does what `p` does, and `g` puts the places into the result. -/
def Tracks (r : Relocation) (g : α → β) (p : Parse α) (q : Parse β) : Prop :=
  ∀ s, q (r.stream s) = r.outcome g (p s)

section

open Parse

variable {r : Relocation} {g : α → β} {k : γ → δ} {p p' : Parse α} {q q' : Parse β}

/-- Readers one after the other track what they are made of.  The two outcomes of the first ones go
    together, so there are only two cases. -/
theorem Tracks.bind {f : α → Parse γ} {f' : β → Parse δ} (h : Tracks r g p q)
    (hf : ∀ x, Tracks r k (f x) (f' (g x))) : Tracks r k (p >>= f) (q >>= f') := by
  intro s
  show EStateM.bind q f' (r.stream s) = r.outcome k (EStateM.bind p f s)
  unfold EStateM.bind
  rw [h s]
  cases p s with
  | ok x t => exact hf x t
  | error d t => rfl

/-- A result that passes no token is mapped and nothing else. -/
theorem tracks_pure (x : α) : Tracks r g (pure x) (pure (g x)) := fun _ => rfl

/-- The current token is the relocated one. -/
theorem tracks_current : Tracks r r.token current current := fun _ => rfl

/-- The token that is passed is passed at its other place. -/
theorem tracks_advance : Tracks r r.token advance advance := by
  intro s
  rw [advance, Relocation.advance_stream]
  rfl

/-- A kind further on is the same. -/
theorem tracks_peek (n : Nat) : Tracks r id (peek n) (peek n) := by
  intro s
  rw [peek, Relocation.peek_stream]
  rfl

/-- An error about the current token has its place. -/
theorem tracks_unexpected (g : α → β) (message : String) :
    Tracks r g (unexpected message) (unexpected message) := fun _ => rfl

/-- An error about another token has the place of that one. -/
theorem tracks_blame (g : α → β) (t : Token) (cause : String → Cause) :
    Tracks r g (blame t cause) (blame (r.token t) cause) := fun _ => rfl

/-- Asking for a kind has the same answer; the error must be one that is relocated. -/
theorem tracks_expectOr (kind : Kind) {error : Stream → Diagnostic}
    (herror : ∀ s, error (r.stream s) = r.diagnostic (error s)) :
    Tracks r r.token (expectOr kind error) (expectOr kind error) := by
  intro s
  have hkind : (r.stream s).current.kind = s.current.kind := rfl
  unfold expectOr
  rw [hkind, Relocation.advance_stream, herror]
  split
  · rfl
  · rfl

/-- Asking for a kind without a message. -/
theorem tracks_expect (kind : Kind) : Tracks r r.token (expect kind) (expect kind) :=
  tracks_expectOr kind fun _ => rfl

/-- Asking for a kind with a message. -/
theorem tracks_expectFor (kind : Kind) (message : String) :
    Tracks r r.token (expectFor kind message) (expectFor kind message) :=
  tracks_expectOr kind fun _ => rfl

/-- Both readers take the same branch. -/
theorem tracks_ite {c : Prop} [Decidable c] (h : Tracks r g p q) (h' : Tracks r g p' q') :
    Tracks r g (if c then p else p') (if c then q else q') := by
  split
  · exact h
  · exact h'

/-- A bounded loop stops at the same token, as kinds and values decide where. -/
theorem tracks_manyUpTo {wanted : Token → Bool} (hwanted : ∀ t, wanted (r.token t) = wanted t)
    (h : Tracks r g p q) (n : Nat) :
    Tracks r (List.map g) (manyUpTo wanted p n) (manyUpTo wanted q n) := by
  induction n with
  | zero => exact tracks_pure []
  | succ n ih =>
    unfold manyUpTo
    refine tracks_current.bind fun t => ?_
    rw [hwanted]
    refine tracks_ite ?_ (tracks_pure [])
    exact h.bind fun x => ih.bind fun xs => tracks_pure (x :: xs)

/-- A loop is bounded by the tokens that are left, which are as many as before. -/
theorem tracks_manyWhile {wanted : Token → Bool} (hwanted : ∀ t, wanted (r.token t) = wanted t)
    (h : Tracks r g p q) : Tracks r (List.map g) (manyWhile wanted p) (manyWhile wanted q) := by
  intro s
  rw [manyWhile, Relocation.remaining_stream]
  exact tracks_manyUpTo hwanted h _ s

/-- A list with separators tracks the list of its items. -/
theorem tracks_separatedBy (separator : Kind) (h : Tracks r g p q) :
    Tracks r (List.map g) (separatedBy separator p) (separatedBy separator q) := by
  refine h.bind fun x => ?_
  refine (tracks_manyWhile (fun _ => rfl) (tracks_advance.bind fun _ => h)).bind fun xs => ?_
  exact tracks_pure (x :: xs)

/-- A list that may be empty. -/
theorem tracks_listBefore (closing : Kind) {p : Parse (List α)} {q : Parse (List β)}
    {g : List α → List β} (hnil : g [] = []) (h : Tracks r g p q) :
    Tracks r g (listBefore closing p) (listBefore closing q) := by
  refine tracks_current.bind fun t => tracks_ite ?_ h
  rw [← hnil]
  exact tracks_pure []

end

namespace Grammar

open Parse ProcLang.Text

variable {r : Relocation}

/-! ## Expressions -/

/-- The places of a tree are the lines of its nodes. -/
abbrev lines (r : Relocation) : Attribute → Attribute := .mapLine r.line

section Forms

variable {inner : Power → Parse Expr}
  (hinner : ∀ power, Tracks r (Expr.mapAttrs (lines r)) (inner power) (inner power))

include hinner

/-- An index in brackets. -/
theorem tracks_index : Tracks r (Expr.mapAttrs (lines r)) (index inner) (index inner) := by
  refine (tracks_expect _).bind fun _ => (hinner _).bind fun e => ?_
  exact (tracks_expect _).bind fun _ => tracks_pure _

/-- A location: the line of its name, or of the mark in front of it, is relocated. -/
theorem tracks_locationWith :
    Tracks r (Location.mapAttrs (lines r)) (locationWith inner) (locationWith inner) := by
  refine tracks_current.bind fun t => tracks_ite ?_ ?_
  · refine tracks_advance.bind fun _ => (tracks_expect _).bind fun name => ?_
    exact tracks_pure _
  · refine (tracks_expectFor _ _).bind fun name => tracks_current.bind fun u => tracks_ite ?_ ?_
    · exact (tracks_index hinner).bind fun i =>
        tracks_pure _
    · exact tracks_pure _

omit hinner in
/-- A number: its value decides, and the error is at its token. -/
theorem tracks_numberLiteral (t : Token) :
    Tracks r (Expr.mapAttrs (lines r)) (numberLiteral t) (numberLiteral (r.token t)) := by
  unfold numberLiteral
  rw [Relocation.value_token]
  cases integerLiteral? t.value with
  | some n => exact tracks_advance.bind fun _ => tracks_pure _
  | none => exact tracks_blame _ t _

omit hinner in
/-- A character literal: its value decides. -/
theorem tracks_charLiteral (t : Token) :
    Tracks r (Expr.mapAttrs (lines r)) (charLiteral t) (charLiteral (r.token t)) := by
  refine tracks_advance.bind fun _ => ?_
  rw [Relocation.value_token]
  cases t.value.toList with
  | cons c _ => exact tracks_pure _
  | nil => exact tracks_blame _ t _

/-- A name, or an element behind a name. -/
theorem tracks_reference (t : Token) :
    Tracks r (Expr.mapAttrs (lines r)) (reference inner t) (reference inner (r.token t)) := by
  refine tracks_advance.bind fun _ => tracks_current.bind fun u => tracks_ite ?_ ?_
  · exact (tracks_index hinner).bind fun i => tracks_pure _
  · exact tracks_pure _

omit hinner in
/-- A word with a meaning has the relocated line. -/
theorem wordLiteral?_token (t : Token) :
    wordLiteral? (r.token t) = (wordLiteral? t).map (Expr.mapAttrs (lines r)) := by
  unfold wordLiteral?
  rw [Relocation.kind_token]
  split <;> rfl

/-- A primary: the kind of its first token decides which form it has. -/
theorem tracks_primary : Tracks r (Expr.mapAttrs (lines r)) (primary inner) (primary inner) := by
  refine tracks_current.bind fun t => ?_
  refine tracks_ite (tracks_numberLiteral t) ?_
  refine tracks_ite (tracks_charLiteral t) ?_
  refine tracks_ite (tracks_reference hinner t) ?_
  rw [wordLiteral?_token]
  cases wordLiteral? t with
  | some e => exact tracks_advance.bind fun _ => tracks_pure _
  | none => exact tracks_unexpected _ _

/-- A prefix and its operand. -/
theorem tracks_unary : Tracks r (Expr.mapAttrs (lines r)) (unary inner) (unary inner) := by
  refine tracks_advance.bind fun t => ?_
  rw [Relocation.kind_token]
  cases unaryOp? t.kind with
  | some op => exact (hinner _).bind fun e => tracks_pure _
  | none => exact tracks_blame _ t _

/-- An absolute value between bars. -/
theorem tracks_absolute :
    Tracks r (Expr.mapAttrs (lines r)) (absolute inner) (absolute inner) := by
  refine tracks_advance.bind fun t => (hinner _).bind fun e => ?_
  exact (tracks_expectFor _ _).bind fun _ => tracks_pure _

/-- The address of a location. -/
theorem tracks_addressOf :
    Tracks r (Expr.mapAttrs (lines r)) (addressOf inner) (addressOf inner) := by
  refine tracks_advance.bind fun t => (tracks_locationWith hinner).bind fun l => ?_
  exact tracks_pure _

/-- An expression in parentheses leaves no node and no line of its own. -/
theorem tracks_grouping :
    Tracks r (Expr.mapAttrs (lines r)) (grouping inner) (grouping inner) := by
  refine tracks_advance.bind fun _ => (hinner _).bind fun e => ?_
  exact (tracks_expect _).bind fun _ => tracks_pure _

/-- All the ways in which an expression can start. -/
theorem tracks_start (form : ExprStart) :
    Tracks r (Expr.mapAttrs (lines r)) (start inner form) (start inner form) := by
  cases form with
  | primary => exact tracks_primary hinner
  | unary => exact tracks_unary hinner
  | absolute => exact tracks_absolute hinner
  | addressOf => exact tracks_addressOf hinner
  | grouping => exact tracks_grouping hinner

/-- A binary expression: its line is that of the operator. -/
theorem tracks_binary (left : Expr) (power : Power) :
    Tracks r (Expr.mapAttrs (lines r)) (binary inner left power)
      (binary inner (left.mapAttrs (lines r)) power) := by
  refine tracks_advance.bind fun t => ?_
  rw [Relocation.kind_token]
  cases binaryOp? t.kind with
  | some op =>
    exact (hinner _).bind fun right => tracks_pure _
  | none => exact tracks_blame _ t _

/-- The loop over operators, from a left operand with relocated lines. -/
theorem tracks_operatorsUpTo (rules : Rules) (power : Power) (n : Nat) (left : Expr) :
    Tracks r (Expr.mapAttrs (lines r)) (operatorsUpTo inner rules power n left)
      (operatorsUpTo inner rules power n (left.mapAttrs (lines r))) := by
  induction n generalizing left with
  | zero => exact tracks_pure _
  | succ n ih =>
    refine tracks_current.bind fun t => ?_
    rw [show tighter? rules power (r.token t) = tighter? rules power t from rfl]
    cases tighter? rules power t with
    | some p => exact (tracks_binary hinner left p).bind fun e => ih e
    | none => exact tracks_pure _

/-- The form of expressions tracks itself if its inner reader does. -/
theorem tracks_expressionWith (rules : Rules) (power : Power) :
    Tracks r (Expr.mapAttrs (lines r)) (expressionWith inner rules power)
      (expressionWith inner rules power) := by
  refine tracks_current.bind fun t => ?_
  rw [Relocation.kind_token]
  cases rules.exprStart? t.kind with
  | some form =>
    refine (tracks_start hinner form).bind fun left s => ?_
    show operatorsUpTo inner rules power ((r.stream s).remaining + 1) _ _ = _
    rw [Relocation.remaining_stream]
    exact tracks_operatorsUpTo hinner rules power _ left s
  | none => exact tracks_unexpected _ _

end Forms

/-- Readers of expressions of every depth track themselves. -/
theorem tracks_expressionUpTo (rules : Rules) (n : Nat) (power : Power) :
    Tracks r (Expr.mapAttrs (lines r)) (expressionUpTo rules n power)
      (expressionUpTo rules n power) := by
  induction n generalizing power with
  | zero => exact tracks_expressionWith (fun _ => tracks_unexpected _ _) rules power
  | succ n ih => exact tracks_expressionWith ih rules power

/-- The depth that is allowed comes from the tokens that are left, as many as before. -/
theorem tracks_expression (rules : Rules) (power : Power) :
    Tracks r (Expr.mapAttrs (lines r)) (expression rules power) (expression rules power) := by
  intro s
  rw [expression, Relocation.remaining_stream]
  exact tracks_expressionUpTo rules _ power s

/-- Locations, by the same depth. -/
theorem tracks_location (rules : Rules) :
    Tracks r (Location.mapAttrs (lines r)) (location rules) (location rules) :=
  tracks_locationWith (tracks_expression rules)

/-! ## Declarations -/

/-- A string type: the value of its number decides, and errors are at this number. -/
theorem tracks_stringType : Tracks r (TypeMark.mapAttrs (lines r)) stringType stringType := by
  refine tracks_advance.bind fun t => (tracks_expect _).bind fun _ => ?_
  refine (tracks_expect _).bind fun size => ?_
  rw [Relocation.value_token]
  cases arraySize? size.value with
  | some n => exact (tracks_expect _).bind fun _ => tracks_pure _
  | none => exact tracks_blame _ size _

/-- A type: the kind of its first token decides. -/
theorem tracks_declaredType :
    Tracks r (TypeMark.mapAttrs (lines r)) declaredType declaredType := by
  refine tracks_current.bind fun t => ?_
  rw [Relocation.kind_token]
  cases plainType? t.kind with
  | some declared => exact tracks_advance.bind fun _ => tracks_pure _
  | none => exact tracks_ite tracks_stringType (tracks_unexpected _ _)

/-- Names are values of tokens, and no place is kept of them. -/
theorem tracks_names : Tracks r id names names := by
  have hname : Tracks r id (expect .identifier >>= fun t => pure t.value)
      (expect .identifier >>= fun t => pure t.value) :=
    (tracks_expect _).bind fun t => tracks_pure _
  have hnames := tracks_separatedBy .comma hname
  rw [List.map_id_fun] at hnames
  exact hnames

/-- A group of parameters. -/
theorem tracks_parameter : Tracks r (Decl.mapAttrs (lines r)) parameter parameter := by
  refine tracks_current.bind fun t => tracks_names.bind fun ns => (tracks_expect _).bind fun _ => ?_
  exact tracks_declaredType.bind fun type => tracks_pure _

/-- A declaration of variables. -/
theorem tracks_declaration : Tracks r (Decl.mapAttrs (lines r)) declaration declaration := by
  refine (tracks_expect _).bind fun t => tracks_names.bind fun ns => ?_
  refine (tracks_expect _).bind fun _ => ?_
  refine tracks_declaredType.bind fun type => (tracks_expect _).bind fun _ => ?_
  exact tracks_pure _

/-- Declarations, as long as there are some. -/
theorem tracks_declarations :
    Tracks r (List.map (Decl.mapAttrs (lines r))) declarations declarations :=
  tracks_manyWhile (fun _ => rfl) tracks_declaration

/-! ## Statements -/

/-- Arguments of a call. -/
theorem tracks_arguments (rules : Rules) :
    Tracks r (List.map (Expr.mapAttrs (lines r))) (arguments rules) (arguments rules) := by
  refine (tracks_expect _).bind fun _ => ?_
  have hlist := tracks_separatedBy .comma (tracks_expression (r := r) rules .default)
  refine (tracks_listBefore .closeParen rfl hlist).bind fun es => ?_
  exact (tracks_expect _).bind fun _ => tracks_pure _

/-- What follows the sign of an assignment: kinds ahead tell a call from an expression. -/
theorem tracks_assigned (rules : Rules) (line : Nat) (target : Location) :
    Tracks r (Stmt.mapAttrs (lines r)) (assigned rules line target)
      (assigned rules (r.line line) (target.mapAttrs (lines r))) := by
  refine tracks_current.bind fun t => tracks_ite ?_ ?_
  · exact tracks_advance.bind fun text =>
      tracks_pure _
  · refine (tracks_peek 1).bind fun k => tracks_ite ?_ ?_
    · refine tracks_advance.bind fun callee => (tracks_arguments rules).bind fun es => ?_
      exact tracks_pure _
    · exact (tracks_expression rules _).bind fun e => tracks_pure _

/-- An assignment, with the line of its location. -/
theorem tracks_assignment (rules : Rules) :
    Tracks r (Stmt.mapAttrs (lines r)) (assignment rules) (assignment rules) := by
  refine tracks_current.bind fun t => (tracks_location rules).bind fun target => ?_
  refine (tracks_expect _).bind fun _ => (tracks_assigned rules t.line target).bind fun stmt => ?_
  exact (tracks_expect _).bind fun _ => tracks_pure _

/-- A condition in parentheses. -/
theorem tracks_condition (rules : Rules) :
    Tracks r (Expr.mapAttrs (lines r)) (condition rules) (condition rules) := by
  refine (tracks_expect _).bind fun _ => (tracks_expression rules _).bind fun e => ?_
  exact (tracks_expect _).bind fun _ => tracks_pure _

/-- Statements one after the other are mapped one by one. -/
theorem mapStmtAttrs_eq_map (f : Attribute → Attribute) :
    mapStmtAttrs f = List.map (Stmt.mapAttrs f) := by
  funext ss
  induction ss with
  | nil => rfl
  | cons s ss ih => rw [mapStmtAttrs, ih, List.map_cons]

/-- Statements, as long as there are some. -/
theorem tracks_stmts {wanted : Token → Bool} (hwanted : ∀ t, wanted (r.token t) = wanted t)
    {item : Parse Stmt} (hitem : Tracks r (Stmt.mapAttrs (lines r)) item item) :
    Tracks r (mapStmtAttrs (lines r)) (manyWhile wanted item) (manyWhile wanted item) := by
  rw [mapStmtAttrs_eq_map]
  exact tracks_manyWhile hwanted hitem

section Forms

variable {inner : Parse Stmt} (hinner : Tracks r (Stmt.mapAttrs (lines r)) inner inner)

include hinner

/-- A block tracks itself if the reader of statements does. -/
theorem tracks_blockWith :
    Tracks r (Block.mapAttrs (lines r)) (blockWith inner) (blockWith inner) := by
  refine (tracks_expect _).bind fun t => tracks_declarations.bind fun ds => ?_
  refine Tracks.bind (tracks_stmts (fun _ => rfl) hinner) fun ss => ?_
  exact (tracks_expect _).bind fun _ => tracks_pure _

/-- A conditional, with or without an `else`. -/
theorem tracks_conditional (rules : Rules) :
    Tracks r (Stmt.mapAttrs (lines r)) (conditional inner rules) (conditional inner rules) := by
  refine tracks_advance.bind fun t => (tracks_condition rules).bind fun e => ?_
  refine (tracks_blockWith hinner).bind fun body => tracks_current.bind fun u => tracks_ite ?_ ?_
  · refine tracks_advance.bind fun _ => (tracks_blockWith hinner).bind fun otherwise => ?_
    exact tracks_pure _
  · exact tracks_pure _

/-- A loop. -/
theorem tracks_loop (rules : Rules) :
    Tracks r (Stmt.mapAttrs (lines r)) (loop inner rules) (loop inner rules) := by
  refine tracks_advance.bind fun t => (tracks_condition rules).bind fun e => ?_
  exact (tracks_blockWith hinner).bind fun body => tracks_pure _

/-- A block that stands as a statement. -/
theorem tracks_blockStmt :
    Tracks r (Stmt.mapAttrs (lines r)) (blockStmt inner) (blockStmt inner) := by
  refine tracks_current.bind fun t => (tracks_blockWith hinner).bind fun body => ?_
  exact tracks_pure _

/-- The form of statements tracks itself if its inner reader does. -/
theorem tracks_statementWith (rules : Rules) :
    Tracks r (Stmt.mapAttrs (lines r)) (statementWith inner rules)
      (statementWith inner rules) := by
  refine tracks_current.bind fun t => ?_
  rw [Relocation.kind_token]
  cases rules.stmtStart? t.kind with
  | none => exact tracks_assignment rules
  | some form =>
    cases form with
    | conditional => exact tracks_conditional hinner rules
    | loop => exact tracks_loop hinner rules
    | block => exact tracks_blockStmt hinner
    | assignment => exact tracks_assignment rules

end Forms

/-- Readers of statements of every depth track themselves. -/
theorem tracks_statementUpTo (rules : Rules) (n : Nat) :
    Tracks r (Stmt.mapAttrs (lines r)) (statementUpTo rules n) (statementUpTo rules n) := by
  induction n with
  | zero => exact tracks_statementWith (tracks_unexpected _ _) rules
  | succ n ih => exact tracks_statementWith ih rules

/-- Statements, by a depth from the tokens that are left. -/
theorem tracks_statement (rules : Rules) :
    Tracks r (Stmt.mapAttrs (lines r)) (statement rules) (statement rules) := by
  intro s
  rw [statement, Relocation.remaining_stream]
  exact tracks_statementUpTo rules _ s

/-! ## Procedures -/

/-- Parameters in parentheses. -/
theorem tracks_parameters :
    Tracks r (List.map (Decl.mapAttrs (lines r))) parameters parameters := by
  refine (tracks_expect _).bind fun _ => ?_
  have hlist := tracks_separatedBy .semicolon (tracks_parameter (r := r))
  refine (tracks_listBefore .closeParen rfl hlist).bind fun ds => ?_
  exact (tracks_expect _).bind fun _ => tracks_pure _

/-- A header, with the line of its reserved word. -/
theorem tracks_header : Tracks r (Header.mapAttrs (lines r)) header header := by
  refine (tracks_expect _).bind fun t => (tracks_expectFor _ _).bind fun name => ?_
  refine tracks_parameters.bind fun ds => (tracks_expect _).bind fun _ => ?_
  exact tracks_declaredType.bind fun type => tracks_pure _

/-- The return at the end of a body. -/
theorem tracks_finalResult (rules : Rules) :
    Tracks r (Return.mapAttrs (lines r)) (finalResult rules) (finalResult rules) := by
  refine tracks_current.bind fun _ => tracks_ite ?_ (tracks_unexpected _ _)
  refine (tracks_expect _).bind fun t => (tracks_expression rules _).bind fun e => ?_
  exact (tracks_expect _).bind fun _ => tracks_pure _

/-- Procedures one after the other are mapped one by one. -/
theorem mapProcedureAttrs_eq_map (f : Attribute → Attribute) :
    mapProcedureAttrs f = List.map (Procedure.mapAttrs f) := by
  funext ps
  induction ps with
  | nil => rfl
  | cons p ps ih => rw [mapProcedureAttrs, ih, List.map_cons]

/-- Procedures, as long as there are some. -/
theorem tracks_procedures {wanted : Token → Bool} (hwanted : ∀ t, wanted (r.token t) = wanted t)
    {item : Parse Procedure} (hitem : Tracks r (Procedure.mapAttrs (lines r)) item item) :
    Tracks r (mapProcedureAttrs (lines r)) (manyWhile wanted item) (manyWhile wanted item) := by
  rw [mapProcedureAttrs_eq_map]
  exact tracks_manyWhile hwanted hitem

section Forms

variable {inner : Parse Procedure} (hinner : Tracks r (Procedure.mapAttrs (lines r)) inner inner)

include hinner

/-- A body tracks itself if the reader of procedures does. -/
theorem tracks_bodyWith (rules : Rules) :
    Tracks r (Body.mapAttrs (lines r)) (bodyWith inner rules) (bodyWith inner rules) := by
  refine (tracks_expect _).bind fun t => ?_
  refine Tracks.bind (tracks_procedures (fun _ => rfl) hinner) fun ps => ?_
  refine tracks_declarations.bind fun ds => ?_
  refine Tracks.bind (tracks_stmts (fun _ => rfl) (tracks_statement rules)) fun ss => ?_
  refine (tracks_finalResult rules).bind fun result => ?_
  exact (tracks_expect _).bind fun _ => tracks_pure _

/-- The form of procedures tracks itself if its inner reader does. -/
theorem tracks_procedureWith (rules : Rules) :
    Tracks r (Procedure.mapAttrs (lines r)) (procedureWith inner rules)
      (procedureWith inner rules) := by
  refine tracks_header.bind fun h => (tracks_bodyWith hinner rules).bind fun b => ?_
  exact tracks_pure _

end Forms

/-- Readers of procedures of every depth track themselves. -/
theorem tracks_procedureUpTo (rules : Rules) (n : Nat) :
    Tracks r (Procedure.mapAttrs (lines r)) (procedureUpTo rules n) (procedureUpTo rules n) := by
  induction n with
  | zero => exact tracks_procedureWith (tracks_unexpected _ _) rules
  | succ n ih => exact tracks_procedureWith ih rules

/-! ## Programs -/

/-- A procedure at the top, where anything else is an error at the current token. -/
theorem tracks_topProcedure :
    Tracks r (Procedure.mapAttrs (lines r)) topProcedure topProcedure := by
  refine tracks_current.bind fun _ => tracks_ite ?_ (tracks_unexpected _ _)
  intro s
  rw [procedure, Relocation.remaining_stream]
  exact tracks_procedureUpTo .standard _ s

/-- A program: the line of its node is that of the token behind all procedures. -/
theorem tracks_program : Tracks r (Program.mapAttrs (lines r)) program program := by
  refine Tracks.bind (tracks_procedures (fun _ => rfl) tracks_topProcedure) fun ps => ?_
  exact tracks_current.bind fun t => tracks_pure _

/-- Tokens at other places are read as the program with the other lines, or have the same error
    at the other place. -/
theorem parse_relocate (r : Relocation) (file : String) {ts : List Token} (h : Ended ts) :
    parse (r.file file) (ts.map r.token) =
      match parse file ts with
      | .ok p => .ok (p.mapAttrs (lines r))
      | .error d => .error (r.diagnostic d) := by
  have htracks := tracks_program (r := r) (.ofTokens file ts)
  rw [← r.stream_ofTokens file h] at htracks
  unfold parse
  rw [htracks]
  cases program (.ofTokens file ts) with
  | ok p s => rfl
  | error d s => rfl

/-! ## The places of errors -/

/-- The numbers `ns` stay, and all others move. -/
def keep (ns : List Nat) (n : Nat) : Nat := if n ∈ ns then n else n + 1

/-- A number is kept exactly when it is one of those to keep. -/
theorem keep_eq_iff {ns : List Nat} {n : Nat} : keep ns n = n ↔ n ∈ ns := by
  unfold keep
  split
  · rename_i h
    exact iff_of_true rfl h
  · rename_i h
    exact iff_of_false (Nat.succ_ne_self n) h

/-- The relocation that moves all places but those of `ts`. -/
def fixing (ts : List Token) : Relocation where
  file := id
  start := keep (ts.map fun t => t.span.start.offset)
  stop := id
  line := keep (ts.map Token.line)

/-- Tokens are left alone when all the places that they have are kept. -/
theorem map_fixing (ts : List Token) : ts.map (fixing ts).token = ts := by
  have hid : ∀ t ∈ ts, (fixing ts).token t = t := by
    intro t ht
    have hstart : keep (ts.map fun t => t.span.start.offset) t.span.start.offset =
        t.span.start.offset := keep_eq_iff.mpr (List.mem_map_of_mem ht)
    have hline : keep (ts.map Token.line) t.line = t.line :=
      keep_eq_iff.mpr (List.mem_map_of_mem ht)
    simp only [Relocation.token, Relocation.position, fixing, hstart, hline, id]
  rw [List.map_congr_left hid, List.map_id']

/-- Such tokens are read as before, so the program and the error are fixed as well. -/
theorem eq_of_parse_fixing (file : String) {ts : List Token} (h : Ended ts) :
    parse file ts =
      match parse file ts with
      | .ok p => .ok (p.mapAttrs (lines (fixing ts)))
      | .error d => .error ((fixing ts).diagnostic d) := by
  have hparse := parse_relocate (fixing ts) file h
  rw [map_fixing] at hparse
  exact hparse

/-- A syntax error lies at the start of a token. -/
theorem exists_start_of_parse_error {file : String} {ts : List Token} (h : Ended ts)
    {d : Diagnostic} (hparse : parse file ts = .error d) :
    ∃ t ∈ ts, t.span.start.offset = d.position.offset := by
  have hfixed := eq_of_parse_fixing file h
  rw [hparse] at hfixed
  -- the position is one of those that stay
  have hstart : d.position.offset = (fixing ts).start d.position.offset :=
    congrArg (fun d => d.position.offset) (Except.error.inj hfixed)
  exact List.mem_map.mp (keep_eq_iff.mp hstart.symm)

/-- A violation of the static rules lies on the line of a token. -/
theorem exists_line_of_typeCheck_error {file : String} {ts : List Token} (h : Ended ts)
    {p : Program} (hparse : parse file ts = .ok p) {e : SemanticError}
    (he : p.typeCheck.result = .error e) : ∃ t ∈ ts, t.line = e.line := by
  have hfixed := eq_of_parse_fixing file h
  rw [hparse] at hfixed
  have hp : p = p.mapAttrs (.mapLine (fixing ts).line) := Except.ok.inj hfixed
  have hcheck := p.typeCheck_mapLine (fixing ts).line
  rw [← hp] at hcheck
  have hresult := congrArg Visit.result hcheck
  rw [Visit.mapLine, he] at hresult
  have hline : e.line = (fixing ts).line e.line :=
    congrArg SemanticError.line (Except.error.inj hresult)
  exact List.mem_map.mp (keep_eq_iff.mp hline.symm)

end Grammar
end ProcLang
