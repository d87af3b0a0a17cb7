/-
  Every reader of the grammar progresses, and no answer depends on a depth limit.

  Each form of the grammar progresses when its inner reader does, so by induction on the depth
  the readers of expressions, statements and procedures progress.  An inner reader is run behind
  at least one token, so the depth that `expression`, `statement` and `procedure` allow is never
  used up.  Hence their equations:

  * `expression_eq` — `expression` is the form over itself, for tables in which no expression
                      starts at an end marker;
  * `statement_eq`  — `statement` is the form over itself;
  * `procedure_eq`  — `procedure` is the form over itself.
-/
import ProcLang.Grammar.Outcome
import ProcLang.Grammar.Program

namespace ProcLang.Grammar

open Parse

variable {rules : Rules} {s : Stream}

/-! ## Expressions progress -/

section Expressions

variable {inner inner' : Power → Parse Expr}

/-- What is asked of the reader of inner expressions. -/
def InnerProgresses (inner : Power → Parse Expr) : Prop := ∀ p t, Progresses (inner p) t

/-- An index begins with its opening bracket. -/
theorem progresses_index (hin : InnerProgresses inner) (s : Stream) :
    Progresses (index inner) s :=
  (progresses_expect (by decide)).bind fun _ t _ => (hin .default t).movesOn.bind fun _ u _ =>
    (progresses_expect (by decide)).movesOn.bind fun _ _ _ => movesOn_pure _

/-- A location begins with a name or with the mark of a dereference. -/
theorem progresses_locationWith (hin : InnerProgresses inner) (s : Stream) :
    Progresses (locationWith inner) s := by
  unfold locationWith
  refine movesOn_current.bind_progresses fun x t _ => ?_
  split
  · exact movesOn_advance.bind_progresses fun _ u _ =>
      (progresses_expect (by decide)).bind fun _ _ _ => movesOn_pure _
  · refine (progresses_expectFor (by decide)).bind fun _ u _ => movesOn_current.bind fun y v _ => ?_
    split
    · exact (progresses_index hin v).movesOn.bind fun _ _ _ => movesOn_pure _
    · exact movesOn_pure _

/-- Each primary is one token at least: a literal, a name, or a word with a meaning. -/
theorem progresses_primary (hin : InnerProgresses inner) (s : Stream) :
    Progresses (primary inner) s := by
  unfold primary
  refine movesOn_current.bind_progresses fun x t hx => ?_
  obtain ⟨rfl, rfl⟩ := eq_of_current hx
  split
  · rename_i hk
    unfold numberLiteral
    split
    · exact (progresses_advance (by rw [hk]; decide)).bind fun _ _ _ => movesOn_pure _
    · -- a number out of range and a literal of more than one character are errors at the token
      exact progresses_blame _ _
  · split
    · rename_i hk
      refine (progresses_advance (by rw [hk]; decide)).bind fun _ u _ => ?_
      split
      · exact movesOn_pure _
      · exact (progresses_blame _ _).movesOn
    · split
      · rename_i hk
        refine (progresses_advance (by rw [hk]; decide)).bind fun _ u _ =>
          movesOn_current.bind fun y v _ => ?_
        split
        · exact (progresses_index hin v).movesOn.bind fun _ _ _ => movesOn_pure _
        · exact movesOn_pure _
      · split
        · rename_i e he
          refine (progresses_advance fun hk => ?_).bind fun _ _ _ => movesOn_pure _
          simp [wordLiteral?, hk] at he
        · exact progresses_unexpected _

/-- Whatever an expression starts with, its first token is passed. -/
theorem progresses_start (hin : InnerProgresses inner) (form : ExprStart) (s : Stream) :
    Progresses (start inner form) s := by
  cases form with
  | primary => exact progresses_primary hin s
  | unary =>
    refine movesOn_advance.bind_progresses fun x t _ => ?_
    split
    · exact (hin .unary t).bind fun _ _ _ => movesOn_pure _
    · exact progresses_blame _ _
  | absolute =>
    exact movesOn_advance.bind_progresses fun x t _ => (hin .default t).bind fun _ u _ =>
      (progresses_expectFor (by decide)).movesOn.bind fun _ _ _ => movesOn_pure _
  | addressOf =>
    exact movesOn_advance.bind_progresses fun x t _ =>
      (progresses_locationWith hin t).bind fun _ _ _ => movesOn_pure _
  | grouping =>
    exact movesOn_advance.bind_progresses fun x t _ => (hin .default t).bind fun _ u _ =>
      (progresses_expect (by decide)).movesOn.bind fun _ _ _ => movesOn_pure _

/-- Behind a left operand stands an operator. -/
theorem progresses_binary (hin : InnerProgresses inner) (left : Expr) (power : Power)
    (s : Stream) : Progresses (binary inner left power) s := by
  refine movesOn_advance.bind_progresses fun x t _ => ?_
  split
  · exact (hin power t).bind fun _ _ _ => movesOn_pure _
  · exact progresses_blame _ _

/-- There may be no operator at all, so nothing more can be said of the loop over them. -/
theorem movesOn_operatorsUpTo (hin : InnerProgresses inner) (power : Power) (n : Nat)
    (left : Expr) (s : Stream) : MovesOn (operatorsUpTo inner rules power n left) s := by
  induction n generalizing left s with
  | zero => exact movesOn_pure _
  | succ n ih =>
    unfold operatorsUpTo
    refine movesOn_current.bind fun x t _ => ?_
    split
    · exact (progresses_binary hin left _ t).movesOn.bind fun e u _ => ih e u
    · exact movesOn_pure _

/-- The form of expressions progresses: its start does, and operators only add to it. -/
theorem progresses_expressionWith (hin : InnerProgresses inner) (power : Power) (s : Stream) :
    Progresses (expressionWith inner rules power) s := by
  unfold expressionWith
  refine movesOn_current.bind_progresses fun x t _ => ?_
  split
  · exact (progresses_start hin _ t).bind fun left u _ =>
      movesOn_operatorsUpTo hin power _ left u
  · exact progresses_unexpected _

/-! ## Expressions look at inner ones behind a token only -/

/-- Two inner readers do the same on streams with fewer than `n` tokens left. -/
def AgreeBelow (n : Nat) (inner inner' : Power → Parse Expr) : Prop :=
  ∀ p t, t.remaining < n → inner p t = inner' p t

/-- An inner expression of an index is read behind the opening bracket. -/
theorem index_congr (h : AgreeBelow s.remaining inner inner') :
    index inner s = index inner' s := by
  refine bind_congr rfl fun x t hx => bind_congr (h _ _ ?_) fun _ _ _ => rfl
  exact ((progresses_expect (by decide)).of_ok hx).2

/-- Readers that agree below a bound agree below a smaller one. -/
theorem AgreeBelow.mono {n m : Nat} (h : AgreeBelow n inner inner') (hle : m ≤ n) :
    AgreeBelow m inner inner' := fun p t ht => h p t (Nat.lt_of_lt_of_le ht hle)

/-- A location runs its inner reader behind a name, if at all. -/
theorem locationWith_congr (h : AgreeBelow s.remaining inner inner') :
    locationWith inner s = locationWith inner' s := by
  unfold locationWith
  refine bind_congr rfl fun x t hx => ?_
  obtain ⟨rfl, rfl⟩ := eq_of_current hx
  split
  · rfl
  · refine bind_congr rfl fun x t hx => bind_congr rfl fun y u hu => ?_
    obtain ⟨rfl, rfl⟩ := eq_of_current hu
    have hle := ((progresses_expectFor (by decide)).of_ok hx).1.remaining_le
    split
    · exact bind_congr (index_congr (h.mono hle)) fun _ _ _ => rfl
    · rfl

/-- A primary runs its inner reader behind a name and a bracket, if at all. -/
theorem primary_congr (h : AgreeBelow s.remaining inner inner') :
    primary inner s = primary inner' s := by
  unfold primary
  refine bind_congr rfl fun x t hx => ?_
  obtain ⟨rfl, rfl⟩ := eq_of_current hx
  split
  · rfl
  · split
    · rfl
    · split
      · refine bind_congr rfl fun x t hx => bind_congr rfl fun y u hu => ?_
        obtain ⟨rfl, rfl⟩ := eq_of_current hu
        have hle := (movesOn_advance.of_ok hx).remaining_le
        split
        · exact bind_congr (index_congr (h.mono hle)) fun _ _ _ => rfl
        · rfl
      · rfl

/-- The start of an expression runs its inner reader behind a token that is no end marker. -/
theorem start_congr (hk : s.current.kind ≠ .eof) (form : ExprStart)
    (h : AgreeBelow s.remaining inner inner') : start inner form s = start inner' form s := by
  have hlt : s.advance.remaining < s.remaining := Stream.remaining_advance_lt hk
  -- each way to start passes a token first
  cases form with
  | primary => exact primary_congr h
  | unary =>
    refine bind_congr rfl fun x t hx => ?_
    obtain rfl : s.advance = t := by injection hx
    cases unaryOp? x.kind with
    | none => rfl
    | some op => exact bind_congr (h _ _ hlt) fun _ _ _ => rfl
  | absolute =>
    refine bind_congr rfl fun x t hx => ?_
    obtain rfl : s.advance = t := by injection hx
    exact bind_congr (h _ _ hlt) fun _ _ _ => rfl
  | addressOf =>
    refine bind_congr rfl fun x t hx => ?_
    obtain rfl : s.advance = t := by injection hx
    exact bind_congr (locationWith_congr (h.mono (Nat.le_of_lt hlt))) fun _ _ _ => rfl
  | grouping =>
    refine bind_congr rfl fun x t hx => ?_
    obtain rfl : s.advance = t := by injection hx
    exact bind_congr (h _ _ hlt) fun _ _ _ => rfl

/-- The right operand is read behind the operator. -/
theorem binary_congr {k : Nat} (hs : s.remaining < k) (left : Expr) (power : Power)
    (h : AgreeBelow k inner inner') : binary inner left power s = binary inner' left power s := by
  refine bind_congr rfl fun x t hx => ?_
  have hle := (movesOn_advance.of_ok hx).remaining_le
  cases binaryOp? x.kind with
  | none => rfl
  | some op => exact bind_congr (h _ _ (Nat.lt_of_le_of_lt hle hs)) fun _ _ _ => rfl

/-- All rounds of the loop over operators are below the bound that the first one is below. -/
theorem operatorsUpTo_congr (hin : InnerProgresses inner) {k : Nat} (hs : s.remaining < k)
    (power : Power) (n : Nat) (left : Expr) (h : AgreeBelow k inner inner') :
    operatorsUpTo inner rules power n left s = operatorsUpTo inner' rules power n left s := by
  induction n generalizing left s with
  | zero => rfl
  | succ n ih =>
    unfold operatorsUpTo
    refine bind_congr rfl fun x t hx => ?_
    obtain ⟨rfl, rfl⟩ := eq_of_current hx
    cases tighter? rules power s.current with
    | none => rfl
    | some q =>
      refine bind_congr (binary_congr hs left q h) fun e u hu => ih ?_ e
      have hlt := ((progresses_binary hin left q s).of_ok hu).2
      omega

/-- The form of expressions asks its inner reader only about streams with fewer tokens. -/
theorem expressionWith_congr (hstart : rules.exprStart? .eof = none)
    (hin : InnerProgresses inner) (power : Power) (h : AgreeBelow s.remaining inner inner') :
    expressionWith inner rules power s = expressionWith inner' rules power s := by
  unfold expressionWith
  refine bind_congr rfl fun x t hx => ?_
  obtain ⟨rfl, rfl⟩ := eq_of_current hx
  cases hf : rules.exprStart? s.current.kind with
  | none => rfl
  | some form =>
    have hk : s.current.kind ≠ .eof := by
      intro hk
      rw [hk, hstart] at hf
      simp at hf
    refine bind_congr (start_congr hk form h) fun left u hu => ?_
    exact operatorsUpTo_congr hin ((progresses_start hin form s).of_ok hu).2 power _ left h

end Expressions

/-! ## The knot of expressions -/

/-- Readers of expressions of every depth progress. -/
theorem innerProgresses_expressionUpTo (n : Nat) : InnerProgresses (expressionUpTo rules n) := by
  induction n with
  | zero =>
    exact fun p t => progresses_expressionWith (fun _ _ => progresses_unexpected _) p t
  | succ n ih => exact fun p t => progresses_expressionWith ih p t

/-- Expressions are not empty. -/
theorem progresses_expression (power : Power) (s : Stream) :
    Progresses (expression rules power) s := innerProgresses_expressionUpTo _ power s

/-- Locations are not empty. -/
theorem progresses_location (s : Stream) : Progresses (location rules) s :=
  progresses_locationWith progresses_expression s

/-- A depth that the tokens can use up makes no difference. -/
theorem expressionUpTo_eq_of_le (hstart : rules.exprStart? .eof = none) {n m : Nat}
    (power : Power) (hn : s.remaining ≤ n) (hm : s.remaining ≤ m) :
    expressionUpTo rules n power s = expressionUpTo rules m power s := by
  induction n generalizing m power s with
  | zero =>
    cases m with
    | zero => rfl
    | succ m =>
      exact expressionWith_congr hstart (fun _ _ => progresses_unexpected _) power
        fun p t ht => by omega
  | succ n ih =>
    cases m with
    | zero =>
      exact expressionWith_congr hstart (innerProgresses_expressionUpTo n) power
        fun p t ht => by omega
    | succ m =>
      exact expressionWith_congr hstart (innerProgresses_expressionUpTo n) power
        fun p t ht => ih p (by omega) (by omega)

/-- `expression` without its depth limit. -/
theorem expression_eq (hstart : rules.exprStart? .eof = none) (power : Power) :
    expression rules power = expressionWith (expression rules) rules power := by
  funext s
  show expressionUpTo rules s.remaining power s = _
  rw [expressionUpTo_eq_of_le hstart power (Nat.le_refl _) (Nat.le_succ s.remaining)]
  exact expressionWith_congr hstart (innerProgresses_expressionUpTo _) power
    fun p t ht => expressionUpTo_eq_of_le hstart p (Nat.le_of_lt ht) (Nat.le_refl _)

/-! ## Declarations progress -/

/-- Types are not empty. -/
theorem progresses_declaredType (s : Stream) : Progresses declaredType s := by
  unfold declaredType
  refine movesOn_current.bind_progresses fun x t hx => ?_
  obtain ⟨rfl, rfl⟩ := eq_of_current hx
  split
  · rename_i d hd
    refine (progresses_advance fun hk => ?_).bind fun _ _ _ => movesOn_pure _
    simp [plainType?, hk] at hd
  · split
    · refine movesOn_advance.bind_progresses fun _ t _ =>
        (progresses_expect (by decide)).bind fun _ u _ =>
          (progresses_expect (by decide)).movesOn.bind fun _ v _ => ?_
      split
      · exact (progresses_expect (by decide)).movesOn.bind fun _ _ _ => movesOn_pure _
      · exact (progresses_blame _ _).movesOn
    · exact progresses_unexpected _

/-- Lists of names are not empty. -/
theorem progresses_names (s : Stream) : Progresses names s :=
  progresses_separatedBy (fun _ => (progresses_expect (by decide)).bind fun _ _ _ =>
    movesOn_pure _) s

/-- A group of parameters has a name at least. -/
theorem progresses_parameter (s : Stream) : Progresses parameter s :=
  movesOn_current.bind_progresses fun _ t _ => (progresses_names t).bind fun _ u _ =>
    (progresses_expect (by decide)).movesOn.bind fun _ v _ =>
      (progresses_declaredType v).movesOn.bind fun _ _ _ => movesOn_pure _

/-- A declaration begins with its reserved word. -/
theorem progresses_declaration (s : Stream) : Progresses declaration s :=
  (progresses_expect (by decide)).bind fun _ t _ => (progresses_names t).movesOn.bind fun _ u _ =>
    (progresses_expect (by decide)).movesOn.bind fun _ v _ =>
      (progresses_declaredType v).movesOn.bind fun _ w _ =>
        (progresses_expect (by decide)).movesOn.bind fun _ _ _ => movesOn_pure _

/-- There may be no declaration at all. -/
theorem movesOn_declarations (s : Stream) : MovesOn declarations s :=
  movesOn_manyWhile (fun t => (progresses_declaration t).movesOn) s

/-! ## Statements progress -/

/-- Arguments begin with a parenthesis. -/
theorem progresses_arguments (s : Stream) : Progresses (arguments rules) s := by
  refine (progresses_expect (by decide)).bind fun _ t _ =>
    (movesOn_listBefore (fun u => ?_) t).bind fun _ v _ =>
      (progresses_expect (by decide)).movesOn.bind fun _ _ _ => movesOn_pure _
  exact (progresses_separatedBy (progresses_expression .default) u).movesOn

/-- What follows the sign of an assignment is an expression, a text or a call. -/
theorem movesOn_assigned (line : Nat) (target : Location) (s : Stream) :
    MovesOn (assigned rules line target) s := by
  unfold assigned
  refine movesOn_current.bind fun x t _ => ?_
  split
  · exact movesOn_advance.bind fun _ _ _ => movesOn_pure _
  · refine (movesOn_peek 1).bind fun _ u _ => ?_
    split
    · exact movesOn_advance.bind fun _ v _ =>
        (progresses_arguments v).movesOn.bind fun _ _ _ => movesOn_pure _
    · exact (progresses_expression .default u).movesOn.bind fun _ _ _ => movesOn_pure _

/-- An assignment begins with its location. -/
theorem progresses_assignment (s : Stream) : Progresses (assignment rules) s :=
  movesOn_current.bind_progresses fun _ t _ => (progresses_location t).bind fun _ u _ =>
    (progresses_expect (by decide)).movesOn.bind fun _ v _ =>
      (movesOn_assigned _ _ v).bind fun _ w _ =>
        (progresses_expect (by decide)).movesOn.bind fun _ _ _ => movesOn_pure _

/-- A condition begins with a parenthesis. -/
theorem progresses_condition (s : Stream) : Progresses (condition rules) s :=
  (progresses_expect (by decide)).bind fun _ t _ =>
    (progresses_expression .default t).movesOn.bind fun _ u _ =>
      (progresses_expect (by decide)).movesOn.bind fun _ _ _ => movesOn_pure _

section Statements

variable {inner inner' : Parse Stmt}

/-- A block begins with a brace. -/
theorem progresses_blockWith (hin : ∀ t, Progresses inner t) (s : Stream) :
    Progresses (blockWith inner) s :=
  (progresses_expect (by decide)).bind fun _ t _ => (movesOn_declarations t).bind fun _ u _ =>
    (movesOn_manyWhile (fun v => (hin v).movesOn) u).bind fun _ v _ =>
      (progresses_expect (by decide)).movesOn.bind fun _ _ _ => movesOn_pure _

/-- Each form of statement progresses. -/
theorem progresses_statementWith (hin : ∀ t, Progresses inner t) (s : Stream) :
    Progresses (statementWith inner rules) s := by
  unfold statementWith
  refine movesOn_current.bind_progresses fun x t _ => ?_
  split
  · refine movesOn_advance.bind_progresses fun _ u _ =>
      (progresses_condition u).bind fun _ v _ =>
        (progresses_blockWith hin v).movesOn.bind fun _ w _ => movesOn_current.bind fun _ z _ => ?_
    split
    · exact movesOn_advance.bind fun _ y _ =>
        (progresses_blockWith hin y).movesOn.bind fun _ _ _ => movesOn_pure _
    · exact movesOn_pure _
  · exact movesOn_advance.bind_progresses fun _ u _ =>
      (progresses_condition u).bind fun _ v _ =>
        (progresses_blockWith hin v).movesOn.bind fun _ _ _ => movesOn_pure _
  · exact movesOn_current.bind_progresses fun _ u _ =>
      (progresses_blockWith hin u).bind fun _ _ _ => movesOn_pure _
  · exact progresses_assignment t
  · exact progresses_assignment t

/-- A block reads its statements behind the opening brace. -/
theorem blockWith_congr (hin : ∀ t, Progresses inner t)
    (h : ∀ t, t.remaining < s.remaining → inner t = inner' t) :
    blockWith inner s = blockWith inner' s := by
  refine bind_congr rfl fun x t hx => bind_congr rfl fun ds u hu =>
    bind_congr (manyWhile_congr (fun v => (hin v).movesOn) fun v hv => h v ?_) fun _ _ _ => rfl
  have h1 := ((progresses_expect (by decide)).of_ok hx).2
  have h2 := ((movesOn_declarations t).of_ok hu).remaining_le
  omega

/-- Both branches of a conditional are read behind its condition. -/
theorem conditional_congr (hin : ∀ t, Progresses inner t)
    (h : ∀ t, t.remaining < s.remaining → inner t = inner' t) :
    conditional inner rules s = conditional inner' rules s := by
  -- each part passes tokens, so the inner reader is run further on every time
  refine bind_congr rfl fun x t hx => bind_congr rfl fun c u hu => ?_
  have h1 := (movesOn_advance.of_ok hx).remaining_le
  have h2 := ((progresses_condition t).of_ok hu).2
  have hb : ∀ v : Stream, v.remaining ≤ u.remaining → blockWith inner v = blockWith inner' v :=
    fun v hv => blockWith_congr hin fun w hw => h w (by omega)
  refine bind_congr (hb u (Nat.le_refl _)) fun b v hv => bind_congr rfl fun y w hw => ?_
  obtain ⟨rfl, rfl⟩ := eq_of_current hw
  have h3 := ((progresses_blockWith hin u).of_ok hv).2
  split
  · refine bind_congr rfl fun x w hx => bind_congr (hb w ?_) fun _ _ _ => rfl
    have h4 := (movesOn_advance.of_ok hx).remaining_le
    omega
  · rfl

/-- The block of a loop is read behind its condition. -/
theorem loop_congr (hin : ∀ t, Progresses inner t)
    (h : ∀ t, t.remaining < s.remaining → inner t = inner' t) :
    loop inner rules s = loop inner' rules s := by
  refine bind_congr rfl fun x t hx => bind_congr rfl fun c u hu =>
    bind_congr (blockWith_congr hin fun w hw => h w ?_) fun _ _ _ => rfl
  have h1 := (movesOn_advance.of_ok hx).remaining_le
  have h2 := ((progresses_condition t).of_ok hu).2
  omega

/-- A block that stands as a statement is no exception. -/
theorem blockStmt_congr (hin : ∀ t, Progresses inner t)
    (h : ∀ t, t.remaining < s.remaining → inner t = inner' t) :
    blockStmt inner s = blockStmt inner' s := by
  refine bind_congr rfl fun x t hx => bind_congr ?_ fun _ _ _ => rfl
  obtain ⟨rfl, rfl⟩ := eq_of_current hx
  exact blockWith_congr hin h

/-- The form of statements asks its inner reader only about streams with fewer tokens. -/
theorem statementWith_congr (hin : ∀ t, Progresses inner t)
    (h : ∀ t, t.remaining < s.remaining → inner t = inner' t) :
    statementWith inner rules s = statementWith inner' rules s := by
  refine bind_congr rfl fun x t hx => ?_
  obtain ⟨rfl, rfl⟩ := eq_of_current hx
  cases rules.stmtStart? s.current.kind with
  | none => rfl
  | some form =>
    cases form with
    | conditional => exact conditional_congr hin h
    | loop => exact loop_congr hin h
    | block => exact blockStmt_congr hin h
    | assignment => rfl

end Statements

/-! ## The knot of statements -/

/-- Readers of statements of every depth progress. -/
theorem progresses_statementUpTo (n : Nat) (s : Stream) :
    Progresses (statementUpTo rules n) s := by
  induction n generalizing s with
  | zero => exact progresses_statementWith (fun _ => progresses_unexpected _) s
  | succ n ih => exact progresses_statementWith ih s

/-- Statements are not empty. -/
theorem progresses_statement (s : Stream) : Progresses (statement rules) s :=
  progresses_statementUpTo _ s

/-- Blocks are not empty. -/
theorem progresses_block (s : Stream) : Progresses (block rules) s :=
  progresses_blockWith progresses_statement s

/-- Depths that the remaining tokens do not exceed give the same answer. -/
theorem statementUpTo_eq_of_le {n m : Nat} (hn : s.remaining ≤ n) (hm : s.remaining ≤ m) :
    statementUpTo rules n s = statementUpTo rules m s := by
  induction n generalizing m s with
  | zero =>
    cases m with
    | zero => rfl
    | succ m =>
      exact statementWith_congr (fun _ => progresses_unexpected _) fun t ht => by omega
  | succ n ih =>
    cases m with
    | zero => exact statementWith_congr (progresses_statementUpTo n) fun t ht => by omega
    | succ m =>
      exact statementWith_congr (progresses_statementUpTo n) fun t ht =>
        ih (by omega) (by omega)

/-- `statement` without its depth limit. -/
theorem statement_eq : statement rules = statementWith (statement rules) rules := by
  funext s
  show statementUpTo rules s.remaining s = _
  rw [statementUpTo_eq_of_le (Nat.le_refl _) (Nat.le_succ s.remaining)]
  exact statementWith_congr (progresses_statementUpTo _)
    fun t ht => statementUpTo_eq_of_le (Nat.le_of_lt ht) (Nat.le_refl _)

/-! ## Procedures progress -/

/-- Parameters begin with a parenthesis. -/
theorem progresses_parameters (s : Stream) : Progresses parameters s := by
  refine (progresses_expect (by decide)).bind fun _ t _ =>
    (movesOn_listBefore (fun u => ?_) t).bind fun _ v _ =>
      (progresses_expect (by decide)).movesOn.bind fun _ _ _ => movesOn_pure _
  exact (progresses_separatedBy progresses_parameter u).movesOn

/-- A header begins with the reserved word of procedures. -/
theorem progresses_header (s : Stream) : Progresses header s :=
  (progresses_expect (by decide)).bind fun _ t _ =>
    (progresses_expectFor (by decide)).movesOn.bind fun _ u _ =>
      (progresses_parameters u).movesOn.bind fun _ v _ =>
        (progresses_expect (by decide)).movesOn.bind fun _ w _ =>
          (progresses_declaredType w).movesOn.bind fun _ _ _ => movesOn_pure _

/-- A result begins with the reserved word of returns. -/
theorem progresses_result (s : Stream) : Progresses (result rules) s :=
  (progresses_expect (by decide)).bind fun _ t _ =>
    (progresses_expression .default t).movesOn.bind fun _ u _ =>
      (progresses_expect (by decide)).movesOn.bind fun _ _ _ => movesOn_pure _

/-- The return at the end of a body progresses. -/
theorem progresses_finalResult (s : Stream) : Progresses (finalResult rules) s := by
  refine movesOn_current.bind_progresses fun _ t _ => ?_
  split
  · exact progresses_result t
  · exact progresses_unexpected _

section Procedures

variable {inner inner' : Parse Procedure}

/-- A body begins with a brace. -/
theorem progresses_bodyWith (hin : ∀ t, Progresses inner t) (s : Stream) :
    Progresses (bodyWith inner rules) s :=
  (progresses_expect (by decide)).bind fun _ t _ =>
    (movesOn_manyWhile (fun v => (hin v).movesOn) t).bind fun _ u _ =>
      (movesOn_declarations u).bind fun _ v _ =>
        (movesOn_manyWhile (fun w => (progresses_statement w).movesOn) v).bind fun _ w _ =>
          (progresses_finalResult w).movesOn.bind fun _ z _ =>
            (progresses_expect (by decide)).movesOn.bind fun _ _ _ => movesOn_pure _

/-- A procedure begins with its header. -/
theorem progresses_procedureWith (hin : ∀ t, Progresses inner t) (s : Stream) :
    Progresses (procedureWith inner rules) s :=
  (progresses_header s).bind fun _ t _ => (progresses_bodyWith hin t).movesOn.bind fun _ _ _ =>
    movesOn_pure _

/-- A body reads the procedures in it behind the opening brace. -/
theorem bodyWith_congr (hin : ∀ t, Progresses inner t)
    (h : ∀ t, t.remaining < s.remaining → inner t = inner' t) :
    bodyWith inner rules s = bodyWith inner' rules s := by
  refine bind_congr rfl fun x t hx =>
    bind_congr (manyWhile_congr (fun v => (hin v).movesOn) fun v hv => h v ?_) fun _ _ _ => rfl
  have h1 := ((progresses_expect (by decide)).of_ok hx).2
  omega

/-- The form of procedures asks its inner reader only about streams with fewer tokens. -/
theorem procedureWith_congr (hin : ∀ t, Progresses inner t)
    (h : ∀ t, t.remaining < s.remaining → inner t = inner' t) :
    procedureWith inner rules s = procedureWith inner' rules s := by
  refine bind_congr rfl fun x t hx => bind_congr (bodyWith_congr hin fun v hv => h v ?_)
    fun _ _ _ => rfl
  have h1 := ((progresses_header s).of_ok hx).2
  omega

end Procedures

/-! ## The knot of procedures -/

/-- Readers of procedures of every depth progress. -/
theorem progresses_procedureUpTo (n : Nat) (s : Stream) :
    Progresses (procedureUpTo rules n) s := by
  induction n generalizing s with
  | zero => exact progresses_procedureWith (fun _ => progresses_unexpected _) s
  | succ n ih => exact progresses_procedureWith ih s

/-- Procedures are not empty. -/
theorem progresses_procedure (s : Stream) : Progresses (procedure rules) s :=
  progresses_procedureUpTo _ s

/-- Bodies are not empty. -/
theorem progresses_body (s : Stream) : Progresses (body rules) s :=
  progresses_bodyWith progresses_procedure s

/-- Depths that the remaining tokens do not exceed give the same answer. -/
theorem procedureUpTo_eq_of_le {n m : Nat} (hn : s.remaining ≤ n) (hm : s.remaining ≤ m) :
    procedureUpTo rules n s = procedureUpTo rules m s := by
  induction n generalizing m s with
  | zero =>
    cases m with
    | zero => rfl
    | succ m =>
      exact procedureWith_congr (fun _ => progresses_unexpected _) fun t ht => by omega
  | succ n ih =>
    cases m with
    | zero => exact procedureWith_congr (progresses_procedureUpTo n) fun t ht => by omega
    | succ m =>
      exact procedureWith_congr (progresses_procedureUpTo n) fun t ht =>
        ih (by omega) (by omega)

/-- `procedure` without its depth limit. -/
theorem procedure_eq : procedure rules = procedureWith (procedure rules) rules := by
  funext s
  show procedureUpTo rules s.remaining s = _
  rw [procedureUpTo_eq_of_le (Nat.le_refl _) (Nat.le_succ s.remaining)]
  exact procedureWith_congr (progresses_procedureUpTo _)
    fun t ht => procedureUpTo_eq_of_le (Nat.le_of_lt ht) (Nat.le_refl _)

/-! ## Programs move on -/

/-- A procedure at the top of a program is not empty either. -/
theorem progresses_topProcedure (s : Stream) : Progresses topProcedure s := by
  refine movesOn_current.bind_progresses fun _ t _ => ?_
  split
  · exact progresses_procedure t
  · exact progresses_unexpected _

end ProcLang.Grammar
