/-
  Where errors point.

  Every reader of the grammar is prompt, with a set `F` of kinds that can stand behind it: what
  does not go on with a phrase behind an expression, no `else` behind a statement, the closing
  token behind a list.  As in `Progress`, each form is prompt when its inner reader is, on streams
  with one more token, and the knots are tied by induction on the number of tokens.  So:

  * `innerPrompt_expression`     — expressions, of every power;
  * `promptAt_statement`         — statements;
  * `promptAt_procedure`         — procedures;
  * `parse_error_first_hopeless` — an error of `parse` points at the first token that no program
                                   has in its place.

  Few readers need care.  A number that is no size and a character that is none are found out
  only behind their token, and yet they are blamed themselves.  The right side of an assignment
  looks at two tokens to tell a call from an expression; but both begin with the same name, so the
  choice can be put off until behind it (`assigned_of_name`).
-/
import Mathlib.Data.List.TakeWhile
import ProcLang.Proofs.Grammar.Exact
import ProcLang.Proofs.Grammar.Prompt

namespace ProcLang.Grammar

open Concrete Parse ProcLang.Stream

variable {n : Nat} {E F : Kind → Prop} {s : Stream}

/-! ## Lists in parentheses -/

/-- A list in parentheses is prompt, whatever stands behind it, as its end is marked. -/
theorem prompt_parenthesized {α : Type} {separator : Kind} {item : Parse α}
    (hne : separator ≠ .eof ∧ separator ≠ .closeParen) (hp : ∀ s, Progresses item s)
    (h : Prompt n item (fun _ => True) F) (hF : F .closeParen) (hE : E .openParen)
    {G : Kind → Prop} :
    Prompt n (do
      let _ ← expect .openParen
      let xs ← listBefore .closeParen (separatedBy separator item)
      let _ ← expect .closeParen
      pure xs) E G := by
  refine prompt_expect_bind (by decide) hE fun _ =>
    (prompt_listBefore (progresses_separatedBy hp) (fun s hlt => ?_) trivial).bind fun xs =>
      prompt_expect_bind (by decide) rfl fun _ => prompt_pure xs fun _ _ => trivial
  refine promptAt_of_prompt (prompt_separatedBy hne.1 hp h hne.2 ?_) hlt
  rintro _ rfl
  exact hF

/-! ## Types and declarations -/

/-- What stands behind the bracket of a string type that begins on the line of `t`. -/
def stringSize (t : Token) : Parse TypeMark := do
  let size ← expect .number
  match Text.arraySize? size.value with
  | some n => do
    let _ ← expect .closeBracket
    pure ⟨.string n, .bare t.line⟩
  | none => blame size .badNumber

/-- The size of a string is a number at least. -/
theorem progresses_stringSize (t : Token) (s : Stream) : Progresses (stringSize t) s := by
  refine (progresses_expect (by decide)).bind fun size u _ => ?_
  split
  · exact (progresses_expect (by decide)).movesOn.bind fun _ _ _ => movesOn_pure _
  · exact (progresses_blame _ _).movesOn

/-- A size can be made up from nothing. -/
theorem madeUp_stringSize (t : Token) : MadeUp (stringSize t) (fun _ => True) F := by
  let size : Leaf .number := ⟨sampleToken .number "0", rfl⟩
  let r : Leaf .closeBracket := ⟨sampleToken .closeBracket "", rfl⟩
  refine ⟨[size.1, r.1], ⟨.string 0, .bare t.line⟩, by decide, fun s u hu _ => ⟨trivial, ?_⟩⟩
  obtain ⟨hsize, -, hr, -, rfl⟩ := hu
  have hworth : Text.arraySize? size.1.value = some 0 := by decide
  rw [stringSize, bind_apply (expect_run size hsize), hworth]
  exact bind_apply (expect_run r hr)

/-- A number that is no size is blamed itself, not the token behind it. -/
theorem promptAt_stringSize (t : Token) : PromptAt (stringSize t) F s := by
  by_cases hs : s.current.kind = .number
  · have hrun : ∀ s' : Stream, s'.current = s.current →
        expect .number s' = .ok s.current s'.advance :=
      fun s' hs' => expect_eq_ok.mpr ⟨hs' ▸ hs, hs', rfl⟩
    cases hn : Text.arraySize? s.current.value with
    | some n =>
      refine promptAt_of_advance (E := fun _ => True) (by rw [hs]; decide) (Nat.le_refl _)
        (prompt_expect_bind (k := .closeBracket) (by decide) trivial fun _ =>
          prompt_pure ⟨.string n, .bare t.line⟩ fun _ _ => trivial) fun s' hs' => ?_
      rw [stringSize, bind_apply (hrun s' hs'), hn]
    | none =>
      -- the reader has gone past the number, but it is the current token that is blamed
      have hblame : ∀ s' : Stream, s'.current = s.current → stringSize t s' =
          (blame s.current .badNumber : Parse TypeMark) s'.advance := by
        intro s' hs'
        rw [stringSize, bind_apply (hrun s' hs'), hn]
      refine promptAt_of_fault (hblame s rfl) rfl fun s' x u hs' => ?_
      rw [hblame s' hs']
      exact blame_ne_ok
  · refine promptAt_of_fault (bind_error (if_neg hs)) rfl fun s' x u hs' hx => ?_
    exact hs (hs' ▸ (expect_bind_eq_ok.mp hx).1)

/-- A string type.  A number that is no size is blamed, although it is passed first. -/
theorem promptAt_stringType (hs : s.current.kind ≠ .eof) : PromptAt stringType F s :=
  promptAt_advance_bind hs (Nat.le_refl _) <|
    prompt_expect_bind (by decide) trivial fun t => .of_progresses (progresses_stringSize _)
      (madeUp_stringSize _) fun _ _ => promptAt_stringSize _

/-- A type: the kind of the first token decides, and if it is none of them it is blamed. -/
theorem promptAt_declaredType : PromptAt declaredType F s := by
  refine promptAt_current_bind ?_ (progresses_declaredType s)
  cases hd : plainType? s.current.kind with
  | some d =>
    refine promptAt_advance_bind (fun hk => ?_) (Nat.le_refl _) (prompt_pure _ fun _ _ => trivial)
    rw [hk] at hd
    cases hd
  | none =>
    by_cases hs : s.current.kind = .string
    · rw [if_pos hs]
      exact promptAt_stringType (by rw [hs]; decide)
    · rw [if_neg hs]
      exact promptAt_unexpected _

/-- Types can be read in front of the word for any of them. -/
theorem prompt_declaredType (hE : E .integer) : Prompt n declaredType E F := by
  refine .of_progresses progresses_declaredType ?_ fun _ _ => promptAt_declaredType
  let type : TypeName := .word (sampleToken .integer "") .integer rfl
  refine ⟨type.yield, type.tree, by decide, fun s t ht _ => ⟨?_, type.declaredType_eq ht⟩⟩
  rw [(passes_cons.mp ht).1]
  exact hE

/-- Names can go on as long as a comma follows, so a comma cannot stand behind them. -/
theorem prompt_names (hE : E .identifier) (hF : ¬ F .comma) : Prompt n names E F :=
  prompt_separatedBy (F := fun _ => True) (by decide)
    (fun _ => (progresses_expect (by decide)).bind fun _ _ _ => movesOn_pure _)
    (prompt_expect_bind (by decide) hE fun _ => prompt_pure _ fun _ _ => trivial) hF
    fun _ _ => trivial

/-- A group of parameters. -/
theorem prompt_parameter (hE : E .identifier) : Prompt n parameter E F := by
  refine .of_progresses progresses_parameter ?_ fun s _ =>
    promptAt_current_bind ?_ (progresses_parameter s)
  · let p : Parameter := ⟨⟨⟨sampleToken .identifier "", rfl⟩, []⟩, ⟨sampleToken .colon "", rfl⟩,
      .word (sampleToken .integer "") .integer rfl⟩
    refine ⟨p.yield, p.tree, by decide, fun s t ht _ => ⟨?_, p.parameter_eq ht⟩⟩
    rw [(passes_cons.mp ht).1]
    exact hE
  · refine promptAt_of_prompt ?_ (Nat.lt_succ_self s.remaining)
    exact (prompt_names (F := (· = .colon)) trivial (by decide)).bind fun _ =>
      prompt_expect_bind (by decide) rfl fun _ => (prompt_declaredType trivial).bind fun _ =>
        prompt_pure _ fun _ h => h

/-- A declaration of variables. -/
theorem prompt_declaration (hE : E .var) : Prompt n declaration E F :=
  prompt_expect_bind (by decide) hE fun _ =>
    (prompt_names (F := (· = .colon)) trivial (by decide)).bind fun _ =>
      prompt_expect_bind (by decide) rfl fun _ =>
        (prompt_declaredType (F := (· = .semicolon)) trivial).bind fun _ =>
          prompt_expect_bind (by decide) rfl fun _ => prompt_pure _ fun _ _ => trivial

/-- Declarations go on as long as their word comes. -/
theorem prompt_declarations (hF : ¬ F .var) (hE : ∀ k, F k → E k) :
    Prompt n declarations E F :=
  prompt_manyWhile (F := fun _ => True) progresses_declaration
    (fun s hlt _ => (prompt_declaration (E := fun _ => True) trivial).promptAt s hlt)
    (fun _ ht => decide_eq_false fun hk => hF (hk ▸ ht)) (fun _ _ => trivial) hE

/-! ## Expressions, over a reader of inner expressions -/

section Expressions

variable {inner : Power → Parse Expr} {p : Power}

/-- What is asked of the reader of inner expressions: it is prompt, and it ends where no tighter
    operator follows. -/
def InnerPrompt (n : Nat) (inner : Power → Parse Expr) : Prop :=
  ∀ p, Prompt n (inner p) (fun _ => True) (Follows (p.level + 1))

/-- A reader that is prompt on streams below a bound is so below a smaller one. -/
theorem InnerPrompt.of_le {m : Nat} (h : InnerPrompt n inner) (hm : m ≤ n) : InnerPrompt m inner :=
  fun p => (h p).of_le hm

/-- An index is prompt on streams with one token more than its inner expression. -/
theorem prompt_index (h : InnerPrompt n inner) (hE : E .openBracket) :
    Prompt (n + 1) (index inner) E F :=
  prompt_expect_bind_succ (by decide) hE fun _ => (h .default).bind fun _ =>
    prompt_expect_bind (by decide) (by decide) fun _ => prompt_pure _ fun _ _ => trivial

/-- The end of a name: an index may follow. -/
theorem prompt_indexed {α : Type} (hin : InnerProgresses inner) (h : InnerPrompt n inner)
    (g : Expr → α) (x : α) (hE : ∀ k, F k → E k) (hF : ¬ F .openBracket) :
    Prompt n (do
      if (← current).kind = .openBracket then
        let i ← index inner
        pure (g i)
      else pure x) E F := by
  refine prompt_optional (fun s => ?_) (fun s hlt _ => ?_) fun k hk =>
    ⟨hE k hk, fun he => hF (he ▸ hk)⟩
  · exact (progresses_index hin s).bind fun _ _ _ => movesOn_pure _
  · refine promptAt_of_prompt ?_ hlt
    exact ((prompt_index h trivial).of_le (Nat.le_succ n)).bind fun i =>
      prompt_pure (g i) fun _ _ => trivial

/-- A location.  Behind its name a bracket would go on with it, so none can follow. -/
theorem prompt_locationWith (hin : InnerProgresses inner) (h : InnerPrompt n inner)
    (hE : E .identifier) (hF : ¬ F .openBracket) : Prompt (n + 1) (locationWith inner) E F := by
  refine .of_progresses (progresses_locationWith hin) ?_ fun s hlt =>
    promptAt_current_bind ?_ (progresses_locationWith hin s)
  · let x : Leaf .identifier := ⟨sampleToken .identifier "", rfl⟩
    refine ⟨[x.1], .named (.bare x.1.line) x.1.value, by decide, fun s t ht hk => ?_⟩
    obtain ⟨hx, -, rfl⟩ := passes_singleton.mp ht
    refine ⟨hx ▸ hE, ?_⟩
    have hnone : s.advance.current.kind ≠ .openBracket := fun ho => hF (ho ▸ hk)
    rw [locationWith, bind_apply current_run, if_neg (by rw [hx, x.2]; decide),
      bind_apply (expectFor_run x hx), bind_apply current_run, if_neg hnone, hx]
    rfl
  · by_cases hs : s.current.kind = .caret
    · rw [if_pos hs]
      exact promptAt_advance_bind (by rw [hs]; decide) (Nat.le_of_lt_succ hlt) <|
        prompt_expect_bind (by decide) trivial fun _ => prompt_pure _ fun _ _ => trivial
    · rw [if_neg hs]
      refine promptAt_of_prompt ?_ hlt
      exact (prompt_expectOr (atCurrent_unexpected _) (by decide) trivial).bind_progresses
        (fun _ => progresses_expectFor (by decide)) fun name =>
          prompt_indexed hin h _ _ (fun _ _ => trivial) hF

/-- What stands behind a name. -/
theorem promptAt_reference (hin : InnerProgresses inner) (h : InnerPrompt n inner) (t : Token)
    (hk : s.current.kind ≠ .eof) (hs : s.remaining ≤ n) (hF : ¬ F .openBracket) :
    PromptAt (reference inner t) F s :=
  promptAt_advance_bind hk hs (prompt_indexed hin h _ _ (fun _ _ => trivial) hF)

/-- A primary.  A literal that denotes nothing is blamed, and a word without a meaning is. -/
theorem promptAt_primary (hin : InnerProgresses inner) (h : InnerPrompt n inner)
    (hs : s.remaining ≤ n) (hF : ¬ F .openBracket) : PromptAt (primary inner) F s := by
  refine promptAt_current_bind ?_ (progresses_primary hin s)
  by_cases hnum : s.current.kind = .number
  · rw [if_pos hnum, numberLiteral]
    cases Text.integerLiteral? s.current.value with
    | some n =>
      exact promptAt_advance_bind (by rw [hnum]; decide) hs (prompt_pure _ fun _ _ => trivial)
    | none => exact promptAt_of_fault rfl rfl fun _ _ _ _ => blame_ne_ok
  rw [if_neg hnum]
  by_cases hchar : s.current.kind = .charLiteral
  · rw [if_pos hchar, charLiteral]
    cases hc : s.current.value.toList with
    | cons c cs =>
      exact promptAt_advance_bind (by rw [hchar]; decide) hs (prompt_pure _ fun _ _ => trivial)
    | nil => exact promptAt_of_fault rfl rfl fun _ _ _ _ => blame_ne_ok
  rw [if_neg hchar]
  by_cases hname : s.current.kind = .identifier
  · rw [if_pos hname]
    exact promptAt_reference hin h _ (by rw [hname]; decide) hs hF
  rw [if_neg hname]
  cases hw : wordLiteral? s.current with
  | some e =>
    refine promptAt_advance_bind (fun hk => ?_) hs (prompt_pure _ fun _ _ => trivial)
    rw [wordLiteral?, hk] at hw
    cases hw
  | none => exact promptAt_unexpected _

/-- No form of expression starts at an end marker. -/
theorem ne_eof_of_exprStart? {k : Kind} {form : ExprStart}
    (h : Rules.standard.exprStart? k = some form) : k ≠ .eof := by
  rintro rfl
  cases h

/-- An end marker is no operator. -/
theorem ne_eof_of_tighter? {t : Token} {q : Power} (h : tighter? .standard p t = some q) :
    t.kind ≠ .eof := by
  obtain ⟨-, op, -, hop⟩ := tighter?_eq_some h
  intro hk
  rw [hk] at hop
  cases hop

/-- Where a prefix is expected, there is one. -/
theorem unaryOp?_of_exprStart? {k : Kind} (h : Rules.standard.exprStart? k = some .unary) :
    ∃ op, unaryOp? k = some op := by
  cases k <;> first | exact ⟨_, rfl⟩ | cases h

/-- The start of an expression, in the form that the first token has chosen. -/
theorem promptAt_start (hin : InnerProgresses inner) (h : InnerPrompt n inner)
    (hs : s.remaining ≤ n) {form : ExprStart}
    (hform : Rules.standard.exprStart? s.current.kind = some form) :
    PromptAt (start inner form) (Follows 1) s := by
  have hk := ne_eof_of_exprStart? hform
  cases form with
  | primary => exact promptAt_primary hin h hs fun hF => hF.1 rfl
  | unary =>
    refine promptAt_advance_bind hk hs ?_
    obtain ⟨op, hop⟩ := unaryOp?_of_exprStart? hform
    rw [hop]
    exact (h .unary).bind fun _ => prompt_pure _ fun _ hF => hF
  | absolute =>
    exact promptAt_advance_bind hk hs <| (h .default).bind fun _ =>
      prompt_expectFor_bind (by decide) (by decide) fun _ => prompt_pure _ fun _ _ => trivial
  | addressOf =>
    exact promptAt_advance_bind hk hs <|
      ((prompt_locationWith hin h trivial fun hF => hF.1 rfl).of_le (Nat.le_succ n)).bind fun _ =>
        prompt_pure _ fun _ hF => hF
  | grouping =>
    exact promptAt_advance_bind hk hs <| (h .default).bind fun _ =>
      prompt_expect_bind (by decide) (by decide) fun _ => prompt_pure _ fun _ _ => trivial

/-- An operator and its right operand: what follows may be no operator that is tighter. -/
theorem promptAt_binary (h : InnerPrompt n inner) (hs : s.remaining ≤ n) {q : Power} (left : Expr)
    (hq : tighter? .standard p s.current = some q) :
    PromptAt (binary inner left q) (Follows (q.level + 1)) s := by
  obtain ⟨-, op, -, hop⟩ := tighter?_eq_some hq
  refine promptAt_advance_bind (ne_eof_of_tighter? hq) hs ?_
  rw [hop]
  exact (h q).bind fun _ => prompt_pure _ fun _ hF => hF

/-- The loop over operators ends in front of any token that does not go on with a phrase. -/
theorem prompt_operators (hin : InnerProgresses inner) (h : InnerPrompt n inner) (left : Expr)
    (hF : ∀ k, F k → Follows (p.level + 1) k) (hE : ∀ k, F k → E k) :
    Prompt n (operators inner .standard p left) E F := by
  have hstop : ∀ (left : Expr) (s : Stream), F s.current.kind →
      operators inner .standard p left s = .ok left s := fun left s hs =>
    operators_of_none hin <|
      tighter?_eq_none_iff.mpr fun m hm => (hF _ hs).2 m (Nat.lt_succ_of_le hm)
  refine prompt_of_nothing left (hstop left) hE ?_
  induction n generalizing left with
  | zero => exact fun _ hlt => absurd hlt (Nat.not_lt_zero _)
  | succ n ih =>
    intro s hlt
    cases hq : tighter? .standard p s.current with
    | none =>
      refine promptAt_of_nothing left fun s' hs' => ?_
      rcases hs' with hs' | hs'
      · exact operators_of_none hin (hs' ▸ hq)
      · exact hstop left s' hs'
    | some q =>
      -- what ends this loop ends the right operand, too, which takes tighter operators only
      have hle : q.level + 1 ≤ p.level + 1 := Nat.le_succ_of_le (tighter?_eq_some hq).1
      have hbin := progresses_binary hin left q s
      refine PromptAt.of_progresses (q := binary inner left q >>= operators inner .standard p)
        ?_ ?_ fun s' hs' => ?_
      · exact (promptAt_binary h (Nat.le_of_lt hlt) left hq).bind_progresses hbin
          (Nat.le_of_lt_succ hlt) fun e => prompt_of_nothing e (hstop e)
            (fun k hk => (hF k hk).mono hle) (ih (h.of_le (Nat.le_succ n)) e)
      · exact hbin.bind fun e t _ => movesOn_operatorsUpTo hin p _ e t
      · rw [operators_eq hin, hs', hq]

/-- The form of expressions is prompt if its inner reader is. -/
theorem promptAt_expressionWith (hin : InnerProgresses inner) (h : InnerPrompt n inner)
    (hs : s.remaining ≤ n) :
    PromptAt (expressionWith inner .standard p) (Follows (p.level + 1)) s := by
  refine promptAt_current_bind ?_ (progresses_expressionWith hin p s)
  cases hform : Rules.standard.exprStart? s.current.kind with
  | none => exact promptAt_unexpected _
  | some form =>
    exact (promptAt_start hin h hs hform).bind_progresses (progresses_start hin form s) hs
      fun left => prompt_operators hin h left (fun _ hk => hk) fun k hk =>
        hk.mono (Nat.le_add_left 1 _)

end Expressions

/-! ## The knot of expressions -/

/-- An expression can be a number. -/
theorem madeUp_expression (p : Power) (hE : E .number) :
    MadeUp (expression .standard p) E (Follows (p.level + 1)) := by
  let zero : Literal := .number ⟨sampleToken .number "0", rfl⟩ 0 (.decimal (.digit (by decide)))
    (by decide)
  refine ⟨[zero.token], zero.tree, by decide, fun s t ht hk => ?_⟩
  obtain ⟨hs, -, rfl⟩ := passes_singleton.mp ht
  refine ⟨hs ▸ hE, ?_⟩
  rw [expression_of_start .primary (by rw [hs, zero.exprStart?_eq]) (zero.primary_eq hs)]
  refine operators_of_none progresses_expression (tighter?_eq_none_iff.mpr fun m hm => ?_)
  exact hk.2 m (Nat.lt_succ_of_le hm)

/-- Expressions of every power are prompt, on streams of every length. -/
theorem innerPrompt_expression (n : Nat) : InnerPrompt n (expression .standard) := by
  -- on the number of tokens: an inner expression stands behind one token at least
  induction n with
  | zero =>
    exact fun p => .of_progresses (progresses_expression p) (madeUp_expression p trivial)
      fun _ hlt => absurd hlt (Nat.not_lt_zero _)
  | succ n ih =>
    refine fun p => .of_progresses (progresses_expression p) (madeUp_expression p trivial)
      fun s hlt => ?_
    rw [expression_eq exprStart?_eof]
    exact promptAt_expressionWith progresses_expression ih (Nat.le_of_lt_succ hlt)

/-- An expression can be started from nothing, with a number. -/
theorem prompt_expression (p : Power) (hE : E .number) :
    Prompt n (expression .standard p) E (Follows (p.level + 1)) :=
  .of_progresses (progresses_expression p) (madeUp_expression p hE)
    (innerPrompt_expression n p).promptAt

/-- A location can be started from nothing, with a name. -/
theorem prompt_location (hE : E .identifier) (hF : ¬ F .openBracket) :
    Prompt n (location .standard) E F :=
  (prompt_locationWith progresses_expression (innerPrompt_expression n) hE hF).of_le (Nat.le_succ n)

/-! ## Assignments -/

/-- Arguments of a call. -/
theorem prompt_arguments (hE : E .openParen) : Prompt n (arguments .standard) E F :=
  prompt_parenthesized (by decide) (progresses_expression .default)
    (prompt_expression .default trivial) (by decide) hE

/-- What is left to read of a variable or an array element behind its name. -/
def named (name : Token) : Parse Expr := do
  if (← current).kind = .openBracket then
    let i ← index (expression .standard)
    pure (.element (.bare name.line) name.value i)
  else pure (.named (.bare name.line) name.value)

/-- What stands behind a name on the right of an assignment: the arguments of a call, or the rest
    of an expression. -/
def behindName (line : Nat) (target : Location) (name : Token) : Parse Stmt := do
  if (← current).kind = .openParen then
    let es ← arguments .standard
    pure (.call (.bare line) target name.value es)
  else
    let left ← named name
    let e ← operators (expression .standard) .standard .default left
    pure (.assign (.bare line) target e)

/-- An expression that starts with a name is this name, or an element, with operators behind it. -/
theorem expression_of_name {p : Power} (hs : s.current.kind = .identifier) :
    expression .standard p s =
      (reference (expression .standard) s.current >>=
        operators (expression .standard) .standard p) s := by
  rw [expression_eq exprStart?_eof, expressionWith, bind_apply current_run, hs]
  refine bind_congr ?_ fun _ _ _ => rfl
  rw [start, primary, bind_apply current_run, if_neg (by rw [hs]; decide),
    if_neg (by rw [hs]; decide), if_pos hs]

/-- Where the right side of an assignment begins with a name, the choice between a call and an
    expression can be made behind the name. -/
theorem assigned_of_name {line : Nat} {target : Location} (hs : s.current.kind = .identifier) :
    assigned .standard line target s = behindName line target s.current s.advance := by
  have hpeek : Parse.peek 1 s = .ok (s.peek 1) s := rfl
  rw [assigned, bind_apply current_run, if_neg (by rw [hs]; decide), bind_apply hpeek, peek_one,
    behindName, bind_apply current_run]
  by_cases hcall : s.advance.current.kind = .openParen
  · rw [if_pos ⟨hs, hcall⟩, if_pos hcall]
    rfl
  · rw [if_neg fun h => hcall h.2, if_neg hcall,
      bind_congr (expression_of_name hs) fun _ _ _ => rfl, bind_assoc]
    rfl

/-- What stands behind that name is prompt, whichever of the two it is. -/
theorem prompt_behindName (line : Nat) (target : Location) (name : Token) :
    Prompt n (behindName line target name) (fun _ => True) (· = .semicolon) := by
  refine prompt_choice (fun s => ?_) (fun s hlt hs => ?_) ?_
  · exact (progresses_arguments s).bind fun _ _ _ => movesOn_pure _
  · refine promptAt_of_prompt ?_ hlt
    exact (prompt_arguments trivial).bind fun es => prompt_pure _ fun _ _ => trivial
  · -- all that can be missing is the semicolon, which ends names and operators alike
    have hin := innerPrompt_expression n
    refine (prompt_indexed (F := (· = .semicolon)) progresses_expression hin _ _ ?_
      (by decide)).bind fun left => (prompt_operators progresses_expression hin left ?_
        fun _ hk => hk).bind fun e => prompt_pure _ fun _ hk => hk
    · rintro _ rfl
      decide
    · rintro _ rfl
      decide

/-- The value of an assignment that is neither a string nor begins with a name. -/
def assignedValue (line : Nat) (target : Location) : Parse Stmt := do
  let e ← expression .standard .default
  pure (.assign (.bare line) target e)

/-- Where the right side begins with neither a text nor a name, it is an expression. -/
theorem assigned_of_ne {line : Nat} {target : Location} (htext : s.current.kind ≠ .stringLiteral)
    (hname : s.current.kind ≠ .identifier) :
    assigned .standard line target s = assignedValue line target s := by
  have hpeek : Parse.peek 1 s = .ok (s.peek 1) s := rfl
  rw [assigned, bind_apply current_run, if_neg htext, bind_apply hpeek, if_neg fun h => hname h.1]
  rfl

/-- The right side of an assignment that is an expression. -/
theorem prompt_assignedValue (line : Nat) (target : Location) (hE : E .number) :
    Prompt n (assignedValue line target) E (· = .semicolon) := by
  refine (prompt_expression .default hE).bind fun e => prompt_pure _ ?_
  rintro _ rfl
  decide

/-- The right side of an assignment, in front of its semicolon. -/
theorem prompt_assigned (line : Nat) (target : Location) :
    Prompt n (assigned .standard line target) (fun _ => True) (· = .semicolon) := by
  refine ⟨?_, fun _ _ _ _ _ _ => trivial, fun s hlt => ?_⟩
  · -- what is made up is a number, so it is neither a string nor a call
    obtain ⟨us, x, hus, hrun⟩ :=
      (prompt_assignedValue (n := 0) (E := (· = .number)) line target rfl).run
    refine ⟨us, x, hus, fun s t ht hk => ⟨trivial, ?_⟩⟩
    obtain ⟨hs, hx⟩ := hrun s t ht hk
    rw [assigned_of_ne (by rw [hs]; decide) (by rw [hs]; decide), hx]
  · by_cases htext : s.current.kind = .stringLiteral
    · refine promptAt_of_advance (E := fun _ => True) (by rw [htext]; decide) (Nat.le_refl _)
        (prompt_pure (.assignString (.bare line) target s.current.value) fun _ _ => trivial)
        fun s' hs' => ?_
      rw [assigned, bind_apply current_run, if_pos (hs' ▸ htext), bind_apply (advance_run hs')]
    by_cases hname : s.current.kind = .identifier
    · refine promptAt_of_advance (by rw [hname]; decide) (Nat.le_refl _)
        (prompt_behindName line target s.current) fun s' hs' => ?_
      rw [assigned_of_name (hs' ▸ hname), hs']
    · refine PromptAt.of_progresses (q := assignedValue line target) ?_ ?_ fun s' hs' => ?_
      · exact (prompt_assignedValue (E := fun _ => True) line target trivial).promptAt s hlt
      · exact (progresses_expression .default s).bind fun _ _ _ => movesOn_pure _
      · exact assigned_of_ne (hs' ▸ htext) (hs' ▸ hname)

/-- An assignment, a call included. -/
theorem promptAt_assignment : PromptAt (assignment .standard) F s := by
  refine promptAt_current_bind ?_ (progresses_assignment s)
  refine promptAt_of_prompt ?_ (Nat.lt_succ_self s.remaining)
  exact (prompt_location (F := (· = .assignment)) trivial (by decide)).bind fun target =>
    prompt_expect_bind (by decide) rfl fun _ => (prompt_assigned _ target).bind fun st =>
      prompt_expect_bind (by decide) rfl fun _ => prompt_pure _ fun _ _ => trivial

/-! ## Statements, over a reader of inner statements -/

/-- A condition in parentheses. -/
theorem prompt_condition (hE : E .openParen) : Prompt n (condition .standard) E F :=
  prompt_expect_bind (by decide) hE fun _ => (prompt_expression .default trivial).bind fun _ =>
    prompt_expect_bind (by decide) (by decide) fun _ => prompt_pure _ fun _ _ => trivial

section Statements

variable {inner : Parse Stmt}

/-- A block is prompt on streams with one token more than its statements. -/
theorem prompt_blockWith (hin : ∀ t, Progresses inner t)
    (h : ∀ s : Stream, s.remaining < n → PromptAt inner (· ≠ .else) s) (hE : E .openCurly) :
    Prompt (n + 1) (blockWith inner) E F := by
  refine prompt_expect_bind_succ (by decide) hE fun _ =>
    (prompt_declarations (F := (· = .closeCurly)) (by decide) fun _ _ => trivial).bind fun ds =>
      (prompt_manyWhile hin (fun s hlt _ => h s hlt) (G := (· = .closeCurly)) ?_ ?_
        fun _ hk => hk).bind fun ss =>
          prompt_expect_bind (by decide) rfl fun _ => prompt_pure _ fun _ _ => trivial
  · intro t ht
    simp [ht]
  · rintro _ rfl
    decide

/-- A condition, and the block that it guards. -/
theorem prompt_guarded {α : Type} {f : Expr → Block → Parse α} (hin : ∀ t, Progresses inner t)
    (h : ∀ s : Stream, s.remaining < n → PromptAt inner (· ≠ .else) s)
    (hf : ∀ e b, Prompt n (f e b) (fun _ => True) F) :
    Prompt n (do
      let e ← condition .standard
      let b ← blockWith inner
      f e b) (fun _ => True) F :=
  (prompt_condition (F := fun _ => True) trivial).bind fun e =>
    ((prompt_blockWith hin h trivial).of_le (Nat.le_succ n)).bind fun b => hf e b

/-- The form of statements is prompt if its inner reader is; no `else` can stand behind one. -/
theorem promptAt_statementWith (hin : ∀ t, Progresses inner t)
    (h : ∀ s : Stream, s.remaining < n → PromptAt inner (· ≠ .else) s) (hs : s.remaining ≤ n) :
    PromptAt (statementWith inner .standard) (· ≠ .else) s := by
  refine promptAt_current_bind ?_ (progresses_statementWith hin s)
  cases hform : Rules.standard.stmtStart? s.current.kind with
  | none => exact promptAt_assignment
  | some form =>
    rcases kind_of_stmtStart? hform with ⟨rfl, hk⟩ | ⟨rfl, hk⟩ | ⟨rfl, hk⟩
    · refine promptAt_advance_bind (by rw [hk]; decide) hs (prompt_guarded hin h fun e b => ?_)
      refine prompt_optional (fun u => ?_) (fun u hlt helse => ?_) fun _ hF => ⟨trivial, hF⟩
      · exact movesOn_advance.bind_progresses fun _ v _ =>
          (progresses_blockWith hin v).bind fun _ _ _ => movesOn_pure _
      · exact promptAt_advance_bind (by rw [helse]; decide) (Nat.le_of_lt hlt) <|
          ((prompt_blockWith (F := (· ≠ .else)) hin h trivial).of_le (Nat.le_succ n)).bind
            fun _ => prompt_pure _ fun _ hF => hF
    · exact promptAt_advance_bind (by rw [hk]; decide) hs <|
        prompt_guarded hin h fun _ _ => prompt_pure _ fun _ _ => trivial
    · refine promptAt_current_bind (promptAt_of_prompt ?_ (Nat.lt_succ_of_le hs)) ?_
      · exact (prompt_blockWith (F := (· ≠ .else)) hin h trivial).bind fun _ =>
          prompt_pure _ fun _ hF => hF
      · exact (progresses_blockWith hin s).bind fun _ _ _ => movesOn_pure _

end Statements

/-- Statements are prompt. -/
theorem promptAt_statement (s : Stream) : PromptAt (statement .standard) (· ≠ .else) s := by
  obtain ⟨n, hs⟩ : ∃ n, s.remaining < n := ⟨_, Nat.lt_succ_self _⟩
  -- on the number of tokens, as statements in blocks stand behind a brace
  induction n generalizing s with
  | zero => exact absurd hs (Nat.not_lt_zero _)
  | succ n ih =>
    rw [statement_eq]
    exact promptAt_statementWith progresses_statement ih (Nat.le_of_lt_succ hs)

/-! ## Procedures -/

/-- Parameters in parentheses. -/
theorem prompt_parameters (hE : E .openParen) : Prompt n parameters E F :=
  prompt_parenthesized (F := fun _ => True) (by decide) progresses_parameter
    (prompt_parameter trivial) trivial hE

/-- A header. -/
theorem prompt_header (hE : E .procedure) : Prompt n header E F :=
  prompt_expect_bind (by decide) hE fun _ => prompt_expectFor_bind (by decide) trivial fun _ =>
    (prompt_parameters (F := fun _ => True) trivial).bind fun _ =>
      prompt_expect_bind (by decide) trivial fun _ => (prompt_declaredType trivial).bind fun _ =>
        prompt_pure _ fun _ hF => hF

/-- A result. -/
theorem prompt_result (hE : E .return) : Prompt n (result .standard) E F :=
  prompt_expect_bind (by decide) hE fun _ => (prompt_expression .default trivial).bind fun _ =>
    prompt_expect_bind (by decide) (by decide) fun _ => prompt_pure _ fun _ _ => trivial

/-- The return at the end of a body; nothing but its word can begin it. -/
theorem prompt_finalResult : Prompt n (finalResult .standard) (· = .return) F := by
  refine .of_progresses progresses_finalResult ?_ fun s hlt =>
    promptAt_current_bind ?_ (progresses_finalResult s)
  · obtain ⟨us, x, hus, hrun⟩ := (prompt_result (n := 0) (E := (· = .return)) (F := F) rfl).run
    refine ⟨us, x, hus, fun s t ht hk => ?_⟩
    obtain ⟨hs, hx⟩ := hrun s t ht hk
    exact ⟨hs, by rw [finalResult, bind_apply current_run, if_pos hs, hx]⟩
  · by_cases hs : s.current.kind = .return
    · rw [if_pos hs]
      exact (prompt_result (E := (· = .return)) rfl).promptAt s hlt
    · rw [if_neg hs]
      exact promptAt_unexpected _

section Procedures

variable {inner : Parse Procedure}

/-- A body is prompt on streams with one token more than the procedures in it. -/
theorem prompt_bodyWith (hin : ∀ t, Progresses inner t)
    (h : ∀ s : Stream, s.remaining < n → PromptAt inner (fun _ => True) s) (hE : E .openCurly) :
    Prompt (n + 1) (bodyWith inner .standard) E F := by
  refine prompt_expect_bind_succ (by decide) hE fun _ =>
    (prompt_manyWhile hin (fun s hlt _ => h s hlt) (G := (· = .return)) ?_ (fun _ _ => trivial)
      fun _ _ => trivial).bind fun ps =>
    (prompt_declarations (F := (· = .return)) (by decide) fun _ hk => hk).bind fun ds =>
    (prompt_manyWhile progresses_statement (fun s _ _ => promptAt_statement s) ?_ ?_
      fun _ hk => hk).bind fun ss =>
    (prompt_finalResult (F := fun _ => True)).bind fun r =>
      prompt_expect_bind (by decide) trivial fun _ => prompt_pure _ fun _ _ => trivial
  · intro t ht
    simp [ht]
  · intro t ht
    simp [ht]
  · rintro _ rfl
    decide

end Procedures

/-- Procedures are prompt. -/
theorem promptAt_procedure (s : Stream) : PromptAt (procedure .standard) F s := by
  obtain ⟨n, hs⟩ : ∃ n, s.remaining < n := ⟨_, Nat.lt_succ_self _⟩
  induction n generalizing s F with
  | zero => exact absurd hs (Nat.not_lt_zero _)
  | succ n ih =>
    rw [procedure_eq]
    refine promptAt_of_prompt ?_ hs
    exact (prompt_header (F := fun _ => True) trivial).bind fun _ =>
      (prompt_bodyWith progresses_procedure (fun s hs => ih s hs) trivial).bind fun _ =>
        prompt_pure _ fun _ hF => hF

/-- A procedure at the top of a program. -/
theorem promptAt_topProcedure (s : Stream) : PromptAt topProcedure F s := by
  refine promptAt_current_bind ?_ (progresses_topProcedure s)
  by_cases hs : s.current.kind = .procedure
  · rw [if_pos hs]
    exact promptAt_procedure s
  · rw [if_neg hs]
    exact promptAt_unexpected _

/-! ## Programs -/

/-- The procedures of a program, up to the end marker. -/
def topProcedures : Parse (List Procedure) := manyWhile (fun t => t.kind ≠ .eof) topProcedure

/-- A program is its procedures, with the line of the token behind them. -/
theorem program_eq : program = (do
    let ps ← topProcedures
    let t ← current
    pure ⟨ps, .bare t.line⟩ : Parse Program) := rfl

/-- The procedures of a program are prompt, with the end marker behind them. -/
theorem prompt_topProcedures : Prompt n topProcedures (fun _ => True) (· = .eof) :=
  prompt_manyWhile (F := fun _ => True) progresses_topProcedure
    (fun s _ _ => promptAt_topProcedure s) (fun t ht => by simp [ht]) (fun _ _ => trivial)
    fun _ _ => trivial

/-- `parse` succeeds where the procedures are read up to the first end marker. -/
theorem parse_eq_ok_of_topProcedures {file : String} {tokens : List Token} {ps : List Procedure}
    {t : Stream} (h : topProcedures (ofTokens file tokens) = .ok ps t) :
    parse file tokens = .ok ⟨ps, .bare t.current.line⟩ := by
  refine parse_eq_ok_iff.mpr ⟨t, ?_⟩
  rw [program_eq, bind_apply h]
  rfl

/-- A parse that succeeds has read procedures. -/
theorem exists_topProcedures_of_parse {file : String} {tokens : List Token} {p : Program}
    (h : parse file tokens = .ok p) :
    ∃ ps t, topProcedures (ofTokens file tokens) = .ok ps t := by
  obtain ⟨t, hp⟩ := parse_eq_ok_iff.mp h
  obtain ⟨ps, t, hps, -⟩ := bind_eq_ok.mp hp
  exact ⟨ps, t, hps⟩

/-- A parse that fails has failed in them. -/
theorem topProcedures_of_parse_error {file : String} {tokens : List Token} {d : Diagnostic}
    (h : parse file tokens = .error d) :
    ∃ t, topProcedures (ofTokens file tokens) = .error d t := by
  cases hps : topProcedures (ofTokens file tokens) with
  | ok ps t =>
    rw [parse_eq_ok_of_topProcedures hps] at h
    cases h
  | error d' t =>
    have hd : parse file tokens = .error d' := by
      rw [parse, program_eq, bind_error hps]
    rw [hd] at h
    cases h
    exact ⟨t, rfl⟩

/-- Tokens without an end marker that are read in front of one are a program. -/
theorem parse_of_reads {tokens : List Token} {ps : List Procedure}
    (hend : ∀ y ∈ tokens, y.kind ≠ .eof) (h : Reads topProcedures tokens ps (· = .eof))
    (file : String) : ∃ p, parse file tokens = .ok p := by
  obtain ⟨t, ht, he, -⟩ := exists_passes_beforeEnd file tokens
  have hall : beforeEnd tokens = tokens :=
    List.takeWhile_eq_self_iff.mpr fun y hy => decide_eq_true (hend y hy)
  rw [hall] at ht
  exact ⟨_, parse_eq_ok_of_topProcedures (h _ t ht he)⟩

/-- Tokens in front of a stream with no end marker among them are passed. -/
theorem exists_passes_of_tokens_eq {ts us : List Token} {x : Token} (hend : ∀ y ∈ ts, y.kind ≠ .eof)
    (h : s.tokens = ts ++ x :: us) : ∃ u, s.Passes ts u ∧ u.current = x := by
  induction ts generalizing s with
  | nil => exact ⟨s, rfl, (List.cons.inj h).1⟩
  | cons y ts ih =>
    obtain ⟨hy, hts⟩ := List.forall_mem_cons.mp hend
    have hs : s.current = y := (List.cons.inj h).1
    have hadvance : s.tokens = s.current :: s.advance.tokens :=
      (passes_current rfl (hs ▸ hy)).tokens_eq
    rw [hadvance] at h
    obtain ⟨u, hu, hx⟩ := ih hts (List.cons.inj h).2
    exact ⟨u, ⟨hs, hy, hu⟩, hx⟩

/-- Where `ts` cannot be read with `x` behind them, no program begins with `ts` and `x`. -/
theorem parse_ne_ok_of_prefix {ts : List Token} {x : Token} (hend : ∀ y ∈ ts, y.kind ≠ .eof)
    (h : ∀ (s u : Stream) ps t, s.Passes ts u → u.current = x → topProcedures s ≠ .ok ps t)
    (us : List Token) (file : String) (p : Program) : parse file (ts ++ x :: us) ≠ .ok p := by
  intro hp
  obtain ⟨ps, t, hps⟩ := exists_topProcedures_of_parse hp
  obtain ⟨vs, hvs⟩ : ∃ vs, (ofTokens file (ts ++ x :: us)).tokens = ts ++ x :: vs := by
    rcases tokens_ofTokens file (ts ++ x :: us) with h | h
    · exact ⟨us, h⟩
    · exact ⟨us ++ [missingEnd file (ts ++ x :: us)], by rw [h, List.append_assoc]; rfl⟩
  obtain ⟨u, hu, hx⟩ := exists_passes_of_tokens_eq hend hvs
  exact h _ u ps t hu hx hps

/-- **Errors are at the first hopeless token.**  When `parse` fails, its error points at the start
    of a token `x` that lies before the first end marker, or is this one.  The tokens `ts` in front
    of `x` can be completed to a program; no program begins with `ts` and `x`. -/
theorem parse_error_first_hopeless {file : String} {tokens : List Token} {d : Diagnostic}
    (h : parse file tokens = .error d) :
    ∃ ts x rest, (ofTokens file tokens).tokens = ts ++ x :: rest ∧ (∀ t ∈ ts, t.kind ≠ .eof) ∧
      d.position.offset = x.span.start.offset ∧
      (∃ us, ∀ file', ∃ p, parse file' (ts ++ us) = .ok p) ∧
      ∀ us file' p, parse file' (ts ++ x :: us) ≠ .ok p := by
  obtain ⟨t, ht⟩ := topProcedures_of_parse_error h
  have hprompt := prompt_topProcedures (n := (ofTokens file tokens).remaining + 1)
  obtain ⟨ts, u, hu, hpos, hno, hcomplete⟩ :=
    (hprompt.promptAt _ (Nat.lt_succ_self _)).faults ht
  obtain ⟨us, ps, hus, hreads⟩ := hprompt.completes hcomplete
  have hend := hu.ne_eof_of_mem
  refine ⟨ts, u.current, u.rest, hu.tokens_eq, hend, hpos, ⟨us, ?_⟩, ?_⟩
  · exact parse_of_reads (List.forall_mem_append.mpr ⟨hend, hus⟩) hreads
  · exact parse_ne_ok_of_prefix hend hno

/-- A procedure whose return type has a size that is too large, with each token at its place. -/
def oversizedTokens : List Token :=
  let token (start stop : Nat) (kind : Kind) (value : String) : Token :=
    ⟨kind, value, ⟨⟨start, "f"⟩, ⟨stop, "f"⟩⟩, 1⟩
  [token 0 9 .procedure "procedure", token 10 14 .identifier "Main", token 14 15 .openParen "(",
    token 15 16 .closeParen ")", token 17 23 .return "return", token 24 30 .string "string",
    token 30 31 .openBracket "[", token 31 41 .number "4294967296", token 41 42 .closeBracket "]"]

/-- The size is blamed, at byte 31. -/
theorem parse_error_first_hopeless_sample :
    parse "f" oversizedTokens = .error ⟨.badNumber "4294967296", ⟨31, "f"⟩⟩ ∧
    ∃ ts x rest, (ofTokens "f" oversizedTokens).tokens = ts ++ x :: rest ∧
      (∀ t ∈ ts, t.kind ≠ .eof) ∧ 31 = x.span.start.offset ∧
      (∃ us, ∀ file', ∃ p, parse file' (ts ++ us) = .ok p) ∧
      ∀ us file' p, parse file' (ts ++ x :: us) ≠ .ok p := by
  have h : parse "f" oversizedTokens = .error ⟨.badNumber "4294967296", ⟨31, "f"⟩⟩ := by rfl
  exact ⟨h, parse_error_first_hopeless h⟩

end ProcLang.Grammar
