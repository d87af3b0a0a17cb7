/-
  Every reader makes progress, and `parse` ends.

  `advance` stays where it is at the last token, so a loop or a recursion of the readers could
  spin there.  That none does has three parts, and each speaks of the tokens that are left:

  1. **Places** (`advances_of_progresses`).  A stream over a token list is always at a place of
     that list.  A reader that progresses ends behind the place where it began when it succeeds,
     and not in front of it when it fails.
  2. **Rounds** (`bounded_of_unrolls`).  `Rounds` is the plain loop, without a counter that
     could cut it short, and it counts its rounds.  A loop whose rounds progress makes no more
     of them than there are tokens left, since a round that succeeds takes a token and a round
     that fails is the last one.
  3. **Levels** (`iterate_expressionWith_eq` and its likes).  An inner reader starts behind a
     token of the outer one.  So as many levels as there are tokens left decide a run: what
     stands at the bottom of them is never asked.

  `parse_terminates` puts the three together, for the tables of the grammar.
-/
import Mathlib.Logic.Function.Iterate
import ProcLang.Proofs.Grammar.Level

namespace ProcLang

/-! ## Places of a token list -/

namespace Stream

variable {s t : Stream}

/-- The current token, and those that are left. -/
theorem length_tokens (s : Stream) : s.tokens.length = s.remaining + 1 := rfl

/-- The stream at the place `i` of the tokens of `s`. -/
def seek (s : Stream) (i : Fin s.tokens.length) : Stream := advance^[i] s

/-- Each step leaves one token less, down to none. -/
theorem remaining_iterate_advance (s : Stream) (n : Nat) :
    (advance^[n] s).remaining = s.remaining - n := by
  induction n with
  | zero => rfl
  | succ n ih =>
    rw [Function.iterate_succ_apply', remaining_advance, ih]
    omega

/-- At the `i`th token of a stream, `i` tokens fewer are left. -/
theorem remaining_seek (s : Stream) (i : Fin s.tokens.length) :
    (s.seek i).remaining + i = s.remaining := by
  have hi : i < s.remaining + 1 := i.isLt
  rw [seek, remaining_iterate_advance]
  omega

/-- The tokens of a stream tell where in its file it stands. -/
theorem eq_of_tokens (hfile : t.file = s.file) (h : t.tokens = s.tokens) : t = s := by
  obtain ⟨file, current, rest, hs⟩ := s
  obtain ⟨file', current', rest', ht⟩ := t
  obtain ⟨rfl, rfl⟩ : current' = current ∧ rest' = rest := List.cons.inj h
  obtain rfl : file' = file := hfile
  rfl

/-- What lies ahead is reached by advancing, once for each token that is left behind. -/
theorem Reaches.exists_iterate (h : s.Reaches t) :
    ∃ n, t = advance^[n] s ∧ t.remaining + n = s.remaining := by
  obtain ⟨file, current, rest, hc⟩ := s
  induction rest generalizing current with
  | nil =>
    have hlen : t.tokens.length = 1 :=
      Nat.le_antisymm h.2.length_le (Nat.le_add_left 1 t.remaining)
    obtain rfl := eq_of_tokens h.1 (h.2.eq_of_length hlen)
    exact ⟨0, rfl, rfl⟩
  | cons x rest ih =>
    rcases List.suffix_cons_iff.mp h.2 with heq | hsuffix
    · obtain rfl := eq_of_tokens h.1 heq
      exact ⟨0, rfl, rfl⟩
    · obtain ⟨n, hn, hrem⟩ := ih x _ ⟨h.1, hsuffix⟩
      exact ⟨n + 1, hn, congrArg Nat.succ hrem⟩

/-- What lies ahead of a place is a place, and the tokens between them are those that are left
    behind. -/
theorem Reaches.exists_seek {i : Fin s.tokens.length} (h : (s.seek i).Reaches t) :
    ∃ j : Fin s.tokens.length, t = s.seek j ∧ t.remaining + j = (s.seek i).remaining + i := by
  obtain ⟨n, rfl, hn⟩ := h.exists_iterate
  have hi := s.remaining_seek i
  have hlt : n + i < s.tokens.length := by
    show n + i < s.remaining + 1
    omega
  refine ⟨⟨n + i, hlt⟩, ?_, ?_⟩
  · rw [seek, seek, Function.iterate_add_apply]
  · rw [← hn]
    exact (Nat.add_assoc _ _ _).symm

end Stream

namespace Parse

open ProcLang.Stream

variable {α σ : Type}

/-- At every place of every token list, a run of `p` ends at a place of the list: behind the one
    where it began when it succeeds, and not in front of it when it fails. -/
def Advances (p : Parse α) : Prop :=
  ∀ (file : String) (tokens : List Token) (i : Fin (ofTokens file tokens).tokens.length),
    Yields p ((ofTokens file tokens).seek i)
      (fun _ t => ∃ j, i < j ∧ t = (ofTokens file tokens).seek j)
      (fun t => ∃ j, i ≤ j ∧ t = (ofTokens file tokens).seek j)

/-- A reader that progresses ends behind the place where it began, at a token of the same list. -/
theorem advances_of_progresses {p : Parse α} (hp : ∀ s, Progresses p s) : Advances p := by
  intro file tokens i
  refine (hp _).imp (fun _ t _ ht => ?_) fun t ht => ?_
  · obtain ⟨j, hj, hrem⟩ := ht.1.exists_seek
    have hlt := ht.2
    exact ⟨j, Fin.lt_def.mpr (by omega), hj⟩
  · obtain ⟨j, hj, hrem⟩ := ht.exists_seek
    have hle := ht.remaining_le
    exact ⟨j, Fin.le_def.mpr (by omega), hj⟩

/-! ## Rounds of a loop -/

/-- The loop over `body`, from what is read so far, ends after a number of rounds.  In front of a
    token, `body` gives the reader of one more round, or nothing when the loop is over. -/
inductive Rounds (body : σ → Token → Option (Parse σ)) :
    Nat → σ → Stream → EStateM.Result Diagnostic Stream σ → Prop
  | stop {x s} : body x s.current = none → Rounds body 0 x s (.ok x s)
  | fail {x s p d t} : body x s.current = some p → p s = .error d t →
      Rounds body 1 x s (.error d t)
  | round {x s p y t n r} : body x s.current = some p → p s = .ok y t → Rounds body n y t r →
      Rounds body (n + 1) x s r

/-- The runs of `p` are those of the loop over `body` from `x`, and none makes more rounds than
    there are tokens left. -/
def Bounded (body : σ → Token → Option (Parse σ)) (x : σ) (p : Parse σ) : Prop :=
  ∀ s, ∃ n ≤ s.tokens.length, Rounds body n x s (p s)

/-- A reader that unrolls as a loop does is that loop, and is bounded if its rounds progress. -/
theorem bounded_of_unrolls (body : σ → Token → Option (Parse σ)) (run : σ → Parse σ)
    (hp : ∀ x s p, body x s.current = some p → Progresses p s)
    (hstop : ∀ x s, body x s.current = none → run x s = .ok x s)
    (hround : ∀ x s p, body x s.current = some p → run x s = (p >>= run) s) (x : σ) :
    Bounded body x (run x) := by
  intro s
  obtain ⟨n, hn⟩ : ∃ n, s.remaining = n := ⟨_, rfl⟩
  induction n using Nat.strongRecOn generalizing x s with
  | _ n ih =>
    cases hb : body x s.current with
    | none => exact ⟨0, Nat.zero_le _, hstop x s hb ▸ .stop hb⟩
    | some p =>
      rw [hround x s p hb]
      cases hr : p s with
      | error d t =>
        rw [bind_error hr]
        exact ⟨1, Nat.le_add_left 1 _, .fail hb hr⟩
      | ok y t =>
        have hlt := ((hp x s p hb).of_ok hr).2
        obtain ⟨m, hm, hrounds⟩ := ih t.remaining (by omega) y t rfl
        rw [bind_apply hr]
        refine ⟨m + 1, ?_, .round hb hr hrounds⟩
        rw [length_tokens] at hm ⊢
        omega

/-! ## Loops over items -/

section Items

variable {wanted : Token → Bool} {separator : Kind} {item : Parse α}

/-- Reads one more item in front of a token that calls for one. -/
def collected (wanted : Token → Bool) (item : Parse α) (xs : List α) (t : Token) :
    Option (Parse (List α)) :=
  if wanted t then some (do let x ← item; pure (xs ++ [x])) else none

/-- A round of a loop takes the item that is wanted, and no other. -/
theorem collected_eq_some {xs : List α} {t : Token} {p : Parse (List α)} :
    collected wanted item xs t = some p ↔
      wanted t = true ∧ (do let x ← item; pure (xs ++ [x])) = p := by
  rw [collected, Option.ite_none_right_eq_some, Option.some.injEq]

/-- What a loop over items reads when it has read `xs` already. -/
def manyFrom (wanted : Token → Bool) (item : Parse α) (xs : List α) : Parse (List α) := do
  let ys ← manyWhile wanted item
  pure (xs ++ ys)

/-- A round progresses when the item does. -/
theorem progresses_of_collected (hp : ∀ s, Progresses item s) (xs : List α) (s : Stream)
    (p : Parse (List α)) (h : collected wanted item xs s.current = some p) : Progresses p s := by
  obtain ⟨-, rfl⟩ := collected_eq_some.mp h
  exact (hp s).bind fun _ _ _ => movesOn_pure _

/-- The loop ends at a token that is not wanted. -/
theorem manyFrom_of_none (hp : ∀ s, Progresses item s) (xs : List α) (s : Stream)
    (h : collected wanted item xs s.current = none) : manyFrom wanted item xs s = .ok xs s := by
  have hw : wanted s.current = false := by simpa [collected] using h
  have hrun : manyWhile wanted item s = .ok [] s := by
    rw [manyWhile_eq (fun t _ => hp t), hw]
    rfl
  rw [manyFrom, bind_apply hrun, List.append_nil]
  rfl

/-- The loop takes one item and goes on with it at the end of the list. -/
theorem manyFrom_of_some (hp : ∀ s, Progresses item s) (xs : List α) (s : Stream)
    (p : Parse (List α)) (h : collected wanted item xs s.current = some p) :
    manyFrom wanted item xs s = (p >>= manyFrom wanted item) s := by
  obtain ⟨hw, rfl⟩ := collected_eq_some.mp h
  have hrun : manyWhile wanted item s =
      (do let x ← item; let ys ← manyWhile wanted item; pure (x :: ys) : Parse (List α)) s := by
    rw [manyWhile_eq (fun t _ => hp t), if_pos hw]
  rw [manyFrom, bind_congr hrun fun _ _ _ => rfl]
  show _ = ((item >>= fun x => pure (xs ++ [x])) >>= manyFrom wanted item) s
  simp only [manyFrom, bind_assoc, pure_bind, List.append_assoc, List.singleton_append]

/-- The loop over wanted items makes no more rounds than there are tokens left. -/
theorem bounded_manyWhile (hp : ∀ s, Progresses item s) :
    Bounded (collected wanted item) [] (manyWhile wanted item) := by
  have hrun : manyFrom wanted item [] = manyWhile wanted item := bind_pure _
  rw [← hrun]
  exact bounded_of_unrolls _ _ (progresses_of_collected hp) (manyFrom_of_none hp)
    (manyFrom_of_some hp) []

/-- Reads the first item in any case, and one more behind each separator. -/
def separated (separator : Kind) (item : Parse α) : List α → Token → Option (Parse (List α))
  | [], _ => some (do let x ← item; pure [x])
  | x :: xs, t =>
    collected (fun t => t.kind = separator) (do let _ ← advance; item) (x :: xs) t

/-- What a loop over items with separators reads when it has read some of them already. -/
def separatedFrom (separator : Kind) (item : Parse α) : List α → Parse (List α)
  | [] => separatedBy separator item
  | x :: xs => manyFrom (fun t => t.kind = separator) (do let _ ← advance; item) (x :: xs)

/-- The loop over items with separators makes no more rounds than there are tokens left. -/
theorem bounded_separatedBy (hp : ∀ s, Progresses item s) :
    Bounded (separated separator item) [] (separatedBy separator item) := by
  have hnext (s : Stream) : Progresses (do let _ ← advance; item) s :=
    movesOn_advance.bind_progresses fun _ t _ => hp t
  -- the first round takes an item alone, and every later one a separator with its item, which is a
  -- `manyWhile`
  refine bounded_of_unrolls (separated separator item) (separatedFrom separator item)
    ?_ ?_ ?_ []
  · intro xs s p h
    cases xs with
    | nil =>
      obtain rfl := Option.some.inj h
      exact (hp s).bind fun _ _ _ => movesOn_pure _
    | cons x xs =>
      rw [separated] at h
      exact progresses_of_collected hnext _ s p h
  · intro xs s h
    cases xs with
    | nil => exact absurd h (Option.some_ne_none _)
    | cons x xs =>
      rw [separated] at h
      exact manyFrom_of_none hnext _ s h
  · intro xs s p h
    cases xs with
    | nil =>
      obtain rfl := Option.some.inj h
      show separatedBy separator item s =
        ((item >>= fun x => pure [x]) >>= separatedFrom separator item) s
      simp only [bind_assoc, pure_bind]
      rfl
    | cons x xs =>
      rw [separated] at h
      rw [separatedFrom, manyFrom_of_some hnext _ s p h]
      obtain ⟨-, rfl⟩ := collected_eq_some.mp h
      simp only [bind_assoc, pure_bind]
      rfl

end Items

end Parse

namespace Grammar

open Parse

/-! ## The loop over operators -/

/-- Reads one more operator and its right operand, if the operator binds tighter than `power`. -/
def tightened (rules : Rules) (power : Power) (left : Expr) (t : Token) : Option (Parse Expr) :=
  (tighter? rules power t).map (binary (expression rules) left)

/-- The loop over operators makes no more rounds than there are tokens left. -/
theorem bounded_operators (rules : Rules) (power : Power) (left : Expr) :
    Bounded (tightened rules power) left (operators (expression rules) rules power left) := by
  refine bounded_of_unrolls (tightened rules power) (operators (expression rules) rules power)
    ?_ ?_ ?_ left
  · intro left s p h
    obtain ⟨q, -, rfl⟩ := Option.map_eq_some_iff.mp h
    exact progresses_binary progresses_expression left q s
  · intro left s h
    exact operators_of_none progresses_expression (Option.map_eq_none_iff.mp h)
  · intro left s p h
    obtain ⟨q, hq, rfl⟩ := Option.map_eq_some_iff.mp h
    rw [operators_eq progresses_expression, hq]

/-! ## Levels of the recursions -/

/-- As many levels as there are tokens left decide what an expression is, whatever `bottom` reads
    below them. -/
theorem iterate_expressionWith_eq {rules : Rules} (hstart : rules.exprStart? .eof = none)
    (bottom : Power → Parse Expr) {n : Nat} (power : Power) {s : Stream} (h : s.remaining < n) :
    (expressionWith · rules)^[n] bottom power s = expression rules power s := by
  induction n generalizing power s with
  | zero => exact absurd h (Nat.not_lt_zero _)
  | succ n ih =>
    rw [Function.iterate_succ_apply', expression_eq hstart]
    exact (expressionWith_congr hstart progresses_expression power
      fun q t ht => (ih q (by omega)).symm).symm

/-- As many levels as there are tokens left decide what a statement is. -/
theorem iterate_statementWith_eq {rules : Rules} (bottom : Parse Stmt) {n : Nat} {s : Stream}
    (h : s.remaining < n) : (statementWith · rules)^[n] bottom s = statement rules s := by
  induction n generalizing s with
  | zero => exact absurd h (Nat.not_lt_zero _)
  | succ n ih =>
    rw [Function.iterate_succ_apply', statement_eq]
    exact (statementWith_congr progresses_statement fun t ht => (ih (by omega)).symm).symm

/-- As many levels as there are tokens left decide what a procedure is. -/
theorem iterate_procedureWith_eq {rules : Rules} (bottom : Parse Procedure) {n : Nat}
    {s : Stream} (h : s.remaining < n) :
    (procedureWith · rules)^[n] bottom s = procedure rules s := by
  induction n generalizing s with
  | zero => exact absurd h (Nat.not_lt_zero _)
  | succ n ih =>
    rw [Function.iterate_succ_apply', procedure_eq]
    exact (procedureWith_congr progresses_procedure fun t ht => (ih (by omega)).symm).symm

/-! ## The whole parser -/

/-- What `parse` makes of the end of its loop over procedures. -/
def finish : EStateM.Result Diagnostic Stream (List Procedure) → Except Diagnostic Program
  | .ok ps t => .ok ⟨ps, .bare t.current.line⟩
  | .error d _ => .error d

/-- `parse` is a loop over procedures that ends at the end marker. -/
theorem parse_eq_finish (file : String) (tokens : List Token) :
    parse file tokens =
      finish (manyWhile (fun t => t.kind ≠ .eof) topProcedure (.ofTokens file tokens)) := by
  cases h : manyWhile (fun t => t.kind ≠ .eof) topProcedure (.ofTokens file tokens) with
  | ok ps t => rw [parse, program, bind_apply h]; rfl
  | error d t => rw [parse, program, bind_error h]; rfl

/-- **The parser makes progress and ends.**  From every place of every token list, each reader
    ends at a place of the list, which lies behind its start when it succeeds and not in front of
    it when it fails.  Every loop is the plain one and makes no more rounds than there are tokens
    left.  The recursions of expressions, statements and procedures go no more levels deep than
    there are tokens left, so that nothing depends on what a deeper level would read.  So `parse`
    ends on every token list, behind a number of procedures that the tokens bound. -/
theorem parse_terminates :
    ((∀ power, Advances (expression .standard power)) ∧ Advances (location .standard) ∧
      Advances declaredType ∧ Advances declaration ∧ Advances (result .standard) ∧
      Advances (statement .standard) ∧ Advances (block .standard) ∧ Advances (body .standard) ∧
      Advances (procedure .standard)) ∧
    (Bounded (collected (fun t => t.kind ≠ .eof) topProcedure) []
        (manyWhile (fun t => t.kind ≠ .eof) topProcedure) ∧
      Bounded (collected (fun t => t.kind = .procedure) (procedure .standard)) []
        (manyWhile (fun t => t.kind = .procedure) (procedure .standard)) ∧
      Bounded (collected (fun t => t.kind = .var) declaration) [] declarations ∧
      Bounded (collected (fun t => t.kind ≠ .return ∧ t.kind ≠ .closeCurly ∧ t.kind ≠ .eof)
          (statement .standard)) []
        (manyWhile (fun t => t.kind ≠ .return ∧ t.kind ≠ .closeCurly ∧ t.kind ≠ .eof)
          (statement .standard)) ∧
      Bounded (collected (fun t => t.kind ≠ .closeCurly ∧ t.kind ≠ .eof) (statement .standard)) []
        (manyWhile (fun t => t.kind ≠ .closeCurly ∧ t.kind ≠ .eof) (statement .standard)) ∧
      Bounded (separated .comma (do let t ← expect .identifier; pure t.value)) [] names ∧
      Bounded (separated .semicolon parameter) [] (separatedBy .semicolon parameter) ∧
      Bounded (separated .comma (expression .standard .default)) []
        (separatedBy .comma (expression .standard .default)) ∧
      ∀ power left, Bounded (tightened .standard power) left
        (operators (expression .standard) .standard power left)) ∧
    (∀ s : Stream,
      (∀ bottom power, (expressionWith · .standard)^[s.tokens.length] bottom power s =
        expression .standard power s) ∧
      (∀ bottom, (statementWith · .standard)^[s.tokens.length] bottom s =
        statement .standard s) ∧
      ∀ bottom, (procedureWith · .standard)^[s.tokens.length] bottom s =
        procedure .standard s) ∧
    ∀ (file : String) (tokens : List Token),
      ∃ n ≤ (Stream.ofTokens file tokens).tokens.length, ∃ r,
        Rounds (collected (fun t => t.kind ≠ .eof) topProcedure) n [] (.ofTokens file tokens) r ∧
        parse file tokens = finish r := by
  have hprocedures : Bounded (collected (fun t => t.kind ≠ .eof) topProcedure) []
      (manyWhile (fun t => t.kind ≠ .eof) topProcedure) := bounded_manyWhile progresses_topProcedure
  have hname (s : Stream) : Progresses (do let t ← expect .identifier; pure t.value) s :=
    (progresses_expect (by decide)).bind fun _ _ _ => movesOn_pure _
  refine ⟨⟨fun power => advances_of_progresses (progresses_expression power),
      advances_of_progresses progresses_location, advances_of_progresses progresses_declaredType,
      advances_of_progresses progresses_declaration, advances_of_progresses progresses_result,
      advances_of_progresses progresses_statement, advances_of_progresses progresses_block,
      advances_of_progresses progresses_body, advances_of_progresses progresses_procedure⟩,
    ⟨hprocedures, bounded_manyWhile progresses_procedure,
      bounded_manyWhile progresses_declaration, bounded_manyWhile progresses_statement,
      bounded_manyWhile progresses_statement, bounded_separatedBy hname,
      bounded_separatedBy progresses_parameter,
      bounded_separatedBy (progresses_expression .default), bounded_operators .standard⟩,
    fun s => ⟨fun bottom power => ?_, fun bottom => ?_, fun bottom => ?_⟩,
    fun file tokens => ?_⟩
  · -- one level for each token, the end marker included, which is one more than there are left
    exact iterate_expressionWith_eq exprStart?_eof bottom power (Nat.lt_succ_self _)
  · exact iterate_statementWith_eq bottom (Nat.lt_succ_self _)
  · exact iterate_procedureWith_eq bottom (Nat.lt_succ_self _)
  · obtain ⟨n, hn, hrounds⟩ := hprocedures (.ofTokens file tokens)
    exact ⟨n, hn, _, hrounds, parse_eq_finish file tokens⟩

end Grammar
end ProcLang
