/-
  Runs that are confined to what they pass.

  A run looks at the tokens that it passes and at the one where it ends, and at nothing behind:
  where the same tokens lie in front of another stream of the same file, it does the same there.
  When it fails, its error blames one of these tokens.  `Confined p s` says this of the run of `p`
  at `s`, with `Settles` for a run that succeeds and `Stops` for one that fails.

  Since no end marker can be passed, a confined run is one that the first end marker stops.  What
  has to be seen is that no reader steps over a token without knowing its kind, and that nothing
  is blamed but the tokens at hand:

  * `Confined.bind`          — sequences;
  * `Confined.of_same`       — branches that are chosen by the current token;
  * `Confined.of_bound`      — depth limits and counters, which differ from stream to stream, but
                               are large enough on each of them;
  * `confined_expression`, `confined_statement`, `confined_procedure`, `confined_program` — one
                               lemma for each reader of the grammar, up to the whole program.
-/
import ProcLang.Proofs.Grammar.Blame

namespace ProcLang

/-! ## Blame -/

/-- The cause quotes the value `v`. -/
def Cause.Quotes (v : String) : Cause → Prop
  | .unrecognised w | .unexpected w | .unexpectedFor w _ | .badNumber w => w = v
  | .unterminatedComment => False

/-- The error `d`, found while reading `file`, quotes the token `y` and points at its start. -/
structure Diagnostic.Blames (d : Diagnostic) (file : String) (y : Token) : Prop where
  quotes : d.cause.Quotes y.value
  offset : d.position.offset = y.span.start.offset
  file : d.position.file = file ∨ d.position.file = y.span.start.file

namespace Stream

variable {s t u : Stream} {ts us : List Token}

/-- Passing tokens does not change the file. -/
theorem Passes.file_eq (h : s.Passes ts t) : t.file = s.file := h.reaches.1

/-- The tokens between two streams are determined by them. -/
theorem Passes.tokens_unique (h : s.Passes ts t) (h' : s.Passes us t) : ts = us :=
  List.append_cancel_right (h.tokens_eq.symm.trans h'.tokens_eq)

/-- An error about the current token depends on this token and the file alone. -/
theorem unexpected_congr (s : Stream) (m : String) {s' : Stream} (hfile : s'.file = s.file)
    (hk : s'.current = s.current) : s'.unexpected m = s.unexpected m := by
  rw [unexpected, unexpected, hfile, hk]

/-- It blames the token where it is raised. -/
theorem blames_unexpected (s : Stream) (m : String) : (s.unexpected m).Blames s.file s.current :=
  ⟨rfl, rfl, Or.inl rfl⟩

end Stream

namespace Parse

open ProcLang.Stream

variable {α β : Type} {p q : Parse α} {f : α → Parse β} {s t u : Stream} {d : Diagnostic}

/-! ## Confined runs -/

/-- The run of `p` from `s` to `t` passes tokens that make it fail with `d` on any stream of the
    same file, with the token of `t` behind them.  One of these tokens is blamed. -/
def Stops (p : Parse α) (s t : Stream) (d : Diagnostic) : Prop :=
  ∃ ts, s.Passes ts t ∧ (∃ y ∈ ts ++ [t.current], d.Blames s.file y) ∧
    ∀ s' t', s'.file = s.file → s'.Passes ts t' → t'.current = t.current → p s' = .error d t'

/-- The run of `p` at `s` does not look behind the token where it ends. -/
def Confined (p : Parse α) (s : Stream) : Prop :=
  match p s with
  | .ok x t => Settles p (fun _ => False) s t x
  | .error d t => Stops p s t d

/-- A confined run that succeeds settles, and no token is excluded behind it. -/
theorem Confined.settles (h : Confined p s) {x : α} (hp : p s = .ok x t) :
    Settles p (fun _ => False) s t x := by
  unfold Confined at h
  rwa [hp] at h

/-- A confined run that fails stops at a token that it has passed or reached. -/
theorem Confined.stops (h : Confined p s) (hp : p s = .error d t) : Stops p s t d := by
  unfold Confined at h
  rwa [hp] at h

/-- To see that a run that succeeds is confined, it has to settle. -/
theorem confined_of_ok {x : α} (hp : p s = .ok x t) (h : Settles p (fun _ => False) s t x) :
    Confined p s := by
  unfold Confined
  rwa [hp]

/-- To see that a run that fails is confined, it has to stop. -/
theorem confined_of_error (hp : p s = .error d t) (h : Stops p s t d) : Confined p s := by
  unfold Confined
  rwa [hp]

/-! ## Sequences -/

/-- A sequence stops where its first reader does. -/
theorem Stops.bind (h : Stops p s t d) : Stops (p >>= f) s t d := by
  obtain ⟨ts, ht, hblame, hrun⟩ := h
  exact ⟨ts, ht, hblame, fun s' t' hfile ht' hk => bind_error (hrun s' t' hfile ht' hk)⟩

/-- A sequence stops where its second reader does, behind what the first one has passed. -/
theorem Settles.bind_stops {F : Kind → Prop} {x : α} (h : Settles p F s t x)
    (h' : Stops (f x) t u d) : Stops (p >>= f) s u d := by
  obtain ⟨ts, ht, hread⟩ := h
  obtain ⟨us, hu, ⟨y, hy, hblame⟩, hrun⟩ := h'
  rw [ht.file_eq] at hblame hrun
  refine ⟨ts ++ us, ht.append hu, ⟨y, ?_, hblame⟩, fun s' u' hfile hu' hk => ?_⟩
  · rw [List.append_assoc]
    exact List.mem_append_right ts hy
  · obtain ⟨m, hm, hu'⟩ := passes_append.mp hu'
    rw [bind_apply (hread s' m hm (Or.inl (hu.current_eq hu' hk)))]
    exact hrun m u' (hm.file_eq.trans hfile) hu' hk

/-- A sequence is confined when its parts are, each where it is run. -/
theorem Confined.bind (h : Confined p s) (hf : ∀ x t, p s = .ok x t → Confined (f x) t) :
    Confined (p >>= f) s := by
  cases hp : p s with
  | error d t => exact confined_of_error (bind_error hp) (h.stops hp).bind
  | ok x t =>
    have hsecond := hf x t hp
    cases hy : f x t with
    | error d u =>
      exact confined_of_error ((bind_apply hp).trans hy)
        ((h.settles hp).bind_stops (hsecond.stops hy))
    | ok y u =>
      exact confined_of_ok ((bind_apply hp).trans hy)
        ((h.settles hp).bind (hsecond.settles hy) fun _ _ hm => hm)

/-- A reader that does the same as `q` wherever the current token is the same. -/
theorem Confined.of_same (h : Confined q s) (hsame : ∀ s', s'.current = s.current → p s' = q s') :
    Confined p s := by
  have hs : p s = q s := hsame s rfl
  cases hq : q s with
  | ok x t =>
    obtain ⟨ts, ht, hread⟩ := h.settles hq
    refine confined_of_ok (hs.trans hq) ⟨ts, ht, fun s' t' ht' hk => ?_⟩
    have hk' : t'.current = t.current := hk.resolve_right id
    rw [hsame s' (ht.current_eq ht' hk')]
    exact hread s' t' ht' hk
  | error d t =>
    obtain ⟨ts, ht, hblame, hrun⟩ := h.stops hq
    refine confined_of_error (hs.trans hq) ⟨ts, ht, hblame, fun s' t' hfile ht' hk => ?_⟩
    rw [hsame s' (ht.current_eq ht' hk)]
    exact hrun s' t' hfile ht' hk

/-- A reader whose bound is never used up.  Two streams have different bounds, but each of them
    does the same with a larger one that they share. -/
theorem Confined.of_bound {q : Nat → Parse α} (h : ∀ n s, Confined (q n) s)
    (hq : ∀ {n m : Nat} {s : Stream}, s.remaining ≤ n → s.remaining ≤ m → q n s = q m s)
    (s : Stream) : Confined (fun s => q s.remaining s) s := by
  have hshare : ∀ s' : Stream, ∃ m, q s.remaining s = q m s ∧ q s'.remaining s' = q m s' :=
    fun s' => ⟨max s.remaining s'.remaining, hq (Nat.le_refl _) (Nat.le_max_left _ _),
      hq (Nat.le_refl _) (Nat.le_max_right _ _)⟩
  cases hs : q s.remaining s with
  | ok x t =>
    obtain ⟨ts, ht, -⟩ := (h _ s).settles hs
    refine confined_of_ok hs ⟨ts, ht, fun s' t' ht' hk => ?_⟩
    obtain ⟨m, hm, hm'⟩ := hshare s'
    obtain ⟨us, hu, hread⟩ := (h m s).settles (hm.symm.trans hs)
    obtain rfl := ht.tokens_unique hu
    exact hm'.trans (hread s' t' ht' hk)
  | error d t =>
    obtain ⟨ts, ht, hblame, -⟩ := (h _ s).stops hs
    refine confined_of_error hs ⟨ts, ht, hblame, fun s' t' hfile ht' hk => ?_⟩
    obtain ⟨m, hm, hm'⟩ := hshare s'
    obtain ⟨us, hu, -, hrun⟩ := (h m s).stops (hm.symm.trans hs)
    obtain rfl := ht.tokens_unique hu
    exact hm'.trans (hrun s' t' hfile ht' hk)

/-! ## Primitives -/

/-- A result that needs no token. -/
theorem confined_pure (x : α) : Confined (pure x : Parse α) s :=
  confined_of_ok (t := s) rfl ⟨[], rfl, fun s' t' ht' _ => by
    obtain rfl := passes_nil.mp ht'
    rfl⟩

/-- An error at once that blames the current token, and depends on it and the file only. -/
theorem confined_of_fault (hp : p s = .error d s) (hblame : d.Blames s.file s.current)
    (hrun : ∀ s', s'.file = s.file → s'.current = s.current → p s' = .error d s') :
    Confined p s :=
  confined_of_error hp ⟨[], rfl, ⟨s.current, List.mem_singleton_self _, hblame⟩,
    fun s' t' hfile ht' hk => by
      obtain rfl := passes_nil.mp ht'
      exact hrun s' hfile hk⟩

/-- An error about the current token. -/
theorem confined_unexpected (m : String) : Confined (unexpected m : Parse α) s :=
  confined_of_fault rfl (s.blames_unexpected m) fun s' hfile hk => by
    show EStateM.Result.error (s'.unexpected m) s' = .error (s.unexpected m) s'
    rw [s.unexpected_congr m hfile hk]

/-- The current token can be blamed. -/
theorem confined_blame {c : String → Cause} (hc : ∀ v, (c v).Quotes v) :
    Confined (blame s.current c : Parse α) s :=
  confined_of_fault rfl ⟨hc _, rfl, Or.inr rfl⟩ fun _ _ _ => rfl

/-- Looking at the current token is allowed, as a run may look at the token where it ends. -/
theorem confined_current_bind {f : Token → Parse α} (h : Confined (f s.current) s) :
    Confined (current >>= f) s :=
  h.of_same fun s' hs' => by rw [bind_apply current_run, hs']

/-- A token that is known to be no end marker can be passed. -/
theorem confined_advance (hk : s.current.kind ≠ .eof) : Confined advance s :=
  confined_of_ok (t := s.advance) rfl ⟨[s.current], passes_current rfl hk, fun s' t' ht' _ => by
    obtain ⟨hx, -, rfl⟩ := passes_singleton.mp ht'
    exact advance_run hx⟩

/-- A token that is no end marker may be taken in front of a confined reader. -/
theorem confined_advance_bind {f : Token → Parse α} (hk : s.current.kind ≠ .eof)
    (h : Confined (f s.current) s.advance) : Confined (advance >>= f) s := by
  refine (confined_advance hk).bind fun x t hx => ?_
  obtain ⟨rfl, rfl⟩ := advance_eq_ok.mp hx
  exact h

/-- A token can be blamed once it is passed. -/
theorem confined_advance_blame {f : Token → Parse α} {c : String → Cause}
    (hc : ∀ v, (c v).Quotes v) (hk : s.current.kind ≠ .eof)
    (hf : f s.current = blame s.current c) : Confined (advance >>= f) s := by
  have hrun : ∀ s' : Stream, s'.current = s.current →
      (advance >>= f) s' = .error ⟨c s.current.value, s.current.span.start⟩ s'.advance := by
    intro s' hs'
    rw [bind_apply (advance_run hs'), hf]
    rfl
  refine confined_of_error (hrun s rfl) ⟨[s.current], passes_current rfl hk, ?_, ?_⟩
  · exact ⟨s.current, List.mem_cons_self, hc _, rfl, Or.inr rfl⟩
  · intro s' t' _ ht' _
    obtain ⟨hx, -, rfl⟩ := passes_singleton.mp ht'
    exact hrun s' hx

/-- A token of another kind than `k` is refused by its value and place, and the file. -/
theorem confined_expectOr {k : Kind} {e : Stream → Diagnostic} (hk : k ≠ .eof)
    (he : ∀ s s' : Stream, s'.file = s.file → s'.current = s.current → e s' = e s)
    (hblame : ∀ s : Stream, (e s).Blames s.file s.current) : Confined (expectOr k e) s := by
  by_cases hs : s.current.kind = k
  · refine (confined_advance (hs ▸ hk)).of_same fun s' hs' => ?_
    rw [expectOr, if_pos (hs' ▸ hs)]
    rfl
  · refine confined_of_fault (if_neg hs) (hblame s) fun s' hfile hs' => ?_
    rw [expectOr, if_neg (hs' ▸ hs), he s s' hfile hs']

/-- Asking for a kind that is not that of the end marker. -/
theorem confined_expect {k : Kind} (hk : k ≠ .eof) : Confined (expect k) s :=
  confined_expectOr hk (fun _ _ _ hs => by rw [hs]) fun s => ⟨rfl, rfl, Or.inr rfl⟩

/-- Behind a token of kind `k` it does not matter that it was asked for. -/
theorem confined_expect_bind {k : Kind} {f : Token → Parse α} (hk : k ≠ .eof)
    (h : s.current.kind = k → Confined (advance >>= f) s) : Confined (expect k >>= f) s := by
  by_cases hs : s.current.kind = k
  · refine (h hs).of_same fun s' hs' => ?_
    rw [bind_apply (expect_eq_ok.mpr ⟨hs' ▸ hs, rfl, rfl⟩)]
    rfl
  · exact (confined_expect hk).bind fun x t hx => absurd (expect_eq_ok.mp hx).1 hs

/-- Asking for such a kind with a message. -/
theorem confined_expectFor {k : Kind} {m : String} (hk : k ≠ .eof) : Confined (expectFor k m) s :=
  confined_expectOr hk (fun s _ hfile hs => s.unexpected_congr m hfile hs)
    fun s => s.blames_unexpected m

/-! ## Loops -/

section Loops

variable {wanted : Token → Bool} {item : Parse α}

/-- A bounded loop over a confined item, where the current token decides whether there is one
    more. -/
theorem confined_manyUpTo (h : ∀ s : Stream, wanted s.current = true → Confined item s) (n : Nat)
    (s : Stream) : Confined (manyUpTo wanted item n) s := by
  induction n generalizing s with
  | zero => exact confined_pure _
  | succ n ih =>
    refine confined_current_bind ?_
    split
    · rename_i hw
      exact (h s hw).bind fun x t _ => (ih t).bind fun xs u _ => confined_pure _
    · exact confined_pure _

/-- A loop over items that progress is bounded by the tokens that are left, so its bound does not
    tell one stream from another. -/
theorem confined_manyWhile (hp : ∀ s : Stream, wanted s.current = true → Progresses item s)
    (h : ∀ s : Stream, wanted s.current = true → Confined item s) (s : Stream) :
    Confined (manyWhile wanted item) s :=
  .of_bound (q := fun n => manyUpTo wanted item (n + 1)) (fun n => confined_manyUpTo h (n + 1))
    (fun hn hm => manyUpTo_eq_of_lt hp (Nat.lt_succ_of_le hn) (Nat.lt_succ_of_le hm)) s

/-- A list with separators. -/
theorem confined_separatedBy {k : Kind} (hk : k ≠ .eof) (hp : ∀ s, Progresses item s)
    (h : ∀ s, Confined item s) (s : Stream) : Confined (separatedBy k item) s := by
  have hsep : ∀ t : Stream, decide (t.current.kind = k) = true → t.current.kind ≠ .eof :=
    fun t ht => of_decide_eq_true ht ▸ hk
  refine (h s).bind fun x t _ => Confined.bind ?_ fun xs u _ => confined_pure _
  refine confined_manyWhile (fun u _ => ?_) (fun u hu => ?_) t
  · exact movesOn_advance.bind_progresses fun _ v _ => hp v
  · exact confined_advance_bind (hsep u hu) (h u.advance)

/-- A list in front of a closing token, which may be empty. -/
theorem confined_listBefore {k : Kind} {items : Parse (List α)} (h : ∀ s, Confined items s)
    (s : Stream) : Confined (listBefore k items) s := by
  refine confined_current_bind ?_
  split
  · exact confined_pure _
  · exact h s

end Loops

end Parse

namespace Grammar

open Concrete Parse

/-! ## Lists in parentheses -/

/-- A list in parentheses, which may be empty. -/
theorem confined_parenthesized {α : Type} {separator : Kind} {item : Parse α}
    (hne : separator ≠ .eof) (hp : ∀ s, Progresses item s) (h : ∀ s, Confined item s)
    (s : Stream) :
    Confined (do
      let _ ← expect .openParen
      let xs ← listBefore .closeParen (separatedBy separator item)
      let _ ← expect .closeParen
      pure xs) s :=
  (confined_expect (by decide)).bind fun _ t _ =>
    (confined_listBefore (confined_separatedBy hne hp h) t).bind fun _ _ _ =>
      (confined_expect (by decide)).bind fun _ _ _ => confined_pure _

/-! ## Expressions -/

section Expressions

variable {inner : Power → Parse Expr} {s : Stream}

/-- What is asked of the reader of inner expressions. -/
def InnerConfined (inner : Power → Parse Expr) : Prop := ∀ p t, Confined (inner p) t

/-- An index in brackets. -/
theorem confined_index (h : InnerConfined inner) (s : Stream) : Confined (index inner) s :=
  (confined_expect (by decide)).bind fun _ t _ => (h .default t).bind fun _ u _ =>
    (confined_expect (by decide)).bind fun _ _ _ => confined_pure _

/-- A name is passed; an index may stand behind it. -/
theorem confined_indexed {α : Type} {element : Expr → α} {plain : α} (h : InnerConfined inner)
    (s : Stream) :
    Confined (do
      if (← current).kind = .openBracket then
        let i ← index inner
        pure (element i)
      else pure plain) s := by
  refine confined_current_bind ?_
  split
  · exact (confined_index h s).bind fun _ _ _ => confined_pure _
  · exact confined_pure _

/-- A location. -/
theorem confined_locationWith (h : InnerConfined inner) (s : Stream) :
    Confined (locationWith inner) s := by
  refine confined_current_bind ?_
  split
  · rename_i hk
    exact confined_advance_bind (by rw [hk]; decide) <|
      (confined_expect (by decide)).bind fun _ _ _ => confined_pure _
  · exact (confined_expectFor (by decide)).bind fun _ t _ => confined_indexed h t

/-- A primary.  The kind of the first token is known in every branch that passes it. -/
theorem confined_primary (h : InnerConfined inner) (s : Stream) : Confined (primary inner) s := by
  refine confined_current_bind ?_
  by_cases hnum : s.current.kind = .number
  · rw [if_pos hnum, numberLiteral]
    cases Text.integerLiteral? s.current.value with
    | some n => exact confined_advance_bind (by rw [hnum]; decide) (confined_pure _)
    | none => exact confined_blame fun _ => rfl
  rw [if_neg hnum]
  by_cases hchar : s.current.kind = .charLiteral
  · rw [if_pos hchar, charLiteral]
    cases s.current.value.toList with
    | cons c cs => exact confined_advance_bind (by rw [hchar]; decide) (confined_pure _)
    | nil =>
      exact confined_advance_blame (c := .unrecognised) (fun _ => rfl) (by rw [hchar]; decide) rfl
  rw [if_neg hchar]
  by_cases hname : s.current.kind = .identifier
  · rw [if_pos hname]
    exact confined_advance_bind (by rw [hname]; decide) (confined_indexed h _)
  rw [if_neg hname]
  cases hw : wordLiteral? s.current with
  | some e =>
    refine confined_advance_bind (fun hk => ?_) (confined_pure _)
    rw [wordLiteral?, hk] at hw
    cases hw
  | none => exact confined_unexpected _

/-- The start of an expression, in the form that the kind of the first token has chosen. -/
theorem confined_start (h : InnerConfined inner) {form : ExprStart}
    (hform : Rules.standard.exprStart? s.current.kind = some form) :
    Confined (start inner form) s := by
  have hk := ne_eof_of_exprStart? hform
  cases form with
  | primary => exact confined_primary h s
  | unary =>
    obtain ⟨op, hop⟩ := unaryOp?_of_exprStart? hform
    refine confined_advance_bind hk ?_
    rw [hop]
    exact (h .unary _).bind fun _ _ _ => confined_pure _
  | absolute =>
    exact confined_advance_bind hk <| (h .default _).bind fun _ _ _ =>
      (confined_expectFor (by decide)).bind fun _ _ _ => confined_pure _
  | addressOf =>
    exact confined_advance_bind hk <| (confined_locationWith h _).bind fun _ _ _ =>
      confined_pure _
  | grouping =>
    exact confined_advance_bind hk <| (h .default _).bind fun _ _ _ =>
      (confined_expect (by decide)).bind fun _ _ _ => confined_pure _

/-- An operator and its right operand; the token was chosen as an operator, so it is no end
    marker. -/
theorem confined_binary (h : InnerConfined inner) {power q : Power} (left : Expr)
    (hq : tighter? .standard power s.current = some q) : Confined (binary inner left q) s := by
  obtain ⟨-, op, -, hop⟩ := tighter?_eq_some hq
  refine confined_advance_bind (ne_eof_of_tighter? hq) ?_
  rw [hop]
  exact (h q _).bind fun _ _ _ => confined_pure _

/-- The bounded loop over operators. -/
theorem confined_operatorsUpTo (h : InnerConfined inner) (power : Power) (n : Nat) (left : Expr)
    (s : Stream) : Confined (operatorsUpTo inner .standard power n left) s := by
  induction n generalizing left s with
  | zero => exact confined_pure _
  | succ n ih =>
    refine confined_current_bind ?_
    cases hq : tighter? .standard power s.current with
    | some q => exact (confined_binary h left hq).bind fun e t _ => ih e t
    | none => exact confined_pure _

/-- The loop over operators without its bound. -/
theorem confined_operators (hin : InnerProgresses inner) (h : InnerConfined inner) (power : Power)
    (left : Expr) (s : Stream) : Confined (operators inner .standard power left) s :=
  .of_bound (q := fun n => operatorsUpTo inner .standard power (n + 1) left)
    (fun n => confined_operatorsUpTo h power (n + 1) left)
    (fun hn hm => operatorsUpTo_eq_of_lt hin left (Nat.lt_succ_of_le hn) (Nat.lt_succ_of_le hm)) s

/-- The form of expressions is confined if its inner reader is. -/
theorem confined_expressionWith (hin : InnerProgresses inner) (h : InnerConfined inner)
    (power : Power) (s : Stream) : Confined (expressionWith inner .standard power) s := by
  refine confined_current_bind ?_
  cases hform : Rules.standard.exprStart? s.current.kind with
  | some form => exact (confined_start h hform).bind fun left t _ =>
      confined_operators hin h power left t
  | none => exact confined_unexpected _

/-- Readers of expressions of every depth are confined. -/
theorem innerConfined_expressionUpTo (n : Nat) : InnerConfined (expressionUpTo .standard n) := by
  induction n with
  | zero =>
    intro power s
    exact confined_expressionWith (fun _ _ => progresses_unexpected _)
      (fun _ _ => confined_unexpected _) power s
  | succ n ih =>
    intro power s
    exact confined_expressionWith (innerProgresses_expressionUpTo n) ih power s

/-- Expressions: the depth comes from the tokens that are left, and is never used up. -/
theorem confined_expression (power : Power) (s : Stream) :
    Confined (expression .standard power) s :=
  .of_bound (q := fun n => expressionUpTo .standard n power)
    (fun n => innerConfined_expressionUpTo n power)
    (fun hn hm => expressionUpTo_eq_of_le exprStart?_eof power hn hm) s

end Expressions

/-- Locations, by the same depth. -/
theorem confined_location (s : Stream) : Confined (location .standard) s :=
  confined_locationWith confined_expression s

/-! ## Declarations -/

/-- That a number is no size is found out behind it. -/
theorem confined_stringSize (t : Token) (s : Stream) : Confined (stringSize t) s := by
  refine confined_expect_bind (by decide) fun hs => ?_
  have hk : s.current.kind ≠ .eof := by
    rw [hs]
    decide
  cases hsize : Text.arraySize? s.current.value with
  | some n =>
    refine confined_advance_bind hk ?_
    rw [hsize]
    exact (confined_expect (by decide)).bind fun _ _ _ => confined_pure _
  | none => exact confined_advance_blame (c := .badNumber) (fun _ => rfl) hk (by rw [hsize])

/-- Types. -/
theorem confined_declaredType (s : Stream) : Confined declaredType s := by
  refine confined_current_bind ?_
  cases hplain : plainType? s.current.kind with
  | some declared =>
    refine confined_advance_bind (fun hk => ?_) (confined_pure _)
    rw [hk] at hplain
    cases hplain
  | none =>
    by_cases hstring : s.current.kind = .string
    · rw [if_pos hstring]
      exact confined_advance_bind (by rw [hstring]; decide) <|
        (confined_expect (by decide)).bind fun _ t _ => confined_stringSize _ t
    · rw [if_neg hstring]
      exact confined_unexpected _

/-- Lists of names. -/
theorem confined_names (s : Stream) : Confined names s :=
  confined_separatedBy (by decide)
    (fun _ => (progresses_expect (by decide)).bind fun _ _ _ => movesOn_pure _)
    (fun _ => (confined_expect (by decide)).bind fun _ _ _ => confined_pure _) s

/-- A group of parameters. -/
theorem confined_parameter (s : Stream) : Confined parameter s :=
  confined_current_bind <| (confined_names s).bind fun _ _ _ =>
    (confined_expect (by decide)).bind fun _ t _ =>
      (confined_declaredType t).bind fun _ _ _ => confined_pure _

/-- A declaration of variables. -/
theorem confined_declaration (s : Stream) : Confined declaration s :=
  (confined_expect (by decide)).bind fun _ t _ => (confined_names t).bind fun _ _ _ =>
    (confined_expect (by decide)).bind fun _ u _ => (confined_declaredType u).bind fun _ _ _ =>
      (confined_expect (by decide)).bind fun _ _ _ => confined_pure _

/-- Declarations, as long as there are some. -/
theorem confined_declarations (s : Stream) : Confined declarations s :=
  confined_manyWhile (fun t _ => progresses_declaration t) (fun t _ => confined_declaration t) s

/-! ## Assignments -/

/-- Arguments of a call. -/
theorem confined_arguments (s : Stream) : Confined (arguments .standard) s :=
  confined_parenthesized (by decide) (progresses_expression .default)
    (confined_expression .default) s

/-- What stands behind a name on the right of an assignment: arguments, or the rest of an
    expression. -/
theorem confined_behindName (line : Nat) (target : Location) (name : Token) (s : Stream) :
    Confined (behindName line target name) s := by
  refine confined_current_bind ?_
  split
  · exact (confined_arguments s).bind fun _ _ _ => confined_pure _
  · exact (confined_indexed confined_expression s).bind fun left t _ =>
      (confined_operators progresses_expression confined_expression .default left t).bind
        fun _ _ _ => confined_pure _

/-- The second token is looked at only behind a name, and a name is passed in any case. -/
theorem confined_assigned (line : Nat) (target : Location) (s : Stream) :
    Confined (assigned .standard line target) s := by
  by_cases htext : s.current.kind = .stringLiteral
  · refine confined_current_bind ?_
    rw [if_pos htext]
    exact confined_advance_bind (by rw [htext]; decide) (confined_pure _)
  by_cases hname : s.current.kind = .identifier
  · refine Confined.of_same (q := advance >>= behindName line target) ?_ fun s' hs' => ?_
    · exact confined_advance_bind (by rw [hname]; decide) (confined_behindName line target _ _)
    · rw [assigned_of_name (hs' ▸ hname)]
      rfl
  · refine Confined.of_same (q := assignedValue line target) ?_ fun s' hs' => ?_
    · exact (confined_expression .default s).bind fun _ _ _ => confined_pure _
    · exact assigned_of_ne (hs' ▸ htext) (hs' ▸ hname)

/-- An assignment, a call included. -/
theorem confined_assignment (s : Stream) : Confined (assignment .standard) s :=
  confined_current_bind <| (confined_location s).bind fun target _ _ =>
    (confined_expect (by decide)).bind fun _ t _ => (confined_assigned _ target t).bind
      fun _ _ _ => (confined_expect (by decide)).bind fun _ _ _ => confined_pure _

/-! ## Statements -/

/-- A condition in parentheses. -/
theorem confined_condition (s : Stream) : Confined (condition .standard) s :=
  (confined_expect (by decide)).bind fun _ t _ => (confined_expression .default t).bind
    fun _ _ _ => (confined_expect (by decide)).bind fun _ _ _ => confined_pure _

section Statements

variable {inner : Parse Stmt}

/-- A block is confined if the reader of statements is. -/
theorem confined_blockWith (hin : ∀ t, Progresses inner t) (h : ∀ t, Confined inner t)
    (s : Stream) : Confined (blockWith inner) s :=
  (confined_expect (by decide)).bind fun _ t _ => (confined_declarations t).bind fun _ u _ =>
    (confined_manyWhile (fun v _ => hin v) (fun v _ => h v) u).bind fun _ _ _ =>
      (confined_expect (by decide)).bind fun _ _ _ => confined_pure _

/-- The form of statements is confined if its inner reader is. -/
theorem confined_statementWith (hin : ∀ t, Progresses inner t) (h : ∀ t, Confined inner t)
    (s : Stream) : Confined (statementWith inner .standard) s := by
  have hblock : ∀ t, Confined (blockWith inner) t := confined_blockWith hin h
  refine confined_current_bind ?_
  cases hform : Rules.standard.stmtStart? s.current.kind with
  | none => exact confined_assignment s
  | some form =>
    rcases kind_of_stmtStart? hform with ⟨rfl, hk⟩ | ⟨rfl, hk⟩ | ⟨rfl, hk⟩
    · refine confined_advance_bind (by rw [hk]; decide) <| (confined_condition _).bind fun _ t _ =>
        (hblock t).bind fun _ u _ => confined_current_bind ?_
      split
      · rename_i helse
        exact confined_advance_bind (by rw [helse]; decide) <| (hblock _).bind fun _ _ _ =>
          confined_pure _
      · exact confined_pure _
    · exact confined_advance_bind (by rw [hk]; decide) <| (confined_condition _).bind fun _ t _ =>
        (hblock t).bind fun _ _ _ => confined_pure _
    · exact confined_current_bind <| (hblock s).bind fun _ _ _ => confined_pure _

end Statements

/-- Readers of statements of every depth are confined. -/
theorem confined_statementUpTo (n : Nat) (s : Stream) : Confined (statementUpTo .standard n) s := by
  induction n generalizing s with
  | zero =>
    exact confined_statementWith (fun _ => progresses_unexpected _)
      (fun _ => confined_unexpected _) s
  | succ n ih => exact confined_statementWith (progresses_statementUpTo n) ih s

/-- Statements: the depth is never used up. -/
theorem confined_statement (s : Stream) : Confined (statement .standard) s :=
  .of_bound confined_statementUpTo statementUpTo_eq_of_le s

/-! ## Procedures -/

/-- Parameters in parentheses. -/
theorem confined_parameters (s : Stream) : Confined parameters s :=
  confined_parenthesized (by decide) progresses_parameter confined_parameter s

/-- Headers. -/
theorem confined_header (s : Stream) : Confined header s :=
  (confined_expect (by decide)).bind fun _ _ _ => (confined_expectFor (by decide)).bind
    fun _ t _ => (confined_parameters t).bind fun _ _ _ => (confined_expect (by decide)).bind
      fun _ u _ => (confined_declaredType u).bind fun _ _ _ => confined_pure _

/-- The return at the end of a body. -/
theorem confined_finalResult (s : Stream) : Confined (finalResult .standard) s := by
  refine confined_current_bind ?_
  split
  · exact (confined_expect (by decide)).bind fun _ t _ => (confined_expression .default t).bind
      fun _ _ _ => (confined_expect (by decide)).bind fun _ _ _ => confined_pure _
  · exact confined_unexpected _

/-- The form of procedures is confined if its inner reader is. -/
theorem confined_procedureWith {inner : Parse Procedure} (hin : ∀ t, Progresses inner t)
    (h : ∀ t, Confined inner t) (s : Stream) : Confined (procedureWith inner .standard) s := by
  refine (confined_header s).bind fun _ t _ => Confined.bind ?_ fun _ _ _ => confined_pure _
  exact (confined_expect (by decide)).bind fun _ u _ =>
    (confined_manyWhile (fun v _ => hin v) (fun v _ => h v) u).bind fun _ v _ =>
      (confined_declarations v).bind fun _ w _ =>
        (confined_manyWhile (fun x _ => progresses_statement x) (fun x _ => confined_statement x)
          w).bind fun _ x _ => (confined_finalResult x).bind fun _ _ _ =>
            (confined_expect (by decide)).bind fun _ _ _ => confined_pure _

/-- Readers of procedures of every depth are confined. -/
theorem confined_procedureUpTo (n : Nat) (s : Stream) : Confined (procedureUpTo .standard n) s := by
  induction n generalizing s with
  | zero =>
    exact confined_procedureWith (fun _ => progresses_unexpected _)
      (fun _ => confined_unexpected _) s
  | succ n ih => exact confined_procedureWith (progresses_procedureUpTo n) ih s

/-- Procedures: the depth is never used up. -/
theorem confined_procedure (s : Stream) : Confined (procedure .standard) s :=
  .of_bound confined_procedureUpTo procedureUpTo_eq_of_le s

/-- A procedure at the top of a program. -/
theorem confined_topProcedure (s : Stream) : Confined topProcedure s := by
  refine confined_current_bind ?_
  split
  · exact confined_procedure s
  · exact confined_unexpected _

/-! ## Programs -/

/-- A program.  It looks at the token behind all procedures, which is where it ends. -/
theorem confined_program (s : Stream) : Confined program s :=
  (confined_manyWhile (fun t _ => progresses_topProcedure t) (fun t _ => confined_topProcedure t)
    s).bind fun _ _ _ => confined_current_bind (confined_pure _)

end Grammar
end ProcLang
