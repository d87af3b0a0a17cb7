/-
  What the reader returns is derived by the grammar.

  When a reader succeeds, the tokens that it passed are the yield of a derivation, and what it
  returned is the tree.  The induction is on the number of tokens left: inner expressions,
  statements and procedures start behind a token.

  The loop over operators keeps a derivation of its left operand, at some level, with no operator
  of a tighter level behind it (`exists_of_operators`).  An operator that is taken raises the
  left operand to its own level; at the end it is raised to the level that was asked for.
-/
import ProcLang.Proofs.Grammar.Complete

namespace ProcLang.Concrete

open Grammar Parse ProcLang.Stream

variable {s t : Stream}

/-! ## Literals -/

/-- A phrase of one token. -/
theorem exists_literal {e : Expr} (hs : s.Lexical)
    (hk : s.current.kind ≠ .identifier) (h : primary (expression .standard) s = .ok e t) :
    ∃ l : Literal, l.tree = e ∧ s.Passes [l.token] t := by
  -- the reader asks for a number, then for a character, and then looks the word up
  unfold primary at h
  replace h := current_bind_eq_ok.mp h
  by_cases hn : s.current.kind = .number
  · rw [if_pos hn, numberLiteral] at h
    cases hi : Text.integerLiteral? s.current.value with
    | none =>
      rw [hi] at h
      exact absurd h blame_ne_ok
    | some i =>
      rw [hi] at h
      have hne : s.current.kind ≠ .eof := by rw [hn]; decide
      obtain ⟨n, hnum, hlt, rfl⟩ :=
        (Text.integerLiteral?_eq_some_iff ((hs.current hne).number hn)).mp hi
      replace h := advance_bind_eq_ok.mp h
      obtain ⟨rfl, rfl⟩ := pure_eq_ok.mp h
      exact ⟨.number ⟨_, hn⟩ n hnum hlt, rfl, passes_current hn (by decide)⟩
  · rw [if_neg hn] at h
    by_cases hc : s.current.kind = .charLiteral
    · rw [if_pos hc, charLiteral] at h
      have hne : s.current.kind ≠ .eof := by rw [hc]; decide
      obtain ⟨c, hsingle⟩ := (hs.current hne).char hc
      replace h := advance_bind_eq_ok.mp h
      rw [hsingle] at h
      obtain ⟨rfl, rfl⟩ := pure_eq_ok.mp h
      exact ⟨.char ⟨_, hc⟩ c hsingle, rfl, passes_current hc (by decide)⟩
    · rw [if_neg hc, if_neg hk] at h
      cases he : wordLiteral? s.current with
      | none =>
        rw [he] at h
        exact absurd h unexpected_ne_ok
      | some e' =>
        rw [he] at h
        replace h := advance_bind_eq_ok.mp h
        obtain ⟨rfl, rfl⟩ := pure_eq_ok.mp h
        unfold wordLiteral? at he
        split at he
        · rename_i hw
          obtain rfl := Option.some.inj he
          exact ⟨.true ⟨_, hw⟩, rfl, passes_current hw (by decide)⟩
        · rename_i hw
          obtain rfl := Option.some.inj he
          exact ⟨.false ⟨_, hw⟩, rfl, passes_current hw (by decide)⟩
        · rename_i hw
          obtain rfl := Option.some.inj he
          exact ⟨.null ⟨_, hw⟩, rfl, passes_current hw (by decide)⟩
        · cases he

/-! ## Expressions -/

/-- What is to be shown of the reader of expressions, on streams with fewer than `n` tokens
    left. -/
def ReadsPhrases (n : Nat) : Prop :=
  ∀ (p : Power) (s t : Stream) (e : Expr), s.remaining < n → s.Lexical →
    expression .standard p s = .ok e t →
    ∃ d : Phrase p.level, d.tree = e ∧ s.Passes d.yield t ∧
      tighter? .standard p t.current = none

/-- What is known of streams below a bound is known below a smaller one. -/
theorem ReadsPhrases.mono {n m : Nat} (h : ReadsPhrases n) (hle : m ≤ n) : ReadsPhrases m :=
  fun p s t e hs => h p s t e (Nat.lt_of_lt_of_le hs hle)

/-- A phrase behind the current token. -/
theorem ReadsPhrases.behind (h : ReadsPhrases s.remaining) {k : Kind} (hk : s.current.kind = k)
    (hne : k ≠ .eof) (hs : s.Lexical) {p : Power} {e : Expr}
    (he : expression .standard p s.advance = .ok e t) :
    ∃ d : Phrase p.level, d.tree = e ∧ s.advance.Passes d.yield t ∧
      tighter? .standard p t.current = none := by
  have hk' : s.current.kind ≠ .eof := hk ▸ hne
  exact h p _ t e (remaining_advance_lt hk') (hs.advance hk') he

/-- An index is derived from its brackets and an expression. -/
theorem exists_index {e : Expr} (hin : ReadsPhrases s.remaining) (hs : s.Lexical)
    (h : index (expression .standard) s = .ok e t) :
    ∃ (l : Leaf .openBracket) (i : Expression) (r : Leaf .closeBracket),
      i.tree = e ∧ s.Passes (l.1 :: (i.yield ++ [r.1])) t := by
  obtain ⟨hl, h⟩ := expect_bind_eq_ok.mp h
  obtain ⟨e', m, he, h⟩ := bind_eq_ok.mp h
  obtain ⟨hr, h⟩ := expect_bind_eq_ok.mp h
  obtain ⟨rfl, rfl⟩ := pure_eq_ok.mp h
  obtain ⟨i, rfl, hi, -⟩ := hin.behind hl (by decide) hs he
  exact ⟨⟨_, hl⟩, i, ⟨_, hr⟩, rfl,
    .cons hl (by decide) (hi.append (passes_current hr (by decide)))⟩

/-- A location is derived by one of its three forms. -/
theorem exists_place {l : Location} (hin : ReadsPhrases s.remaining) (hs : s.Lexical)
    (h : location .standard s = .ok l t) : ∃ p : Place, p.tree = l ∧ s.Passes p.yield t := by
  unfold location locationWith at h
  replace h := current_bind_eq_ok.mp h
  split at h
  · rename_i hc
    replace h := advance_bind_eq_ok.mp h
    obtain ⟨hk, h⟩ := expect_bind_eq_ok.mp h
    obtain ⟨rfl, rfl⟩ := pure_eq_ok.mp h
    exact ⟨.pointee ⟨_, hc⟩ ⟨_, hk⟩, rfl,
      .cons hc (by decide) (passes_current hk (by decide))⟩
  · obtain ⟨hk, h⟩ := expectFor_bind_eq_ok.mp h
    replace h := current_bind_eq_ok.mp h
    have hne : s.current.kind ≠ .eof := by rw [hk]; decide
    split at h
    · obtain ⟨e, m, he, h⟩ := bind_eq_ok.mp h
      obtain ⟨rfl, rfl⟩ := pure_eq_ok.mp h
      obtain ⟨l, i, r, rfl, hi⟩ :=
        exists_index (hin.mono s.remaining_advance_le) (hs.advance hne) he
      exact ⟨.element ⟨_, hk⟩ l i r, rfl, .cons hk (by decide) hi⟩
    · obtain ⟨rfl, rfl⟩ := pure_eq_ok.mp h
      exact ⟨.name ⟨_, hk⟩, rfl, passes_current hk (by decide)⟩

/-- A name, or an element behind a name, is a phrase of level zero. -/
theorem exists_of_reference {e : Expr} (hin : ReadsPhrases s.remaining) (hs : s.Lexical)
    (hk : s.current.kind = .identifier) (h : primary (expression .standard) s = .ok e t) :
    ∃ d : Phrase 0, d.tree = e ∧ s.Passes d.yield t := by
  have hne : s.current.kind ≠ .eof := by rw [hk]; decide
  unfold primary at h
  replace h := current_bind_eq_ok.mp h
  rw [if_neg (by rw [hk]; decide), if_neg (by rw [hk]; decide), if_pos hk] at h
  replace h := advance_bind_eq_ok.mp h
  replace h := current_bind_eq_ok.mp h
  split at h
  · obtain ⟨e, m, he, h⟩ := bind_eq_ok.mp h
    obtain ⟨rfl, rfl⟩ := pure_eq_ok.mp h
    obtain ⟨l, i, r, rfl, hi⟩ :=
      exists_index (hin.mono s.remaining_advance_le) (hs.advance hne) he
    exact ⟨.element ⟨_, hk⟩ l i r, rfl, .cons hk (by decide) hi⟩
  · obtain ⟨rfl, rfl⟩ := pure_eq_ok.mp h
    exact ⟨.name ⟨_, hk⟩, rfl, passes_current hk (by decide)⟩

/-- The prefixes of the reader are those of the grammar. -/
theorem exists_prefix {k : Kind} {op : UnaryOp} (h : unaryOp? k = some op) :
    prefixAt k = some op ∧ k ≠ .eof := by
  cases k <;> first | exact ⟨h, by decide⟩ | cases h

/-- The forms that begin with a token of their own begin with that token. -/
theorem kind_of_exprStart? {k : Kind} {form : ExprStart}
    (h : Rules.standard.exprStart? k = some form) :
    (form = .absolute → k = .pipe) ∧ (form = .addressOf → k = .ampersand) ∧
      (form = .grouping → k = .openParen) := by
  cases k <;> simp only [Rules.standard, Option.some.injEq, reduceCtorEq] at h <;> subst h <;>
    decide

/-- What starts an expression is a phrase of the tightest level. -/
theorem exists_start {form : ExprStart} {e : Expr} (hin : ReadsPhrases s.remaining)
    (hs : s.Lexical) (hform : Rules.standard.exprStart? s.current.kind = some form)
    (h : start (expression .standard) form s = .ok e t) :
    ∃ d : Phrase 0, d.tree = e ∧ s.Passes d.yield t := by
  obtain ⟨habs, hand, hgroup⟩ := kind_of_exprStart? hform
  -- each form takes its own token first, so what is read inside of it is read from a shorter stream
  cases form with
  | primary =>
    by_cases hk : s.current.kind = .identifier
    · exact exists_of_reference hin hs hk h
    · obtain ⟨l, rfl, hl⟩ := exists_literal hs hk h
      exact ⟨.literal l, rfl, hl⟩
  | unary =>
    replace h := advance_bind_eq_ok.mp h
    cases hop : unaryOp? s.current.kind with
    | none =>
      rw [hop] at h
      exact absurd h blame_ne_ok
    | some op =>
      rw [hop] at h
      obtain ⟨e', m, he, h⟩ := bind_eq_ok.mp h
      obtain ⟨rfl, rfl⟩ := pure_eq_ok.mp h
      obtain ⟨hpre, hne⟩ := exists_prefix hop
      obtain ⟨d, rfl, hd, -⟩ := hin.behind rfl hne hs he
      exact ⟨.prefixed ⟨s.current, op, hpre⟩ d, rfl, .cons rfl hne hd⟩
  | absolute =>
    have hl := habs rfl
    replace h := advance_bind_eq_ok.mp h
    obtain ⟨e', m, he, h⟩ := bind_eq_ok.mp h
    obtain ⟨hr, h⟩ := expectFor_bind_eq_ok.mp h
    obtain ⟨rfl, rfl⟩ := pure_eq_ok.mp h
    obtain ⟨d, rfl, hd, -⟩ := hin.behind hl (by decide) hs he
    exact ⟨.absolute ⟨_, hl⟩ d ⟨_, hr⟩, rfl,
      .cons hl (by decide) (hd.append (passes_current hr (by decide)))⟩
  | addressOf =>
    have ha := hand rfl
    have hne : s.current.kind ≠ .eof := by rw [ha]; decide
    replace h := advance_bind_eq_ok.mp h
    obtain ⟨l, m, hl, h⟩ := bind_eq_ok.mp h
    obtain ⟨rfl, rfl⟩ := pure_eq_ok.mp h
    obtain ⟨p, rfl, hp⟩ := exists_place (hin.mono s.remaining_advance_le) (hs.advance hne) hl
    exact ⟨.addressOf ⟨_, ha⟩ p, rfl, .cons ha (by decide) hp⟩
  | grouping =>
    have hl := hgroup rfl
    replace h := advance_bind_eq_ok.mp h
    obtain ⟨e', m, he, h⟩ := bind_eq_ok.mp h
    obtain ⟨hr, h⟩ := expect_bind_eq_ok.mp h
    obtain ⟨rfl, rfl⟩ := pure_eq_ok.mp h
    obtain ⟨d, rfl, hd, -⟩ := hin.behind hl (by decide) hs he
    exact ⟨.group ⟨_, hl⟩ d ⟨_, hr⟩, rfl,
      .cons hl (by decide) (hd.append (passes_current hr (by decide)))⟩

/-- A phrase is one of every weaker level. -/
theorem exists_raise {n m : Nat} (h : n ≤ m) (d : Phrase n) :
    ∃ d' : Phrase m, d'.tree = d.tree ∧ d'.yield = d.yield := by
  induction h with
  | refl => exact ⟨d, rfl, rfl⟩
  | step _ ih =>
    obtain ⟨d', ht, hy⟩ := ih
    exact ⟨.lift d', ht, hy⟩

/-- The loop over operators derives what it takes, from a derivation of its left operand that no
    tighter operator follows. -/
theorem exists_of_operators {n ℓ : Nat} {p : Power} {e : Expr} (hin : ReadsPhrases n)
    (hn : s.remaining < n) (hs : s.Lexical) (d : Phrase ℓ) (hℓ : ℓ ≤ p.level)
    (hf : ∀ i < ℓ, operatorAt i s.current.kind = none)
    (h : Grammar.operators (expression .standard) .standard p d.tree s = .ok e t) :
    ∃ (d' : Phrase p.level) (ts : List Token), d'.tree = e ∧ d'.yield = d.yield ++ ts ∧
      s.Passes ts t ∧ tighter? .standard p t.current = none := by
  -- a round takes an operator and its right operand, and leaves fewer tokens; what it made is
  -- the left operand of the next round
  obtain ⟨k, hk⟩ : ∃ k, s.remaining = k := ⟨_, rfl⟩
  induction k using Nat.strongRecOn generalizing s ℓ with
  | _ k ih =>
    rw [operators_eq progresses_expression] at h
    cases hq : tighter? .standard p s.current with
    | none =>
      rw [hq] at h
      obtain ⟨rfl, rfl⟩ := pure_eq_ok.mp h
      obtain ⟨d', ht, hy⟩ := exists_raise hℓ d
      exact ⟨d', [], ht, by rw [hy, List.append_nil], rfl, hq⟩
    | some q =>
      obtain ⟨hle, op, hop, hbin⟩ := tighter?_eq_some hq
      have hne : s.current.kind ≠ .eof := by
        intro he
        rw [he] at hbin
        cases hbin
      rw [hq] at h
      obtain ⟨e', m, he, h⟩ := bind_eq_ok.mp h
      replace he := advance_bind_eq_ok.mp he
      rw [hbin] at he
      obtain ⟨right, u, hright, he⟩ := bind_eq_ok.mp he
      obtain ⟨rfl, rfl⟩ := pure_eq_ok.mp he
      obtain ⟨r, rfl, hr, hstop⟩ := (hin.mono (Nat.le_of_lt hn)).behind rfl hne hs hright
      -- the operator is not one of those that cannot follow the left operand
      have hlevel : ℓ ≤ q.level + 1 := by
        by_cases hlt : q.level + 1 < ℓ
        · rw [hf _ hlt] at hop
          cases hop
        · exact Nat.le_of_not_lt hlt
      obtain ⟨l, hlt, hly⟩ := exists_raise hlevel d
      have hpass : s.Passes (s.current :: r.yield) u := .cons rfl hne hr
      have hlt' : u.remaining < s.remaining := hpass.remaining_lt (by simp)
      have hf' : ∀ i < q.level + 1, operatorAt i u.current.kind = none :=
        fun i hi => tighter?_eq_none_iff.mp hstop i (Nat.le_of_lt_succ hi)
      rw [← hlt] at h
      obtain ⟨d', ts, ht, hy, hts, hstop'⟩ := ih u.remaining (hk ▸ hlt')
        (Nat.lt_trans hlt' hn) (hs.of_passes hpass) (.binary l ⟨s.current, op, hop⟩ r) hle hf' h
        rfl
      refine ⟨d', s.current :: (r.yield ++ ts), ht, ?_, .cons rfl hne (hr.append hts), hstop'⟩
      rw [hy, Phrase.yield, hly, List.append_assoc, List.cons_append]

/-- **Expressions that are read are derived**, at the level of the power that they are read
    at. -/
theorem readsPhrases (n : Nat) : ReadsPhrases n := by
  -- all readers that run behind the first token have fewer tokens in front of them
  induction n with
  | zero => exact fun _ _ _ _ hs => absurd hs (Nat.not_lt_zero _)
  | succ n ih =>
    intro p s t e hn hs h
    have hin : ReadsPhrases s.remaining := ih.mono (Nat.le_of_lt_succ hn)
    rw [expression_eq exprStart?_eof] at h
    replace h := current_bind_eq_ok.mp h
    cases hform : Rules.standard.exprStart? s.current.kind with
    | none =>
      rw [hform] at h
      exact absurd h unexpected_ne_ok
    | some form =>
      rw [hform] at h
      obtain ⟨left, m, hleft, h⟩ := bind_eq_ok.mp h
      obtain ⟨d, rfl, hd⟩ := exists_start hin hs hform hleft
      have hlt := ((progresses_start progresses_expression form s).of_ok hleft).2
      obtain ⟨d', ts, ht, hy, hts, hstop⟩ := exists_of_operators hin hlt (hs.of_passes hd) d
        (Nat.zero_le _) (fun i hi => absurd hi (Nat.not_lt_zero _)) h
      exact ⟨d', ht, by rw [hy]; exact hd.append hts, hstop⟩

/-- An expression is derived by the grammar. -/
theorem exists_expression {e : Expr} (hs : s.Lexical)
    (h : expression .standard .default s = .ok e t) :
    ∃ d : Expression, d.tree = e ∧ s.Passes d.yield t := by
  obtain ⟨d, hd, hp, -⟩ := readsPhrases (s.remaining + 1) .default s t e (Nat.lt_succ_self _) hs h
  exact ⟨d, hd, hp⟩

/-! ## Lists -/

section Lists

variable {α β : Type} {k : Kind} {item : Parse α} {yield : β → List Token} {tree : β → α}

/-- What is to be shown of the reader of items, up to the tokens that `s` has left. -/
def ReadsItems (item : Parse α) (yield : β → List Token) (tree : β → α) (s : Stream) : Prop :=
  ∀ (m u : Stream) (x : α), m.remaining ≤ s.remaining → m.Lexical → item m = .ok x u →
    ∃ y, tree y = x ∧ m.Passes (yield y) u

/-- A list with separators is derived as one when its items are. -/
theorem exists_separated {xs : List α} (hk : k ≠ .eof) (hp : ∀ t, Progresses item t)
    (hitem : ReadsItems item yield tree s) (hs : s.Lexical)
    (h : separatedBy k item s = .ok xs t) :
    ∃ l : Separated k β, l.items.map tree = xs ∧ s.Passes (l.yield yield) t := by
  obtain ⟨x, m, hx, h⟩ := bind_eq_ok.mp h
  obtain ⟨xs, u, hxs, h⟩ := bind_eq_ok.mp h
  obtain ⟨rfl, rfl⟩ := pure_eq_ok.mp h
  obtain ⟨y, rfl, hy⟩ := hitem s m x (Nat.le_refl _) hs hx
  have hloop : ∃ ys : List (Leaf k × β), ys.map (fun y => tree y.2) = xs ∧
      m.Passes (ys.flatMap fun y => y.1.1 :: yield y.2) u ∧
        decide (u.current.kind = k) = false := by
    -- each round of the loop takes a separator and an item
    refine exists_of_manyWhile ?_ ?_ (hs.of_passes hy) hxs
    · intro v
      exact movesOn_advance.bind_progresses fun _ w _ => hp w
    · intro v w z hle hv hwanted hz
      have hkind : v.current.kind = k := of_decide_eq_true hwanted
      have hne : v.current.kind ≠ .eof := hkind ▸ hk
      obtain ⟨x', v', hx', hz⟩ := bind_eq_ok.mp hz
      obtain ⟨rfl, rfl⟩ := advance_eq_ok.mp hx'
      have hle' := Nat.le_trans v.remaining_advance_le (Nat.le_trans hle hy.reaches.remaining_le)
      obtain ⟨y', rfl, hy'⟩ := hitem _ _ _ hle' (hv.advance hne) hz
      exact ⟨(⟨v.current, hkind⟩, y'), rfl, .cons hkind hk hy'⟩
  obtain ⟨ys, rfl, hys, -⟩ := hloop
  refine ⟨⟨y, ys⟩, ?_, hy.append hys⟩
  rw [Separated.items, List.map_cons, List.map_map]
  rfl

/-- A list that may be empty. -/
theorem exists_optional {closing : Kind} {xs : List α} (hk : k ≠ .eof)
    (hp : ∀ t, Progresses item t) (hitem : ReadsItems item yield tree s) (hs : s.Lexical)
    (h : listBefore closing (separatedBy k item) s = .ok xs t) :
    ∃ l : Option (Separated k β), (optionalItems l).map tree = xs ∧
      s.Passes (optionalYield yield l) t := by
  replace h := current_bind_eq_ok.mp h
  split at h
  · obtain ⟨rfl, rfl⟩ := pure_eq_ok.mp h
    exact ⟨none, rfl, rfl⟩
  · obtain ⟨l, hl, hpass⟩ := exists_separated hk hp hitem hs h
    exact ⟨some l, hl, hpass⟩

end Lists

/-! ## Types and declarations -/

/-- A type is derived by one word, or as a string with its size. -/
theorem exists_typeName {ty : TypeMark} (hs : s.Lexical) (h : declaredType s = .ok ty t) :
    ∃ d : TypeName, d.tree = ty ∧ s.Passes d.yield t := by
  unfold declaredType at h
  replace h := current_bind_eq_ok.mp h
  cases hd : plainType? s.current.kind with
  | some d =>
    rw [hd] at h
    replace h := advance_bind_eq_ok.mp h
    obtain ⟨rfl, rfl⟩ := pure_eq_ok.mp h
    have hne : s.current.kind ≠ .eof := by
      intro he
      rw [he] at hd
      cases hd
    exact ⟨.word s.current d (plainType?_eq_typeAt _ ▸ hd), rfl, passes_current rfl hne⟩
  | none =>
    rw [hd] at h
    by_cases hk : s.current.kind = .string
    · change (if s.current.kind = .string then stringType else _) s = _ at h
      rw [if_pos hk] at h
      replace h := advance_bind_eq_ok.mp h
      obtain ⟨hl, h⟩ := expect_bind_eq_ok.mp h
      obtain ⟨hsize, h⟩ := expect_bind_eq_ok.mp h
      have hpass : s.Passes [s.current, s.advance.current] s.advance.advance :=
        .cons hk (by decide) (passes_current hl (by decide))
      -- the size is read from a number token, and the scanner makes those from numerals only
      have hnum := ((hs.of_passes hpass).current (by rw [hsize]; decide)).number hsize
      cases hn : Text.arraySize? s.advance.advance.current.value with
      | none =>
        rw [hn] at h
        exact absurd h blame_ne_ok
      | some n =>
        rw [hn] at h
        obtain ⟨hworth, hsmall⟩ := (Text.arraySize?_eq_some_iff hnum).mp hn
        obtain ⟨hr, h⟩ := expect_bind_eq_ok.mp h
        obtain ⟨rfl, rfl⟩ := pure_eq_ok.mp h
        refine ⟨.string ⟨_, hk⟩ ⟨_, hl⟩ ⟨_, hsize⟩ n hworth hsmall ⟨_, hr⟩, rfl, ?_⟩
        exact hpass.append (.cons hsize (by decide) (passes_current hr (by decide)))
    · change (if s.current.kind = .string then stringType else _) s = _ at h
      rw [if_neg hk] at h
      exact absurd h unexpected_ne_ok

/-- A list of names is derived. -/
theorem exists_names {xs : List String} (hs : s.Lexical) (h : names s = .ok xs t) :
    ∃ ns : Names, ns.tree = xs ∧ s.Passes ns.yield t := by
  show ∃ ns : Names, (ns.items.map fun x : Leaf .identifier => x.1.value) = xs ∧
    s.Passes (Separated.yield (fun x => [x.1]) ns) t
  refine exists_separated (by decide) ?_ ?_ hs h
  · intro u
    exact (progresses_expect (by decide)).bind fun _ _ _ => movesOn_pure _
  · intro m u x _ _ hx
    obtain ⟨hk, hx⟩ := expect_bind_eq_ok.mp hx
    obtain ⟨rfl, rfl⟩ := pure_eq_ok.mp hx
    exact ⟨⟨_, hk⟩, rfl, passes_current hk (by decide)⟩

/-- A group of parameters is derived. -/
theorem exists_parameter {d : Decl} (hs : s.Lexical) (h : parameter s = .ok d t) :
    ∃ p : Parameter, p.tree = d ∧ s.Passes p.yield t := by
  replace h := current_bind_eq_ok.mp h
  obtain ⟨xs, m, hxs, h⟩ := bind_eq_ok.mp h
  obtain ⟨hc, h⟩ := expect_bind_eq_ok.mp h
  obtain ⟨ty, u, hty, h⟩ := bind_eq_ok.mp h
  obtain ⟨rfl, rfl⟩ := pure_eq_ok.mp h
  obtain ⟨ns, rfl, hns⟩ := exists_names hs hxs
  have hne : m.current.kind ≠ .eof := by rw [hc]; decide
  obtain ⟨ty', rfl, hty'⟩ := exists_typeName ((hs.of_passes hns).advance hne) hty
  refine ⟨⟨ns, ⟨_, hc⟩, ty'⟩, ?_, hns.append (.cons hc (by decide) hty')⟩
  rw [Parameter.tree, ns.current_eq hns]
  rfl

/-- A declaration is derived. -/
theorem exists_declaration {d : Decl} (hs : s.Lexical) (h : declaration s = .ok d t) :
    ∃ d' : Declaration, d'.tree = d ∧ s.Passes d'.yield t := by
  obtain ⟨hv, h⟩ := expect_bind_eq_ok.mp h
  obtain ⟨xs, m, hxs, h⟩ := bind_eq_ok.mp h
  obtain ⟨hc, h⟩ := expect_bind_eq_ok.mp h
  obtain ⟨ty, u, hty, h⟩ := bind_eq_ok.mp h
  obtain ⟨hstop, h⟩ := expect_bind_eq_ok.mp h
  obtain ⟨rfl, rfl⟩ := pure_eq_ok.mp h
  have hs' : s.advance.Lexical := hs.advance (by rw [hv]; decide)
  obtain ⟨ns, rfl, hns⟩ := exists_names hs' hxs
  have hne : m.current.kind ≠ .eof := by rw [hc]; decide
  obtain ⟨ty', rfl, hty'⟩ := exists_typeName ((hs'.of_passes hns).advance hne) hty
  refine ⟨⟨⟨_, hv⟩, ns, ⟨_, hc⟩, ty', ⟨_, hstop⟩⟩, rfl, .cons hv (by decide) ?_⟩
  exact hns.append (.cons hc (by decide) (hty'.append (passes_current hstop (by decide))))

/-- Declarations are derived one after the other. -/
theorem exists_declarations {ds : List Decl} (hs : s.Lexical) (h : declarations s = .ok ds t) :
    ∃ ds' : List Declaration, ds'.map Declaration.tree = ds ∧
      s.Passes (ds'.flatMap Declaration.yield) t := by
  obtain ⟨ds', hds, hpass, -⟩ := exists_of_manyWhile progresses_declaration
    (fun _ _ _ _ hm _ hd => exists_declaration hm hd) hs h
  exact ⟨ds', hds, hpass⟩

/-! ## Statements -/

/-- Expressions as items of a list. -/
theorem readsItems_expression : ReadsItems (expression .standard .default)
    (fun e : Expression => e.yield) Phrase.tree s :=
  fun _ _ _ _ hm hx => exists_expression hm hx

/-- Arguments are derived, in their parentheses. -/
theorem exists_arguments {es : List Expr} (hs : s.Lexical)
    (h : arguments .standard s = .ok es t) :
    ∃ (l : Leaf .openParen) (es' : Arguments) (r : Leaf .closeParen),
      (optionalItems es').map Phrase.tree = es ∧
        s.Passes (l.1 :: (optionalYield Phrase.yield es' ++ [r.1])) t := by
  obtain ⟨hl, h⟩ := expect_bind_eq_ok.mp h
  obtain ⟨es', m, hes, h⟩ := bind_eq_ok.mp h
  obtain ⟨hr, h⟩ := expect_bind_eq_ok.mp h
  obtain ⟨rfl, rfl⟩ := pure_eq_ok.mp h
  have hs' : s.advance.Lexical := hs.advance (by rw [hl]; decide)
  obtain ⟨l, rfl, hpass⟩ := exists_optional (by decide) (progresses_expression .default)
    readsItems_expression hs' hes
  exact ⟨⟨_, hl⟩, l, ⟨_, hr⟩, rfl,
    .cons hl (by decide) (hpass.append (passes_current hr (by decide)))⟩

/-- A condition is derived. -/
theorem exists_condition {e : Expr} (hs : s.Lexical) (h : condition .standard s = .ok e t) :
    ∃ c : Condition, c.e.tree = e ∧ s.Passes c.yield t := by
  obtain ⟨hl, h⟩ := expect_bind_eq_ok.mp h
  obtain ⟨e', m, he, h⟩ := bind_eq_ok.mp h
  obtain ⟨hr, h⟩ := expect_bind_eq_ok.mp h
  obtain ⟨rfl, rfl⟩ := pure_eq_ok.mp h
  obtain ⟨d, rfl, hd⟩ := exists_expression (hs.advance (by rw [hl]; decide)) he
  exact ⟨⟨⟨_, hl⟩, d, ⟨_, hr⟩⟩, rfl,
    .cons hl (by decide) (hd.append (passes_current hr (by decide)))⟩

/-- An assignment to a place, up to its semicolon. -/
theorem exists_assignment {st : Stmt} (hs : s.Lexical)
    (h : assignment .standard s = .ok st t) :
    ∃ d : Statement, d.tree = st ∧ s.Passes d.yield t := by
  replace h := current_bind_eq_ok.mp h
  obtain ⟨target, m, htarget, h⟩ := bind_eq_ok.mp h
  obtain ⟨hsign, h⟩ := expect_bind_eq_ok.mp h
  obtain ⟨st', u, hst, h⟩ := bind_eq_ok.mp h
  obtain ⟨hstop, h⟩ := expect_bind_eq_ok.mp h
  obtain ⟨rfl, rfl⟩ := pure_eq_ok.mp h
  obtain ⟨p, rfl, hp⟩ := exists_place (readsPhrases _) hs htarget
  have hs' : m.advance.Lexical := (hs.of_passes hp).advance (by rw [hsign]; decide)
  rw [p.current_eq hp] at hst
  replace hst := current_bind_eq_ok.mp hst
  have hend := passes_current hstop (by decide)
  -- the first two tokens of the value tell strings and calls from expressions
  split at hst
  · rename_i htext
    replace hst := advance_bind_eq_ok.mp hst
    obtain ⟨rfl, rfl⟩ := pure_eq_ok.mp hst
    exact ⟨.assignString p ⟨_, hsign⟩ ⟨_, htext⟩ ⟨_, hstop⟩, rfl,
      hp.append (.cons hsign (by decide) (.cons htext (by decide) hend))⟩
  · replace hst := peek_bind_eq_ok.mp hst
    split at hst
    · rename_i hcall
      replace hst := advance_bind_eq_ok.mp hst
      obtain ⟨es, v, hes, hst⟩ := bind_eq_ok.mp hst
      obtain ⟨rfl, rfl⟩ := pure_eq_ok.mp hst
      obtain ⟨l, es', r, rfl, hes'⟩ :=
        exists_arguments (hs'.advance (by rw [hcall.1]; decide)) hes
      refine ⟨.call p ⟨_, hsign⟩ ⟨_, hcall.1⟩ l es' r ⟨_, hstop⟩, rfl, ?_⟩
      have hbehind := hes'.append hend
      rw [List.cons_append, List.append_assoc] at hbehind
      exact hp.append (.cons hsign (by decide) (.cons hcall.1 (by decide) hbehind))
    · obtain ⟨e, v, he, hst⟩ := bind_eq_ok.mp hst
      obtain ⟨rfl, rfl⟩ := pure_eq_ok.mp hst
      obtain ⟨d, rfl, hd⟩ := exists_expression hs' he
      exact ⟨.assign p ⟨_, hsign⟩ d ⟨_, hstop⟩, rfl,
        hp.append (.cons hsign (by decide) (hd.append hend))⟩

/-- What is to be shown of the reader of statements, on streams with fewer than `n` tokens
    left. -/
def ReadsStatements (n : Nat) : Prop :=
  ∀ (s t : Stream) (st : Stmt), s.remaining < n → s.Lexical → statement .standard s = .ok st t →
    ∃ d : Statement, d.tree = st ∧ s.Passes d.yield t

/-- What is known of streams below a bound is known below a smaller one. -/
theorem ReadsStatements.mono {n m : Nat} (h : ReadsStatements n) (hle : m ≤ n) :
    ReadsStatements m := fun s t st hs => h s t st (Nat.lt_of_lt_of_le hs hle)

/-- Statements are derived one after the other. -/
theorem exists_statements {ss : List Stmt} {wanted : Token → Bool} {n : Nat}
    (hin : ReadsStatements n) (hn : s.remaining < n) (hs : s.Lexical)
    (h : manyWhile wanted (statement .standard) s = .ok ss t) :
    ∃ ss' : List Statement, statementsTree ss' = ss ∧ s.Passes (statementsYield ss') t := by
  obtain ⟨ss', hss, hpass, -⟩ := exists_of_manyWhile progresses_statement
    (fun m u st hle hm _ hst => hin m u st (Nat.lt_of_le_of_lt hle hn) hm hst) hs h
  exact ⟨ss', by rw [statementsTree_eq, hss], by rw [statementsYield_eq]; exact hpass⟩

/-- A block is derived. -/
theorem exists_nested {b : Block} (hin : ReadsStatements s.remaining) (hs : s.Lexical)
    (h : blockWith (statement .standard) s = .ok b t) :
    ∃ d : Nested, d.tree = b ∧ s.Passes d.yield t := by
  obtain ⟨hl, h⟩ := expect_bind_eq_ok.mp h
  obtain ⟨ds, m, hds, h⟩ := bind_eq_ok.mp h
  obtain ⟨ss, u, hss, h⟩ := bind_eq_ok.mp h
  obtain ⟨hr, h⟩ := expect_bind_eq_ok.mp h
  obtain ⟨rfl, rfl⟩ := pure_eq_ok.mp h
  have hne : s.current.kind ≠ .eof := by rw [hl]; decide
  obtain ⟨ds', rfl, hds'⟩ := exists_declarations (hs.advance hne) hds
  have hlt : m.remaining < s.remaining :=
    Nat.lt_of_le_of_lt hds'.reaches.remaining_le (remaining_advance_lt hne)
  obtain ⟨ss', rfl, hss'⟩ := exists_statements hin hlt ((hs.advance hne).of_passes hds') hss
  exact ⟨.mk ⟨_, hl⟩ ds' ss' ⟨_, hr⟩, rfl,
    .cons hl (by decide) (hds'.append (hss'.append (passes_current hr (by decide))))⟩

/-- A condition and the block that it guards, behind the current token. -/
theorem exists_guarded {c : Expr} {u : Stream} {b : Block} (hin : ReadsStatements s.remaining)
    (hs : s.Lexical) (hne : s.current.kind ≠ .eof)
    (hc : condition .standard s.advance = .ok c u)
    (hb : blockWith (statement .standard) u = .ok b t) :
    ∃ (c' : Condition) (b' : Nested), c'.e.tree = c ∧ b'.tree = b ∧
      s.advance.Passes (c'.yield ++ b'.yield) t := by
  obtain ⟨c', rfl, hc'⟩ := exists_condition (hs.advance hne) hc
  have hle : u.remaining ≤ s.remaining :=
    Nat.le_trans hc'.reaches.remaining_le s.remaining_advance_le
  obtain ⟨b', rfl, hb'⟩ := exists_nested (hin.mono hle) ((hs.advance hne).of_passes hc') hb
  exact ⟨c', b', rfl, rfl, hc'.append hb'⟩

/-- The forms of statements by the kind that they begin with. -/
theorem kind_of_stmtStart? {k : Kind} {form : StmtStart}
    (h : Rules.standard.stmtStart? k = some form) :
    (form = .conditional ∧ k = .if) ∨ (form = .loop ∧ k = .while) ∨
      (form = .block ∧ k = .openCurly) := by
  cases k <;> simp only [Rules.standard, Option.some.injEq, reduceCtorEq] at h <;> subst h <;>
    decide

/-- A conditional is derived, with an `else` or without. -/
theorem exists_conditional {st : Stmt} (hin : ReadsStatements s.remaining) (hs : s.Lexical)
    (hk : s.current.kind = .if)
    (h : conditional (statement .standard) .standard s = .ok st t) :
    ∃ d : Statement, d.tree = st ∧ s.Passes d.yield t := by
  have hne : s.current.kind ≠ .eof := by rw [hk]; decide
  replace h := advance_bind_eq_ok.mp h
  obtain ⟨c, m', hc, h⟩ := bind_eq_ok.mp h
  obtain ⟨b, u, hb, h⟩ := bind_eq_ok.mp h
  obtain ⟨c', b', rfl, rfl, hpass⟩ := exists_guarded hin hs hne hc hb
  replace h := current_bind_eq_ok.mp h
  split at h
  · rename_i helse
    replace h := advance_bind_eq_ok.mp h
    obtain ⟨b₂, u', hb₂, h⟩ := bind_eq_ok.mp h
    obtain ⟨rfl, rfl⟩ := pure_eq_ok.mp h
    have hle : u.advance.remaining ≤ s.remaining :=
      Nat.le_trans u.remaining_advance_le
        (Nat.le_trans hpass.reaches.remaining_le s.remaining_advance_le)
    have hs' := ((hs.advance hne).of_passes hpass).advance (by rw [helse]; decide)
    obtain ⟨b₂', rfl, hb₂'⟩ := exists_nested (hin.mono hle) hs' hb₂
    refine ⟨.ifElse ⟨_, hk⟩ c' b' ⟨_, helse⟩ b₂', rfl, .cons hk (by decide) ?_⟩
    have hall := hpass.append (.cons helse (by decide) hb₂')
    rw [List.append_assoc] at hall
    exact hall
  · obtain ⟨rfl, rfl⟩ := pure_eq_ok.mp h
    exact ⟨.ifThen ⟨_, hk⟩ c' b', rfl, .cons hk (by decide) hpass⟩

/-- **Statements that are read are derived.** -/
theorem readsStatements (n : Nat) : ReadsStatements n := by
  induction n with
  | zero => exact fun _ _ _ hs => absurd hs (Nat.not_lt_zero _)
  | succ n ih =>
    intro s t st hn hs h
    have hin : ReadsStatements s.remaining := ih.mono (Nat.le_of_lt_succ hn)
    rw [statement_eq] at h
    replace h := current_bind_eq_ok.mp h
    cases hform : Rules.standard.stmtStart? s.current.kind with
    | none =>
      rw [hform] at h
      exact exists_assignment hs h
    | some form =>
      rw [hform] at h
      rcases kind_of_stmtStart? hform with ⟨rfl, hk⟩ | ⟨rfl, hk⟩ | ⟨rfl, hk⟩
      · exact exists_conditional hin hs hk h
      · have hne : s.current.kind ≠ .eof := by rw [hk]; decide
        replace h := advance_bind_eq_ok.mp h
        obtain ⟨c, m', hc, h⟩ := bind_eq_ok.mp h
        obtain ⟨b, u, hb, h⟩ := bind_eq_ok.mp h
        obtain ⟨rfl, rfl⟩ := pure_eq_ok.mp h
        obtain ⟨c', b', rfl, rfl, hpass⟩ := exists_guarded hin hs hne hc hb
        exact ⟨.loop ⟨_, hk⟩ c' b', rfl, .cons hk (by decide) hpass⟩
      · replace h := current_bind_eq_ok.mp h
        obtain ⟨b, u, hb, h⟩ := bind_eq_ok.mp h
        obtain ⟨rfl, rfl⟩ := pure_eq_ok.mp h
        obtain ⟨b', rfl, hb'⟩ := exists_nested hin hs hb
        exact ⟨.block b', by rw [Statement.tree, ← b'.current_eq hb']; rfl, hb'⟩

/-! ## Procedures -/

/-- Parameters are derived, in their parentheses. -/
theorem exists_parameters {ds : List Decl} (hs : s.Lexical) (h : parameters s = .ok ds t) :
    ∃ (l : Leaf .openParen) (ds' : Option (Separated .semicolon Parameter))
      (r : Leaf .closeParen), (optionalItems ds').map Parameter.tree = ds ∧
        s.Passes (l.1 :: (optionalYield Parameter.yield ds' ++ [r.1])) t := by
  obtain ⟨hl, h⟩ := expect_bind_eq_ok.mp h
  obtain ⟨ds, m, hds, h⟩ := bind_eq_ok.mp h
  obtain ⟨hr, h⟩ := expect_bind_eq_ok.mp h
  obtain ⟨rfl, rfl⟩ := pure_eq_ok.mp h
  have hs' : s.advance.Lexical := hs.advance (by rw [hl]; decide)
  obtain ⟨ds', rfl, hpass⟩ := exists_optional (by decide) progresses_parameter
    (fun _ _ _ _ hm hd => exists_parameter hm hd) hs' hds
  exact ⟨⟨_, hl⟩, ds', ⟨_, hr⟩, rfl,
    .cons hl (by decide) (hpass.append (passes_current hr (by decide)))⟩

/-- A header is derived. -/
theorem exists_head {h' : Header} (hs : s.Lexical) (h : header s = .ok h' t) :
    ∃ d : Head, d.tree = h' ∧ s.Passes d.yield t := by
  obtain ⟨hword, h⟩ := expect_bind_eq_ok.mp h
  obtain ⟨hname, h⟩ := expectFor_bind_eq_ok.mp h
  obtain ⟨ds, m, hds, h⟩ := bind_eq_ok.mp h
  obtain ⟨hresult, h⟩ := expect_bind_eq_ok.mp h
  obtain ⟨ty, u, hty, h⟩ := bind_eq_ok.mp h
  obtain ⟨rfl, rfl⟩ := pure_eq_ok.mp h
  have hs₁ : s.advance.Lexical := hs.advance (by rw [hword]; decide)
  have hs₂ : s.advance.advance.Lexical := hs₁.advance (by rw [hname]; decide)
  obtain ⟨l, ds', r, rfl, hds'⟩ := exists_parameters hs₂ hds
  have hs₃ := (hs₂.of_passes hds').advance (by rw [hresult]; decide)
  obtain ⟨ty', rfl, hty'⟩ := exists_typeName hs₃ hty
  refine ⟨⟨⟨_, hword⟩, ⟨_, hname⟩, l, ds', r, ⟨_, hresult⟩, ty'⟩, rfl,
    .cons hword (by decide) (.cons hname (by decide) ?_)⟩
  have hall := hds'.append (.cons hresult (by decide) hty')
  rw [List.cons_append, List.append_assoc] at hall
  exact hall

/-- The return of a body is derived. -/
theorem exists_final {r : Return} (hs : s.Lexical) (h : finalResult .standard s = .ok r t) :
    ∃ f : Final, f.tree = r ∧ s.Passes f.yield t := by
  replace h := current_bind_eq_ok.mp h
  split at h
  · obtain ⟨hword, h⟩ := expect_bind_eq_ok.mp h
    obtain ⟨e, m, he, h⟩ := bind_eq_ok.mp h
    obtain ⟨hstop, h⟩ := expect_bind_eq_ok.mp h
    obtain ⟨rfl, rfl⟩ := pure_eq_ok.mp h
    obtain ⟨d, rfl, hd⟩ := exists_expression (hs.advance (by rw [hword]; decide)) he
    exact ⟨⟨⟨_, hword⟩, d, ⟨_, hstop⟩⟩, rfl,
      .cons hword (by decide) (hd.append (passes_current hstop (by decide)))⟩
  · exact absurd h unexpected_ne_ok

/-- What is to be shown of the reader of procedures, on streams with fewer than `n` tokens
    left. -/
def ReadsRoutines (n : Nat) : Prop :=
  ∀ (s t : Stream) (p : Procedure), s.remaining < n → s.Lexical →
    procedure .standard s = .ok p t → ∃ d : Routine, d.tree = p ∧ s.Passes d.yield t

/-- Procedures are derived one after the other. -/
theorem exists_routines {ps : List Procedure} {wanted : Token → Bool} {n : Nat}
    (hin : ReadsRoutines n) (hn : s.remaining < n) (hs : s.Lexical)
    (h : manyWhile wanted (procedure .standard) s = .ok ps t) :
    ∃ ps' : List Routine, routinesTree ps' = ps ∧ s.Passes (routinesYield ps') t := by
  obtain ⟨ps', hps, hpass, -⟩ := exists_of_manyWhile progresses_procedure
    (fun m u p hle hm _ hp => hin m u p (Nat.lt_of_le_of_lt hle hn) hm hp) hs h
  exact ⟨ps', by rw [routinesTree_eq, hps], by rw [routinesYield_eq]; exact hpass⟩

/-- A body is derived. -/
theorem exists_interior {b : Body} {n : Nat} (hin : ReadsRoutines n) (hn : s.remaining ≤ n)
    (hs : s.Lexical) (h : bodyWith (procedure .standard) .standard s = .ok b t) :
    ∃ d : Interior, d.tree = b ∧ s.Passes d.yield t := by
  obtain ⟨hl, h⟩ := expect_bind_eq_ok.mp h
  obtain ⟨ps, m₁, hps, h⟩ := bind_eq_ok.mp h
  obtain ⟨ds, m₂, hds, h⟩ := bind_eq_ok.mp h
  obtain ⟨ss, m₃, hss, h⟩ := bind_eq_ok.mp h
  obtain ⟨r, m₄, hr, h⟩ := bind_eq_ok.mp h
  obtain ⟨hclose, h⟩ := expect_bind_eq_ok.mp h
  obtain ⟨rfl, rfl⟩ := pure_eq_ok.mp h
  have hne : s.current.kind ≠ .eof := by rw [hl]; decide
  have hlt : s.advance.remaining < n := Nat.lt_of_lt_of_le (remaining_advance_lt hne) hn
  have hs₀ := hs.advance hne
  obtain ⟨ps', rfl, hps'⟩ := exists_routines hin hlt hs₀ hps
  have hs₁ := hs₀.of_passes hps'
  obtain ⟨ds', rfl, hds'⟩ := exists_declarations hs₁ hds
  have hs₂ := hs₁.of_passes hds'
  obtain ⟨ss', rfl, hss'⟩ :=
    exists_statements (readsStatements _) (Nat.lt_succ_self _) hs₂ hss
  obtain ⟨f, rfl, hf⟩ := exists_final (hs₂.of_passes hss') hr
  refine ⟨.mk ⟨_, hl⟩ ps' ds' ss' f ⟨_, hclose⟩, rfl, .cons hl (by decide) ?_⟩
  exact hps'.append (hds'.append (hss'.append
    (hf.append (passes_current hclose (by decide)))))

/-- **Procedures that are read are derived.** -/
theorem readsRoutines (n : Nat) : ReadsRoutines n := by
  induction n with
  | zero => exact fun _ _ _ hs => absurd hs (Nat.not_lt_zero _)
  | succ n ih =>
    intro s t p hn hs h
    rw [Grammar.procedure_eq] at h
    obtain ⟨h', m, hh, h⟩ := bind_eq_ok.mp h
    obtain ⟨b, u, hb, h⟩ := bind_eq_ok.mp h
    obtain ⟨rfl, rfl⟩ := pure_eq_ok.mp h
    obtain ⟨d, rfl, hd⟩ := exists_head hs hh
    have hle : m.remaining ≤ n :=
      Nat.le_trans hd.reaches.remaining_le (Nat.le_of_lt_succ hn)
    obtain ⟨b', rfl, hb'⟩ := exists_interior ih hle (hs.of_passes hd) hb
    exact ⟨.mk d b', rfl, hd.append hb'⟩

/-! ## Programs -/

/-- A program that is read is derived, and ends in front of an end marker. -/
theorem exists_programText {p : Program} (hs : s.Lexical) (h : program s = .ok p t) :
    ∃ d : ProgramText, d.tree t.current.line = p ∧ s.Passes d.yield t ∧
      t.current.kind = .eof := by
  obtain ⟨ps, m, hps, h⟩ := bind_eq_ok.mp h
  replace h := current_bind_eq_ok.mp h
  obtain ⟨rfl, rfl⟩ := pure_eq_ok.mp h
  have hitem : ∀ m u p, m.remaining ≤ s.remaining → m.Lexical →
      decide (m.current.kind ≠ .eof) = true → topProcedure m = .ok p u →
      ∃ d : Routine, d.tree = p ∧ m.Passes d.yield u := by
    intro m u p _ hm _ hp
    replace hp := current_bind_eq_ok.mp hp
    split at hp
    · exact readsRoutines _ _ _ _ (Nat.lt_succ_self _) hm hp
    · exact absurd hp unexpected_ne_ok
  obtain ⟨ps', rfl, hpass, hstop⟩ := exists_of_manyWhile progresses_topProcedure hitem hs hps
  refine ⟨⟨ps'⟩, by rw [ProgramText.tree, routinesTree_eq], ?_, by simpa using hstop⟩
  rw [ProgramText.yield, routinesYield_eq]
  exact hpass

end ProcLang.Concrete
