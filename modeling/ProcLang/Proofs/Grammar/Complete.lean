/-
  The reader reads what the grammar derives.

  For a derivation whose yield lies in front of a stream, the reader of its category returns its
  tree and stops behind its yield.  The statements follow the derivations by induction.

  A phrase of level `n` is in general not all that the reader takes, since weaker operators can
  follow.  So its statement is that reading an expression comes down to the loop over operators,
  with the tree of the phrase as left operand (`Phrase.expression_eq`).  That goes through the
  left operand of a left recursive production as it is, and the right operand is ended by the
  next operator, which binds no tighter.
-/
import ProcLang.Proofs.Grammar.Level

namespace ProcLang.Concrete

open Grammar Parse ProcLang.Stream

variable {s t : Stream}

/-! ## Literals -/

/-- A word with a meaning is read as the literal that it stands for. -/
theorem primary_of_word {x : Token} {e : Expr} (h : s.current = x) (hx : wordLiteral? x = some e)
    (hk : x.kind ≠ .number ∧ x.kind ≠ .charLiteral ∧ x.kind ≠ .identifier) :
    primary (expression .standard) s = .ok e s.advance := by
  unfold primary
  rw [bind_apply current_run, h, if_neg hk.1, if_neg hk.2.1, if_neg hk.2.2, hx]
  exact bind_apply (advance_run h)

/-- What a word stands for depends on its kind and its line. -/
theorem wordLiteral?_of_kind {x : Token} {k : Kind} (h : x.kind = k) :
    wordLiteral? x = wordLiteral? { x with kind := k } := by
  rw [← h]

/-- A literal is read as its tree. -/
theorem Literal.primary_eq (l : Literal) (h : s.current = l.token) :
    primary (expression .standard) s = .ok l.tree s.advance := by
  cases l with
  | number x n worth small =>
    have hs : s.current = x.1 := h
    have hn : Text.integerLiteral? x.1.value = some (n : Int) :=
      (Text.integerLiteral?_eq_some_iff ⟨n, worth⟩).mpr ⟨n, worth, small, rfl⟩
    unfold primary
    rw [bind_apply current_run, hs, if_pos x.2, numberLiteral, hn]
    exact bind_apply (advance_run hs)
  | char x c single =>
    have hs : s.current = x.1 := h
    have hk : x.1.kind ≠ .number := by rw [x.2]; decide
    unfold primary
    rw [bind_apply current_run, hs, if_neg hk, if_pos x.2, charLiteral,
      bind_apply (advance_run hs), single]
    rfl
  | true x =>
    have hs : s.current = x.1 := h
    exact primary_of_word hs (wordLiteral?_of_kind x.2) (by rw [x.2]; decide)
  | false x =>
    have hs : s.current = x.1 := h
    exact primary_of_word hs (wordLiteral?_of_kind x.2) (by rw [x.2]; decide)
  | null x =>
    have hs : s.current = x.1 := h
    exact primary_of_word hs (wordLiteral?_of_kind x.2) (by rw [x.2]; decide)

/-- The kind of the token of a literal. -/
def Literal.kind : Literal → Kind
  | number _ _ _ _ => .number
  | char _ _ _ => .charLiteral
  | true _ => .true
  | false _ => .false
  | null _ => .null

/-- The token of a literal has the kind of the literal. -/
theorem Literal.kind_token (l : Literal) : l.token.kind = l.kind := by
  cases l with
  | number x => exact x.2
  | char x => exact x.2
  | true x => exact x.2
  | false x => exact x.2
  | null x => exact x.2

/-- An expression can start with a literal. -/
theorem Literal.exprStart?_eq (l : Literal) :
    Rules.standard.exprStart? l.token.kind = some .primary := by
  rw [l.kind_token]
  cases l <;> rfl

/-! ## Expressions -/

/-- The reader knows each prefix of the grammar as the same operator. -/
theorem Prefix.unaryOp?_eq (op : Prefix) : unaryOp? op.token.kind = some op.op := by
  obtain ⟨x, op, h⟩ := op
  show unaryOp? x.kind = some op
  rw [← h]
  cases x.kind <;> rfl

/-- An expression can start with a prefix. -/
theorem Prefix.exprStart?_eq (op : Prefix) :
    Rules.standard.exprStart? op.token.kind = some .unary := by
  obtain ⟨x, op, h⟩ := op
  show Rules.standard.exprStart? x.kind = some .unary
  generalize x.kind = k at h
  cases k <;> first | rfl | cases h

/-- The loop takes an operator of a level that it is asked for. -/
theorem operators_of_infix {p : Power} {n : Nat} (op : Infix (n + 1)) (hn : n + 1 ≤ p.level)
    (h : s.current = op.token) {left right : Expr}
    (hright : ∀ q : Power, q.level = n →
      expression .standard q s.advance = .ok right t) :
    Grammar.operators (expression .standard) .standard p left s =
      Grammar.operators (expression .standard) .standard p
        (.binary (attrOf op.token) op.op left right) t := by
  obtain ⟨q, hq, hlevel, hop⟩ := tighter?_of_operatorAt op.op_eq hn
  rw [operators_eq progresses_expression, h, hq]
  refine bind_apply ?_
  rw [binary, bind_apply (advance_run h), hop]
  exact bind_apply (hright q (Nat.succ.inj hlevel))

/-- What is left to do for an expression in brackets, where no operator can follow. -/
theorem expression_of_follows {e : Expr} (hf : Follows 7 t.current.kind)
    (h : ∀ p : Power, 6 ≤ p.level → expression .standard p s =
      Grammar.operators (expression .standard) .standard p e t) :
    expression .standard .default s = .ok e t := by
  rw [h .default (Nat.le_refl _)]
  refine operators_of_none progresses_expression (tighter?_eq_none_iff.mpr ?_)
  intro n hn
  exact hf.2 n (Nat.lt_succ_of_le hn)

/-- An index is read when the expression in it is. -/
theorem index_of_passes (l : Leaf .openBracket) {i : Expression} (r : Leaf .closeBracket)
    (h : s.Passes (l.1 :: (i.yield ++ [r.1])) t)
    (hi : ∀ {u v : Stream}, u.Passes i.yield v → Follows 7 v.current.kind →
      expression .standard .default u = .ok i.tree v) :
    index (expression .standard) s = .ok i.tree t := by
  obtain ⟨hl, -, h⟩ := passes_cons.mp h
  obtain ⟨m, hm, h⟩ := passes_append.mp h
  obtain ⟨hr, -, rfl⟩ := passes_singleton.mp h
  have hf : Follows 7 m.current.kind := by rw [hr, r.2]; decide
  rw [index, bind_apply (expect_run l hl), bind_apply (hi hm hf), bind_apply (expect_run r hr)]
  rfl

/-- A primary that begins with a name is what stands behind the name. -/
theorem primary_of_reference {e : Expr} (x : Leaf .identifier) (h : s.current = x.1)
    (hx : reference (expression .standard) x.1 s = .ok e t) :
    primary (expression .standard) s = .ok e t := by
  have hk : x.1.kind ≠ .number ∧ x.1.kind ≠ .charLiteral := by rw [x.2]; decide
  unfold primary
  rw [bind_apply current_run, h, if_neg hk.1, if_neg hk.2, if_pos x.2, hx]

/-- A name with no bracket behind it is a name. -/
theorem reference_of_name (x : Leaf .identifier) (h : s.current = x.1)
    (hf : s.advance.current.kind ≠ .openBracket) :
    reference (expression .standard) x.1 s =
      .ok (.named (attrOf x.1) x.1.value) s.advance := by
  rw [reference, bind_apply (advance_run h), bind_apply current_run, if_neg hf]
  rfl

/-- A name with an index behind it is an element. -/
theorem reference_of_element {e : Expr} (x : Leaf .identifier) (h : s.current = x.1)
    {l : Leaf .openBracket} (hl : s.advance.current = l.1)
    (hi : index (expression .standard) s.advance = .ok e t) :
    reference (expression .standard) x.1 s =
      .ok (.element (attrOf x.1) x.1.value e) t := by
  have hk : s.advance.current.kind = .openBracket := by rw [hl, l.2]
  rw [reference, bind_apply (advance_run h), bind_apply current_run, if_pos hk, bind_apply hi]
  rfl

mutual

/-- Reading an expression comes to reading operators behind a phrase in front. -/
theorem Phrase.expression_eq {n : Nat} (e : Phrase n) {p : Power} {s t : Stream}
    (hn : n ≤ p.level) (h : s.Passes e.yield t) (hf : Follows n t.current.kind) :
    expression .standard p s = Grammar.operators (expression .standard) .standard p e.tree t := by
  cases e with
  | literal l =>
    rw [Phrase.yield, passes_singleton] at h
    obtain ⟨hl, -, rfl⟩ := h
    exact expression_of_start .primary (by rw [hl, l.exprStart?_eq]) (l.primary_eq hl)
  | name x =>
    rw [Phrase.yield, passes_singleton] at h
    obtain ⟨hx, -, rfl⟩ := h
    refine expression_of_start .primary (by rw [hx, x.2]; rfl) ?_
    exact primary_of_reference x hx (reference_of_name x hx hf.1)
  | element x l i r =>
    obtain ⟨hx, -, hi⟩ := passes_cons.mp h
    refine expression_of_start .primary (by rw [hx, x.2]; rfl) ?_
    have hindex := index_of_passes l r hi fun {u v} hv hr => expression_of_follows hr fun p hp =>
      Phrase.expression_eq i hp hv (hr.mono (by decide))
    exact primary_of_reference x hx (reference_of_element x hx (passes_cons.mp hi).1 hindex)
  | group l e r =>
    obtain ⟨hl, -, h⟩ := passes_cons.mp h
    obtain ⟨m, he, h⟩ := passes_append.mp h
    obtain ⟨hr, -, rfl⟩ := passes_singleton.mp h
    have hm : Follows 7 m.current.kind := by rw [hr, r.2]; decide
    have hinner := expression_of_follows hm fun p hp =>
      Phrase.expression_eq e hp he (hm.mono (by decide))
    refine expression_of_start .grouping (by rw [hl, l.2]; rfl) ?_
    rw [start, grouping, bind_apply (advance_run hl), bind_apply hinner,
      bind_apply (expect_run r hr)]
    rfl
  | absolute l e r =>
    obtain ⟨hl, -, h⟩ := passes_cons.mp h
    obtain ⟨m, he, h⟩ := passes_append.mp h
    obtain ⟨hr, -, rfl⟩ := passes_singleton.mp h
    have hm : Follows 7 m.current.kind := by rw [hr, r.2]; decide
    have hinner := expression_of_follows hm fun p hp =>
      Phrase.expression_eq e hp he (hm.mono (by decide))
    refine expression_of_start .absolute (by rw [hl, l.2]; rfl) ?_
    rw [start, absolute, bind_apply (advance_run hl), bind_apply hinner,
      bind_apply (expectFor_run r hr)]
    rfl
  | prefixed op e =>
    obtain ⟨hop, -, he⟩ := passes_cons.mp h
    -- no operator is as tight as a prefix, so the operand ends where the phrase does
    have hinner : expression .standard .unary s.advance = .ok e.tree t := by
      rw [Phrase.expression_eq e (Nat.zero_le _) he hf]
      refine operators_of_none progresses_expression (tighter?_eq_none_iff.mpr ?_)
      intro i hi
      obtain rfl := Nat.le_zero.mp hi
      rfl
    refine expression_of_start .unary (by rw [hop, op.exprStart?_eq]) ?_
    rw [start, unary, bind_apply (advance_run hop), op.unaryOp?_eq]
    exact bind_apply hinner
  | addressOf a p =>
    obtain ⟨ha, -, hp⟩ := passes_cons.mp h
    refine expression_of_start .addressOf (by rw [ha, a.2]; rfl) ?_
    rw [start, addressOf, bind_apply (advance_run ha)]
    exact bind_apply (Place.location_eq p hp hf.1)
  -- the levels are nested, so a phrase of a tighter level needs nothing more
  | lift e =>
    exact Phrase.expression_eq e (Nat.le_of_succ_le hn) h (hf.mono (Nat.le_succ _))
  | @binary n l op r =>
    obtain ⟨m, hl, h⟩ := passes_append.mp h
    obtain ⟨hop, -, hr⟩ := passes_cons.mp h
    have hm : Follows (n + 1) m.current.kind := by
      rw [hop]
      exact follows_of_operatorAt op.op_eq
    -- the loop meets the operator behind the left operand, and reads the right one with the
    -- power of the operator, so that it stops at the next operator of the same level
    rw [Phrase.expression_eq l hn hl hm]
    refine operators_of_infix op hn hop fun q hq => ?_
    rw [Phrase.expression_eq r (Nat.le_of_eq hq.symm) hr (hf.mono (Nat.le_succ _))]
    refine operators_of_none progresses_expression (tighter?_eq_none_iff.mpr ?_)
    intro i hi
    exact hf.2 i (Nat.lt_succ_of_le (hq ▸ hi))

/-- A location in front of a stream is read. -/
theorem Place.location_eq (p : Place) {s t : Stream} (h : s.Passes p.yield t)
    (hf : t.current.kind ≠ .openBracket) : location .standard s = .ok p.tree t := by
  unfold location locationWith
  rw [bind_apply current_run]
  cases p with
  | name x =>
    obtain ⟨hx, -, rfl⟩ := passes_singleton.mp h
    rw [if_neg (by rw [hx, x.2]; decide), bind_apply (expectFor_run x hx),
      bind_apply current_run, if_neg hf, hx]
    rfl
  | pointee c x =>
    obtain ⟨hc, -, h⟩ := passes_cons.mp h
    obtain ⟨hx, -, rfl⟩ := passes_singleton.mp h
    rw [if_pos (by rw [hc, c.2]), bind_apply (advance_run hc), bind_apply (expect_run x hx), hc]
    rfl
  | element x l i r =>
    obtain ⟨hx, -, hi⟩ := passes_cons.mp h
    have hk : s.advance.current.kind = .openBracket := by rw [(passes_cons.mp hi).1, l.2]
    have hindex := index_of_passes l r hi fun {u v} hv hr => expression_of_follows hr fun p hp =>
      Phrase.expression_eq i hp hv (hr.mono (by decide))
    rw [if_neg (by rw [hx, x.2]; decide), bind_apply (expectFor_run x hx),
      bind_apply current_run, if_pos hk, bind_apply hindex, hx]
    rfl

end

/-- A whole expression is read where no operator follows. -/
theorem Phrase.expression_of_passes (e : Expression) (h : s.Passes e.yield t)
    (hf : Follows 7 t.current.kind) : expression .standard .default s = .ok e.tree t :=
  expression_of_follows hf fun _ hp => Phrase.expression_eq e hp h (hf.mono (by decide))

/-- The form of expression that a phrase starts with. -/
def Phrase.form {n : Nat} : Phrase n → ExprStart
  | .literal _ => .primary
  | .name _ => .primary
  | .element _ _ _ _ => .primary
  | .group _ _ _ => .grouping
  | .absolute _ _ _ => .absolute
  | .prefixed _ _ => .unary
  | .addressOf _ _ => .addressOf
  | .lift e => e.form
  | .binary l _ _ => l.form

/-- The first token of a phrase tells its form. -/
theorem Phrase.exprStart?_eq {n : Nat} (e : Phrase n) {s t : Stream} (h : s.Passes e.yield t) :
    Rules.standard.exprStart? s.current.kind = some e.form := by
  cases e with
  | literal l => rw [(passes_cons.mp h).1, l.exprStart?_eq]; rfl
  | name x => rw [(passes_cons.mp h).1, x.2]; rfl
  | element x => rw [(passes_cons.mp h).1, x.2]; rfl
  | group l => rw [(passes_cons.mp h).1, l.2]; rfl
  | absolute l => rw [(passes_cons.mp h).1, l.2]; rfl
  | prefixed op => rw [(passes_cons.mp h).1, op.exprStart?_eq]; rfl
  | addressOf a => rw [(passes_cons.mp h).1, a.2]; rfl
  | lift e => exact e.exprStart?_eq h
  | binary l =>
    obtain ⟨m, hl, -⟩ := passes_append.mp h
    exact l.exprStart?_eq hl

/-- A token that starts no expression does not start a phrase. -/
theorem Phrase.current_ne {n : Nat} (e : Phrase n) (h : s.Passes e.yield t) {k : Kind}
    (hk : Rules.standard.exprStart? k = none) : s.current.kind ≠ k := by
  rintro rfl
  rw [e.exprStart?_eq h] at hk
  cases hk

/-- A name at the beginning of a phrase is not called. -/
theorem Phrase.ne_openParen {n : Nat} (e : Phrase n) {s t : Stream} (h : s.Passes e.yield t)
    (hx : s.current.kind = .identifier) (hf : t.current.kind ≠ .openParen) :
    s.advance.current.kind ≠ .openParen := by
  cases e with
  | literal l =>
    obtain ⟨hl, -, rfl⟩ := passes_singleton.mp h
    exact hf
  | name x =>
    obtain ⟨-, -, rfl⟩ := passes_singleton.mp h
    exact hf
  | element x l =>
    obtain ⟨-, -, h⟩ := passes_cons.mp h
    rw [(passes_cons.mp h).1, l.2]
    decide
  | group l =>
    rw [(passes_cons.mp h).1, l.2] at hx
    cases hx
  | absolute l =>
    rw [(passes_cons.mp h).1, l.2] at hx
    cases hx
  | prefixed op =>
    have hop := op.exprStart?_eq
    rw [(passes_cons.mp h).1] at hx
    rw [hx] at hop
    cases hop
  | addressOf a =>
    rw [(passes_cons.mp h).1, a.2] at hx
    cases hx
  | lift e => exact e.ne_openParen h hx hf
  | binary l op r =>
    obtain ⟨m, hl, h⟩ := passes_append.mp h
    refine l.ne_openParen hl hx ?_
    -- no operator is a parenthesis
    rw [(passes_cons.mp h).1]
    intro hk
    obtain ⟨q, hq, -⟩ := power?_of_operatorAt op.op_eq
    rw [hk] at hq
    cases hq

/-! ## Lists -/

section Lists

variable {α β : Type} {k : Kind} {item : Parse α} {yield : β → List Token} {tree : β → α}

/-- A list with separators is read when its items are, each up to a token that `follow` holds
    of. -/
theorem Separated.separatedBy_eq (l : Separated k β) (follow : Kind → Prop)
    (hp : ∀ t, Progresses item t) (hsep : follow k)
    (hitem : ∀ x ∈ l.items, ∀ s t : Stream, s.Passes (yield x) t → follow t.current.kind →
      item s = .ok (tree x) t)
    (hstop : t.current.kind ≠ k) (hf : follow t.current.kind) (h : s.Passes (l.yield yield) t) :
    separatedBy k item s = .ok (l.items.map tree) t := by
  obtain ⟨m, hm, hrest⟩ := passes_append.mp h
  have hfollow : follow m.current.kind := by
    refine current_of_flatMap (P := fun x => follow x.kind) (fun x _ _ _ hx => ?_) hrest hf
    rw [(passes_cons.mp hx).1, x.1.2]
    exact hsep
  have hloop : manyWhile (fun t => t.kind = k) (do let _ ← advance; item) m =
      .ok (l.rest.map fun x => tree x.2) t := by
    refine manyWhile_of_passes (fun x => follow x.kind) ?_ ?_ ?_ (by simpa using hstop) hf hrest
    · intro u
      exact movesOn_advance.bind_progresses fun _ v _ => hp v
    · intro x _ u v huv
      rw [(passes_cons.mp huv).1, x.1.2]
      exact ⟨decide_eq_true rfl, hsep⟩
    · intro x hx u v huv hv
      obtain ⟨hk, -, huv⟩ := passes_cons.mp huv
      rw [bind_apply (advance_run hk)]
      exact hitem x.2 (List.mem_cons_of_mem _ (List.mem_map_of_mem hx)) _ _ huv hv
  rw [separatedBy, bind_apply (hitem l.first List.mem_cons_self s m hm hfollow),
    bind_apply hloop, Separated.items, List.map_cons, List.map_map]
  rfl

/-- A list that can be missing is read up to the token that closes it. -/
theorem listBefore_of_passes {closing : Kind} {items : Parse (List α)}
    (l : Option (Separated k β)) (hclosing : t.current.kind = closing)
    (hfirst : ∀ l' ∈ l, s.Passes (l'.yield yield) t → s.current.kind ≠ closing)
    (hitems : ∀ l' ∈ l, s.Passes (l'.yield yield) t → items s = .ok (l'.items.map tree) t)
    (h : s.Passes (optionalYield yield l) t) :
    listBefore closing items s = .ok ((optionalItems l).map tree) t := by
  rw [listBefore, bind_apply current_run]
  cases l with
  | none =>
    obtain rfl := passes_nil.mp h
    rw [if_pos hclosing]
    rfl
  | some l =>
    rw [if_neg (hfirst l rfl h)]
    exact hitems l rfl h

end Lists

/-! ## Types and declarations -/

/-- The types of one word are those of the grammar. -/
theorem plainType?_eq_typeAt (k : Kind) : plainType? k = typeAt k := by
  cases k <;> rfl

/-- The yield of a type is read as the type. -/
theorem TypeName.declaredType_eq (ty : TypeName) (h : s.Passes ty.yield t) :
    declaredType s = .ok ty.tree t := by
  rw [declaredType, bind_apply current_run, plainType?_eq_typeAt]
  cases ty with
  | word x d hd =>
    obtain ⟨hx, -, rfl⟩ := passes_singleton.mp h
    rw [hx, hd]
    exact bind_apply (advance_run hx)
  | string x l size n worth small r =>
    obtain ⟨hx, -, h⟩ := passes_cons.mp h
    obtain ⟨hl, -, h⟩ := passes_cons.mp h
    obtain ⟨hsize, -, h⟩ := passes_cons.mp h
    obtain ⟨hr, -, rfl⟩ := passes_singleton.mp h
    have hk : s.current.kind = .string := by rw [hx, x.2]
    have hn : Text.arraySize? size.1.value = some n :=
      (Text.arraySize?_eq_some_iff ⟨n, .decimal worth⟩).mpr ⟨worth, small⟩
    have hnone : typeAt s.current.kind = none := by rw [hk]; rfl
    rw [hnone]
    show (if s.current.kind = .string then stringType else _) s = _
    rw [if_pos hk, stringType, bind_apply (advance_run hx), bind_apply (expect_run l hl),
      bind_apply (expect_run size hsize), hn]
    exact bind_apply (expect_run r hr)

/-- The yield of a list of names is read as the names, when no comma follows. -/
theorem Names.names_eq (ns : Names) (h : s.Passes ns.yield t) (hf : t.current.kind ≠ .comma) :
    names s = .ok ns.tree t := by
  refine Separated.separatedBy_eq ns (fun _ => True) ?_ trivial ?_ hf trivial h
  · intro u
    exact (progresses_expect (by decide)).bind fun _ _ _ => movesOn_pure _
  · intro x _ u v huv _
    obtain ⟨hx, -, rfl⟩ := passes_singleton.mp huv
    rw [bind_apply (expect_run x hx)]
    rfl

/-- A list of names begins with its first name. -/
theorem Names.current_eq (ns : Names) (h : s.Passes ns.yield t) : s.current = ns.first.1 :=
  (passes_cons.mp h).1

/-- The yield of a group of parameters is read as the group. -/
theorem Parameter.parameter_eq (p : Parameter) (h : s.Passes p.yield t) :
    parameter s = .ok p.tree t := by
  obtain ⟨m, hns, h⟩ := passes_append.mp h
  obtain ⟨hc, -, hty⟩ := passes_cons.mp h
  have hm : m.current.kind ≠ .comma := by rw [hc, p.colon.2]; decide
  rw [parameter, bind_apply current_run, bind_apply (p.names.names_eq hns hm),
    bind_apply (expect_run p.colon hc), bind_apply (p.type.declaredType_eq hty),
    p.names.current_eq hns]
  rfl

/-- The yield of a declaration is read as the declaration. -/
theorem Declaration.declaration_eq (d : Declaration) (h : s.Passes d.yield t) :
    declaration s = .ok d.tree t := by
  obtain ⟨hv, -, h⟩ := passes_cons.mp h
  obtain ⟨m, hns, h⟩ := passes_append.mp h
  obtain ⟨hc, -, h⟩ := passes_cons.mp h
  obtain ⟨m', hty, h⟩ := passes_append.mp h
  obtain ⟨hstop, -, rfl⟩ := passes_singleton.mp h
  have hm : m.current.kind ≠ .comma := by rw [hc, d.colon.2]; decide
  rw [declaration, bind_apply (expect_run d.var hv), bind_apply (d.names.names_eq hns hm),
    bind_apply (expect_run d.colon hc), bind_apply (d.type.declaredType_eq hty),
    bind_apply (expect_run d.stop hstop)]
  rfl

/-- The yields of declarations are read as the declarations, when no other one follows. -/
theorem declarations_of_passes (ds : List Declaration)
    (h : s.Passes (ds.flatMap Declaration.yield) t) (hf : t.current.kind ≠ .var) :
    declarations s = .ok (ds.map Declaration.tree) t := by
  refine manyWhile_of_passes (fun _ => True) progresses_declaration ?_ ?_ (by simpa using hf)
    trivial h
  · intro d _ u v huv
    rw [(passes_cons.mp huv).1, d.var.2]
    exact ⟨decide_eq_true rfl, trivial⟩
  · intro d _ u v huv _
    exact d.declaration_eq huv

/-! ## Statements -/

/-- The yield of arguments is read as the arguments. -/
theorem arguments_of_passes (l : Leaf .openParen) (es : Arguments) (r : Leaf .closeParen)
    (hl : s.current = l.1) (hes : s.advance.Passes (optionalYield Phrase.yield es) t)
    (hr : t.current = r.1) :
    arguments .standard s = .ok ((optionalItems es).map Phrase.tree) t.advance := by
  have hf : Follows 7 t.current.kind := by rw [hr, r.2]; decide
  have hlist : listBefore .closeParen (separatedBy .comma (expression .standard .default))
      s.advance = .ok ((optionalItems es).map Phrase.tree) t := by
    refine listBefore_of_passes es (by rw [hr, r.2]) ?_ ?_ hes
    · intro es' _ h
      obtain ⟨m, hm, -⟩ := passes_append.mp h
      exact es'.first.current_ne hm rfl
    · intro es' _ h
      refine es'.separatedBy_eq (Follows 7) (progresses_expression .default) (by decide) ?_
        (by rw [hr, r.2]; decide) hf h
      intro e _ u v huv hv
      exact e.expression_of_passes huv hv
  rw [arguments, bind_apply (expect_run l hl), bind_apply hlist, bind_apply (expect_run r hr)]
  rfl

/-- The yield of a condition is read as its expression. -/
theorem Condition.condition_eq (c : Condition) (h : s.Passes c.yield t) :
    condition .standard s = .ok c.e.tree t := by
  obtain ⟨hl, -, h⟩ := passes_cons.mp h
  obtain ⟨m, he, h⟩ := passes_append.mp h
  obtain ⟨hr, -, rfl⟩ := passes_singleton.mp h
  have hm : Follows 7 m.current.kind := by rw [hr, c.r.2]; decide
  rw [condition, bind_apply (expect_run c.l hl), bind_apply (c.e.expression_of_passes he hm),
    bind_apply (expect_run c.r hr)]
  rfl

/-- A location begins with its head. -/
theorem Place.current_eq (p : Place) (h : s.Passes p.yield t) : s.current = p.head := by
  cases p with
  | name x => exact (passes_cons.mp h).1
  | pointee c x => exact (passes_cons.mp h).1
  | element x l i r => exact (passes_cons.mp h).1

/-- The kinds of token that a statement starts with. -/
def statementStarts : List Kind := [.identifier, .caret, .if, .while, .openCurly]

/-- The head of a location is a name or the mark of a dereference. -/
theorem Place.head_kind (p : Place) : p.head.kind = .identifier ∨ p.head.kind = .caret := by
  cases p with
  | name x => exact Or.inl x.2
  | pointee c x => exact Or.inr c.2
  | element x l i r => exact Or.inl x.2

/-- A statement can start with a location. -/
theorem Place.mem_statementStarts (p : Place) (h : s.Passes p.yield t) :
    s.current.kind ∈ statementStarts := by
  rw [p.current_eq h]
  rcases p.head_kind with hk | hk
  · rw [hk]; decide
  · rw [hk]; decide

/-- A block begins with its brace. -/
theorem Nested.current_eq (b : Nested) (h : s.Passes b.yield t) : s.current = b.head := by
  cases b with
  | mk l => exact (passes_cons.mp h).1

/-- The head of a block is a brace. -/
theorem Nested.head_kind (b : Nested) : b.head.kind = .openCurly := by
  cases b with
  | mk l => exact l.2

/-- Each form of statement begins with a token that statements start with. -/
theorem Statement.mem_statementStarts (st : Statement) (h : s.Passes st.yield t) :
    s.current.kind ∈ statementStarts := by
  cases st with
  | assignString p =>
    obtain ⟨m, hp, -⟩ := passes_append.mp h
    exact p.mem_statementStarts hp
  | call p =>
    obtain ⟨m, hp, -⟩ := passes_append.mp h
    exact p.mem_statementStarts hp
  | assign p =>
    obtain ⟨m, hp, -⟩ := passes_append.mp h
    exact p.mem_statementStarts hp
  | ifThen w =>
    rw [(passes_cons.mp h).1, w.2]
    decide
  | ifElse w =>
    rw [(passes_cons.mp h).1, w.2]
    decide
  | loop w =>
    rw [(passes_cons.mp h).1, w.2]
    decide
  | block b =>
    rw [b.current_eq h, b.head_kind]
    decide

/-- The yield of statements is that of each of them in turn. -/
theorem statementsYield_eq (ss : List Statement) :
    statementsYield ss = ss.flatMap Statement.yield := by
  induction ss with
  | nil => rfl
  | cons st ss ih => rw [statementsYield, List.flatMap_cons, ih]

/-- The tree of statements in a row is that of each of them. -/
theorem statementsTree_eq (ss : List Statement) : statementsTree ss = ss.map Statement.tree := by
  induction ss with
  | nil => rfl
  | cons st ss ih => rw [statementsTree, List.map_cons, ih]

/-- In front of statements stands the start of one, or what stands behind them. -/
theorem kind_of_statements (P : Kind → Prop) (ss : List Statement)
    (h : s.Passes (statementsYield ss) t) (hstart : ∀ k ∈ statementStarts, P k)
    (ht : P t.current.kind) : P s.current.kind := by
  rw [statementsYield_eq] at h
  exact current_of_flatMap (P := fun x => P x.kind)
    (fun st _ _ _ hst => hstart _ (st.mem_statementStarts hst)) h ht

/-- One token ahead is the one behind the current one. -/
theorem peek_one (s : Stream) : s.peek 1 = s.advance.current.kind := by
  obtain ⟨file, current, rest, hc⟩ := s
  cases rest <;> rfl

/-- A statement that begins with a location is an assignment, once its right side is read. -/
theorem statement_of_assigned {m u : Stream} {st : Stmt} (p : Place) (sign : Leaf .assignment)
    (stop : Leaf .semicolon) (hp : s.Passes p.yield m) (hsign : m.current = sign.1)
    (h : assigned .standard p.head.line p.tree m.advance = .ok st u)
    (hstop : u.current = stop.1) : statement .standard s = .ok st u.advance := by
  have hs := p.current_eq hp
  have hm : m.current.kind ≠ .openBracket := by rw [hsign, sign.2]; decide
  have hform : Rules.standard.stmtStart? s.current.kind = none := by
    rw [hs]
    rcases p.head_kind with hk | hk
    · rw [hk]; rfl
    · rw [hk]; rfl
  rw [statement_eq, statementWith, bind_apply current_run, hform]
  show assignment .standard s = _
  rw [assignment, bind_apply current_run, bind_apply (p.location_eq hp hm),
    bind_apply (expect_run sign hsign), hs, bind_apply h, bind_apply (expect_run stop hstop)]
  rfl

/-- A name with a parenthesis behind it is read as a call. -/
theorem assigned_of_call {line : Nat} {target : Location} {u : Stream} (callee : Leaf .identifier)
    (l : Leaf .openParen) (es : Arguments) (r : Leaf .closeParen) (hcallee : s.current = callee.1)
    (hl : s.advance.current = l.1)
    (hes : s.advance.advance.Passes (optionalYield Phrase.yield es) u)
    (hr : u.current = r.1) :
    assigned .standard line target s =
      .ok (.call (.bare line) target callee.1.value ((optionalItems es).map Phrase.tree))
        u.advance := by
  have hk : s.current.kind = .identifier := by rw [hcallee, callee.2]
  have hpeek : s.peek 1 = .openParen := by rw [peek_one, hl, l.2]
  have hpeek' : Parse.peek 1 s = .ok (s.peek 1) s := rfl
  rw [assigned, bind_apply current_run, if_neg (by rw [hk]; decide), bind_apply hpeek',
    if_pos ⟨hk, hpeek⟩, bind_apply (advance_run hcallee),
    bind_apply (arguments_of_passes l es r hl hes hr)]
  rfl

/-- The yield of any expression is read as an expression: it begins with no text, and with no name
    that a parenthesis follows. -/
theorem assigned_of_expression {line : Nat} {target : Location} {u : Stream} (e : Expression)
    (h : s.Passes e.yield u) (hu : u.current.kind = .semicolon) :
    assigned .standard line target s = .ok (.assign (.bare line) target e.tree) u := by
  have htext : s.current.kind ≠ .stringLiteral := e.current_ne h rfl
  have hcall : ¬ (s.current.kind = .identifier ∧ s.peek 1 = .openParen) := by
    rintro ⟨hk, hpeek⟩
    rw [peek_one] at hpeek
    exact e.ne_openParen h hk (by rw [hu]; decide) hpeek
  have hpeek : Parse.peek 1 s = .ok (s.peek 1) s := rfl
  have hf : Follows 7 u.current.kind := by rw [hu]; decide
  rw [assigned, bind_apply current_run, if_neg htext, bind_apply hpeek, if_neg hcall,
    bind_apply (e.expression_of_passes h hf)]
  rfl

/-- A loop over statements goes on as long as a statement can start, and no statement starts with
    an `else`. -/
theorem manyWhile_statements (more : Kind → Prop) [DecidablePred more] {ss : List Statement}
    (hmore : ∀ k ∈ statementStarts, more k)
    (hread : ∀ st ∈ ss, ∀ u v : Stream, u.Passes st.yield v → v.current.kind ≠ .else →
      statement .standard u = .ok st.tree v)
    (h : s.Passes (statementsYield ss) t) (hend : ¬ more t.current.kind)
    (helse : t.current.kind ≠ .else) :
    manyWhile (fun x => more x.kind) (statement .standard) s = .ok (ss.map Statement.tree) t := by
  have hfirst : ∀ k ∈ statementStarts, k ≠ .else := by decide
  rw [statementsYield_eq] at h
  refine manyWhile_of_passes (fun x => x.kind ≠ .else) progresses_statement ?_ hread
    (decide_eq_false hend) helse h
  intro st _ u v huv
  have hstart := st.mem_statementStarts huv
  exact ⟨decide_eq_true (hmore _ hstart), hfirst _ hstart⟩

mutual

/-- A statement in front of a stream is read; an `else` behind it would belong to it. -/
theorem Statement.statement_eq (st : Statement) {s t : Stream} (h : s.Passes st.yield t)
    (hf : t.current.kind ≠ .else) : statement .standard s = .ok st.tree t := by
  cases st with
  | assignString p sign text stop =>
    obtain ⟨m, hp, h⟩ := passes_append.mp h
    obtain ⟨hsign, -, h⟩ := passes_cons.mp h
    obtain ⟨htext, -, h⟩ := passes_cons.mp h
    obtain ⟨hstop, -, rfl⟩ := passes_singleton.mp h
    refine statement_of_assigned p sign stop hp hsign ?_ hstop
    rw [assigned, bind_apply current_run, if_pos (by rw [htext, text.2]),
      bind_apply (advance_run htext)]
    rfl
  | call p sign callee l es r stop =>
    obtain ⟨m, hp, h⟩ := passes_append.mp h
    obtain ⟨hsign, -, h⟩ := passes_cons.mp h
    obtain ⟨hcallee, -, h⟩ := passes_cons.mp h
    obtain ⟨hl, -, h⟩ := passes_cons.mp h
    obtain ⟨u, hes, h⟩ := passes_append.mp h
    obtain ⟨hr, -, h⟩ := passes_cons.mp h
    obtain ⟨hstop, -, rfl⟩ := passes_singleton.mp h
    exact statement_of_assigned p sign stop hp hsign
      (assigned_of_call callee l es r hcallee hl hes hr) hstop
  | assign p sign e stop =>
    obtain ⟨m, hp, h⟩ := passes_append.mp h
    obtain ⟨hsign, -, h⟩ := passes_cons.mp h
    obtain ⟨u, he, h⟩ := passes_append.mp h
    obtain ⟨hstop, -, rfl⟩ := passes_singleton.mp h
    exact statement_of_assigned p sign stop hp hsign
      (assigned_of_expression e he (by rw [hstop, stop.2])) hstop
  -- no `else` follows, so the reader looks for none
  | ifThen w c b =>
    obtain ⟨hw, -, h⟩ := passes_cons.mp h
    obtain ⟨m, hc, hb⟩ := passes_append.mp h
    have hk : s.current.kind = .if := by rw [hw, w.2]
    rw [statement_eq, statementWith, bind_apply current_run, hk]
    show conditional (statement .standard) .standard s = _
    rw [conditional, bind_apply (advance_run hw), bind_apply (c.condition_eq hc),
      bind_apply (Nested.block_eq b hb), bind_apply current_run, if_neg hf]
    rfl
  | ifElse w c b e b' =>
    obtain ⟨hw, -, h⟩ := passes_cons.mp h
    obtain ⟨m, hc, h⟩ := passes_append.mp h
    obtain ⟨u, hb, h⟩ := passes_append.mp h
    obtain ⟨he, -, hb'⟩ := passes_cons.mp h
    have hk : s.current.kind = .if := by rw [hw, w.2]
    rw [statement_eq, statementWith, bind_apply current_run, hk]
    show conditional (statement .standard) .standard s = _
    rw [conditional, bind_apply (advance_run hw), bind_apply (c.condition_eq hc),
      bind_apply (Nested.block_eq b hb), bind_apply current_run, if_pos (by rw [he, e.2]),
      bind_apply (advance_run he), bind_apply (Nested.block_eq b' hb')]
    rfl
  | loop w c b =>
    obtain ⟨hw, -, h⟩ := passes_cons.mp h
    obtain ⟨m, hc, hb⟩ := passes_append.mp h
    have hk : s.current.kind = .while := by rw [hw, w.2]
    rw [statement_eq, statementWith, bind_apply current_run, hk]
    show loop (statement .standard) .standard s = _
    rw [loop, bind_apply (advance_run hw), bind_apply (c.condition_eq hc),
      bind_apply (Nested.block_eq b hb)]
    rfl
  | block b =>
    have hs := b.current_eq h
    have hk : s.current.kind = .openCurly := by rw [hs, b.head_kind]
    rw [statement_eq, statementWith, bind_apply current_run, hk]
    show blockStmt (statement .standard) s = _
    rw [blockStmt, bind_apply current_run, bind_apply (Nested.block_eq b h), hs]
    rfl

/-- A nested block in front of a stream is read. -/
theorem Nested.block_eq (b : Nested) {s t : Stream} (h : s.Passes b.yield t) :
    blockWith (statement .standard) s = .ok b.tree t := by
  cases b with
  | mk l ds ss r =>
    obtain ⟨hl, -, h⟩ := passes_cons.mp h
    obtain ⟨m, hds, h⟩ := passes_append.mp h
    obtain ⟨u, hss, h⟩ := passes_append.mp h
    obtain ⟨hr, -, rfl⟩ := passes_singleton.mp h
    have hm : m.current.kind ≠ .var :=
      kind_of_statements (· ≠ .var) ss hss (by decide) (by rw [hr, r.2]; decide)
    have hloop : manyWhile (fun t => t.kind ≠ .closeCurly ∧ t.kind ≠ .eof)
        (statement .standard) m = .ok (ss.map Statement.tree) u := by
      refine manyWhile_statements (fun k => k ≠ .closeCurly ∧ k ≠ .eof) (by decide) ?_ hss
        (by rw [hr, r.2]; decide) (by rw [hr, r.2]; decide)
      intro st hst v w hvw hw
      exact Statement.statement_eq st hvw hw
    rw [blockWith, bind_apply (expect_run l hl), bind_apply (declarations_of_passes ds hds hm),
      bind_apply hloop, bind_apply (expect_run r hr), Nested.tree, statementsTree_eq]
    rfl

end

/-! ## Procedures -/

/-- The yield of parameters is read as the parameters. -/
theorem parameters_of_passes (l : Leaf .openParen) (ds : Option (Separated .semicolon Parameter))
    (r : Leaf .closeParen) (hl : s.current = l.1)
    (hds : s.advance.Passes (optionalYield Parameter.yield ds) t) (hr : t.current = r.1) :
    parameters s = .ok ((optionalItems ds).map Parameter.tree) t.advance := by
  have hlist : listBefore .closeParen (separatedBy .semicolon parameter) s.advance =
      .ok ((optionalItems ds).map Parameter.tree) t := by
    refine listBefore_of_passes ds (by rw [hr, r.2]) ?_ ?_ hds
    · intro ds' _ h
      obtain ⟨m, hm, -⟩ := passes_append.mp h
      obtain ⟨m', hns, -⟩ := passes_append.mp hm
      rw [ds'.first.names.current_eq hns, ds'.first.names.first.2]
      decide
    · intro ds' _ h
      refine ds'.separatedBy_eq (fun _ => True) progresses_parameter trivial ?_
        (by rw [hr, r.2]; decide) trivial h
      intro d _ u v huv _
      exact d.parameter_eq huv
  rw [parameters, bind_apply (expect_run l hl), bind_apply hlist, bind_apply (expect_run r hr)]
  rfl

/-- The yield of a header is read as the header. -/
theorem Head.header_eq (h : Head) (hs : s.Passes h.yield t) : header s = .ok h.tree t := by
  obtain ⟨hword, -, hs⟩ := passes_cons.mp hs
  obtain ⟨hname, -, hs⟩ := passes_cons.mp hs
  obtain ⟨hl, -, hs⟩ := passes_cons.mp hs
  obtain ⟨m, hds, hs⟩ := passes_append.mp hs
  obtain ⟨hr, -, hs⟩ := passes_cons.mp hs
  obtain ⟨hresult, -, hty⟩ := passes_cons.mp hs
  rw [header, bind_apply (expect_run h.word hword), bind_apply (expectFor_run h.name hname),
    bind_apply (parameters_of_passes h.l h.parameters h.r hl hds hr),
    bind_apply (expect_run h.result hresult), bind_apply (h.type.declaredType_eq hty)]
  rfl

/-- The yield of the return of a body is read as the return. -/
theorem Final.finalResult_eq (f : Final) (h : s.Passes f.yield t) :
    finalResult .standard s = .ok f.tree t := by
  obtain ⟨hword, -, h⟩ := passes_cons.mp h
  obtain ⟨m, he, h⟩ := passes_append.mp h
  obtain ⟨hstop, -, rfl⟩ := passes_singleton.mp h
  have hm : Follows 7 m.current.kind := by rw [hstop, f.stop.2]; decide
  rw [finalResult, bind_apply current_run, if_pos (by rw [hword, f.word.2]), result,
    bind_apply (expect_run f.word hword), bind_apply (f.e.expression_of_passes he hm),
    bind_apply (expect_run f.stop hstop)]
  rfl

/-- A procedure begins with its reserved word. -/
theorem Routine.current_eq (p : Routine) (h : s.Passes p.yield t) :
    s.current.kind = .procedure := by
  cases p with
  | mk h' b =>
    obtain ⟨m, hm, -⟩ := passes_append.mp h
    rw [(passes_cons.mp hm).1, h'.word.2]

/-- The yield of procedures is that of each of them in turn. -/
theorem routinesYield_eq (ps : List Routine) : routinesYield ps = ps.flatMap Routine.yield := by
  induction ps with
  | nil => rfl
  | cons p ps ih => rw [routinesYield, List.flatMap_cons, ih]

/-- The tree of procedures in a row is that of each of them. -/
theorem routinesTree_eq (ps : List Routine) : routinesTree ps = ps.map Routine.tree := by
  induction ps with
  | nil => rfl
  | cons p ps ih => rw [routinesTree, List.map_cons, ih]

/-- The statements of a body are read up to the return behind them. -/
theorem statements_of_passes (ss : List Statement) (h : s.Passes (statementsYield ss) t)
    (ht : t.current.kind = .return) :
    manyWhile (fun t => t.kind ≠ .return ∧ t.kind ≠ .closeCurly ∧ t.kind ≠ .eof)
      (statement .standard) s = .ok (ss.map Statement.tree) t := by
  refine manyWhile_statements (fun k => k ≠ .return ∧ k ≠ .closeCurly ∧ k ≠ .eof) (by decide) ?_ h
    (by rw [ht]; decide) (by rw [ht]; decide)
  intro st _ v w hvw hw
  exact st.statement_eq hvw hw

/-- Declarations stand in front of statements. -/
theorem kind_of_declarations (P : Kind → Prop) (ds : List Declaration)
    (h : s.Passes (ds.flatMap Declaration.yield) t) (hvar : P .var) (ht : P t.current.kind) :
    P s.current.kind := by
  refine current_of_flatMap (P := fun x => P x.kind) (fun d _ _ _ hd => ?_) h ht
  rw [(passes_cons.mp hd).1, d.var.2]
  exact hvar

mutual

/-- A procedure in front of a stream is read. -/
theorem Routine.procedure_eq (p : Routine) {s t : Stream} (h : s.Passes p.yield t) :
    procedure .standard s = .ok p.tree t := by
  cases p with
  | mk h' b =>
    obtain ⟨m, hh, hb⟩ := passes_append.mp h
    rw [Grammar.procedure_eq, procedureWith, bind_apply (h'.header_eq hh),
      bind_apply (Interior.body_eq b hb)]
    rfl

/-- A body in front of a stream is read. -/
theorem Interior.body_eq (b : Interior) {s t : Stream} (h : s.Passes b.yield t) :
    bodyWith (procedure .standard) .standard s = .ok b.tree t := by
  cases b with
  | mk l ps ds ss f r =>
    obtain ⟨hl, -, h⟩ := passes_cons.mp h
    obtain ⟨m₁, hps, h⟩ := passes_append.mp h
    obtain ⟨m₂, hds, h⟩ := passes_append.mp h
    obtain ⟨m₃, hss, h⟩ := passes_append.mp h
    obtain ⟨m₄, hfinal, h⟩ := passes_append.mp h
    obtain ⟨hr, -, rfl⟩ := passes_singleton.mp h
    -- each part ends in front of a token that does not go on with it
    have h₃ : m₃.current.kind = .return := by rw [(passes_cons.mp hfinal).1, f.word.2]
    have h₂ : m₂.current.kind ≠ .var ∧ m₂.current.kind ≠ .procedure :=
      kind_of_statements (fun k => k ≠ .var ∧ k ≠ .procedure) ss hss (by decide)
        (by rw [h₃]; decide)
    have h₁ : m₁.current.kind ≠ .procedure :=
      kind_of_declarations (· ≠ .procedure) ds hds (by decide) h₂.2
    have hloop : manyWhile (fun t => t.kind = .procedure) (procedure .standard) s.advance =
        .ok (ps.map Routine.tree) m₁ := by
      rw [routinesYield_eq] at hps
      refine manyWhile_of_passes (fun _ => True) progresses_procedure ?_ ?_ (by simpa using h₁)
        trivial hps
      · intro p _ v w hvw
        exact ⟨decide_eq_true (p.current_eq hvw), trivial⟩
      · intro p hp v w hvw _
        exact Routine.procedure_eq p hvw
    rw [bodyWith, bind_apply (expect_run l hl), bind_apply hloop,
      bind_apply (declarations_of_passes ds hds h₂.1),
      bind_apply (statements_of_passes ss hss h₃), bind_apply (f.finalResult_eq hfinal),
      bind_apply (expect_run r hr), Interior.tree, statementsTree_eq, routinesTree_eq]
    rfl

end

/-! ## Programs -/

/-- A program in front of an end marker is read. -/
theorem ProgramText.program_eq (p : ProgramText) (h : s.Passes p.yield t)
    (ht : t.current.kind = .eof) : program s = .ok (p.tree t.current.line) t := by
  have hloop : manyWhile (fun t => t.kind ≠ .eof) topProcedure s =
      .ok (p.routines.map Routine.tree) t := by
    rw [ProgramText.yield, routinesYield_eq] at h
    refine manyWhile_of_passes (fun _ => True) progresses_topProcedure ?_ ?_ (by simpa using ht)
      trivial h
    · intro r _ v w hvw
      have hk := r.current_eq hvw
      exact ⟨decide_eq_true (by rw [hk]; decide), trivial⟩
    · intro r _ v w hvw _
      rw [topProcedure, bind_apply current_run, if_pos (r.current_eq hvw)]
      exact r.procedure_eq hvw
  rw [program, bind_apply hloop, bind_apply current_run, ProgramText.tree, routinesTree_eq]
  rfl

end ProcLang.Concrete
