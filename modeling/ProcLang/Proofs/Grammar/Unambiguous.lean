/-
  A token list has at most one derivation.

  `OneWay yield follow a` says that `a` is recognised by its yield: when the yields of `a` and of
  `b` both lie in front of a stream, and behind each stands a token that `follow` allows, then
  `a = b`.  For each category there is a `follow` that its surroundings grant, and then the first
  tokens decide between the productions.

  The left recursive productions are the exception, since all of them begin alike.  A phrase of
  level `n + 1` is therefore taken apart into its first operand and the operators and operands
  behind it (`Phrase.exists_attach`), which are found one by one, from left to right.  The
  induction for phrases is on the length of the yield, and on the level within it.
-/
import ProcLang.Proofs.Grammar.Complete

namespace ProcLang.Concrete

open Grammar Parse ProcLang.Stream

variable {s t u : Stream}

/-- No other yield than that of `a` lies in front of a stream where that of `a` does. -/
def OneWay {α : Type} (yield : α → List Token) (follow : Kind → Prop) (a : α) : Prop :=
  ∀ (b : α) (s t u : Stream), s.Passes (yield a) t → s.Passes (yield b) u →
    follow t.current.kind → follow u.current.kind → a = b ∧ t = u

/-! ## Tokens -/

/-- A leaf is the current token. -/
theorem Leaf.eq_of_current {k : Kind} {x y : Leaf k} (hx : s.current = x.1)
    (hy : s.current = y.1) : x = y := Subtype.ext (hx.symm.trans hy)

/-- Two leaves of one kind that stand in one place are the same. -/
theorem leaf_cons {k : Kind} {x y : Leaf k} {xs ys : List Token} (h : s.Passes (x.1 :: xs) t)
    (h' : s.Passes (y.1 :: ys) u) :
    x = y ∧ ∃ m : Stream, m.Passes xs t ∧ m.Passes ys u := by
  obtain ⟨hx, -, h⟩ := passes_cons.mp h
  obtain ⟨hy, -, h'⟩ := passes_cons.mp h'
  exact ⟨Leaf.eq_of_current hx hy, s.advance, h, h'⟩

/-- A yield of one leaf gives the leaf and the stream behind it. -/
theorem leaf_last {k : Kind} {x y : Leaf k} (h : s.Passes [x.1] t) (h' : s.Passes [y.1] u) :
    x = y ∧ t = u := by
  obtain ⟨hxy, m, rfl, rfl⟩ := leaf_cons h h'
  exact ⟨hxy, rfl⟩

/-- Leaves of two kinds do not stand in one place. -/
theorem leaf_ne {k k' : Kind} {x : Leaf k} {y : Leaf k'} {xs ys : List Token} (hk : k ≠ k')
    (h : s.Passes (x.1 :: xs) t) : ¬ s.Passes (y.1 :: ys) u := by
  intro h'
  have hxy := (passes_cons.mp h).1.symm.trans (passes_cons.mp h').1
  exact hk (x.2.symm.trans ((congrArg Token.kind hxy).trans y.2))

/-- An operator is known from its token. -/
theorem Infix.eq_of_current {n : Nat} {x y : Infix n} (hx : s.current = x.token)
    (hy : s.current = y.token) : x = y := by
  obtain ⟨x, op, hop⟩ := x
  obtain ⟨y, op', hop'⟩ := y
  have hxy : x = y := hx.symm.trans hy
  subst hxy
  rw [hop] at hop'
  obtain rfl := Option.some.inj hop'
  rfl

/-- A prefix is known from its token. -/
theorem Prefix.eq_of_current {x y : Prefix} (hx : s.current = x.token)
    (hy : s.current = y.token) : x = y := by
  obtain ⟨x, op, hop⟩ := x
  obtain ⟨y, op', hop'⟩ := y
  have hxy : x = y := hx.symm.trans hy
  subst hxy
  rw [hop] at hop'
  obtain rfl := Option.some.inj hop'
  rfl

/-- A literal is no name. -/
theorem Literal.ne_identifier (l : Literal) : l.token.kind ≠ .identifier := by
  rw [l.kind_token]
  cases l <;> exact nofun

/-- A literal does not begin as a name does. -/
theorem Literal.not_passes_name (l : Literal) {x : Leaf .identifier} {xs ys : List Token}
    (h : s.Passes (l.token :: xs) t) : ¬ s.Passes (x.1 :: ys) u := by
  intro h'
  have hlx := (passes_cons.mp h).1.symm.trans (passes_cons.mp h').1
  exact l.ne_identifier ((congrArg Token.kind hlx).trans x.2)

/-- The token of a literal tells what it denotes. -/
theorem Literal.eq_of_token {l l' : Literal} (h : l.token = l'.token) : l = l' := by
  have hkind : l.kind = l'.kind := by rw [← l.kind_token, ← l'.kind_token, h]
  cases l with
  | number x n worth small =>
    cases l' with
    | number y m worth' small' =>
      obtain rfl : x = y := Subtype.ext h
      have hn := (Text.integerLiteral?_eq_some_iff ⟨n, worth⟩).mpr ⟨n, worth, small, rfl⟩
      have hm := (Text.integerLiteral?_eq_some_iff ⟨m, worth'⟩).mpr ⟨m, worth', small', rfl⟩
      have hnm : (n : Int) = m := Option.some.inj (hn.symm.trans hm)
      obtain rfl : n = m := Int.ofNat.inj hnm
      rfl
    | _ => cases hkind
  | char x c single =>
    cases l' with
    | char y d single' =>
      obtain rfl : x = y := Subtype.ext h
      rw [single] at single'
      obtain ⟨rfl, -⟩ := List.cons.inj single'
      rfl
    | _ => cases hkind
  | true x =>
    cases l' with
    | true y => rw [show x = y from Subtype.ext h]
    | _ => cases hkind
  | false x =>
    cases l' with
    | false y => rw [show x = y from Subtype.ext h]
    | _ => cases hkind
  | null x =>
    cases l' with
    | null y => rw [show x = y from Subtype.ext h]
    | _ => cases hkind

/-! ## Lists -/

section Lists

variable {α : Type} {yield : α → List Token} {follow : Kind → Prop}

/-- What can stand behind items, and starts items, stands in front of a list of items. -/
theorem follow_of_flatMap {xs : List α}
    (hfirst : ∀ (x : α) (s t : Stream), s.Passes (yield x) t → follow s.current.kind)
    (h : s.Passes (xs.flatMap yield) t) (ht : follow t.current.kind) : follow s.current.kind :=
  current_of_flatMap (P := fun x => follow x.kind) (fun x _ s t hx => hfirst x s t hx) h ht

/-- Items are found one after the other, up to a token that starts none. -/
theorem list_oneWay (wanted : Kind → Prop) {xs ys : List α}
    (hxs : ∀ x ∈ xs, OneWay yield follow x)
    (hfirst : ∀ (x : α) (s t : Stream), s.Passes (yield x) t →
      wanted s.current.kind ∧ follow s.current.kind)
    (h : s.Passes (xs.flatMap yield) t) (h' : s.Passes (ys.flatMap yield) u)
    (ht : ¬ wanted t.current.kind ∧ follow t.current.kind)
    (hu : ¬ wanted u.current.kind ∧ follow u.current.kind) : xs = ys ∧ t = u := by
  -- what starts an item can also stand behind one
  have hnext : ∀ (x : α) (s t : Stream), s.Passes (yield x) t → follow s.current.kind :=
    fun x s t hx => (hfirst x s t hx).2
  induction xs generalizing s ys with
  | nil =>
    obtain rfl := passes_nil.mp h
    cases ys with
    | nil => exact ⟨rfl, passes_nil.mp h'⟩
    | cons y ys =>
      rw [List.flatMap_cons] at h'
      obtain ⟨m, hy, -⟩ := passes_append.mp h'
      exact absurd (hfirst y s m hy).1 ht.1
  | cons x xs ih =>
    rw [List.flatMap_cons] at h
    obtain ⟨m, hx, h⟩ := passes_append.mp h
    cases ys with
    | nil =>
      obtain rfl := passes_nil.mp h'
      exact absurd (hfirst x s m hx).1 hu.1
    | cons y ys =>
      rw [List.flatMap_cons] at h'
      obtain ⟨m', hy, h'⟩ := passes_append.mp h'
      obtain ⟨rfl, rfl⟩ := hxs x List.mem_cons_self y s m m' hx hy
        (follow_of_flatMap hnext h ht.2) (follow_of_flatMap hnext h' hu.2)
      obtain ⟨rfl, rfl⟩ := ih (fun z hz => hxs z (List.mem_cons_of_mem _ hz)) h h'
      exact ⟨rfl, rfl⟩

/-- A separator with an item behind it. -/
theorem separator_oneWay {k : Kind} {x : Leaf k × α} (hx : OneWay yield follow x.2) :
    OneWay (fun x : Leaf k × α => x.1.1 :: yield x.2) follow x := by
  intro y s t u h h' ht hu
  obtain ⟨hk, m, h, h'⟩ := leaf_cons h h'
  obtain ⟨hxy, rfl⟩ := hx y.2 m t u h h' ht hu
  exact ⟨Prod.ext hk hxy, rfl⟩

/-- A list is recognised when its items are, and when the separator ends neither an item nor the
    list. -/
theorem Separated.oneWay {k : Kind} (l : Separated k α) (hsep : follow k)
    (hl : ∀ x ∈ l.items, OneWay yield follow x) :
    OneWay (Separated.yield yield) (fun c => c ≠ k ∧ follow c) l := by
  intro l' s t u h h' ht hu
  obtain ⟨m, hx, h⟩ := passes_append.mp h
  obtain ⟨m', hx', h'⟩ := passes_append.mp h'
  have hfirst : ∀ (x : Leaf k × α) (s t : Stream), s.Passes (x.1.1 :: yield x.2) t →
      s.current.kind = k ∧ follow s.current.kind := by
    intro x s t hp
    have hk : s.current.kind = k := by rw [(passes_cons.mp hp).1, x.1.2]
    exact ⟨hk, hk ▸ hsep⟩
  have hnext : ∀ (x : Leaf k × α) (s t : Stream), s.Passes (x.1.1 :: yield x.2) t →
      follow s.current.kind := fun x s t hp => (hfirst x s t hp).2
  have hone := hl l.first List.mem_cons_self
  obtain ⟨hxy, rfl⟩ := hone l'.first s m m' hx hx' (follow_of_flatMap hnext h ht.2)
    (follow_of_flatMap hnext h' hu.2)
  have hrest : ∀ x ∈ l.rest, OneWay (fun x : Leaf k × α => x.1.1 :: yield x.2) follow x :=
    fun x hx => separator_oneWay (hl x.2 (List.mem_cons_of_mem _ (List.mem_map_of_mem hx)))
  obtain ⟨hrest', rfl⟩ := list_oneWay (· = k) hrest hfirst h h' ht hu
  obtain ⟨x, xs⟩ := l
  obtain ⟨y, ys⟩ := l'
  obtain rfl : x = y := hxy
  obtain rfl : xs = ys := hrest'
  exact ⟨rfl, rfl⟩

/-- A list that can be missing, up to the token that closes it. -/
theorem optional_eq {k closing : Kind} {l l' : Option (Separated k α)}
    (hl : ∀ x ∈ l, OneWay (Separated.yield yield) follow x)
    (hfirst : ∀ (x : Separated k α) (s t : Stream), s.Passes (x.yield yield) t →
      s.current.kind ≠ closing)
    (hclosing : follow closing) (ht : t.current.kind = closing) (hu : u.current.kind = closing)
    (h : s.Passes (optionalYield yield l) t) (h' : s.Passes (optionalYield yield l') u) :
    l = l' ∧ t = u := by
  cases l with
  | none =>
    obtain rfl := passes_nil.mp h
    cases l' with
    | none => exact ⟨rfl, passes_nil.mp h'⟩
    | some x => exact absurd ht (hfirst x s u h')
  | some x =>
    cases l' with
    | none =>
      obtain rfl := passes_nil.mp h'
      exact absurd hu (hfirst x s t h)
    | some y =>
      have hone := hl x rfl
      obtain ⟨rfl, rfl⟩ := hone y s t u h h' (ht ▸ hclosing) (hu ▸ hclosing)
      exact ⟨rfl, rfl⟩

end Lists

/-! ## Expressions -/

/-- Phrases whose yields have fewer than `n` tokens are recognised. -/
def PhrasesOneWay (n : Nat) : Prop :=
  ∀ (ℓ : Nat) (d : Phrase ℓ), d.yield.length < n → OneWay Phrase.yield (Follows (ℓ + 1)) d

/-- An expression between brackets. -/
theorem enclosed_eq {k k' : Kind} {l l' : Leaf k} {e e' : Expression} {r r' : Leaf k'}
    (hk : Follows 7 k') (he : OneWay Phrase.yield (Follows 7) e)
    (h : s.Passes (l.1 :: (e.yield ++ [r.1])) t) (h' : s.Passes (l'.1 :: (e'.yield ++ [r'.1])) u) :
    l = l' ∧ e = e' ∧ r = r' ∧ t = u := by
  obtain ⟨rfl, v, h, h'⟩ := leaf_cons h h'
  obtain ⟨m, hm, h⟩ := passes_append.mp h
  obtain ⟨m', hm', h'⟩ := passes_append.mp h'
  have hf : Follows 7 m.current.kind := by rw [(passes_cons.mp h).1, r.2]; exact hk
  have hf' : Follows 7 m'.current.kind := by rw [(passes_cons.mp h').1, r'.2]; exact hk
  obtain ⟨rfl, rfl⟩ := he e' v m m' hm hm' hf hf'
  obtain ⟨rfl, rfl⟩ := leaf_last h h'
  exact ⟨rfl, rfl, rfl, rfl⟩

/-- What stands between brackets is shorter. -/
theorem length_lt_of_enclosed {x y : Token} {ts : List Token} {n : Nat}
    (h : (x :: (ts ++ [y])).length ≤ n) : ts.length < n := by
  rw [List.length_cons, List.length_append] at h
  omega

/-- A place is recognised when the phrases that are no longer than it are: the one in its
    brackets. -/
theorem Place.oneWay_of_phrases {n : Nat} (hin : PhrasesOneWay n) (p : Place)
    (hp : p.yield.length ≤ n) : OneWay Place.yield (· ≠ .openBracket) p := by
  intro q s t u h h' ht hu
  cases p with
  | name x =>
    cases q with
    | name y =>
      obtain ⟨rfl, rfl⟩ := leaf_last h h'
      exact ⟨rfl, rfl⟩
    | pointee c y => exact absurd h' (leaf_ne (by decide) h)
    | element y l i r =>
      -- an index would have to follow the name
      obtain ⟨-, m, rfl, h'⟩ := leaf_cons h h'
      rw [(passes_cons.mp h').1, l.2] at ht
      exact absurd rfl ht
  | pointee c x =>
    cases q with
    | pointee c' y =>
      obtain ⟨rfl, m, h, h'⟩ := leaf_cons h h'
      obtain ⟨rfl, rfl⟩ := leaf_last h h'
      exact ⟨rfl, rfl⟩
    | name y | element y => exact absurd h' (leaf_ne (by decide) h)
  | element x l i r =>
    cases q with
    | element y l' i' r' =>
      obtain ⟨rfl, m, h, h'⟩ := leaf_cons h h'
      have hlt := length_lt_of_enclosed (Nat.le_of_succ_le hp)
      obtain ⟨rfl, rfl, rfl, rfl⟩ := enclosed_eq (by decide) (hin 6 i hlt) h h'
      exact ⟨rfl, rfl⟩
    | name y =>
      obtain ⟨-, m, h, rfl⟩ := leaf_cons h h'
      rw [(passes_cons.mp h).1, l.2] at hu
      exact absurd rfl hu
    | pointee c y => exact absurd h' (leaf_ne (by decide) h)

/-- A phrase without operators around it is recognised by its first token, a name by the token
    behind it too. -/
theorem Phrase.oneWay_zero {n : Nat} (hin : PhrasesOneWay n) (d : Phrase 0)
    (hd : d.yield.length ≤ n) : OneWay Phrase.yield (Follows 1) d := by
  intro b s t u h h' ht hu
  -- the form leaves literals, names and elements to be told apart
  have hform : d.form = b.form :=
    Option.some.inj ((d.exprStart?_eq h).symm.trans (b.exprStart?_eq h'))
  cases d with
  | literal l =>
    cases b with
    | literal l' =>
      obtain ⟨hl, -, rfl⟩ := passes_singleton.mp h
      obtain ⟨hl', -, rfl⟩ := passes_singleton.mp h'
      rw [Literal.eq_of_token (hl.symm.trans hl')]
      exact ⟨rfl, rfl⟩
    | name x | element x => exact absurd h' (l.not_passes_name h)
    | _ => cases hform
  | name x =>
    cases b with
    | name y =>
      obtain ⟨rfl, rfl⟩ := leaf_last h h'
      exact ⟨rfl, rfl⟩
    | literal l => exact absurd h (l.not_passes_name h')
    | element y l =>
      obtain ⟨-, m, rfl, h'⟩ := leaf_cons h h'
      have hk := ht.1
      rw [(passes_cons.mp h').1, l.2] at hk
      exact absurd rfl hk
    | _ => cases hform
  | element x l i r =>
    cases b with
    | element y l' i' r' =>
      obtain ⟨rfl, m, h, h'⟩ := leaf_cons h h'
      have hlt := length_lt_of_enclosed (Nat.le_of_succ_le hd)
      obtain ⟨rfl, rfl, rfl, rfl⟩ := enclosed_eq (by decide) (hin 6 i hlt) h h'
      exact ⟨rfl, rfl⟩
    | literal l' => exact absurd h (l'.not_passes_name h')
    | name y =>
      obtain ⟨-, m, h, rfl⟩ := leaf_cons h h'
      have hk := hu.1
      rw [(passes_cons.mp h).1, l.2] at hk
      exact absurd rfl hk
    | _ => cases hform
  | group l e r =>
    cases b with
    | group l' e' r' =>
      have hlt := length_lt_of_enclosed hd
      obtain ⟨rfl, rfl, rfl, rfl⟩ := enclosed_eq (by decide) (hin 6 e hlt) h h'
      exact ⟨rfl, rfl⟩
    | _ => cases hform
  | absolute l e r =>
    cases b with
    | absolute l' e' r' =>
      have hlt := length_lt_of_enclosed hd
      obtain ⟨rfl, rfl, rfl, rfl⟩ := enclosed_eq (by decide) (hin 6 e hlt) h h'
      exact ⟨rfl, rfl⟩
    | _ => cases hform
  | prefixed op e =>
    cases b with
    | prefixed op' e' =>
      obtain ⟨hop, -, h⟩ := passes_cons.mp h
      obtain ⟨hop', -, h'⟩ := passes_cons.mp h'
      have hlt : e.yield.length < n := hd
      obtain ⟨rfl, rfl⟩ := hin 0 e hlt e' _ t u h h' ht hu
      rw [Prefix.eq_of_current hop hop']
      exact ⟨rfl, rfl⟩
    | _ => cases hform
  | addressOf a p =>
    cases b with
    | addressOf a' p' =>
      obtain ⟨rfl, m, h, h'⟩ := leaf_cons h h'
      have hle : p.yield.length ≤ n := Nat.le_of_succ_le hd
      obtain ⟨rfl, rfl⟩ := p.oneWay_of_phrases hin hle p' m t u h h' ht.1 hu.1
      exact ⟨rfl, rfl⟩
    | _ => cases hform

/-- An operator of level `n` and the operand behind it. -/
abbrev Link (n : Nat) := Infix (n + 1) × Phrase n

/-- The tokens of an operator and of the operand behind it. -/
def Link.yield {n : Nat} (x : Link n) : List Token := x.1.token :: x.2.yield

/-- The phrase that goes on with operators and operands. -/
def Phrase.attach {n : Nat} (d : Phrase (n + 1)) (c : List (Link n)) : Phrase (n + 1) :=
  c.foldl (fun l x => .binary l x.1 x.2) d

/-- Attaching links puts their tokens behind. -/
theorem Phrase.yield_attach {n : Nat} (d : Phrase (n + 1)) (c : List (Link n)) :
    (d.attach c).yield = d.yield ++ c.flatMap Link.yield := by
  induction c generalizing d with
  | nil => exact (List.append_nil _).symm
  | cons x c ih =>
    show ((Phrase.binary d x.1 x.2).attach c).yield = _
    rw [ih, Phrase.yield, List.flatMap_cons, List.append_assoc]
    rfl

/-- A phrase is its first operand with links behind it. -/
theorem Phrase.exists_attach {n : Nat} (d : Phrase (n + 1)) :
    ∃ (e : Phrase n) (c : List (Link n)), d = (Phrase.lift e).attach c := by
  cases d with
  | lift e => exact ⟨e, [], rfl⟩
  | binary l op r =>
    -- the links lie to the right of the left operand, so this one is the last
    obtain ⟨e, c, hl⟩ := l.exists_attach
    refine ⟨e, c ++ [(op, r)], ?_⟩
    rw [Phrase.attach, List.foldl_append, hl]
    rfl

/-- A link is recognised when its operand is. -/
theorem Link.oneWay {n : Nat} (x : Link n) (hx : OneWay Phrase.yield (Follows (n + 1)) x.2) :
    OneWay Link.yield (Follows (n + 1)) x := by
  intro y s t u h h' ht hu
  obtain ⟨hop, -, h⟩ := passes_cons.mp h
  obtain ⟨hop', -, h'⟩ := passes_cons.mp h'
  obtain ⟨hxy, rfl⟩ := hx y.2 _ t u h h' ht hu
  exact ⟨Prod.ext (Infix.eq_of_current hop hop') hxy, rfl⟩

/-- A phrase of a level is recognised when the operands of its operators are. -/
theorem Phrase.oneWay_succ {n : Nat} (e : Phrase n) (c : List (Link n))
    (he : OneWay Phrase.yield (Follows (n + 1)) e)
    (hc : ∀ x ∈ c, OneWay Phrase.yield (Follows (n + 1)) x.2) :
    OneWay Phrase.yield (Follows (n + 2)) ((Phrase.lift e).attach c) := by
  intro b s t u h h' ht hu
  obtain ⟨e', c', rfl⟩ := b.exists_attach
  rw [Phrase.yield_attach] at h h'
  obtain ⟨m, h, hlinks⟩ := passes_append.mp h
  obtain ⟨m', h', hlinks'⟩ := passes_append.mp h'
  -- a link starts with an operator of its level, which no stronger phrase goes on with
  have hfirst : ∀ (x : Link n) (s t : Stream), s.Passes (Link.yield x) t →
      operatorAt (n + 1) s.current.kind ≠ none ∧ Follows (n + 1) s.current.kind := by
    intro x s t hx
    rw [(passes_cons.mp hx).1, x.1.op_eq]
    exact ⟨nofun, follows_of_operatorAt x.1.op_eq⟩
  have hlast : ∀ {v : Stream}, Follows (n + 2) v.current.kind →
      ¬ operatorAt (n + 1) v.current.kind ≠ none ∧ Follows (n + 1) v.current.kind :=
    fun hv => ⟨not_not_intro (hv.2 _ (Nat.lt_succ_self _)), hv.mono (Nat.le_succ _)⟩
  have hnext : ∀ (x : Link n) (s t : Stream), s.Passes (Link.yield x) t →
      Follows (n + 1) s.current.kind := fun x s t hx => (hfirst x s t hx).2
  obtain ⟨rfl, rfl⟩ := he e' s m m' h h' (follow_of_flatMap hnext hlinks (hlast ht).2)
    (follow_of_flatMap hnext hlinks' (hlast hu).2)
  obtain ⟨rfl, rfl⟩ := list_oneWay (fun k => operatorAt (n + 1) k ≠ none)
    (fun x hx => Link.oneWay x (hc x hx)) hfirst hlinks hlinks' (hlast ht) (hlast hu)
  exact ⟨rfl, rfl⟩

/-- Phrases of every length and every level are recognised. -/
theorem phrasesOneWay (n : Nat) : PhrasesOneWay n := by
  -- the yield gets shorter inside brackets and behind prefixes, and the level in operands
  induction n with
  | zero => exact fun _ _ hd => absurd hd (Nat.not_lt_zero _)
  | succ n ih =>
    intro ℓ
    induction ℓ with
    | zero => exact fun d hd => Phrase.oneWay_zero ih d (Nat.le_of_lt_succ hd)
    | succ ℓ ihℓ =>
      intro d hd
      obtain ⟨e, c, rfl⟩ := d.exists_attach
      rw [Phrase.yield_attach, List.length_append] at hd
      have he : e.yield.length < n + 1 := Nat.lt_of_le_of_lt (Nat.le_add_right _ _) hd
      refine Phrase.oneWay_succ e c (ihℓ e he) fun x hx => ihℓ x.2 ?_
      have hle : x.2.yield.length ≤ (c.flatMap Link.yield).length := by
        have hpart := List.sublist_flatten_of_mem (List.mem_map_of_mem (f := Link.yield) hx)
        have hmem := hpart.length_le
        rw [← List.flatMap_def] at hmem
        exact Nat.le_trans (Nat.le_succ _) hmem
      omega

/-- **Phrases are recognised by their tokens**, where no operator of their level follows. -/
theorem Phrase.oneWay {n : Nat} (d : Phrase n) : OneWay Phrase.yield (Follows (n + 1)) d :=
  phrasesOneWay _ n d (Nat.lt_succ_self _)

/-- Places are recognised, unless a bracket follows a name. -/
theorem Place.oneWay (p : Place) : OneWay Place.yield (· ≠ .openBracket) p :=
  p.oneWay_of_phrases (phrasesOneWay _) (Nat.le_refl _)

/-! ## Types and declarations -/

/-- Types are recognised by their first token. -/
theorem TypeName.oneWay (ty : TypeName) : OneWay TypeName.yield (fun _ => True) ty := by
  intro ty' s t u h h' _ _
  cases ty with
  | word x d hd =>
    obtain ⟨hx, -, rfl⟩ := passes_singleton.mp h
    cases ty' with
    | word y d' hd' =>
      obtain ⟨hy, -, rfl⟩ := passes_singleton.mp h'
      obtain rfl : x = y := hx.symm.trans hy
      rw [hd] at hd'
      obtain rfl := Option.some.inj hd'
      exact ⟨rfl, rfl⟩
    | string y =>
      have hy := (passes_cons.mp h').1
      obtain rfl : x = y.1 := hx.symm.trans hy
      rw [y.2] at hd
      cases hd
  | string x l size n worth small r =>
    cases ty' with
    | word y d hd =>
      obtain rfl : x.1 = y := (passes_cons.mp h).1.symm.trans (passes_cons.mp h').1
      rw [x.2] at hd
      cases hd
    | string y l' size' m worth' small' r' =>
      obtain ⟨rfl, v, h, h'⟩ := leaf_cons h h'
      obtain ⟨rfl, v, h, h'⟩ := leaf_cons h h'
      obtain ⟨rfl, v, h, h'⟩ := leaf_cons h h'
      obtain ⟨rfl, rfl⟩ := leaf_last h h'
      -- one numeral denotes one size
      have hn := (Text.magnitude?_eq_some_iff (by decide)).mpr worth
      have hm := (Text.magnitude?_eq_some_iff (by decide)).mpr worth'
      obtain rfl : n = m := Option.some.inj (hn.symm.trans hm)
      exact ⟨rfl, rfl⟩

/-- Lists of names are recognised, unless a comma follows. -/
theorem Names.oneWay (ns : Names) : OneWay Names.yield (· ≠ .comma) ns := by
  have hname : ∀ x ∈ ns.items,
      OneWay (fun x : Leaf .identifier => [x.1]) (fun _ => True) x := by
    intro x _ y s t u h h' _ _
    exact leaf_last h h'
  intro ns' s t u h h' ht hu
  exact Separated.oneWay ns trivial hname ns' s t u h h' ⟨ht, trivial⟩ ⟨hu, trivial⟩

/-- Names and their type, with a colon between them. -/
theorem typed_eq {ns ns' : Names} {c c' : Leaf .colon} {xs ys : List Token}
    (h : s.Passes (ns.yield ++ c.1 :: xs) t) (h' : s.Passes (ns'.yield ++ c'.1 :: ys) u) :
    ns = ns' ∧ c = c' ∧ ∃ m : Stream, m.Passes xs t ∧ m.Passes ys u := by
  obtain ⟨m, hns, h⟩ := passes_append.mp h
  obtain ⟨m', hns', h'⟩ := passes_append.mp h'
  have hm : m.current.kind ≠ .comma := by rw [(passes_cons.mp h).1, c.2]; decide
  have hm' : m'.current.kind ≠ .comma := by rw [(passes_cons.mp h').1, c'.2]; decide
  obtain ⟨rfl, rfl⟩ := ns.oneWay ns' s m m' hns hns' hm hm'
  exact ⟨rfl, leaf_cons h h'⟩

/-- Parameter groups are recognised, whatever follows. -/
theorem Parameter.oneWay (p : Parameter) : OneWay Parameter.yield (fun _ => True) p := by
  intro p' s t u h h' _ _
  obtain ⟨ns, c, ty⟩ := p
  obtain ⟨ns', c', ty'⟩ := p'
  obtain ⟨rfl, rfl, m, h, h'⟩ := typed_eq h h'
  obtain ⟨rfl, rfl⟩ := ty.oneWay ty' m t u h h' trivial trivial
  exact ⟨rfl, rfl⟩

/-- Declarations are recognised, whatever follows. -/
theorem Declaration.oneWay (d : Declaration) : OneWay Declaration.yield (fun _ => True) d := by
  intro d' s t u h h' _ _
  obtain ⟨x, ns, c, ty, stop⟩ := d
  obtain ⟨x', ns', c', ty', stop'⟩ := d'
  obtain ⟨rfl, m, h, h'⟩ := leaf_cons h h'
  obtain ⟨rfl, rfl, m, h, h'⟩ := typed_eq h h'
  obtain ⟨v, hty, h⟩ := passes_append.mp h
  obtain ⟨v', hty', h'⟩ := passes_append.mp h'
  obtain ⟨rfl, rfl⟩ := ty.oneWay ty' m v v' hty hty' trivial trivial
  obtain ⟨rfl, rfl⟩ := leaf_last h h'
  exact ⟨rfl, rfl⟩

/-- Declarations in a row are recognised when no other `var` follows. -/
theorem declarations_eq {ds ds' : List Declaration}
    (h : s.Passes (ds.flatMap Declaration.yield) t)
    (h' : s.Passes (ds'.flatMap Declaration.yield) u) (ht : t.current.kind ≠ .var)
    (hu : u.current.kind ≠ .var) : ds = ds' ∧ t = u := by
  have hds : ∀ d ∈ ds, OneWay Declaration.yield (fun _ => True) d := fun d _ => d.oneWay
  have hfirst : ∀ (d : Declaration) (s t : Stream), s.Passes d.yield t →
      s.current.kind = .var ∧ True := by
    intro d s t hd
    rw [(passes_cons.mp hd).1, d.var.2]
    exact ⟨rfl, trivial⟩
  exact list_oneWay (· = .var) hds hfirst h h' ⟨ht, trivial⟩ ⟨hu, trivial⟩

/-! ## Statements -/

/-- Conditions are recognised by their parentheses. -/
theorem Condition.oneWay (c : Condition) : OneWay Condition.yield (fun _ => True) c := by
  intro c' s t u h h' _ _
  obtain ⟨l, e, r⟩ := c
  obtain ⟨l', e', r'⟩ := c'
  obtain ⟨rfl, rfl, rfl, rfl⟩ := enclosed_eq (by decide) e.oneWay h h'
  exact ⟨rfl, rfl⟩

/-- Arguments are recognised in front of the parenthesis that closes them. -/
theorem arguments_eq {es es' : Arguments} (h : s.Passes (optionalYield Phrase.yield es) t)
    (h' : s.Passes (optionalYield Phrase.yield es') u) (ht : t.current.kind = .closeParen)
    (hu : u.current.kind = .closeParen) : es = es' ∧ t = u := by
  refine optional_eq (fun l _ => l.oneWay (by decide) fun e _ => e.oneWay) ?_ (by decide) ht hu h h'
  intro l s t hl
  obtain ⟨m, hm, -⟩ := passes_append.mp hl
  exact l.first.current_ne hm rfl

/-- The target of an assignment and the sign behind it. -/
theorem target_eq {p p' : Place} {sign sign' : Leaf .assignment} {xs ys : List Token}
    (h : s.Passes (p.yield ++ sign.1 :: xs) t) (h' : s.Passes (p'.yield ++ sign'.1 :: ys) u) :
    p = p' ∧ sign = sign' ∧ ∃ m : Stream, m.Passes xs t ∧ m.Passes ys u := by
  obtain ⟨m, hp, h⟩ := passes_append.mp h
  obtain ⟨m', hp', h'⟩ := passes_append.mp h'
  have hm : m.current.kind ≠ .openBracket := by rw [(passes_cons.mp h).1, sign.2]; decide
  have hm' : m'.current.kind ≠ .openBracket := by rw [(passes_cons.mp h').1, sign'.2]; decide
  obtain ⟨rfl, rfl⟩ := p.oneWay p' s m m' hp hp' hm hm'
  exact ⟨rfl, leaf_cons h h'⟩

/-- No expression starts with a string literal, and none with a call. -/
theorem value_ne_expression {e : Expression} {stop : Leaf .semicolon} {xs : List Token}
    (h : s.Passes (e.yield ++ [stop.1]) t) :
    (∀ text : Leaf .stringLiteral, ¬ s.Passes (text.1 :: xs) u) ∧
      ∀ (x : Leaf .identifier) (l : Leaf .openParen), ¬ s.Passes (x.1 :: l.1 :: xs) u := by
  obtain ⟨m, he, h⟩ := passes_append.mp h
  have hm : m.current.kind = .semicolon := by rw [(passes_cons.mp h).1, stop.2]
  constructor
  · intro text htext
    refine e.current_ne he (k := .stringLiteral) rfl ?_
    rw [(passes_cons.mp htext).1, text.2]
  · intro x l hcall
    obtain ⟨hx, -, hcall⟩ := passes_cons.mp hcall
    refine e.ne_openParen he (by rw [hx, x.2]) (by rw [hm]; decide) ?_
    rw [(passes_cons.mp hcall).1, l.2]

/-- The form of statement that the first token tells; assignments have none. -/
def Statement.form : Statement → Option StmtStart
  | .assignString _ _ _ _ => none
  | .call _ _ _ _ _ _ _ => none
  | .assign _ _ _ _ => none
  | .ifThen _ _ _ => some .conditional
  | .ifElse _ _ _ _ _ => some .conditional
  | .loop _ _ _ => some .loop
  | .block _ => some .block

/-- A statement that begins with a place begins with no keyword. -/
theorem stmtStart?_of_place {p : Place} {xs : List Token} (h : s.Passes (p.yield ++ xs) t) :
    Rules.standard.stmtStart? s.current.kind = none := by
  obtain ⟨m, hp, -⟩ := passes_append.mp h
  rw [p.current_eq hp]
  rcases p.head_kind with hk | hk
  · rw [hk]; rfl
  · rw [hk]; rfl

/-- The first token of a statement says which form it has. -/
theorem Statement.stmtStart?_eq (st : Statement) (h : s.Passes st.yield t) :
    Rules.standard.stmtStart? s.current.kind = st.form := by
  cases st with
  | assignString => exact stmtStart?_of_place h
  | call => exact stmtStart?_of_place h
  | assign => exact stmtStart?_of_place h
  | ifThen w => rw [(passes_cons.mp h).1, w.2]; rfl
  | ifElse w => rw [(passes_cons.mp h).1, w.2]; rfl
  | loop w => rw [(passes_cons.mp h).1, w.2]; rfl
  | block b => rw [b.current_eq h, b.head_kind]; rfl

/-- Statements are found one after the other, when each of them is recognised. -/
theorem statements_eq {ss ss' : List Statement}
    (hss : ∀ st ∈ ss, OneWay Statement.yield (· ≠ .else) st)
    (h : s.Passes (statementsYield ss) t) (h' : s.Passes (statementsYield ss') u)
    (ht : t.current.kind ∉ statementStarts ∧ t.current.kind ≠ .else)
    (hu : u.current.kind ∉ statementStarts ∧ u.current.kind ≠ .else) : ss = ss' ∧ t = u := by
  rw [statementsYield_eq] at h h'
  refine list_oneWay (· ∈ statementStarts) hss ?_ h h' ht hu
  intro st s t hst
  have hstart : ∀ k ∈ statementStarts, k ≠ .else := by decide
  have hk := st.mem_statementStarts hst
  exact ⟨hk, hstart _ hk⟩

/-- A condition and the block that it guards, behind a word. -/
theorem guarded_eq {k : Kind} {w w' : Leaf k} {c c' : Condition} {b b' : Nested}
    {xs ys : List Token} (hb : OneWay Nested.yield (fun _ => True) b)
    (h : s.Passes (w.1 :: (c.yield ++ (b.yield ++ xs))) t)
    (h' : s.Passes (w'.1 :: (c'.yield ++ (b'.yield ++ ys))) u) :
    w = w' ∧ c = c' ∧ b = b' ∧ ∃ m : Stream, m.Passes xs t ∧ m.Passes ys u := by
  obtain ⟨rfl, x, h, h'⟩ := leaf_cons h h'
  obtain ⟨m, hc, h⟩ := passes_append.mp h
  obtain ⟨m', hc', h'⟩ := passes_append.mp h'
  obtain ⟨rfl, rfl⟩ := c.oneWay c' x m m' hc hc' trivial trivial
  obtain ⟨v, hv, h⟩ := passes_append.mp h
  obtain ⟨v', hv', h'⟩ := passes_append.mp h'
  obtain ⟨rfl, rfl⟩ := hb b' m v v' hv hv' trivial trivial
  exact ⟨rfl, rfl, rfl, v, h, h'⟩

mutual

/-- **Statements are recognised by their tokens**, where no `else` follows. -/
theorem Statement.oneWay (st : Statement) : OneWay Statement.yield (· ≠ .else) st := by
  intro st' s t u h h' ht hu
  -- assignments of all three forms begin alike, and so do conditionals of both forms
  have hform : st.form = st'.form := (st.stmtStart?_eq h).symm.trans (st'.stmtStart?_eq h')
  cases st with
  | assignString p sign text stop =>
    cases st' with
    | assignString p' sign' text' stop' =>
      obtain ⟨rfl, rfl, m, h, h'⟩ := target_eq h h'
      obtain ⟨rfl, m, h, h'⟩ := leaf_cons h h'
      obtain ⟨rfl, rfl⟩ := leaf_last h h'
      exact ⟨rfl, rfl⟩
    | call p' sign' callee =>
      obtain ⟨-, -, m, h, h'⟩ := target_eq h h'
      exact absurd h' (leaf_ne (by decide) h)
    | assign p' sign' e stop' =>
      obtain ⟨-, -, m, h, h'⟩ := target_eq h h'
      exact absurd h ((value_ne_expression h').1 text)
    | _ => cases hform
  | call p sign callee l es r stop =>
    cases st' with
    | call p' sign' callee' l' es' r' stop' =>
      obtain ⟨rfl, rfl, m, h, h'⟩ := target_eq h h'
      obtain ⟨rfl, m, h, h'⟩ := leaf_cons h h'
      obtain ⟨rfl, m, h, h'⟩ := leaf_cons h h'
      obtain ⟨v, hes, h⟩ := passes_append.mp h
      obtain ⟨v', hes', h'⟩ := passes_append.mp h'
      have hv : v.current.kind = .closeParen := by rw [(passes_cons.mp h).1, r.2]
      have hv' : v'.current.kind = .closeParen := by rw [(passes_cons.mp h').1, r'.2]
      obtain ⟨rfl, rfl⟩ := arguments_eq hes hes' hv hv'
      obtain ⟨rfl, m, h, h'⟩ := leaf_cons h h'
      obtain ⟨rfl, rfl⟩ := leaf_last h h'
      exact ⟨rfl, rfl⟩
    | assignString p' sign' text =>
      obtain ⟨-, -, m, h, h'⟩ := target_eq h h'
      exact absurd h' (leaf_ne (by decide) h)
    | assign p' sign' e stop' =>
      obtain ⟨-, -, m, h, h'⟩ := target_eq h h'
      exact absurd h ((value_ne_expression h').2 callee l)
    | _ => cases hform
  | assign p sign e stop =>
    cases st' with
    | assign p' sign' e' stop' =>
      obtain ⟨rfl, rfl, m, h, h'⟩ := target_eq h h'
      obtain ⟨v, he, h⟩ := passes_append.mp h
      obtain ⟨v', he', h'⟩ := passes_append.mp h'
      have hv : Follows 7 v.current.kind := by rw [(passes_cons.mp h).1, stop.2]; decide
      have hv' : Follows 7 v'.current.kind := by rw [(passes_cons.mp h').1, stop'.2]; decide
      obtain ⟨rfl, rfl⟩ := e.oneWay e' m v v' he he' hv hv'
      obtain ⟨rfl, rfl⟩ := leaf_last h h'
      exact ⟨rfl, rfl⟩
    | assignString p' sign' text =>
      obtain ⟨-, -, m, h, h'⟩ := target_eq h h'
      exact absurd h' ((value_ne_expression h).1 text)
    | call p' sign' callee l =>
      obtain ⟨-, -, m, h, h'⟩ := target_eq h h'
      exact absurd h' ((value_ne_expression h).2 callee l)
    | _ => cases hform
  | ifThen w c b =>
    rw [Statement.yield, ← List.append_nil b.yield] at h
    cases st' with
    | ifThen w' c' b' =>
      rw [Statement.yield, ← List.append_nil b'.yield] at h'
      obtain ⟨rfl, rfl, rfl, m, h, h'⟩ := guarded_eq (Nested.oneWay b) h h'
      exact ⟨rfl, (passes_nil.mp h).symm.trans (passes_nil.mp h')⟩
    | ifElse w' c' b' e' b₂' =>
      obtain ⟨rfl, rfl, rfl, m, h, h'⟩ := guarded_eq (Nested.oneWay b) h h'
      -- the `else` of the longer one stands behind the shorter one
      obtain rfl := passes_nil.mp h
      rw [(passes_cons.mp h').1, e'.2] at ht
      exact absurd rfl ht
    | _ => cases hform
  | ifElse w c b e b₂ =>
    cases st' with
    | ifElse w' c' b' e' b₂' =>
      obtain ⟨rfl, rfl, rfl, m, h, h'⟩ := guarded_eq (Nested.oneWay b) h h'
      obtain ⟨rfl, m, h, h'⟩ := leaf_cons h h'
      obtain ⟨rfl, rfl⟩ := Nested.oneWay b₂ b₂' m t u h h' trivial trivial
      exact ⟨rfl, rfl⟩
    | ifThen w' c' b' =>
      rw [Statement.yield, ← List.append_nil b'.yield] at h'
      obtain ⟨rfl, rfl, rfl, m, h, h'⟩ := guarded_eq (Nested.oneWay b) h h'
      obtain rfl := passes_nil.mp h'
      rw [(passes_cons.mp h).1, e.2] at hu
      exact absurd rfl hu
    | _ => cases hform
  | loop w c b =>
    rw [Statement.yield, ← List.append_nil b.yield] at h
    cases st' with
    | loop w' c' b' =>
      rw [Statement.yield, ← List.append_nil b'.yield] at h'
      obtain ⟨rfl, rfl, rfl, m, h, h'⟩ := guarded_eq (Nested.oneWay b) h h'
      exact ⟨rfl, (passes_nil.mp h).symm.trans (passes_nil.mp h')⟩
    | _ => cases hform
  | block b =>
    cases st' with
    | block b' =>
      obtain ⟨rfl, rfl⟩ := Nested.oneWay b b' s t u h h' trivial trivial
      exact ⟨rfl, rfl⟩
    | _ => cases hform

/-- Blocks are recognised by their curly brackets. -/
theorem Nested.oneWay (b : Nested) : OneWay Nested.yield (fun _ => True) b := by
  intro b' s t u h h' _ _
  cases b with
  | mk l ds ss r =>
    cases b' with
    | mk l' ds' ss' r' =>
      obtain ⟨rfl, x, h, h'⟩ := leaf_cons h h'
      obtain ⟨m, hds, h⟩ := passes_append.mp h
      obtain ⟨m', hds', h'⟩ := passes_append.mp h'
      obtain ⟨v, hss, h⟩ := passes_append.mp h
      obtain ⟨v', hss', h'⟩ := passes_append.mp h'
      have hv : v.current.kind = .closeCurly := by rw [(passes_cons.mp h).1, r.2]
      have hv' : v'.current.kind = .closeCurly := by rw [(passes_cons.mp h').1, r'.2]
      have hm := kind_of_statements (· ≠ .var) ss hss (by decide) (by rw [hv]; decide)
      have hm' := kind_of_statements (· ≠ .var) ss' hss' (by decide) (by rw [hv']; decide)
      obtain ⟨rfl, rfl⟩ := declarations_eq hds hds' hm hm'
      obtain ⟨rfl, rfl⟩ := statements_eq (fun st _ => Statement.oneWay st) hss hss'
        (by rw [hv]; decide) (by rw [hv']; decide)
      obtain ⟨rfl, rfl⟩ := leaf_last h h'
      exact ⟨rfl, rfl⟩

end

/-! ## Procedures and programs -/

/-- Parameters are recognised in front of the parenthesis that closes them. -/
theorem parameters_eq {ds ds' : Option (Separated .semicolon Parameter)}
    (h : s.Passes (optionalYield Parameter.yield ds) t)
    (h' : s.Passes (optionalYield Parameter.yield ds') u) (ht : t.current.kind = .closeParen)
    (hu : u.current.kind = .closeParen) : ds = ds' ∧ t = u := by
  refine optional_eq (fun l _ => l.oneWay trivial fun p _ => p.oneWay) ?_ ⟨by decide, trivial⟩
    ht hu h h'
  intro l s t hl
  obtain ⟨m, hm, -⟩ := passes_append.mp hl
  obtain ⟨m', hns, -⟩ := passes_append.mp hm
  rw [l.first.names.current_eq hns, l.first.names.first.2]
  decide

/-- Heads are recognised, whatever follows. -/
theorem Head.oneWay (d : Head) : OneWay Head.yield (fun _ => True) d := by
  intro d' s t u h h' _ _
  obtain ⟨word, name, l, ds, r, result, ty⟩ := d
  obtain ⟨word', name', l', ds', r', result', ty'⟩ := d'
  obtain ⟨rfl, v, h, h'⟩ := leaf_cons (x := word) (y := word') h h'
  obtain ⟨rfl, v, h, h'⟩ := leaf_cons (x := name) (y := name') h h'
  obtain ⟨rfl, v, h, h'⟩ := leaf_cons (x := l) (y := l') h h'
  obtain ⟨m, hds, h⟩ := passes_append.mp h
  obtain ⟨m', hds', h'⟩ := passes_append.mp h'
  have hm : m.current.kind = .closeParen := by rw [(passes_cons.mp h).1, r.2]
  have hm' : m'.current.kind = .closeParen := by rw [(passes_cons.mp h').1, r'.2]
  obtain ⟨rfl, rfl⟩ := parameters_eq hds hds' hm hm'
  obtain ⟨rfl, v, h, h'⟩ := leaf_cons (x := r) (y := r') h h'
  obtain ⟨rfl, v, h, h'⟩ := leaf_cons (x := result) (y := result') h h'
  obtain ⟨rfl, rfl⟩ := ty.oneWay ty' v t u h h' trivial trivial
  exact ⟨rfl, rfl⟩

/-- The last statements of bodies are recognised, whatever follows. -/
theorem Final.oneWay (f : Final) : OneWay Final.yield (fun _ => True) f := by
  intro f' s t u h h' _ _
  obtain ⟨word, e, stop⟩ := f
  obtain ⟨word', e', stop'⟩ := f'
  obtain ⟨rfl, rfl, rfl, rfl⟩ := enclosed_eq (by decide) e.oneWay h h'
  exact ⟨rfl, rfl⟩

/-- Procedures are found one after the other, when each of them is recognised. -/
theorem routines_eq {ps ps' : List Routine}
    (hps : ∀ p ∈ ps, OneWay Routine.yield (fun _ => True) p)
    (h : s.Passes (routinesYield ps) t) (h' : s.Passes (routinesYield ps') u)
    (ht : t.current.kind ≠ .procedure) (hu : u.current.kind ≠ .procedure) :
    ps = ps' ∧ t = u := by
  rw [routinesYield_eq] at h h'
  have hfirst : ∀ (p : Routine) (s t : Stream), s.Passes p.yield t →
      s.current.kind = .procedure ∧ True := fun p s t hp => ⟨p.current_eq hp, trivial⟩
  exact list_oneWay (· = .procedure) hps hfirst h h' ⟨ht, trivial⟩ ⟨hu, trivial⟩

/-- What stands behind the parts of a body. -/
theorem kinds_of_interior {ds : List Declaration} {ss : List Statement} {f : Final}
    {m v w x : Stream} (hds : m.Passes (ds.flatMap Declaration.yield) v)
    (hss : v.Passes (statementsYield ss) w) (hf : w.Passes f.yield x) :
    m.current.kind ≠ .procedure ∧ v.current.kind ≠ .var ∧ w.current.kind = .return := by
  have hw : w.current.kind = .return := by rw [(passes_cons.mp hf).1, f.word.2]
  have hv : v.current.kind ≠ .var ∧ v.current.kind ≠ .procedure :=
    kind_of_statements (fun k => k ≠ .var ∧ k ≠ .procedure) ss hss (by decide)
      (by rw [hw]; decide)
  exact ⟨kind_of_declarations (· ≠ .procedure) ds hds (by decide) hv.2, hv.1, hw⟩

mutual

/-- Procedures are recognised, whatever follows. -/
theorem Routine.oneWay (p : Routine) : OneWay Routine.yield (fun _ => True) p := by
  intro p' s t u h h' _ _
  cases p with
  | mk d b =>
    cases p' with
    | mk d' b' =>
      obtain ⟨m, hd, h⟩ := passes_append.mp h
      obtain ⟨m', hd', h'⟩ := passes_append.mp h'
      obtain ⟨rfl, rfl⟩ := d.oneWay d' s m m' hd hd' trivial trivial
      obtain ⟨rfl, rfl⟩ := Interior.oneWay b b' m t u h h' trivial trivial
      exact ⟨rfl, rfl⟩

/-- Bodies are recognised: each of their parts begins with a token that no part before it can go on
    with. -/
theorem Interior.oneWay (b : Interior) : OneWay Interior.yield (fun _ => True) b := by
  intro b' s t u h h' _ _
  cases b with
  | mk l ps ds ss f r =>
    cases b' with
    | mk l' ps' ds' ss' f' r' =>
      obtain ⟨rfl, y, h, h'⟩ := leaf_cons h h'
      obtain ⟨m, hps, h⟩ := passes_append.mp h
      obtain ⟨m', hps', h'⟩ := passes_append.mp h'
      obtain ⟨v, hds, h⟩ := passes_append.mp h
      obtain ⟨v', hds', h'⟩ := passes_append.mp h'
      obtain ⟨w, hss, h⟩ := passes_append.mp h
      obtain ⟨w', hss', h'⟩ := passes_append.mp h'
      obtain ⟨x, hf, h⟩ := passes_append.mp h
      obtain ⟨x', hf', h'⟩ := passes_append.mp h'
      -- each list ends in front of a token that starts none of its items
      obtain ⟨hm, hv, hw⟩ := kinds_of_interior hds hss hf
      obtain ⟨hm', hv', hw'⟩ := kinds_of_interior hds' hss' hf'
      obtain ⟨rfl, rfl⟩ := routines_eq (fun p _ => Routine.oneWay p) hps hps' hm hm'
      obtain ⟨rfl, rfl⟩ := declarations_eq hds hds' hv hv'
      obtain ⟨rfl, rfl⟩ := statements_eq (fun st _ => st.oneWay) hss hss'
        (by rw [hw]; decide) (by rw [hw']; decide)
      obtain ⟨rfl, rfl⟩ := f.oneWay f' w x x' hf hf' trivial trivial
      obtain ⟨rfl, rfl⟩ := leaf_last h h'
      exact ⟨rfl, rfl⟩

end

/-- **Programs are recognised by their tokens**, up to an end marker. -/
theorem ProgramText.oneWay (p : ProgramText) : OneWay ProgramText.yield (· = .eof) p := by
  intro p' s t u h h' ht hu
  obtain ⟨ps⟩ := p
  obtain ⟨ps'⟩ := p'
  have ht : t.current.kind ≠ .procedure := by rw [ht]; decide
  have hu : u.current.kind ≠ .procedure := by rw [hu]; decide
  obtain ⟨rfl, rfl⟩ := routines_eq (fun r _ => r.oneWay) h h' ht hu
  exact ⟨rfl, rfl⟩

end ProcLang.Concrete
