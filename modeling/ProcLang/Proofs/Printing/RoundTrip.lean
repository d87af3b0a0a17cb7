/-
  Reading back what was written.

  Tokens that stand for the words of a denotable tree have a derivation with this tree, up to
  line numbers: there is one lemma for each syntactic category.  For expressions the induction
  goes over all levels at once, since the left operand of an operator is written at a weaker
  level than the right one.  As derived tokens are read as the tree of their derivation, reading
  what was written gives back the tree (`parse_tokenize_text`).
-/
import Mathlib.Data.List.TakeWhile
import ProcLang.Proofs.Grammar.Exact
import ProcLang.Proofs.Printing.Words

namespace ProcLang

open Concrete ProcLang.Text

/-! ## Tokens of given words -/

section Tokens

variable {ts : List Token} {ws : List Word}

/-- Tokens for a symbol and more words: the first one is of the kind of the symbol. -/
theorem TokensMean.symbol {k : Kind} (h : TokensMean ts (.symbol k :: ws)) :
    ∃ (l : Leaf k) (us : List Token), ts = l.1 :: us ∧ TokensMean us ws := by
  obtain ⟨t, us, ht, hus, rfl⟩ := List.forall₂_cons_right_iff.mp h
  exact ⟨⟨t, ht.1⟩, us, rfl, hus⟩

/-- Tokens for a name and more words: the first one is an identifier with this name. -/
theorem TokensMean.name {x : String} (h : TokensMean ts (.name x :: ws)) :
    ∃ (l : Leaf .identifier) (us : List Token),
      ts = l.1 :: us ∧ l.1.value = x ∧ TokensMean us ws := by
  obtain ⟨t, us, ht, hus, rfl⟩ := List.forall₂_cons_right_iff.mp h
  exact ⟨⟨t, ht.1⟩, us, rfl, ht.2, hus⟩

/-- Tokens for a number and more words: the first one is a numeral that denotes it. -/
theorem TokensMean.number {n : Nat} (h : TokensMean ts (.number n :: ws)) :
    ∃ (l : Leaf .number) (us : List Token),
      ts = l.1 :: us ∧ Denotes 10 l.1.value.toList n ∧ TokensMean us ws := by
  obtain ⟨t, us, ht, hus, rfl⟩ := List.forall₂_cons_right_iff.mp h
  refine ⟨⟨t, ht.1⟩, us, rfl, ?_, hus⟩
  have hv : t.value = String.ofList (Nat.toDigits 10 n) := ht.2
  rw [hv, String.toList_ofList]
  exact denotes_toDigits (by decide) n

/-- Tokens for a text and more words: the first one is a string literal with this value. -/
theorem TokensMean.text {s : String} (h : TokensMean ts (.text s :: ws)) :
    ∃ (l : Leaf .stringLiteral) (us : List Token),
      ts = l.1 :: us ∧ l.1.value = s ∧ TokensMean us ws := by
  obtain ⟨t, us, ht, hus, rfl⟩ := List.forall₂_cons_right_iff.mp h
  exact ⟨⟨t, ht.1⟩, us, rfl, ht.2, hus⟩

/-- Tokens for no words are none. -/
theorem TokensMean.nil (h : TokensMean ts []) : ts = [] := List.forall₂_nil_right_iff.mp h

/-- Tokens for two lists of words are the tokens for the one and those for the other. -/
theorem TokensMean.append {vs : List Word} (h : TokensMean ts (vs ++ ws)) :
    ∃ us rs, ts = us ++ rs ∧ TokensMean us vs ∧ TokensMean rs ws :=
  ⟨_, _, (List.take_append_drop vs.length ts).symm, List.forall₂_take_append ts vs ws h,
    List.forall₂_drop_append ts vs ws h⟩

/-- Tokens for words between two symbols. -/
theorem TokensMean.enclosed {k k' : Kind}
    (h : TokensMean ts (.symbol k :: (ws ++ [.symbol k']))) :
    ∃ (l : Leaf k) (us : List Token) (r : Leaf k'),
      ts = l.1 :: (us ++ [r.1]) ∧ TokensMean us ws := by
  obtain ⟨l, vs, rfl, hvs⟩ := h.symbol
  obtain ⟨us, rs, rfl, hus, hrs⟩ := hvs.append
  obtain ⟨r, xs, rfl, hxs⟩ := hrs.symbol
  obtain rfl := hxs.nil
  exact ⟨l, us, r, rfl, hus⟩

end Tokens

/-! ## Lists -/

section Lists

variable {α β γ : Type} {yield : β → List Token} {tree : β → γ} {words : α → List Word}
  {erase : α → γ} {xs : List α} {k : Kind}

/-- Items that are written one behind the other are read back when each of them is. -/
theorem exists_flatMap {ts : List Token}
    (h : ∀ x ∈ xs, ∀ ts, TokensMean ts (words x) → ∃ d, yield d = ts ∧ tree d = erase x)
    (hts : TokensMean ts (xs.flatMap words)) :
    ∃ ds : List β, ds.flatMap yield = ts ∧ ds.map tree = xs.map erase := by
  induction xs generalizing ts with
  | nil => exact ⟨[], hts.nil.symm, rfl⟩
  | cons x xs ih =>
    obtain ⟨hx, hxs⟩ := List.forall_mem_cons.mp h
    obtain ⟨us, rs, rfl, hus, hrs⟩ := TokensMean.append hts
    obtain ⟨d, rfl, hd⟩ := hx us hus
    obtain ⟨ds, rfl, hds⟩ := ih hxs hrs
    exact ⟨d :: ds, rfl, congrArg₂ List.cons hd hds⟩

/-- Items with a symbol between any two of them are read back when each of them is, and there is one
    at least. -/
theorem exists_items {ts : List Token} (hne : xs ≠ [])
    (h : ∀ x ∈ xs, ∀ ts, TokensMean ts (words x) → ∃ d, yield d = ts ∧ tree d = erase x)
    (hts : TokensMean ts (separated k words xs)) :
    ∃ l : Separated k β, l.yield yield = ts ∧ l.items.map tree = xs.map erase := by
  cases xs with
  | nil => exact absurd rfl hne
  | cons x xs =>
    obtain ⟨hx, hxs⟩ := List.forall_mem_cons.mp h
    obtain ⟨us, rs, rfl, hus, hrs⟩ := TokensMean.append hts
    obtain ⟨d, rfl, hd⟩ := hx us hus
    -- each separator goes with the item behind it
    have hpair : ∀ y ∈ xs, ∀ ts, TokensMean ts (.symbol k :: words y) →
        ∃ p : Leaf k × β, p.1.1 :: yield p.2 = ts ∧ tree p.2 = erase y := by
      intro y hy ts hts
      obtain ⟨l, us, rfl, hus⟩ := TokensMean.symbol hts
      obtain ⟨d, rfl, hd⟩ := hxs y hy us hus
      exact ⟨(l, d), rfl, hd⟩
    obtain ⟨ds, rfl, hds⟩ := exists_flatMap hpair hrs
    refine ⟨⟨d, ds⟩, rfl, ?_⟩
    show tree d :: (ds.map Prod.snd).map tree = erase x :: xs.map erase
    rw [List.map_map, hd, ← hds]
    rfl

/-- There may also be none of them. -/
theorem exists_optional_items {ts : List Token}
    (h : ∀ x ∈ xs, ∀ ts, TokensMean ts (words x) → ∃ d, yield d = ts ∧ tree d = erase x)
    (hts : TokensMean ts (separated k words xs)) :
    ∃ l : Option (Separated k β), optionalYield yield l = ts ∧
      (optionalItems l).map tree = xs.map erase := by
  by_cases hne : xs = []
  · subst hne
    exact ⟨none, hts.nil.symm, rfl⟩
  · obtain ⟨l, hl, htree⟩ := exists_items hne h hts
    exact ⟨some l, hl, htree⟩

end Lists

/-! ## Expressions -/

/-- A bare attribute is that of any token, up to its line. -/
theorem Attribute.Bare.eraseLine_attrOf {a : Attribute} (h : a.Bare) (t : Token) :
    (attrOf t).eraseLine = a.eraseLine := h.eraseLine_eq.symm

/-- The level at which an operator is read is one above that of the phrases behind it. -/
theorem BinaryOp.operatorAt_rank (op : BinaryOp) : operatorAt (op.rank + 1) op.kind = some op := by
  cases op
  all_goals rfl

/-- Tokens that stand for `ws` are a phrase of level `n`, with the tree `e` up to line numbers. -/
def Expr.WrittenAt (e : Expr) (n : Nat) (ws : List Word) : Prop :=
  ∀ ts, TokensMean ts ws → ∃ d : Phrase n, d.yield = ts ∧ d.tree.eraseLines = e.eraseLines

namespace Expr.WrittenAt

variable {e : Expr} {n : Nat} {ws : List Word}

/-- A phrase of one level is a phrase of all weaker levels. -/
theorem raise (h : e.WrittenAt n ws) {m : Nat} (hle : n ≤ m) : e.WrittenAt m ws := by
  intro ts hts
  obtain ⟨d, rfl, hd⟩ := h ts hts
  obtain ⟨d', htree, hyield⟩ := exists_raise hle d
  exact ⟨d', hyield, by rw [htree, hd]⟩

/-- Parentheses make a phrase of level zero. -/
theorem group (h : e.WrittenAt 6 ws) :
    e.WrittenAt 0 (.symbol .openParen :: (ws ++ [.symbol .closeParen])) := by
  intro ts hts
  obtain ⟨l, us, r, rfl, hus⟩ := TokensMean.enclosed hts
  obtain ⟨d, rfl, hd⟩ := h us hus
  exact ⟨.group l d r, rfl, hd⟩

/-- An operator binds a phrase of its own level on the left to a tighter one on the right. -/
theorem binary {a : Attribute} (ha : a.Bare) {op : BinaryOp} {l r : Expr} {vs ws : List Word}
    (hl : l.WrittenAt (op.rank + 1) vs) (hr : r.WrittenAt op.rank ws) :
    (Expr.binary a op l r).WrittenAt (op.rank + 1) (vs ++ .symbol op.kind :: ws) := by
  intro ts hts
  obtain ⟨us, rs, rfl, hus, hrs⟩ := TokensMean.append hts
  obtain ⟨t, xs, rfl, hxs⟩ := TokensMean.symbol hrs
  obtain ⟨d, rfl, hd⟩ := hl us hus
  obtain ⟨d', rfl, hd'⟩ := hr xs hxs
  have hop : operatorAt (op.rank + 1) t.1.kind = some op := by
    rw [t.2]
    exact op.operatorAt_rank
  refine ⟨.binary d ⟨t.1, op, hop⟩ d', rfl, ?_⟩
  show Expr.binary (attrOf t.1).eraseLine op d.tree.eraseLines d'.tree.eraseLines = _
  rw [hd, hd', ha.eraseLine_attrOf]
  rfl

/-- A prefix makes a phrase of level zero from one. -/
theorem prefixed {a : Attribute} (ha : a.Bare) {op : UnaryOp} (hop : prefixAt op.kind = some op)
    (h : e.WrittenAt 0 ws) : (Expr.unary a op e).WrittenAt 0 (.symbol op.kind :: ws) := by
  intro ts hts
  obtain ⟨t, us, rfl, hus⟩ := TokensMean.symbol hts
  obtain ⟨d, rfl, hd⟩ := h us hus
  have hprefix : prefixAt t.1.kind = some op := by
    rw [t.2]
    exact hop
  refine ⟨.prefixed ⟨t.1, op, hprefix⟩ d, rfl, ?_⟩
  show Expr.unary (attrOf t.1).eraseLine op d.tree.eraseLines = _
  rw [hd, ha.eraseLine_attrOf]
  rfl

/-- Bars stand around a phrase of any level. -/
theorem absolute {a : Attribute} (ha : a.Bare) (h : e.WrittenAt 6 ws) :
    (Expr.unary a .absolute e).WrittenAt 0 (.symbol .pipe :: (ws ++ [.symbol .pipe])) := by
  intro ts hts
  obtain ⟨l, us, r, rfl, hus⟩ := TokensMean.enclosed hts
  obtain ⟨d, rfl, hd⟩ := h us hus
  refine ⟨.absolute l d r, rfl, ?_⟩
  show Expr.unary (attrOf l.1).eraseLine .absolute d.tree.eraseLines = _
  rw [hd, ha.eraseLine_attrOf]
  rfl

/-- A literal is one word. -/
theorem literal {w : Word}
    (h : ∀ t : Token, t.Means w → ∃ l : Literal, l.token = t ∧ l.tree.eraseLines = e.eraseLines) :
    e.WrittenAt 0 [w] := by
  intro ts hts
  obtain ⟨t, us, ht, hus, rfl⟩ := List.forall₂_cons_right_iff.mp hts
  obtain ⟨l, rfl, hl⟩ := h t ht
  obtain rfl := TokensMean.nil hus
  exact ⟨.literal l, rfl, hl⟩

end Expr.WrittenAt

/-- A number with the digits of `i` is read as `i`. -/
theorem exists_integer {a : Attribute} (ha : a.Bare) {i : Int} (hi : 0 ≤ i) (hlt : i < 2 ^ 63)
    {t : Token} (ht : t.Means (.number i.toNat)) :
    ∃ l : Literal, l.token = t ∧ l.tree.eraseLines = (Expr.integer a i).eraseLines := by
  have hv : t.value.toList = Nat.toDigits 10 i.toNat := by
    rw [ht.2]
    exact String.toList_ofList
  have hworth : Numeral t.value.toList i.toNat := by
    rw [hv]
    exact .decimal (denotes_toDigits (by decide) i.toNat)
  have hsmall : i.toNat < 2 ^ 63 := by omega
  refine ⟨.number ⟨t, ht.1⟩ i.toNat hworth hsmall, rfl, ?_⟩
  show Expr.integer (attrOf t).eraseLine (i.toNat : Int) = _
  rw [Int.toNat_of_nonneg hi, ha.eraseLine_attrOf]
  rfl

/-- A character literal is read as its character. -/
theorem exists_char {a : Attribute} (ha : a.Bare) {c : Char} {t : Token}
    (ht : t.Means (.char c)) :
    ∃ l : Literal, l.token = t ∧ l.tree.eraseLines = (Expr.char a c).eraseLines := by
  have hsingle : t.value.toList = [c] := by
    rw [ht.2]
    exact String.toList_singleton c
  refine ⟨.char ⟨t, ht.1⟩ c hsingle, rfl, ?_⟩
  show Expr.char (attrOf t).eraseLine c = _
  rw [ha.eraseLine_attrOf]
  rfl

/-- The words `true` and `false` are read as what they say. -/
theorem exists_boolean {a : Attribute} (ha : a.Bare) {b : Bool} {t : Token}
    (ht : t.Means (.symbol (if b then .true else .false))) :
    ∃ l : Literal, l.token = t ∧ l.tree.eraseLines = (Expr.boolean a b).eraseLines := by
  cases b with
  | true =>
    refine ⟨.true ⟨t, ht.1⟩, rfl, ?_⟩
    show Expr.boolean (attrOf t).eraseLine true = _
    rw [ha.eraseLine_attrOf]
    rfl
  | false =>
    refine ⟨.false ⟨t, ht.1⟩, rfl, ?_⟩
    show Expr.boolean (attrOf t).eraseLine false = _
    rw [ha.eraseLine_attrOf]
    rfl

/-- The word `null` is read as the null pointer. -/
theorem exists_null {a : Attribute} (ha : a.Bare) {t : Token} (ht : t.Means (.symbol .null)) :
    ∃ l : Literal, l.token = t ∧ l.tree.eraseLines = (Expr.null a).eraseLines := by
  refine ⟨.null ⟨t, ht.1⟩, rfl, ?_⟩
  show Expr.null (attrOf t).eraseLine = _
  rw [ha.eraseLine_attrOf]
  rfl

mutual

/-- An expression is read back at any level that it is written for. -/
theorem Expr.writtenAt : (e : Expr) → e.Denotable → (n : Nat) → e.WrittenAt n (e.words n)
  | .binary a op l r, h, n => by
    obtain ⟨ha, hl, hr⟩ := h
    have hbinary := (l.writtenAt hl (op.rank + 1)).binary ha (r.writtenAt hr op.rank)
    rw [Expr.words]
    split
    -- an operator that is tight enough stands as it is, any other one in parentheses
    · rename_i hn
      exact hbinary.raise hn
    · have hrank : op.rank + 1 ≤ 6 := by cases op <;> decide
      exact (hbinary.raise hrank).group.raise (Nat.zero_le n)
  -- all other expressions are phrases of level zero, and so of every level
  | .unary a op e, h, n => by
    obtain ⟨ha, he⟩ := h
    have hzero : (Expr.unary a op e).WrittenAt 0 ((Expr.unary a op e).words n) := by
      cases op with
      | not => exact (e.writtenAt he 0).prefixed ha rfl
      | negate => exact (e.writtenAt he 0).prefixed ha rfl
      | absolute => exact (e.writtenAt he 6).absolute ha
      | deref => exact (e.writtenAt he 0).prefixed ha rfl
    exact hzero.raise (Nat.zero_le n)
  | .addressOf a l, h, n => by
    obtain ⟨ha, hl⟩ := h
    have hzero : (Expr.addressOf a l).WrittenAt 0 (.symbol .ampersand :: l.words) := by
      intro ts hts
      obtain ⟨t, us, rfl, hus⟩ := TokensMean.symbol hts
      obtain ⟨d, rfl, hd⟩ := l.exists_place hl us hus
      refine ⟨.addressOf t d, rfl, ?_⟩
      show Expr.addressOf (attrOf t.1).eraseLine d.tree.eraseLines = _
      rw [hd, ha.eraseLine_attrOf]
      rfl
    exact hzero.raise (Nat.zero_le n)
  | .element a x i, h, n => by
    obtain ⟨ha, -, hi⟩ := h
    have hzero : (Expr.element a x i).WrittenAt 0
        (.name x :: .symbol .openBracket :: (i.words 6 ++ [.symbol .closeBracket])) := by
      intro ts hts
      obtain ⟨t, us, rfl, rfl, hus⟩ := TokensMean.name hts
      obtain ⟨l, vs, r, rfl, hvs⟩ := TokensMean.enclosed hus
      obtain ⟨d, rfl, hd⟩ := i.writtenAt hi 6 vs hvs
      refine ⟨.element t l d r, rfl, ?_⟩
      show Expr.element (attrOf t.1).eraseLine t.1.value d.tree.eraseLines = _
      rw [hd, ha.eraseLine_attrOf]
      rfl
    exact hzero.raise (Nat.zero_le n)
  | .named a x, h, n => by
    obtain ⟨ha, -⟩ := h
    have hzero : (Expr.named a x).WrittenAt 0 [.name x] := by
      intro ts hts
      obtain ⟨t, us, rfl, rfl, hus⟩ := TokensMean.name hts
      obtain rfl := hus.nil
      refine ⟨.name t, rfl, ?_⟩
      show Expr.named (attrOf t.1).eraseLine t.1.value = _
      rw [ha.eraseLine_attrOf]
      rfl
    exact hzero.raise (Nat.zero_le n)
  | .integer a i, h, n => by
    obtain ⟨ha, hi, hlt⟩ := h
    have hzero := Expr.WrittenAt.literal fun _ ht => exists_integer ha hi hlt ht
    exact hzero.raise (Nat.zero_le n)
  | .char a c, h, n => by
    have hzero := Expr.WrittenAt.literal fun _ ht => exists_char (c := c) h ht
    exact hzero.raise (Nat.zero_le n)
  | .boolean a b, h, n => by
    have hzero := Expr.WrittenAt.literal fun _ ht => exists_boolean (b := b) h ht
    exact hzero.raise (Nat.zero_le n)
  | .null a, h, n => by
    have hzero := Expr.WrittenAt.literal fun _ ht => exists_null h ht
    exact hzero.raise (Nat.zero_le n)

/-- The words of a location are read back as the location. -/
theorem Location.exists_place : (l : Location) → l.Denotable → (ts : List Token) →
    TokensMean ts l.words → ∃ d : Place, d.yield = ts ∧ d.tree.eraseLines = l.eraseLines
  | .named a x, h, ts, hts => by
    obtain ⟨ha, -⟩ := h
    obtain ⟨t, us, rfl, rfl, hus⟩ := TokensMean.name hts
    obtain rfl := hus.nil
    refine ⟨.name t, rfl, ?_⟩
    show Location.named (attrOf t.1).eraseLine t.1.value = _
    rw [ha.eraseLine_attrOf]
    rfl
  | .pointee a x, h, ts, hts => by
    obtain ⟨ha, -⟩ := h
    obtain ⟨c, us, rfl, hus⟩ := TokensMean.symbol hts
    obtain ⟨t, vs, rfl, rfl, hvs⟩ := TokensMean.name hus
    obtain rfl := hvs.nil
    refine ⟨.pointee c t, rfl, ?_⟩
    show Location.pointee (attrOf c.1).eraseLine t.1.value = _
    rw [ha.eraseLine_attrOf]
    rfl
  | .element a x i, h, ts, hts => by
    obtain ⟨ha, -, hi⟩ := h
    obtain ⟨t, us, rfl, rfl, hus⟩ := TokensMean.name hts
    obtain ⟨l, vs, r, rfl, hvs⟩ := TokensMean.enclosed hus
    obtain ⟨d, rfl, hd⟩ := i.writtenAt hi 6 vs hvs
    refine ⟨.element t l d r, rfl, ?_⟩
    show Location.element (attrOf t.1).eraseLine t.1.value d.tree.eraseLines = _
    rw [hd, ha.eraseLine_attrOf]
    rfl

end

/-- Each operator is read at one level only. -/
theorem BinaryOp.rank_of_operatorAt {n : Nat} {k : Kind} {op : BinaryOp}
    (h : operatorAt n k = some op) : n = op.rank + 1 := by
  unfold operatorAt at h
  split at h
  all_goals first | cases h; rfl | cases h

/-- Parentheses are written only where they are needed: where a phrase of level `n` is taken, an
    operator that is no tighter than that stands in parentheses. -/
theorem Concrete.Phrase.exists_group : {n : Nat} → (d : Phrase n) → {a : Attribute} →
    {op : BinaryOp} → {l r : Expr} → d.tree = .binary a op l r → n ≤ op.rank →
    ∃ (left : Leaf .openParen) (e : Expression) (right : Leaf .closeParen),
      d.yield = left.1 :: (e.yield ++ [right.1])
  | _, .literal l, _, _, _, _, h, _ => by
    cases l
    all_goals cases h
  | _, .name _, _, _, _, _, h, _ => by cases h
  | _, .element _ _ _ _, _, _, _, _, h, _ => by cases h
  | _, .group left e right, _, _, _, _, _, _ => ⟨left, e, right, rfl⟩
  | _, .absolute _ _ _, _, _, _, _, h, _ => by cases h
  | _, .prefixed _ _, _, _, _, _, h, _ => by cases h
  | _, .addressOf _ _, _, _, _, _, h, _ => by cases h
  | _, .lift e, _, _, _, _, h, hn => e.exists_group h (Nat.le_of_succ_le hn)
  | n + 1, .binary _ sign _, _, op, _, _, h, hn => by
    have hsign : sign.op = op := (Expr.binary.inj h).2.1
    have hrank := BinaryOp.rank_of_operatorAt sign.op_eq
    rw [hsign] at hrank
    omega

/-! ## Types and declarations -/

/-- The words of a type are read back as the type. -/
theorem TypeMark.exists_typeName {t : TypeMark} (h : t.Denotable) {ts : List Token}
    (hts : TokensMean ts t.words) :
    ∃ d : TypeName, d.yield = ts ∧ d.tree.eraseLines = t.eraseLines := by
  obtain ⟨declared, a⟩ := t
  obtain ⟨ha, hfits⟩ := h
  -- all types but strings are one word
  have hword : ∀ k, TokensMean ts [.symbol k] → typeAt k = some declared →
      ∃ d : TypeName, d.yield = ts ∧ d.tree.eraseLines = TypeMark.eraseLines ⟨declared, a⟩ := by
    intro k hk hd
    obtain ⟨l, us, rfl, hus⟩ := hk.symbol
    obtain rfl := hus.nil
    have hl : typeAt l.1.kind = some declared := by
      rw [l.2]
      exact hd
    refine ⟨.word l.1 declared hl, rfl, ?_⟩
    show TypeMark.mk declared (attrOf l.1).eraseLine = _
    rw [ha.eraseLine_attrOf]
    rfl
  cases declared with
  | integer => exact hword .integer hts rfl
  | boolean => exact hword .boolean hts rfl
  | char => exact hword .char hts rfl
  | intPtr => exact hword .intPtr hts rfl
  | charPtr => exact hword .charPtr hts rfl
  | string n =>
    obtain ⟨t, us, rfl, hus⟩ := TokensMean.symbol hts
    have hsize : TokensMean us (.symbol .openBracket :: ([.number n] ++ [.symbol .closeBracket])) :=
      hus
    obtain ⟨l, vs, r, rfl, hvs⟩ := hsize.enclosed
    obtain ⟨size, xs, rfl, hn, hxs⟩ := hvs.number
    obtain rfl := hxs.nil
    refine ⟨.string t l size n hn (hfits n rfl) r, rfl, ?_⟩
    show TypeMark.mk (.string n) (attrOf t.1).eraseLine = _
    rw [ha.eraseLine_attrOf]
    rfl

/-- A list of names is read back. -/
theorem names_of_words {xs : List String} (hne : xs ≠ []) {ts : List Token}
    (hts : TokensMean ts (nameWords xs)) : ∃ d : Names, d.yield = ts ∧ d.tree = xs := by
  have hname : ∀ x ∈ xs, ∀ ts, TokensMean ts [.name x] →
      ∃ d : Leaf .identifier, [d.1] = ts ∧ d.1.value = id x := by
    intro x _ ts hts
    obtain ⟨t, us, rfl, hx, hus⟩ := hts.name
    obtain rfl := hus.nil
    exact ⟨t, rfl, hx⟩
  obtain ⟨d, hd, htree⟩ := exists_items hne hname hts
  rw [List.map_id] at htree
  exact ⟨d, hd, htree⟩

/-- A group of parameters is read back. -/
theorem Decl.exists_parameter {d : Decl} (h : d.Denotable) {ts : List Token}
    (hts : TokensMean ts d.parameterWords) :
    ∃ p : Parameter, p.yield = ts ∧ p.tree.eraseLines = d.eraseLines := by
  obtain ⟨names, type, a⟩ := d
  obtain ⟨ha, hne, -, htype⟩ := h
  obtain ⟨us, vs, rfl, hus, hvs⟩ := TokensMean.append hts
  obtain ⟨colon, rs, rfl, hrs⟩ := hvs.symbol
  obtain ⟨ns, rfl, hns⟩ := names_of_words hne hus
  obtain ⟨t, rfl, ht⟩ := TypeMark.exists_typeName htype hrs
  refine ⟨⟨ns, colon, t⟩, rfl, ?_⟩
  show Decl.mk ns.tree t.tree.eraseLines (attrOf ns.first.1).eraseLine = _
  rw [hns, ht, ha.eraseLine_attrOf]
  rfl

/-- A declaration of variables is read back. -/
theorem Decl.exists_declaration {d : Decl} (h : d.Denotable) {ts : List Token}
    (hts : TokensMean ts d.words) :
    ∃ p : Declaration, p.yield = ts ∧ p.tree.eraseLines = d.eraseLines := by
  obtain ⟨names, type, a⟩ := d
  obtain ⟨ha, hne, -, htype⟩ := h
  obtain ⟨var, os, rfl, hos⟩ := TokensMean.symbol hts
  obtain ⟨us, vs, rfl, hus, hvs⟩ := hos.append
  obtain ⟨colon, rs, rfl, hrs⟩ := hvs.symbol
  obtain ⟨xs, ys, rfl, hxs, hys⟩ := hrs.append
  obtain ⟨stop, zs, rfl, hzs⟩ := hys.symbol
  obtain rfl := hzs.nil
  obtain ⟨ns, rfl, hns⟩ := names_of_words hne hus
  obtain ⟨t, rfl, ht⟩ := TypeMark.exists_typeName htype hxs
  refine ⟨⟨var, ns, colon, t, stop⟩, rfl, ?_⟩
  show Decl.mk ns.tree t.tree.eraseLines (attrOf var.1).eraseLine = _
  rw [hns, ht, ha.eraseLine_attrOf]
  rfl

/-- Declarations are read back, one after the other. -/
theorem declarations_of_words {ds : List Decl} (h : ∀ d ∈ ds, d.Denotable) {ts : List Token}
    (hts : TokensMean ts (ds.flatMap Decl.words)) :
    ∃ ps : List Declaration, ps.flatMap Declaration.yield = ts ∧
      (ps.map Declaration.tree).map Decl.eraseLines = ds.map Decl.eraseLines := by
  have hdecl : ∀ d ∈ ds, ∀ ts, TokensMean ts d.words →
      ∃ p : Declaration, p.yield = ts ∧ p.tree.eraseLines = d.eraseLines := by
    intro d hd ts hts
    exact Decl.exists_declaration (h d hd) hts
  obtain ⟨ps, hps, htree⟩ := exists_flatMap hdecl hts
  refine ⟨ps, hps, ?_⟩
  rw [List.map_map]
  exact htree

/-! ## Statements -/

/-- A condition is read back as its expression. -/
theorem condition_of_words {e : Expr} (h : e.Denotable) {ts : List Token}
    (hts : TokensMean ts (conditionWords e)) :
    ∃ c : Condition, c.yield = ts ∧ c.e.tree.eraseLines = e.eraseLines := by
  obtain ⟨l, us, r, rfl, hus⟩ := TokensMean.enclosed hts
  obtain ⟨d, rfl, hd⟩ := e.writtenAt h 6 us hus
  exact ⟨⟨l, d, r⟩, rfl, hd⟩

/-- Arguments are read back, and there may be none. -/
theorem arguments_of_words {es : List Expr} (h : ∀ e ∈ es, e.Denotable) {ts : List Token}
    (hts : TokensMean ts (separated .comma (fun e => e.words 6) es)) :
    ∃ ds : Arguments, optionalYield Phrase.yield ds = ts ∧
      ((optionalItems ds).map Phrase.tree).map Expr.eraseLines = es.map Expr.eraseLines := by
  have harg : ∀ e ∈ es, ∀ ts, TokensMean ts (e.words 6) →
      ∃ d : Expression, d.yield = ts ∧ d.tree.eraseLines = e.eraseLines := by
    intro e he
    exact e.writtenAt (h e he) 6
  obtain ⟨ds, hds, htree⟩ := exists_optional_items harg hts
  refine ⟨ds, hds, ?_⟩
  rw [List.map_map]
  exact htree

mutual

/-- The words of a statement are read back as the statement.  In each case the words are taken apart
    in the order of the grammar, and the parts are read back first. -/
theorem Stmt.exists_statement : (s : Stmt) → s.Denotable → (ts : List Token) →
    TokensMean ts s.words → ∃ d : Statement, d.yield = ts ∧ d.tree.eraseLines = s.eraseLines
  -- in each case the tokens are split along the words that the printer wrote, the parts are derived
  -- one by one, and the line of the first token is erased
  | .assign a l e, h, ts, hts => by
    obtain ⟨ha, hl, he⟩ := h
    obtain ⟨us, vs, rfl, hus, hvs⟩ := TokensMean.append hts
    obtain ⟨sign, rs, rfl, hrs⟩ := hvs.symbol
    obtain ⟨xs, ys, rfl, hxs, hys⟩ := hrs.append
    obtain ⟨stop, zs, rfl, hzs⟩ := hys.symbol
    obtain rfl := hzs.nil
    obtain ⟨p, rfl, hp⟩ := l.exists_place hl us hus
    obtain ⟨d, rfl, hd⟩ := e.writtenAt he 6 xs hxs
    refine ⟨.assign p sign d stop, rfl, ?_⟩
    show Stmt.assign (attrOf p.head).eraseLine p.tree.eraseLines d.tree.eraseLines = _
    rw [hp, hd, ha.eraseLine_attrOf]
    rfl
  | .assignString a l s, h, ts, hts => by
    obtain ⟨ha, hl, -⟩ := h
    obtain ⟨us, vs, rfl, hus, hvs⟩ := TokensMean.append hts
    obtain ⟨sign, rs, rfl, hrs⟩ := hvs.symbol
    obtain ⟨t, ys, rfl, rfl, hys⟩ := hrs.text
    obtain ⟨stop, zs, rfl, hzs⟩ := hys.symbol
    obtain rfl := hzs.nil
    obtain ⟨p, rfl, hp⟩ := l.exists_place hl us hus
    refine ⟨.assignString p sign t stop, rfl, ?_⟩
    show Stmt.assignString (attrOf p.head).eraseLine p.tree.eraseLines t.1.value = _
    rw [hp, ha.eraseLine_attrOf]
    rfl
  | .call a l f es, h, ts, hts => by
    obtain ⟨ha, hl, -, hes⟩ := h
    obtain ⟨us, vs, rfl, hus, hvs⟩ := TokensMean.append hts
    obtain ⟨sign, rs, rfl, hrs⟩ := hvs.symbol
    obtain ⟨callee, qs, rfl, rfl, hqs⟩ := hrs.name
    obtain ⟨left, ws, rfl, hws⟩ := hqs.symbol
    obtain ⟨xs, ys, rfl, hxs, hys⟩ := hws.append
    obtain ⟨right, zs, rfl, hzs⟩ := hys.symbol
    obtain ⟨stop, os, rfl, hos⟩ := hzs.symbol
    obtain rfl := hos.nil
    obtain ⟨p, rfl, hp⟩ := l.exists_place hl us hus
    obtain ⟨ds, rfl, hds⟩ := arguments_of_words hes hxs
    refine ⟨.call p sign callee left ds right stop, rfl, ?_⟩
    show Stmt.call (attrOf p.head).eraseLine p.tree.eraseLines callee.1.value
      (((optionalItems ds).map Phrase.tree).map Expr.eraseLines) = _
    rw [hp, hds, ha.eraseLine_attrOf]
    rfl
  | .ifThen a e b, h, ts, hts => by
    obtain ⟨ha, he, hb⟩ := h
    obtain ⟨w, us, rfl, hus⟩ := TokensMean.symbol hts
    obtain ⟨vs, rs, rfl, hvs, hrs⟩ := hus.append
    obtain ⟨c, rfl, hc⟩ := condition_of_words he hvs
    obtain ⟨d, rfl, hd⟩ := b.exists_nested hb rs hrs
    refine ⟨.ifThen w c d, rfl, ?_⟩
    show Stmt.ifThen (attrOf w.1).eraseLine c.e.tree.eraseLines d.tree.eraseLines = _
    rw [hc, hd, ha.eraseLine_attrOf]
    rfl
  | .ifElse a e b b', h, ts, hts => by
    obtain ⟨ha, he, hb, hb'⟩ := h
    obtain ⟨w, us, rfl, hus⟩ := TokensMean.symbol hts
    obtain ⟨vs, rs, rfl, hvs, hrs⟩ := hus.append
    obtain ⟨xs, ys, rfl, hxs, hys⟩ := hrs.append
    obtain ⟨w', zs, rfl, hzs⟩ := hys.symbol
    obtain ⟨c, rfl, hc⟩ := condition_of_words he hvs
    obtain ⟨d, rfl, hd⟩ := b.exists_nested hb xs hxs
    obtain ⟨d', rfl, hd'⟩ := b'.exists_nested hb' zs hzs
    refine ⟨.ifElse w c d w' d', rfl, ?_⟩
    show Stmt.ifElse (attrOf w.1).eraseLine c.e.tree.eraseLines d.tree.eraseLines
      d'.tree.eraseLines = _
    rw [hc, hd, hd', ha.eraseLine_attrOf]
    rfl
  | .loop a e b, h, ts, hts => by
    obtain ⟨ha, he, hb⟩ := h
    obtain ⟨w, us, rfl, hus⟩ := TokensMean.symbol hts
    obtain ⟨vs, rs, rfl, hvs, hrs⟩ := hus.append
    obtain ⟨c, rfl, hc⟩ := condition_of_words he hvs
    obtain ⟨d, rfl, hd⟩ := b.exists_nested hb rs hrs
    refine ⟨.loop w c d, rfl, ?_⟩
    show Stmt.loop (attrOf w.1).eraseLine c.e.tree.eraseLines d.tree.eraseLines = _
    rw [hc, hd, ha.eraseLine_attrOf]
    rfl
  | .block a b, h, ts, hts => by
    obtain ⟨ha, hb⟩ := h
    obtain ⟨d, rfl, hd⟩ := b.exists_nested hb ts hts
    refine ⟨.block d, rfl, ?_⟩
    show Stmt.block (attrOf d.head).eraseLine d.tree.eraseLines = _
    rw [hd, ha.eraseLine_attrOf]
    rfl

/-- The words of a block are read back as the block. -/
theorem Block.exists_nested : (b : Block) → b.Denotable → (ts : List Token) →
    TokensMean ts b.words → ∃ d : Nested, d.yield = ts ∧ d.tree.eraseLines = b.eraseLines
  | .mk ds ss a, h, ts, hts => by
    obtain ⟨ha, hds, hss⟩ := h
    obtain ⟨l, us, rfl, hus⟩ := TokensMean.symbol hts
    obtain ⟨vs, rs, rfl, hvs, hrs⟩ := hus.append
    obtain ⟨xs, ys, rfl, hxs, hys⟩ := hrs.append
    obtain ⟨r, zs, rfl, hzs⟩ := hys.symbol
    obtain rfl := hzs.nil
    obtain ⟨ps, rfl, hps⟩ := declarations_of_words hds hvs
    obtain ⟨qs, rfl, hqs⟩ := statements_of_words ss hss xs hxs
    refine ⟨.mk l ps qs r, rfl, ?_⟩
    show Block.mk ((ps.map Declaration.tree).map Decl.eraseLines)
      (eraseStmtLines (statementsTree qs)) (attrOf l.1).eraseLine = _
    rw [hps, hqs, ha.eraseLine_attrOf]
    rfl

/-- Statements are read back, one after the other. -/
theorem statements_of_words : (ss : List Stmt) → stmtsDenotable ss → (ts : List Token) →
    TokensMean ts (stmtsWords ss) → ∃ ds : List Statement, statementsYield ds = ts ∧
      eraseStmtLines (statementsTree ds) = eraseStmtLines ss
  | [], _, ts, hts => ⟨[], hts.nil.symm, rfl⟩
  | s :: ss, h, ts, hts => by
    obtain ⟨us, rs, rfl, hus, hrs⟩ := TokensMean.append hts
    obtain ⟨d, rfl, hd⟩ := s.exists_statement h.1 us hus
    obtain ⟨ds, rfl, hds⟩ := statements_of_words ss h.2 rs hrs
    exact ⟨d :: ds, rfl, congrArg₂ List.cons hd hds⟩

end

/-! ## Procedures and programs -/

/-- The words of a header are read back as the header. -/
theorem Header.exists_head {h : Header} (hd : h.Denotable) {ts : List Token}
    (hts : TokensMean ts h.words) :
    ∃ d : Head, d.yield = ts ∧ d.tree.eraseLines = h.eraseLines := by
  obtain ⟨name, parameters, returnType, a⟩ := h
  obtain ⟨ha, -, hparameters, htype⟩ := hd
  obtain ⟨w, us, rfl, hus⟩ := TokensMean.symbol hts
  obtain ⟨x, vs, rfl, hx, hvs⟩ := hus.name
  obtain ⟨l, rs, rfl, hrs⟩ := hvs.symbol
  obtain ⟨xs, ys, rfl, hxs, hys⟩ := hrs.append
  obtain ⟨r, zs, rfl, hzs⟩ := hys.symbol
  obtain ⟨result, os, rfl, hos⟩ := hzs.symbol
  have hgroup : ∀ d ∈ parameters, ∀ ts, TokensMean ts d.parameterWords →
      ∃ p : Parameter, p.yield = ts ∧ p.tree.eraseLines = d.eraseLines := by
    intro d hd ts hts
    exact Decl.exists_parameter (hparameters d hd) hts
  obtain ⟨ps, rfl, hps⟩ := exists_optional_items hgroup hxs
  obtain ⟨t, rfl, ht⟩ := TypeMark.exists_typeName htype hos
  refine ⟨⟨w, x, l, ps, r, result, t⟩, rfl, ?_⟩
  have hps' : ((optionalItems ps).map Parameter.tree).map Decl.eraseLines =
      parameters.map Decl.eraseLines := by
    rw [List.map_map]
    exact hps
  show Header.mk x.1.value (((optionalItems ps).map Parameter.tree).map Decl.eraseLines)
    t.tree.eraseLines (attrOf w.1).eraseLine = _
  rw [hps', hx, ht, ha.eraseLine_attrOf]
  rfl

/-- The words of a return are read back as the return. -/
theorem Return.exists_final {r : Return} (h : r.Denotable) {ts : List Token}
    (hts : TokensMean ts r.words) :
    ∃ d : Final, d.yield = ts ∧ d.tree.eraseLines = r.eraseLines := by
  obtain ⟨value, a⟩ := r
  obtain ⟨ha, hvalue⟩ := h
  obtain ⟨w, us, stop, rfl, hus⟩ := TokensMean.enclosed hts
  obtain ⟨d, rfl, hd⟩ := value.writtenAt hvalue 6 us hus
  refine ⟨⟨w, d, stop⟩, rfl, ?_⟩
  show Return.mk d.tree.eraseLines (attrOf w.1).eraseLine = _
  rw [hd, ha.eraseLine_attrOf]
  rfl

mutual

/-- The words of a procedure are read back as the procedure. -/
theorem Procedure.exists_routine : (p : Procedure) → p.Denotable → (ts : List Token) →
    TokensMean ts p.words → ∃ d : Routine, d.yield = ts ∧ d.tree.eraseLines = p.eraseLines
  | .mk h b, hp, ts, hts => by
    obtain ⟨us, rs, rfl, hus, hrs⟩ := TokensMean.append hts
    obtain ⟨d, rfl, hd⟩ := Header.exists_head hp.1 hus
    obtain ⟨d', rfl, hd'⟩ := b.exists_interior hp.2 rs hrs
    exact ⟨.mk d d', rfl, congrArg₂ Procedure.mk hd hd'⟩

/-- The words of a body are read back as the body. -/
theorem Body.exists_interior : (b : Body) → b.Denotable → (ts : List Token) →
    TokensMean ts b.words → ∃ d : Interior, d.yield = ts ∧ d.tree.eraseLines = b.eraseLines
  | .mk ps ds ss r a, h, ts, hts => by
    obtain ⟨ha, hps, hds, hss, hr⟩ := h
    obtain ⟨l, us, rfl, hus⟩ := TokensMean.symbol hts
    obtain ⟨vs, rs, rfl, hvs, hrs⟩ := hus.append
    obtain ⟨xs, ys, rfl, hxs, hys⟩ := hrs.append
    obtain ⟨zs, os, rfl, hzs, hos⟩ := hys.append
    obtain ⟨qs, ns, rfl, hqs, hns⟩ := hos.append
    obtain ⟨stop, es, rfl, hes⟩ := hns.symbol
    obtain rfl := hes.nil
    -- the four parts of a body, each read back by its own lemma
    obtain ⟨routines, rfl, hroutines⟩ := routines_of_words ps hps vs hvs
    obtain ⟨decls, rfl, hdecls⟩ := declarations_of_words hds hxs
    obtain ⟨stmts, rfl, hstmts⟩ := statements_of_words ss hss zs hzs
    obtain ⟨f, rfl, hf⟩ := Return.exists_final hr hqs
    refine ⟨.mk l routines decls stmts f stop, rfl, ?_⟩
    show Body.mk (eraseProcedureLines (routinesTree routines))
      ((decls.map Declaration.tree).map Decl.eraseLines) (eraseStmtLines (statementsTree stmts))
      f.tree.eraseLines (attrOf l.1).eraseLine = _
    rw [hroutines, hdecls, hstmts, hf, ha.eraseLine_attrOf]
    rfl

/-- Procedures are read back, one after the other. -/
theorem routines_of_words : (ps : List Procedure) → proceduresDenotable ps →
    (ts : List Token) → TokensMean ts (proceduresWords ps) →
    ∃ ds : List Routine, routinesYield ds = ts ∧
      eraseProcedureLines (routinesTree ds) = eraseProcedureLines ps
  | [], _, ts, hts => ⟨[], hts.nil.symm, rfl⟩
  | p :: ps, h, ts, hts => by
    obtain ⟨us, rs, rfl, hus, hrs⟩ := TokensMean.append hts
    obtain ⟨d, rfl, hd⟩ := p.exists_routine h.1 us hus
    obtain ⟨ds, rfl, hds⟩ := routines_of_words ps h.2 rs hrs
    exact ⟨d :: ds, rfl, congrArg₂ List.cons hd hds⟩

end

/-- The words of a program are read back as the program, whatever line its own node is given. -/
theorem Program.exists_programText {p : Program} (h : p.Denotable) {ts : List Token}
    (hts : TokensMean ts p.words) :
    ∃ d : ProgramText, d.yield = ts ∧ ∀ line, (d.tree line).eraseLines = p.eraseLines := by
  obtain ⟨procedures, a⟩ := p
  obtain ⟨ha, hprocedures⟩ := h
  obtain ⟨ds, rfl, hds⟩ := routines_of_words procedures hprocedures ts hts
  refine ⟨⟨ds⟩, rfl, ?_⟩
  intro line
  show Program.mk (eraseProcedureLines (routinesTree ds)) (Attribute.bare line).eraseLine = _
  rw [hds, Attribute.eraseLine_bare, ← ha.eraseLine_eq]
  rfl

/-- **Reading back what was written.**  The text of a program is scanned and read, and what is
    read is the program, up to line numbers. -/
theorem parse_tokenize_text (p : Program) (h : p.Denotable) (file? : Option String)
    (file : String) :
    ∃ tokens q, tokenize p.text file? = .ok tokens ∧ Grammar.parse file tokens = .ok q ∧
      q.eraseLines = p.eraseLines := by
  have hgood : AllGood p.words := Program.good_words h
  obtain ⟨ts, m, htokens, hm, hts⟩ := tokenize_spaced hgood file?
  obtain ⟨d, hd, htree⟩ := Program.exists_programText h hts
  have hbefore : Grammar.beforeEnd (ts ++ [m]) = ts := by
    rw [Grammar.beforeEnd_append hm, Grammar.beforeEnd, List.takeWhile_eq_self_iff]
    intro t ht
    simpa using hts.kind_ne_eof hgood t ht
  exact ⟨ts ++ [m], _, htokens, Grammar.parse_of_yield file (hd.trans hbefore.symm), htree _⟩

/-- A program with nested absolute values, a pointer to what a pointer points to, and a difference
    of differences. -/
def sampleTree : Program :=
  let a := Attribute.bare 7
  let inner := Expr.binary a .minus (.integer a 10) (.char a '\x27')
  let body : Body := .mk [] [⟨["x", "y"], ⟨.string 3, a⟩, a⟩]
    [.assign a (.pointee a "p") (.unary a .absolute (.unary a .absolute (.named a "x"))),
      .assign a (.named a "p") (.addressOf a (.pointee a "p"))]
    ⟨.binary a .minus (.binary a .minus (.named a "x") (.named a "y")) inner, a⟩ a
  ⟨[.mk ⟨"Main", [], ⟨.integer, a⟩, a⟩ body], a⟩

/-- The names in the sample are names. -/
theorem isName_of_mem {x : String} (h : x ∈ ["Main", "x", "y", "p"]) : IsName x := by
  have hfree : ∀ k, symbol k ∉ ["Main", "x", "y", "p"] := by
    intro k
    cases k
    all_goals decide
  refine ⟨?_, fun k hk => hfree k (by rwa [hk])⟩
  simp only [List.mem_cons, List.not_mem_nil, or_false] at h
  rcases h with rfl | rfl | rfl | rfl
  · exact ⟨'M', ['a', 'i', 'n'], rfl, by decide, by simp⟩
  · exact ⟨'x', [], rfl, by decide, nofun⟩
  · exact ⟨'y', [], rfl, by decide, nofun⟩
  · exact ⟨'p', [], rfl, by decide, nofun⟩

/-- The sample keeps to the conditions of a denotable tree. -/
theorem denotable_sampleTree : sampleTree.Denotable := by
  have hmain := isName_of_mem (x := "Main") (by decide)
  have hx := isName_of_mem (x := "x") (by decide)
  have hy := isName_of_mem (x := "y") (by decide)
  have hp := isName_of_mem (x := "p") (by decide)
  simp [sampleTree, Program.Denotable, proceduresDenotable, Procedure.Denotable,
    Header.Denotable, Body.Denotable, stmtsDenotable, Stmt.Denotable, Location.Denotable,
    Expr.Denotable, Return.Denotable, Decl.Denotable, TypeMark.Denotable, Attribute.Bare,
    Attribute.bare, hmain, hx, hy, hp]

/-- The sample is written with the parentheses that it needs, and read back. -/
theorem parse_tokenize_text_sample :
    sampleTree.Denotable ∧
    sampleTree.text =
      "procedure Main ( ) return integer \x7b var x , y : string [ 3 ] ; " ++
      "^ p = | | x | | ; p = & ^ p ; return x - y - ( 10 - \x27\x5c\x27\x27 ) ; \x7d" ∧
    ∃ tokens q, tokenize sampleTree.text none = .ok tokens ∧
      Grammar.parse "stdin" tokens = .ok q ∧ q.eraseLines = sampleTree.eraseLines :=
  ⟨denotable_sampleTree, by decide +kernel,
    parse_tokenize_text sampleTree denotable_sampleTree none "stdin"⟩

end ProcLang
