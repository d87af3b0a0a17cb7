/-
  Binding powers as levels of the grammar.

  The reader has a table of powers, and asks for operators that bind tighter than some power;
  the grammar has levels.  `p.level` is the level of the phrases that are read at power `p`, so a
  tighter power has a smaller level, and an operator of power `q` is one of level `q.level + 1`:

  * `tighter?_eq_some`   — the operator that the loop takes at power `p` has at most level
                           `p.level`;
  * `tighter?_eq_none_iff` — it takes none exactly where no operator of such a level stands;
  * `operators_eq`       — the loop over operators, one round unfolded.
-/
import ProcLang.Proofs.Grammar.Concrete
import ProcLang.Proofs.Grammar.Passing

namespace ProcLang

open Concrete Parse

/-- The level of the phrases that are read at a power. -/
def Power.level : Power → Nat
  | .default => 6
  | .logicalOr => 5
  | .logicalAnd => 4
  | .equality => 3
  | .relational => 2
  | .additive => 1
  | .multiplicative => 0
  | .unary => 0

namespace Grammar

variable {k : Kind} {p q : Power} {n : Nat} {op : BinaryOp}

/-! ## Tables and levels -/

/-- The operators that bind tighter than `p` are those of the levels up to `p.level`. -/
theorem weakerThan_of_power? (h : Rules.standard.power? k = some q) :
    p.weakerThan q = true ↔ q.level + 1 ≤ p.level := by
  cases k <;> simp only [Rules.standard, Option.some.injEq, reduceCtorEq] at h <;> subst h <;>
    cases p <;> decide

/-- Each operator of the table has its place among the levels. -/
theorem operatorAt_of_power? (h : Rules.standard.power? k = some q) :
    ∃ op, operatorAt (q.level + 1) k = some op ∧ binaryOp? k = some op := by
  cases k <;> simp only [Rules.standard, Option.some.injEq, reduceCtorEq] at h <;> subst h <;>
    exact ⟨_, rfl, rfl⟩

/-- Each operator of a level is in the table. -/
theorem power?_of_operatorAt (h : operatorAt n k = some op) :
    ∃ q, Rules.standard.power? k = some q ∧ q.level + 1 = n ∧ binaryOp? k = some op := by
  unfold operatorAt at h
  split at h <;> first
    | (obtain rfl := Option.some.inj h; exact ⟨_, rfl, rfl, rfl⟩)
    | cases h

/-- An operator that the loop takes at power `p` has at most level `p.level`. -/
theorem tighter?_eq_some {x : Token} (h : tighter? .standard p x = some q) :
    q.level + 1 ≤ p.level ∧
      ∃ op, operatorAt (q.level + 1) x.kind = some op ∧ binaryOp? x.kind = some op := by
  obtain ⟨hq, hw⟩ := Option.filter_eq_some_iff.mp h
  exact ⟨(weakerThan_of_power? hq).mp hw, operatorAt_of_power? hq⟩

/-- Every operator of at most that level is taken. -/
theorem tighter?_of_operatorAt {x : Token} (h : operatorAt n x.kind = some op)
    (hn : n ≤ p.level) :
    ∃ q, tighter? .standard p x = some q ∧ q.level + 1 = n ∧ binaryOp? x.kind = some op := by
  obtain ⟨q, hq, rfl, hop⟩ := power?_of_operatorAt h
  refine ⟨q, ?_, rfl, hop⟩
  rw [tighter?, hq, Option.filter_some, if_pos ((weakerThan_of_power? hq).mpr hn)]

/-- The loop ends exactly where no operator of at most that level stands. -/
theorem tighter?_eq_none_iff {x : Token} :
    tighter? .standard p x = none ↔ ∀ n ≤ p.level, operatorAt n x.kind = none := by
  constructor
  · intro h n hn
    cases hop : operatorAt n x.kind with
    | none => rfl
    | some op =>
      obtain ⟨q, hq, -⟩ := tighter?_of_operatorAt hop hn
      rw [h] at hq
      cases hq
  · intro h
    cases hq : tighter? .standard p x with
    | none => rfl
    | some q =>
      obtain ⟨hle, op, hop, -⟩ := tighter?_eq_some hq
      rw [h _ hle] at hop
      cases hop

/-! ## What can stand behind a phrase -/

/-- A token of kind `k` does not go on with a phrase, unless by an operator of level `n` or
    weaker. -/
def Follows (n : Nat) (k : Kind) : Prop := k ≠ .openBracket ∧ ∀ m < n, operatorAt m k = none

instance (n : Nat) (k : Kind) : Decidable (Follows n k) := inferInstanceAs (Decidable (_ ∧ _))

/-- What may follow a phrase of some level may follow one of a smaller level. -/
theorem Follows.mono {m : Nat} (h : Follows n k) (hle : m ≤ n) : Follows m k :=
  ⟨h.1, fun i hi => h.2 i (Nat.lt_of_lt_of_le hi hle)⟩

/-- An operator of level `n` can stand behind a phrase of that level. -/
theorem follows_of_operatorAt (h : operatorAt n k = some op) : Follows n k := by
  obtain ⟨q, hq, rfl, -⟩ := power?_of_operatorAt h
  cases k <;> simp only [Rules.standard, Option.some.injEq, reduceCtorEq] at hq <;> subst hq <;>
    decide

/-! ## The loop over operators -/

section Operators

variable {inner : Power → Parse Expr} {rules : Rules}

/-- A bound beyond the tokens that are left decides nothing. -/
theorem operatorsUpTo_eq_of_lt (hin : InnerProgresses inner) {n m : Nat} (left : Expr) {s : Stream}
    (hn : s.remaining < n) (hm : s.remaining < m) :
    operatorsUpTo inner rules p n left s = operatorsUpTo inner rules p m left s := by
  -- each round takes the operator, so the tokens that are left stay below both bounds
  induction n generalizing m left s with
  | zero => omega
  | succ n ih =>
    obtain ⟨m, rfl⟩ : ∃ k, m = k + 1 := ⟨m - 1, by omega⟩
    unfold operatorsUpTo
    refine bind_congr rfl fun x t hx => ?_
    obtain ⟨rfl, rfl⟩ := eq_of_current hx
    cases tighter? rules p s.current with
    | none => rfl
    | some q =>
      refine bind_congr rfl fun e u hu => ?_
      have hlt := ((progresses_binary hin left q s).of_ok hu).2
      exact ih e (by omega) (by omega)

/-- The loop over operators without its counter. -/
theorem operators_eq (hin : InnerProgresses inner) (left : Expr) (s : Stream) :
    operators inner rules p left s =
      (match tighter? rules p s.current with
      | some q => do
        let e ← binary inner left q
        operators inner rules p e
      | none => pure left : Parse Expr) s := by
  show operatorsUpTo inner rules p (s.remaining + 1) left s = _
  rw [operatorsUpTo, bind_apply current_run]
  cases tighter? rules p s.current with
  | none => rfl
  | some q =>
    refine bind_congr rfl fun e u hu => ?_
    have hlt := ((progresses_binary hin left q s).of_ok hu).2
    exact operatorsUpTo_eq_of_lt hin e (by omega) (by omega)

/-- The loop stops where no tighter operator stands. -/
theorem operators_of_none (hin : InnerProgresses inner) {left : Expr} {s : Stream}
    (h : tighter? rules p s.current = none) : operators inner rules p left s = .ok left s := by
  rw [operators_eq hin, h]
  rfl

end Operators

/-! ## One expression -/

/-- No phrase begins with the end marker. -/
theorem exprStart?_eof : Rules.standard.exprStart? .eof = none := rfl

/-- An expression is what its first token calls for, with operators behind it. -/
theorem expression_of_start (form : ExprStart) {left : Expr} {s t : Stream}
    (hform : Rules.standard.exprStart? s.current.kind = some form)
    (hstart : start (expression .standard) form s = .ok left t) :
    expression .standard p s = operators (expression .standard) .standard p left t := by
  rw [expression_eq exprStart?_eof, expressionWith, bind_apply current_run, hform]
  exact bind_apply hstart

end Grammar
end ProcLang
