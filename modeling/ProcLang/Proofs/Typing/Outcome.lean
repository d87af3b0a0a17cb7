/-
  What visits find, apart from the nodes that they hand back.

  A visit of an expression finds what its parts find, one after the other (`result_andThen`), so
  its finding is computed like a value of `Except`.  Two visits have the `SameOutcome` when they
  find the same and leave the same symbol table; sequences have it when their parts do.
-/
import ProcLang.Typing.Expression

namespace ProcLang

variable {α β γ δ ε ζ : Type}

/-- A verdict in two steps is put on its line step by step. -/
theorem onLine_bind (line : Nat) (v : Except Violation β) (k : β → Except Violation γ) :
    onLine line (v >>= k) = onLine line v >>= fun b => onLine line (k b) := by
  cases v <;> rfl

namespace Found

/-- A sequence finds what its parts find, one after the other. -/
theorem result_andThen (f : Found α β) (stop : α → γ) (go : α → β → Found γ δ) :
    (f.andThen stop go).result = f.result >>= fun b => (go f.node b).result := by
  unfold andThen
  cases f.result <;> rfl

/-- The end of a visit finds what the rule finds, on the line of the node. -/
theorem result_conclude (a : Attribute) (v : Except Violation Basetype) (build : Attribute → α) :
    (conclude a v build).result = onLine a.line v := by
  cases v <;> rfl

/-- What holds of the node however a visit goes on holds of it in the end. -/
theorem node_andThen {P : γ → Prop} (f : Found α β) {stop : α → γ} {go : α → β → Found γ δ}
    (hs : ∀ x, P (stop x)) (hg : ∀ x b, P (go x b).node) : P (f.andThen stop go).node := by
  unfold andThen
  cases f.result with
  | ok b => exact hg f.node b
  | error e => exact hs f.node

/-- However a visit ends, its node has an attribute of the same line. -/
theorem node_conclude {P : α → Prop} (a : Attribute) (v : Except Violation Basetype)
    {build : Attribute → α} (h : ∀ a', a'.line = a.line → P (build a')) :
    P (conclude a v build).node := by
  cases v with
  | ok b => exact h _ rfl
  | error v => exact h _ rfl

end Found

open Found

/-- The expression stands on line `line`. -/
def Expr.OnLine (line : Nat) (e : Expr) : Prop := e.attr.line = line

/-- A visit leaves the line of an expression alone. -/
theorem Expr.onLine_node_check (env : Env) (e : Expr) :
    (e.check env).node.OnLine e.attr.line := by
  cases e with
  | binary a op l r =>
    exact node_andThen (P := OnLine a.line) _ (fun _ => rfl) fun _ _ =>
      node_andThen (P := OnLine a.line) _ (fun _ => rfl) fun _ _ => node_conclude _ _ fun _ h => h
  | unary a op e =>
    exact node_andThen (P := OnLine a.line) _ (fun _ => rfl) fun _ _ =>
      node_conclude _ _ fun _ h => h
  | addressOf a l =>
    exact node_andThen (P := OnLine a.line) _ (fun _ => rfl) fun _ _ =>
      node_conclude _ _ fun _ h => h
  | element a x i =>
    exact node_andThen (P := OnLine a.line) _ (fun _ => rfl) fun _ _ =>
      node_conclude _ _ fun _ h => h
  | named a x => exact node_conclude (P := OnLine a.line) _ _ fun _ h => h
  | integer a n => rfl
  | char a c => rfl
  | boolean a b => rfl
  | null a => rfl

/-! ## Visits with the same outcome -/

namespace Visit

section

variable {v : Visit α β} {stop : α → γ} {go : α → Table → β → Visit γ δ}

/-- A sequence whose first visit succeeds goes on with its node, its table and what it found. -/
theorem andThen_of_ok {b : β} (h : v.result = .ok b) :
    v.andThen stop go = go v.node v.table b := by
  rw [andThen, h]

/-- A sequence whose first visit fails stops with its table and its error. -/
theorem andThen_of_error {e : SemanticError} (h : v.result = .error e) :
    v.andThen stop go = ⟨stop v.node, v.table, .error e⟩ := by
  rw [andThen, h]

/-- A sequence succeeds only behind a first part that does. -/
theorem exists_of_andThen_ok {d : δ} (h : (v.andThen stop go).result = .ok d) :
    ∃ b, v.result = .ok b ∧ (go v.node v.table b).result = .ok d := by
  cases hv : v.result with
  | ok b =>
    rw [andThen_of_ok hv] at h
    exact ⟨b, rfl, h⟩
  | error e =>
    rw [andThen_of_error hv] at h
    cases h

end

/-- Two visits find the same and leave the same table. -/
structure SameOutcome (v : Visit α β) (w : Visit γ β) : Prop where
  result_eq : v.result = w.result
  table_eq : v.table = w.table

variable {v : Visit α β} {w : Visit γ β}

/-- Sequences have the same outcome when their parts do. -/
theorem SameOutcome.andThen {stop : α → δ} {go : α → Table → β → Visit δ ε} {stop' : γ → ζ}
    {go' : γ → Table → β → Visit ζ ε} (h : v.SameOutcome w)
    (hgo : ∀ t b, v.result = .ok b → w.result = .ok b →
      (go v.node t b).SameOutcome (go' w.node t b)) :
    (v.andThen stop go).SameOutcome (w.andThen stop' go') := by
  cases hv : v.result with
  | ok b =>
    have hw : w.result = .ok b := h.result_eq.symm.trans hv
    rw [andThen_of_ok hv, andThen_of_ok hw, h.table_eq]
    exact hgo _ _ hv hw
  | error e =>
    have hw : w.result = .error e := h.result_eq.symm.trans hv
    rw [andThen_of_error hv, andThen_of_error hw]
    exact ⟨rfl, h.table_eq⟩

/-- The nodes play no part. -/
theorem SameOutcome.mapNode {f : α → δ} {g : γ → ε} (h : v.SameOutcome w) :
    (v.mapNode f).SameOutcome (w.mapNode g) := ⟨h.result_eq, h.table_eq⟩

/-- Two visits that find the same still do so when it is not handed on. -/
theorem SameOutcome.forget (h : v.SameOutcome w) : v.forget.SameOutcome w.forget :=
  ⟨congrArg (Except.map fun _ => ()) h.result_eq, h.table_eq⟩

/-! ## Visits that succeed -/

/-- When the visit succeeds, `Q` holds of the node and the table that it leaves, and of what it
    finds. -/
def Ends (v : Visit α β) (Q : α → Table → β → Prop) : Prop :=
  ∀ b, v.result = .ok b → Q v.node v.table b

variable {Q : α → Table → β → Prop}

/-- A visit that is given by its parts. -/
theorem ends_mk {x : α} {t : Table} {r : Except SemanticError β} (h : ∀ b, r = .ok b → Q x t b) :
    (Visit.mk x t r).Ends Q := h

/-- Two things that hold of a success hold together. -/
theorem Ends.and {Q' : α → Table → β → Prop} (h : v.Ends Q) (h' : v.Ends Q') :
    v.Ends fun x t b => Q x t b ∧ Q' x t b := fun b hb => ⟨h b hb, h' b hb⟩

/-- What a sequence leaves is what its second part leaves behind the first. -/
theorem Ends.andThen {stop : α → δ} {go : α → Table → β → Visit δ ε}
    {P : δ → Table → ε → Prop} (h : v.Ends Q) (hgo : ∀ x t b, Q x t b → (go x t b).Ends P) :
    (v.andThen stop go).Ends P := by
  intro d hd
  obtain ⟨b, hb, hrest⟩ := exists_of_andThen_ok hd
  rw [andThen_of_ok hb]
  exact hgo _ _ _ (h b hb) d hrest

/-- A node that is put into another one. -/
theorem Ends.mapNode {f : α → δ} {P : δ → Table → β → Prop} (h : v.Ends Q)
    (hQ : ∀ x t b, Q x t b → P (f x) t b) : (v.mapNode f).Ends P := fun b hb => hQ _ _ _ (h b hb)

/-- A basetype that is not handed on. -/
theorem Ends.forget {P : α → Table → Unit → Prop} (h : v.Ends Q)
    (hQ : ∀ x t b, Q x t b → P x t ()) : v.forget.Ends P := by
  intro u hu
  cases hv : v.result with
  | ok b => exact hQ _ _ _ (h b hv)
  | error e => simp [Visit.forget, hv, Except.map] at hu

end Visit

theorem Found.sameOutcome_within {f : Found α β} {g : Found γ β} (h : f.result = g.result)
    (t : Table) : (f.within t).SameOutcome (g.within t) := ⟨h, rfl⟩

end ProcLang
