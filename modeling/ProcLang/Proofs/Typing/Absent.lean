/-
  A name that does not occur in a tree plays no part in its check.

  `t.without z` is the table `t` with no bindings of `z`.  Where the name `z` does not occur, the
  check from the table without it is the check from the table, with `z` taken out of the table
  that is left behind; one lemma for each kind of node.  They are the lemmas for a renaming that
  knows all names but `z` and leaves them as they are (`Renaming.without`).

  So a table without `z` stays one (`Visit.table_without_eq`).
-/
import ProcLang.Proofs.Typing.Renaming

namespace ProcLang

variable {α β γ δ : Type}

/-- The table with no bindings of `z`. -/
def Table.without (z : String) (t : Table) : Table :=
  { t with scopes := t.scopes.map fun s =>
      { s with bindings := s.bindings.filter fun b => b.1 ≠ z } }

/-- The renaming that knows all names but `z`, and leaves them as they are. -/
def Renaming.without (z : String) : Renaming where
  inUse x := x ≠ z
  other := id
  injOn _ _ _ _ h := h

/-- No other name is changed. -/
@[simp] theorem Renaming.other_without (z : String) : (Renaming.without z).other = id := rfl

/-- Renaming a table in this way takes the bindings of `z` out of it. -/
@[simp] theorem Renaming.table_without (z : String) :
    (Renaming.without z).table = Table.without z := by
  funext t
  simp [Renaming.table, Renaming.scope, Renaming.bindings, Renaming.without, Table.without]

/-- The renaming knows all names but `z`, so it knows those of a tree without `z`. -/
theorem Renaming.covers_without {z : String} {names : List String} (h : z ∉ names) :
    (Renaming.without z).Covers names := by
  intro x hx
  refine decide_eq_true ?_
  rintro rfl
  exact h hx

/-- The main name stays what it is, unless it is the one that is forgotten. -/
theorem Renaming.keepsMain_without {z : String} (h : z ≠ mainName) :
    (Renaming.without z).KeepsMain :=
  ⟨decide_eq_true h.symm, rfl⟩

/-- The visit with no bindings of `z` in its table. -/
def Visit.without (z : String) (v : Visit α β) : Visit α β := v.carry id (Table.without z)

section

variable {z : String}

/-! ## Tables and visits without a name -/

/-- The first table binds no name. -/
theorem Table.without_initial (z : String) : Table.initial.without z = .initial := by
  rw [← Renaming.table_without]
  exact Renaming.table_initial

/-- A scope that is opened has no bindings, so none of `z`. -/
theorem Table.without_openScope (t : Table) : (t.without z).openScope = t.openScope.without z := by
  rw [← Renaming.table_without]
  exact Renaming.openScope_table t

/-- Closing a scope does not look at bindings. -/
theorem Table.without_closeScope (t : Table) :
    (t.without z).closeScope = t.closeScope.without z := by
  rw [← Renaming.table_without]
  exact Renaming.closeScope_table t

/-- Other names are looked up as before. -/
theorem Table.env_without {z x : String} (h : x ≠ z) (t : Table) :
    (t.without z).env x = t.env x := by
  rw [← Renaming.table_without]
  exact Renaming.env_table (decide_eq_true h) t

namespace Visit

/-- In a sequence of visits the bindings can be taken out at the end. -/
theorem andThen_without (v : Visit α β) {stop : α → γ} {go : α → Table → β → Visit γ δ}
    (hgo : ∀ x t b, go x (t.without z) b = (go x t b).without z) :
    (v.without z).andThen stop go = (v.andThen stop go).without z :=
  andThen_carry v (fun _ => rfl) hgo

/-- A table without `z` stays one when the check does the same without it. -/
theorem table_without_eq (check : Table → Visit α β) {t : Table}
    (h : check (t.without z) = (check t).without z) (ht : t.without z = t) :
    (check t).table.without z = (check t).table := by
  rw [ht] at h
  exact (congrArg Visit.table h).symm

end Visit

/-- A visit carried over by a renaming that leaves the node as it is. -/
theorem Visit.carry_without {g : α → α} (hg : ∀ x, g x = x) (v : Visit α β) :
    v.carry g (Renaming.without z).table = v.without z := by
  rw [Renaming.table_without]
  exact congrArg (Visit.mk · (v.table.without z) v.result) (hg v.node)

/-! ## Trees without a name -/

/-- A declaration that does not declare `z` is checked as before. -/
theorem Decl.check_without {d : Decl} (h : z ∉ d.names) (t : Table) :
    d.check (t.without z) = (d.check t).without z := by
  have hcheck := Decl.check_rename (Renaming.without z) t d (Renaming.covers_without h)
  have hid : ∀ d : Decl, d.rename id = d := fun _ => by rw [Decl.rename_id, id]
  rwa [Renaming.other_without, hid, Visit.carry_without hid, Renaming.table_without] at hcheck

/-- Declarations that do not mention a name are checked the same without its bindings. -/
theorem checkDecls_without {ds : List Decl} (h : z ∉ ds.flatMap Decl.names) (t : Table) :
    checkDecls (t.without z) ds = (checkDecls t ds).without z := by
  have hid : ∀ ds : List Decl, ds.map (Decl.rename id) = ds := by simp
  have hcheck := checkDecls_rename (Renaming.without z) t ds (Renaming.covers_without h)
  rwa [Renaming.other_without, hid, Visit.carry_without hid, Renaming.table_without] at hcheck

/-- A statement in which `z` does not occur is checked as before. -/
theorem Stmt.check_without {s : Stmt} (h : z ∉ s.names) (t : Table) :
    s.check (t.without z) = (s.check t).without z := by
  have hcheck := Stmt.check_rename (Renaming.without z) t s (Renaming.covers_without h)
  rwa [Renaming.other_without, Stmt.rename_id, Visit.carry_without Stmt.rename_id,
    Renaming.table_without] at hcheck

/-- A block that does not mention a name is checked the same without its bindings. -/
theorem Block.check_without {b : Block} (h : z ∉ b.names) (t : Table) :
    b.check (t.without z) = (b.check t).without z := by
  have hcheck := Block.check_rename (Renaming.without z) t b (Renaming.covers_without h)
  rwa [Renaming.other_without, Block.rename_id, Visit.carry_without Block.rename_id,
    Renaming.table_without] at hcheck

/-- Statements that do not mention a name are checked the same without its bindings. -/
theorem checkStmts_without {ss : List Stmt} (h : z ∉ namesOfStmts ss) (t : Table) :
    checkStmts (t.without z) ss = (checkStmts t ss).without z := by
  have hcheck := checkStmts_rename (Renaming.without z) t ss (Renaming.covers_without h)
  rwa [Renaming.other_without, renameStmts_id, Visit.carry_without renameStmts_id,
    Renaming.table_without] at hcheck

/-- A return in which `z` does not occur finds what it found. -/
theorem return_without {r : Return} (h : z ∉ r.names) (t : Table) :
    (r.check (t.without z).env).within (t.without z) = ((r.check t.env).within t).without z := by
  have hcheck := return_rename (Renaming.without z) t r (Renaming.covers_without h)
  rwa [Renaming.other_without, Return.rename_id, Visit.carry_without Return.rename_id,
    Renaming.table_without] at hcheck

/-- Headers are declared as before.  The main name is excepted, because a clash of it is a violation
    of its own. -/
theorem declareAll_without (hmain : z ≠ mainName) {hs : List Header}
    (h : z ∉ hs.flatMap Header.names) (t : Table) :
    declareAll (t.without z) hs = (declareAll t hs).without z := by
  have hid := List.map_id'' Header.rename_id
  have hcheck := declareAll_rename (Renaming.keepsMain_without hmain) t hs
    (Renaming.covers_without h)
  rwa [Renaming.other_without, hid, Visit.carry_without hid, Renaming.table_without] at hcheck

/-- A body in which `z` does not occur is checked as before, whatever header it is put under. -/
theorem Procedure.checkBody_without (hmain : z ≠ mainName) {p : Procedure} (h : z ∉ p.names)
    (t : Table) (header : Header) (id : Nat) :
    p.checkBody (t.without z) header id = (p.checkBody t header id).without z := by
  have hcheck := Procedure.checkBody_rename (Renaming.keepsMain_without hmain) t header id p
    (Renaming.covers_without h)
  rwa [Renaming.other_without, Procedure.rename_id, Header.rename_id,
    Visit.carry_without Procedure.rename_id, Renaming.table_without] at hcheck

/-- Bodies that do not mention a name are checked the same without its bindings. -/
theorem checkBodies_without (hmain : z ≠ mainName) {ps : List Procedure}
    (h : z ∉ namesOfProcedures ps) (t : Table) (ws : List (Header × Nat)) :
    checkBodies (t.without z) ws ps = (checkBodies t ws ps).without z := by
  have hwaiting : ∀ w : Header × Nat, Prod.map (Header.rename id) id w = w := fun w =>
    Prod.ext (Header.rename_id w.1) rfl
  have hid : renameWaiting id ws = ws := List.map_id'' hwaiting ws
  have hcheck := checkBodies_rename (Renaming.keepsMain_without hmain) t ws ps
    (Renaming.covers_without h)
  rwa [Renaming.other_without, hid, renameProcedures_id,
    Visit.carry_without renameProcedures_id, Renaming.table_without] at hcheck

/-- Procedures that stand side by side: their signatures and their bodies together. -/
theorem checkProcedures_without (hmain : z ≠ mainName) {ps : List Procedure}
    (h : z ∉ namesOfProcedures ps) (t : Table) :
    checkProcedures (t.without z) ps = (checkProcedures t ps).without z := by
  have hcheck := declareThen_rename (Renaming.keepsMain_without hmain) t ps
    (Renaming.covers_without h) fun t ws =>
      checkBodies_rename (Renaming.keepsMain_without hmain) t ws ps (Renaming.covers_without h)
  rwa [Renaming.other_without, renameProcedures_id, Visit.carry_without renameProcedures_id,
    Renaming.table_without] at hcheck

/-- What is said of the main procedure depends on the main name alone. -/
theorem mainVerdict_without (hmain : z ≠ mainName) (t : Table) :
    mainVerdict (t.without z) = mainVerdict t := by
  rw [← Renaming.table_without]
  exact mainVerdict_rename (Renaming.keepsMain_without hmain) t

/-- A program in which `z` does not occur is checked as before. -/
theorem Program.check_without (hmain : z ≠ mainName) {p : Program} (h : z ∉ p.names)
    (t : Table) : p.check (t.without z) = (p.check t).without z := by
  have hcheck := p.check_rename (Renaming.keepsMain_without hmain) t (Renaming.covers_without h)
  have hid : ∀ p : Program, p.rename id = p := fun p => by rw [Program.rename, renameProcedures_id]
  rwa [Renaming.other_without, hid, Visit.carry_without hid, Renaming.table_without] at hcheck

end

end ProcLang
