/-
  Equality of trees is decidable.

  Two trees are equal when they have the same shape, names, literals and attributes.  Lists of
  statements and of procedures hold further trees, so the comparison of a list is written out
  beside the comparison of what it holds.
-/
import ProcLang.Tree.Program

namespace ProcLang

/-! ## Statements -/

mutual

/-- Compares two statements. -/
def Stmt.same : Stmt → Stmt → Bool
  | .assign a l e, .assign a' l' e' => a = a' && l = l' && e = e'
  | .assignString a l s, .assignString a' l' s' => a = a' && l = l' && s = s'
  | .call a l f es, .call a' l' f' es' => a = a' && l = l' && f = f' && es = es'
  | .ifThen a e b, .ifThen a' e' b' => a = a' && e = e' && b.same b'
  | .ifElse a e b c, .ifElse a' e' b' c' => a = a' && e = e' && b.same b' && c.same c'
  | .loop a e b, .loop a' e' b' => a = a' && e = e' && b.same b'
  | .block a b, .block a' b' => a = a' && b.same b'
  | _, _ => false

/-- Compares two blocks. -/
def Block.same : Block → Block → Bool
  | .mk ds ss a, .mk ds' ss' a' => ds = ds' && sameStmts ss ss' && a = a'

/-- Compares two lists of statements. -/
def sameStmts : List Stmt → List Stmt → Bool
  | [], [] => true
  | s :: ss, s' :: ss' => s.same s' && sameStmts ss ss'
  | _, _ => false

end

mutual

/-- The comparison of statements decides equality. -/
theorem Stmt.same_iff (s s' : Stmt) : s.same s' = true ↔ s = s' := by
  cases s <;> cases s' <;>
    simp [Stmt.same, Block.same_iff, and_assoc]

/-- The comparison of blocks decides equality. -/
theorem Block.same_iff (b b' : Block) : b.same b' = true ↔ b = b' := by
  cases b; cases b'
  simp [Block.same, sameStmts_iff, and_assoc]

/-- The comparison of lists of statements decides equality. -/
theorem sameStmts_iff (ss ss' : List Stmt) : sameStmts ss ss' = true ↔ ss = ss' := by
  cases ss <;> cases ss' <;> simp [sameStmts, Stmt.same_iff, sameStmts_iff]

end

instance : DecidableEq Stmt := fun s s' => decidable_of_iff _ (Stmt.same_iff s s')

instance : DecidableEq Block := fun b b' => decidable_of_iff _ (Block.same_iff b b')

/-! ## Procedures -/

mutual

/-- Compares two procedures. -/
def Procedure.same : Procedure → Procedure → Bool
  | .mk h b, .mk h' b' => h = h' && b.same b'

/-- Compares two bodies. -/
def Body.same : Body → Body → Bool
  | .mk ps ds ss r a, .mk ps' ds' ss' r' a' =>
    sameProcedures ps ps' && ds = ds' && ss = ss' && r = r' && a = a'

/-- Compares two lists of procedures. -/
def sameProcedures : List Procedure → List Procedure → Bool
  | [], [] => true
  | p :: ps, p' :: ps' => p.same p' && sameProcedures ps ps'
  | _, _ => false

end

mutual

/-- The comparison of procedures decides equality. -/
theorem Procedure.same_iff (p p' : Procedure) : p.same p' = true ↔ p = p' := by
  cases p; cases p'
  simp [Procedure.same, Body.same_iff]

/-- The comparison of bodies decides equality. -/
theorem Body.same_iff (b b' : Body) : b.same b' = true ↔ b = b' := by
  cases b; cases b'
  simp [Body.same, sameProcedures_iff, and_assoc]

/-- The comparison of lists of procedures decides equality. -/
theorem sameProcedures_iff (ps ps' : List Procedure) :
    sameProcedures ps ps' = true ↔ ps = ps' := by
  cases ps <;> cases ps' <;> simp [sameProcedures, Procedure.same_iff, sameProcedures_iff]

end

instance : DecidableEq Procedure := fun p p' => decidable_of_iff _ (Procedure.same_iff p p')

instance : DecidableEq Body := fun b b' => decidable_of_iff _ (Body.same_iff b b')

deriving instance DecidableEq for Program

end ProcLang
