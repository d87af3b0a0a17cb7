/-
  The names in a tree, and trees under other names.

  `names` lists all names that occur in a tree, those that it declares and those that it uses;
  `rename σ` puts `σ x` in the place of every `x` of them, and leaves all else, attributes
  included, as it is.
-/
import ProcLang.Tree.Program

namespace ProcLang

/-! ## Names -/

mutual

/-- The names in an expression. -/
def Expr.names : Expr → List String
  | .binary _ _ l r => l.names ++ r.names
  | .unary _ _ e => e.names
  | .addressOf _ l => l.names
  | .element _ x i => x :: i.names
  | .named _ x => [x]
  | .integer _ _ | .char _ _ | .boolean _ _ | .null _ => []

/-- The names in a location. -/
def Location.names : Location → List String
  | .named _ x => [x]
  | .pointee _ x => [x]
  | .element _ x i => x :: i.names

end

mutual

/-- The names in a statement. -/
def Stmt.names : Stmt → List String
  | .assign _ l e => l.names ++ e.names
  | .assignString _ l _ => l.names
  | .call _ l f es => l.names ++ f :: es.flatMap Expr.names
  | .ifThen _ c b => c.names ++ b.names
  | .ifElse _ c b b' => c.names ++ (b.names ++ b'.names)
  | .loop _ c b => c.names ++ b.names
  | .block _ b => b.names

/-- The names in a nested block. -/
def Block.names : Block → List String
  | .mk ds ss _ => ds.flatMap Decl.names ++ namesOfStmts ss

/-- The names in statements. -/
def namesOfStmts : List Stmt → List String
  | [] => []
  | s :: ss => s.names ++ namesOfStmts ss

end

/-- The names in a header: the procedure and its parameters. -/
def Header.names (h : Header) : List String := h.name :: h.parameters.flatMap Decl.names

/-- The names in a return. -/
def Return.names (r : Return) : List String := r.value.names

mutual

/-- The names in a procedure. -/
def Procedure.names : Procedure → List String
  | .mk h b => h.names ++ b.names

/-- The names in a procedure body. -/
def Body.names : Body → List String
  | .mk ps ds ss r _ =>
    namesOfProcedures ps ++ (ds.flatMap Decl.names ++ (namesOfStmts ss ++ r.names))

/-- The names in procedures. -/
def namesOfProcedures : List Procedure → List String
  | [] => []
  | p :: ps => p.names ++ namesOfProcedures ps

end

/-- The names in a program. -/
def Program.names (p : Program) : List String := namesOfProcedures p.procedures

/-! ## Other names -/

section

variable (σ : String → String)

mutual

/-- The expression under other names. -/
def Expr.rename : Expr → Expr
  | .binary a op l r => .binary a op l.rename r.rename
  | .unary a op e => .unary a op e.rename
  | .addressOf a l => .addressOf a l.rename
  | .element a x i => .element a (σ x) i.rename
  | .named a x => .named a (σ x)
  | .integer a n => .integer a n
  | .char a c => .char a c
  | .boolean a b => .boolean a b
  | .null a => .null a

/-- The location under other names. -/
def Location.rename : Location → Location
  | .named a x => .named a (σ x)
  | .pointee a x => .pointee a (σ x)
  | .element a x i => .element a (σ x) i.rename

end

/-- The declaration of other names. -/
def Decl.rename (d : Decl) : Decl := { d with names := d.names.map σ }

mutual

/-- The statement under other names, that of a callee included. -/
def Stmt.rename : Stmt → Stmt
  | .assign a l e => .assign a (l.rename σ) (e.rename σ)
  | .assignString a l text => .assignString a (l.rename σ) text
  | .call a l f es => .call a (l.rename σ) (σ f) (es.map (Expr.rename σ))
  | .ifThen a c b => .ifThen a (c.rename σ) b.rename
  | .ifElse a c b b' => .ifElse a (c.rename σ) b.rename b'.rename
  | .loop a c b => .loop a (c.rename σ) b.rename
  | .block a b => .block a b.rename

/-- The block under other names. -/
def Block.rename : Block → Block
  | .mk ds ss a => .mk (ds.map (Decl.rename σ)) (renameStmts ss) a

/-- The statements under other names. -/
def renameStmts : List Stmt → List Stmt
  | [] => []
  | s :: ss => s.rename :: renameStmts ss

end

/-- The header under other names: those of the procedure and of its parameters. -/
def Header.rename (h : Header) : Header :=
  { h with name := σ h.name, parameters := h.parameters.map (Decl.rename σ) }

/-- The return under other names. -/
def Return.rename (r : Return) : Return := { r with value := r.value.rename σ }

mutual

/-- The procedure under other names. -/
def Procedure.rename : Procedure → Procedure
  | .mk h b => .mk (h.rename σ) b.rename

/-- The body under other names. -/
def Body.rename : Body → Body
  | .mk ps ds ss r a =>
    .mk (renameProcedures ps) (ds.map (Decl.rename σ)) (renameStmts σ ss) (r.rename σ) a

/-- The procedures under other names. -/
def renameProcedures : List Procedure → List Procedure
  | [] => []
  | p :: ps => p.rename :: renameProcedures ps

end

/-- The program with `σ x` in the place of every name `x`. -/
def Program.rename (p : Program) : Program :=
  { p with procedures := renameProcedures σ p.procedures }

end

/-! ## No other names -/

mutual

/-- Names that stay are no change to an expression. -/
@[simp] theorem Expr.rename_id (e : Expr) : e.rename id = e := by
  cases e with
  | binary a op l r => rw [Expr.rename, Expr.rename_id l, Expr.rename_id r]
  | unary a op e => rw [Expr.rename, Expr.rename_id e]
  | addressOf a l => rw [Expr.rename, Location.rename_id l]
  | element a x i => rw [Expr.rename, Expr.rename_id i, id]
  | named a x => rfl
  | integer a n => rfl
  | char a c => rfl
  | boolean a b => rfl
  | null a => rfl

/-- Names that stay are no change to a location. -/
@[simp] theorem Location.rename_id (l : Location) : l.rename id = l := by
  cases l with
  | named a x => rfl
  | pointee a x => rfl
  | element a x i => rw [Location.rename, Expr.rename_id i, id]

end

/-- Names that stay are no change to any declaration. -/
@[simp] theorem Decl.rename_id : Decl.rename id = id := by
  funext d
  rw [Decl.rename, List.map_id]
  rfl

mutual

/-- Names that stay are no change to a statement. -/
@[simp] theorem Stmt.rename_id (s : Stmt) : s.rename id = s := by
  cases s with
  | assign a l e => rw [Stmt.rename, Location.rename_id, Expr.rename_id]
  | assignString a l text => rw [Stmt.rename, Location.rename_id]
  | call a l f es =>
    have harguments : es.map (Expr.rename id) = es := List.map_id'' Expr.rename_id es
    rw [Stmt.rename, Location.rename_id, harguments, id]
  | ifThen a c b => rw [Stmt.rename, Expr.rename_id, Block.rename_id b]
  | ifElse a c b b' => rw [Stmt.rename, Expr.rename_id, Block.rename_id b, Block.rename_id b']
  | loop a c b => rw [Stmt.rename, Expr.rename_id, Block.rename_id b]
  | block a b => rw [Stmt.rename, Block.rename_id b]

/-- Names that stay are no change to a block. -/
@[simp] theorem Block.rename_id (b : Block) : b.rename id = b := by
  cases b with
  | mk ds ss a => rw [Block.rename, Decl.rename_id, List.map_id, renameStmts_id ss]

/-- Names that stay are no change to statements in a row. -/
@[simp] theorem renameStmts_id (ss : List Stmt) : renameStmts id ss = ss := by
  cases ss with
  | nil => rfl
  | cons s ss => rw [renameStmts, Stmt.rename_id s, renameStmts_id ss]

end

/-- Names that stay are no change to a header. -/
@[simp] theorem Header.rename_id (h : Header) : h.rename id = h := by
  rw [Header.rename, Decl.rename_id, List.map_id, id]

/-- Names that stay are no change to a return. -/
@[simp] theorem Return.rename_id (r : Return) : r.rename id = r := by
  rw [Return.rename, Expr.rename_id]

mutual

/-- Names that stay are no change to a procedure. -/
@[simp] theorem Procedure.rename_id (p : Procedure) : p.rename id = p := by
  cases p with
  | mk h b => rw [Procedure.rename, Header.rename_id, Body.rename_id b]

/-- Names that stay are no change to a body. -/
@[simp] theorem Body.rename_id (b : Body) : b.rename id = b := by
  cases b with
  | mk ps ds ss r a =>
    rw [Body.rename, renameProcedures_id ps, Decl.rename_id, List.map_id, renameStmts_id,
      Return.rename_id]

/-- Names that stay are no change to procedures in a row. -/
@[simp] theorem renameProcedures_id (ps : List Procedure) : renameProcedures id ps = ps := by
  cases ps with
  | nil => rfl
  | cons p ps => rw [renameProcedures, Procedure.rename_id p, renameProcedures_id ps]

end

/-! ## Names of parts -/

/-- The names in the headers of procedures are names in the procedures. -/
theorem names_headers_subset (ps : List Procedure) :
    (ps.map Procedure.header).flatMap Header.names ⊆ namesOfProcedures ps := by
  induction ps with
  | nil => exact List.Subset.refl _
  | cons p ps ih =>
    obtain ⟨h, b⟩ := p
    rw [List.map_cons, List.flatMap_cons]
    exact List.append_subset.mpr
      ⟨fun _ hx => List.mem_append_left _ (List.mem_append_left _ hx),
        fun _ hx => List.mem_append_right _ (ih hx)⟩

/-- The names in the body of a procedure are among those of the procedures. -/
theorem names_body_subset {ps : List Procedure} {j : Nat} {p : Procedure}
    (hp : ps[j]? = some p) : p.body.names ⊆ namesOfProcedures ps := by
  induction ps generalizing j with
  | nil => cases hp
  | cons p₀ ps ih =>
    cases j with
    | zero =>
      obtain rfl := Option.some.inj hp
      obtain ⟨h, b⟩ := p₀
      exact fun _ hx => List.mem_append_left _ (List.mem_append_right _ hx)
    | succ j => exact fun _ hx => List.mem_append_right _ (ih hp hx)

/-- The names in a statement are among those of the statements. -/
theorem names_stmt_subset {ss : List Stmt} {i : Nat} {s : Stmt} (hs : ss[i]? = some s) :
    s.names ⊆ namesOfStmts ss := by
  induction ss generalizing i with
  | nil => cases hs
  | cons s₀ ss ih =>
    cases i with
    | zero =>
      obtain rfl := Option.some.inj hs
      exact fun _ hx => List.mem_append_left _ hx
    | succ i => exact fun _ hx => List.mem_append_right _ (ih hs hx)

/-- The names in the procedures of a body are among those of the body. -/
theorem Body.names_procedures_subset (b : Body) : namesOfProcedures b.procedures ⊆ b.names := by
  obtain ⟨ps, ds, ss, r, a⟩ := b
  exact List.subset_append_left _ _

/-- The names in the statements of a body are among those of the body. -/
theorem Body.names_stmts_subset (b : Body) : namesOfStmts b.stmts ⊆ b.names := by
  obtain ⟨ps, ds, ss, r, a⟩ := b
  intro x hx
  simp only [Body.names, List.mem_append]
  exact Or.inr (Or.inr (Or.inl hx))

/-- The names that a body declares are among its names. -/
theorem Body.names_decls_subset (b : Body) : b.decls.flatMap Decl.names ⊆ b.names := by
  obtain ⟨ps, ds, ss, r, a⟩ := b
  intro x hx
  simp only [Body.names, List.mem_append]
  exact Or.inr (Or.inl hx)

/-- The names that a block declares are among its names. -/
theorem Block.names_decls_subset (b : Block) : b.decls.flatMap Decl.names ⊆ b.names := by
  obtain ⟨ds, ss, a⟩ := b
  exact List.subset_append_left _ _

/-- The names in the statements of a block are among those of the block. -/
theorem Block.names_stmts_subset (b : Block) : namesOfStmts b.stmts ⊆ b.names := by
  obtain ⟨ds, ss, a⟩ := b
  exact List.subset_append_right _ _

end ProcLang
