/-
  Sites: where a part stands in a tree, and how a check comes to it.

  A `Site α γ` stands for a place in trees `γ` that holds a part `α`: it gets the part, and
  changes it.  Sites are put together from single steps (`Site.comp`), so that a program has a
  site for every procedure body (`BodySite`) and for every nested block (`BlockSite`).

  A check of a tree either ends in front of a site, or comes to it with some table, visits the
  part, and goes on from there (`Enters`).  The point is what does not depend on the part: the
  outcome in the first case, and in the second one the table that the part is visited from, the
  tree around it, and how the check goes on, which is the same for all parts that leave the same
  table and find the same.  So trees that differ at one site only can be compared by comparing
  the visits of their parts.  Entering composes as the sites do (`Enters.comp`).
-/
import ProcLang.Proofs.Typing.Absent
import ProcLang.Proofs.Typing.Footprint

namespace ProcLang

variable {α β γ δ ε ζ η : Type}

/-! ## Sites -/

/-- Where a part stands in a whole. -/
structure Site (α γ : Type) where
  part? : γ → Option α
  change : (α → α) → γ → γ
  change_id : ∀ w, change id w = w
  change_change : ∀ f g w, change f (change g w) = change (f ∘ g) w

namespace Site

/-- The whole with another part. -/
def put (P : Site α γ) (x : α) (w : γ) : γ := P.change (fun _ => x) w

/-- Changing what was put there. -/
theorem change_put (P : Site α γ) (f : α → α) (x : α) (w : γ) :
    P.change f (P.put x w) = P.put (f x) w := P.change_change _ _ w

/-- A site in the part at a site. -/
def comp (P : Site β γ) (Q : Site α β) : Site α γ where
  part? w := (P.part? w).bind Q.part?
  change f := P.change (Q.change f)
  change_id w := by
    have hid : Q.change id = id := funext Q.change_id
    rw [hid, P.change_id]
  change_change f g w := by
    have hcomp : Q.change f ∘ Q.change g = Q.change (f ∘ g) := funext (Q.change_change f g)
    rw [P.change_change, hcomp]

/-- An element of a list. -/
def nth (i : Nat) : Site α (List α) where
  part? xs := xs[i]?
  change f xs := xs.modify i f
  change_id xs := List.modify_id i xs
  change_change f g xs := List.modify_modify_eq g f i xs

/-- The procedures of a program. -/
def topLevel : Site (List Procedure) Program where
  part? p := some p.procedures
  change f p := { p with procedures := f p.procedures }
  change_id _ := rfl
  change_change _ _ _ := rfl

/-- The body of a procedure. -/
def body : Site Body Procedure where
  part? p := some p.body
  change f p := .mk p.header (f p.body)
  change_id p := by cases p; rfl
  change_change _ _ _ := rfl

/-- The procedures in a body. -/
def nested : Site (List Procedure) Body where
  part? b := some b.procedures
  change f b := .mk (f b.procedures) b.decls b.stmts b.result b.attr
  change_id b := by cases b; rfl
  change_change _ _ _ := rfl

/-- The declarations of a body. -/
def bodyDecls : Site (List Decl) Body where
  part? b := some b.decls
  change f b := .mk b.procedures (f b.decls) b.stmts b.result b.attr
  change_id b := by cases b; rfl
  change_change _ _ _ := rfl

/-- The statements of a body. -/
def bodyStmts : Site (List Stmt) Body where
  part? b := some b.stmts
  change f b := .mk b.procedures b.decls (f b.stmts) b.result b.attr
  change_id b := by cases b; rfl
  change_change _ _ _ := rfl

/-- The declarations of a nested block. -/
def blockDecls : Site (List Decl) Block where
  part? b := some b.decls
  change f b := .mk (f b.decls) b.stmts b.attr
  change_id b := by cases b; rfl
  change_change _ _ _ := rfl

/-- The statements of a nested block. -/
def blockStmts : Site (List Stmt) Block where
  part? b := some b.stmts
  change f b := .mk b.decls (f b.stmts) b.attr
  change_id b := by cases b; rfl
  change_change _ _ _ := rfl

/-- The block of a statement; the one of an `if` is that of the condition being true. -/
def block : Site Block Stmt where
  part?
    | .ifThen _ _ b => some b
    | .ifElse _ _ b _ => some b
    | .loop _ _ b => some b
    | .block _ b => some b
    | _ => none
  change f
    | .ifThen a c b => .ifThen a c (f b)
    | .ifElse a c b b' => .ifElse a c (f b) b'
    | .loop a c b => .loop a c (f b)
    | .block a b => .block a (f b)
    | s => s
  change_id s := by cases s <;> rfl
  change_change _ _ s := by cases s <;> rfl

/-- The second block of an `if`. -/
def otherwise : Site Block Stmt where
  part?
    | .ifElse _ _ _ b' => some b'
    | _ => none
  change f
    | .ifElse a c b b' => .ifElse a c b (f b')
    | s => s
  change_id s := by cases s <;> rfl
  change_change _ _ s := by cases s <;> rfl

/-- The arguments of a call. -/
def arguments : Site (List Expr) Stmt where
  part?
    | .call _ _ _ es => some es
    | _ => none
  change f
    | .call a l x es => .call a l x (f es)
    | s => s
  change_id s := by cases s <;> rfl
  change_change _ _ s := by cases s <;> rfl

end Site

/-- A site of a block in a statement. -/
inductive InStmt : Site Block Stmt → Prop
  | block : InStmt .block
  | otherwise : InStmt .otherwise

/-- A site of a procedure body in a program. -/
inductive BodySite : Site Body Program → Prop
  | topLevel (j : Nat) : BodySite (Site.topLevel.comp ((Site.nth j).comp .body))
  | nested {P : Site Body Program} (h : BodySite P) (j : Nat) :
      BodySite (P.comp (Site.nested.comp ((Site.nth j).comp .body)))

/-- A site of a nested block in a program. -/
inductive BlockSite : Site Block Program → Prop
  | body {P : Site Body Program} {Q : Site Block Stmt} (h : BodySite P) (i : Nat)
      (hQ : InStmt Q) : BlockSite (P.comp (Site.bodyStmts.comp ((Site.nth i).comp Q)))
  | nested {P : Site Block Program} {Q : Site Block Stmt} (h : BlockSite P) (i : Nat)
      (hQ : InStmt Q) : BlockSite (P.comp (Site.blockStmts.comp ((Site.nth i).comp Q)))

/-- A site of the declarations of a body or of a nested block. -/
inductive DeclsSite : Site (List Decl) Program → Prop
  | body {P : Site Body Program} (h : BodySite P) : DeclsSite (P.comp .bodyDecls)
  | block {P : Site Block Program} (h : BlockSite P) : DeclsSite (P.comp .blockDecls)

/-- A site of the statements of a body or of a nested block. -/
inductive StmtsSite : Site (List Stmt) Program → Prop
  | body {P : Site Body Program} (h : BodySite P) : StmtsSite (P.comp .bodyStmts)
  | block {P : Site Block Program} (h : BlockSite P) : StmtsSite (P.comp .blockStmts)

/-- A site of the arguments of a call. -/
inductive ArgumentsSite : Site (List Expr) Program → Prop
  | stmt {P : Site (List Stmt) Program} (h : StmtsSite P) (i : Nat) :
      ArgumentsSite (P.comp ((Site.nth i).comp .arguments))

/-- A site of procedures that stand side by side. -/
inductive ProceduresSite : Site (List Procedure) Program → Prop
  | topLevel : ProceduresSite .topLevel
  | nested {P : Site Body Program} (h : BodySite P) : ProceduresSite (P.comp .nested)

/-! ## How a check comes to a site -/

namespace Visit

/-- A function on the outcome goes inside of a sequence. -/
theorem mapNode_andThen (v : Visit α β) (stop : α → γ) (go : α → Table → β → Visit γ δ)
    (g : γ → ζ) : (v.andThen stop go).mapNode g =
      v.andThen (fun x => g (stop x)) fun x t b => (go x t b).mapNode g := by
  obtain ⟨x, t, b | e⟩ := v <;> rfl

/-- Sequencing is associative. -/
theorem andThen_andThen (v : Visit α β) (stop : α → γ) (go : α → Table → β → Visit γ δ)
    (stop' : γ → ε) (go' : γ → Table → δ → Visit ε ζ) :
    (v.andThen stop go).andThen stop' go' =
      v.andThen (fun x => stop' (stop x)) fun x t b => (go x t b).andThen stop' go' := by
  obtain ⟨x, t, b | e⟩ := v <;> rfl

/-- A function on the node in front of a sequence. -/
theorem andThen_mapNode (v : Visit α β) (f : α → γ) (stop : γ → ε)
    (go : γ → Table → β → Visit ε ζ) :
    (v.mapNode f).andThen stop go = v.andThen (fun x => stop (f x)) fun x => go (f x) := by
  obtain ⟨x, t, b | e⟩ := v <;> rfl

/-- Two functions on the outcome are one. -/
theorem mapNode_mapNode (v : Visit α β) (f : α → γ) (g : γ → δ) :
    (v.mapNode f).mapNode g = v.mapNode fun x => g (f x) := rfl

end Visit

/-- What a check can come to from the table `t`: it is valid if `t` is, and names other than
    `names` are not in it unless they are in `t`. -/
structure Table.Leads (names : List String) (t u : Table) : Prop where
  valid : t.Valid → u.Valid
  without : ∀ z ∉ names, t.without z = t → u.without z = u

/-- Nothing happens on the way. -/
theorem Table.Leads.refl (names : List String) (t : Table) : t.Leads names t :=
  ⟨id, fun _ _ => id⟩

/-- One way after the other. -/
theorem Table.Leads.trans {names : List String} {t u w : Table} (h : t.Leads names u)
    (h' : u.Leads names w) : t.Leads names w :=
  ⟨fun ht => h'.valid (h.valid ht), fun z hz ht => h'.without z hz (h.without z hz ht)⟩

/-- The visit, made in the table `t`, leaves a valid table with all that is in `t`. -/
structure Visit.Grows (v : Visit α β) (t : Table) : Prop where
  valid : v.table.Valid
  keeps : t.Extends (fun _ => True) v.table

section

variable {v : Visit α β} {t t' : Table}

/-- What has a footprint loses nothing. -/
theorem Visit.Framed.grows {changed : Nat → Prop} {base path : List Nat}
    (h : v.Framed t changed base path) : v.Grows t :=
  ⟨h.valid, h.keeps.imp fun _ _ _ => trivial⟩

/-- What becomes of the node has no part in it. -/
theorem Visit.Grows.mapNode (h : v.Grows t) (f : α → γ) : (v.mapNode f).Grows t := ⟨h.1, h.2⟩

/-- Sequences lose nothing when their parts do not. -/
theorem Visit.Grows.andThen (h : v.Grows t) {stop : α → γ} {go : α → Table → β → Visit γ δ}
    (hgo : ∀ x u b, u.Valid → (go x u b).Grows u) : (v.andThen stop go).Grows t := by
  cases hv : v.result with
  | error e =>
    rw [Visit.andThen_of_error hv]
    exact ⟨h.valid, h.keeps⟩
  | ok b =>
    rw [Visit.andThen_of_ok hv]
    have hrest := hgo v.node v.table b h.valid
    exact ⟨hrest.valid, h.keeps.trans hrest.keeps⟩

/-- A visit that binds nothing. -/
theorem Visit.grows_mk (ht : t'.Valid) (hscopes : t'.scopes = t.scopes) (x : α)
    (r : Except SemanticError β) : (Visit.mk x t' r).Grows t := ⟨ht, .of_scopes_eq hscopes⟩

end

/-- How a check goes on behind a part: it does the same without a name that is not one of `names`,
    and the table grows. -/
structure GoesOn (names : List String) (rest : Table → β → Visit γ δ) : Prop where
  without : ∀ z ∉ names, ∀ u b, rest (u.without z) b = (rest u b).without z
  grows : ∀ u b, u.Valid → (rest u b).Grows u

namespace GoesOn

variable {names : List String} {rest : Table → β → Visit α δ}

/-- What leaves the table alone. -/
theorem stay (x : β → γ) (r : β → Except SemanticError δ) :
    GoesOn names fun u b => ⟨x b, u, r b⟩ :=
  ⟨fun _ _ _ _ => rfl, fun _ _ hu => Visit.grows_mk hu rfl _ _⟩

/-- A check may go on with closing the scope. -/
theorem closeScope (x : β → γ) (r : β → Except SemanticError δ) :
    GoesOn names fun u b => ⟨x b, u.closeScope, r b⟩ where
  without z _ u b := by
    rw [Table.without_closeScope]
    rfl
  grows u _ hu := Visit.grows_mk hu.closeScope (Table.scopes_closeScope u) _ _

/-- It may change the outcome at the end. -/
theorem mapNode (h : GoesOn names rest) (f : α → γ) :
    GoesOn names fun u b => (rest u b).mapNode f where
  without z hz u b := by
    rw [h.without z hz]
    rfl
  grows u b hu := (h.grows u b hu).mapNode f

/-- It may go on with one thing after the other. -/
theorem andThen (h : GoesOn names rest) {stop : α → γ} {go : α → Table → δ → Visit γ ε}
    (hgo : ∀ x, GoesOn names (go x)) :
    GoesOn names fun u b => (rest u b).andThen stop go where
  without z hz u b := by
    rw [h.without z hz]
    exact Visit.andThen_without _ fun x u c => (hgo x).without z hz u c
  grows u b hu := (h.grows u b hu).andThen fun x u c hu => (hgo x).grows u c hu

/-- A check leads on from where it starts. -/
theorem leads (h : GoesOn names rest) (t : Table) (b : β) : t.Leads names (rest t b).table where
  valid ht := (h.grows t b ht).valid
  without z hz ht := Visit.table_without_eq (fun t => rest t b) (h.without z hz t b) ht

end GoesOn

/-- The visits `F f` of a whole, in which the part `x` at the site `P` is changed by `f`, come to
    it in the same way for all `f`, or end in the same way in front of it.  Parts are visited by
    `V`, and `t` is the table that the visit of the whole starts from.  Names other than `names`
    play no part in it. -/
inductive Enters (names : List String) (V : Table → α → Visit α β) (P : Site α γ) (t : Table)
    (x : α) (F : (α → α) → Visit γ δ) : Prop
  | before (n : γ) (u : Table) (e : SemanticError)
      (h : ∀ f, F f = ⟨P.change f n, u, .error e⟩) : Enters names V P t x F
  | inside (n : γ) (u : Table) (rest : Table → β → Visit γ δ) (hu : t.Leads names u)
      (hrest : GoesOn names rest)
      (h : ∀ f, F f = (V u (f x)).andThen (fun y => P.put y n)
        fun y u b => (rest u b).mapNode (P.put y)) : Enters names V P t x F

namespace Enters

variable {names : List String} {V : Table → α → Visit α β} {P : Site α γ} {t : Table} {x : α}
  {F : (α → α) → Visit γ δ}

/-- The part comes first. -/
theorem here (n : γ) (rest : Table → β → Visit γ δ) (hrest : GoesOn names rest)
    (h : ∀ f, F f = (V t (f x)).andThen (fun y => P.put y n)
      fun y u b => (rest u b).mapNode (P.put y)) : Enters names V P t x F :=
  .inside n t rest (.refl names t) hrest h

/-- Nothing comes but the part. -/
theorem alone {F : (α → α) → Visit γ β} (n : γ)
    (h : ∀ f, F f = (V t (f x)).mapNode (P.put · n)) : Enters names V P t x F := by
  refine .here n (fun u b => ⟨n, u, .ok b⟩) (.stay (fun _ => n) .ok) fun f => ?_
  rw [h]
  obtain ⟨y, u, b | e⟩ := V t (f x) <;> rfl

/-- Something else comes first. -/
theorem behind (v : Visit ε ζ) (stop : ε → γ) {go : (α → α) → ε → Table → ζ → Visit γ δ}
    (hF : ∀ f, F f = v.andThen (fun y => P.change f (stop y)) (go f))
    (hv : t.Leads names v.table)
    (hgo : ∀ b, v.result = .ok b → Enters names V P v.table x fun f => go f v.node v.table b) :
    Enters names V P t x F := by
  cases hresult : v.result with
  | error e =>
    refine .before (stop v.node) v.table e fun f => ?_
    rw [hF, Visit.andThen_of_error hresult]
  | ok b =>
    rcases hgo b hresult with ⟨n, u, e, h⟩ | ⟨n, u, rest, hu, hrest, h⟩
    · refine .before n u e fun f => ?_
      rw [hF, Visit.andThen_of_ok hresult]
      exact h f
    · refine .inside n u rest (hv.trans hu) hrest fun f => ?_
      rw [hF, Visit.andThen_of_ok hresult]
      exact h f

/-- The whole is put into another one. -/
theorem mapNode (h : Enters names V P t x F) {Q : Site α η} {put : γ → η}
    (hput : ∀ f n, put (P.change f n) = Q.change f (put n)) :
    Enters names V Q t x fun f => (F f).mapNode put := by
  rcases h with ⟨n, u, e, h⟩ | ⟨n, u, rest, hu, hrest, h⟩
  · refine .before (put n) u e fun f => ?_
    rw [h f, ← hput]
    rfl
  · refine .inside (put n) u (fun u b => (rest u b).mapNode put) hu (hrest.mapNode put) fun f => ?_
    rw [h f, Visit.mapNode_andThen]
    simp only [Visit.mapNode_mapNode, Site.put, hput]

/-- The part holds a part in turn. -/
theorem comp {V' : Table → ε → Visit ε ζ} {Q : Site ε α} {y : ε}
    (hP : Enters names V P t x F)
    (hQ : ∀ u, Enters names V' Q u y fun f => V u (Q.change f x)) :
    Enters names V' (P.comp Q) t y fun f => F (Q.change f) := by
  rcases hP with ⟨n, u, e, h⟩ | ⟨n, u, rest, hu, hrest, h⟩
  · exact .before n u e fun f => h (Q.change f)
  · rcases hQ u with ⟨m, u', e, h'⟩ | ⟨m, u', rest', hu', hrest', h'⟩
    · refine .before (P.put m n) u' e fun f => ?_
      rw [h, h']
      show Visit.mk (P.put (Q.change f m) n) _ _ = Visit.mk (P.change (Q.change f) (P.put m n)) _ _
      rw [P.change_put]
    · -- behind the inner part come the rest of the part around it, and the rest of the whole
      refine .inside (P.put m n) u' (fun u b => (rest' u b).andThen (P.put · n)
        fun m u b => (rest u b).mapNode (P.put m)) (hu.trans hu')
        (hrest'.andThen fun m => hrest.mapNode (P.put m)) fun f => ?_
      have hput : ∀ z m w, (P.comp Q).put z (P.put m w) = P.put (Q.put z m) w := fun z m w =>
        P.change_put _ m w
      rw [h, h', Visit.andThen_andThen]
      simp only [hput, Visit.mapNode_andThen, Visit.andThen_mapNode, Visit.mapNode_mapNode]

end Enters

end ProcLang
