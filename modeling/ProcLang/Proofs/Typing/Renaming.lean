/-
  The checker looks at names only to see which of them are equal, and for the name `Main`.

  `Program.typeCheck_rename`: when the names of a program are exchanged for other names, different
  ones for different ones and `Main` for itself, then the check does the same.  It finds the same
  or fails in the same way on the same line, puts the same basetypes into the tree, and leaves
  the same table, under the other names.

  The plan.  A `Renaming` carries tables over, and with them visits (`carry`).  For a tree all of
  whose names are in use, the visit of the renamed tree from a table carried over is the visit of
  the tree, carried over.  This needs no more of the table: names that are not in use may be
  bound in it and are lost on the way.  It is one lemma for each construct, and one for each way
  of composing visits.

  That the names in use are those of the program and `Main` is enough, since no other names come
  into the table.  This is the same fact for the renaming that leaves these names alone: what it
  carries over is what was there.
-/
import Mathlib.Data.Set.Function
import ProcLang.Proofs.Scope.Renaming
import ProcLang.Proofs.Typing.Names
import ProcLang.Tree.Equality
import ProcLang.Typing.Procedure

namespace ProcLang

variable {α β γ δ : Type}

/-! ## Visits carried over -/

namespace Found

variable {g : α → γ}

/-- The visit with its node carried over by `g`. -/
def carry (g : α → γ) (v : Found α β) : Found γ β := ⟨g v.node, v.result⟩

/-- A sequence of visits that only read can be carried over at its end. -/
theorem andThen_carry {α' γ' : Type} {g : α → α'} {k : γ → γ'} (v : Found α β) {stop : α → γ}
    {go : α → β → Found γ δ} {stop' : α' → γ'} {go' : α' → β → Found γ' δ}
    (hstop : ∀ x, stop' (g x) = k (stop x)) (hgo : ∀ x b, go' (g x) b = (go x b).carry k) :
    (v.carry g).andThen stop' go' = (v.andThen stop go).carry k := by
  obtain ⟨x, result⟩ := v
  cases result with
  | ok b => exact hgo x b
  | error e => exact congrArg (Found.mk · (.error e)) (hstop x)

/-- The end of a visit can be carried along a renaming, since no name is part of an attribute. -/
theorem conclude_carry (a : Attribute) (v : Except Violation Basetype) {build : Attribute → α}
    {build' : Attribute → γ} (h : ∀ a, build' a = g (build a)) :
    conclude a v build' = (conclude a v build).carry g := by
  cases v with
  | ok b => exact congrArg (Found.mk · (.ok b)) (h (a.mark b))
  | error v => exact congrArg (Found.mk · (.error ⟨v, a.line⟩)) (h a)

end Found

namespace Visit

/-- The visit with its node carried over by `g`, and its table by `k`. -/
def carry (g : α → γ) (k : Table → Table) (v : Visit α β) : Visit γ β :=
  ⟨g v.node, k v.table, v.result⟩

/-- A sequence of visits that pass a table on can be carried over at its end. -/
theorem andThen_carry {α' γ' : Type} {g : α → α'} {g' : γ → γ'} {k : Table → Table}
    (v : Visit α β) {stop : α → γ} {go : α → Table → β → Visit γ δ} {stop' : α' → γ'}
    {go' : α' → Table → β → Visit γ' δ} (hstop : ∀ x, stop' (g x) = g' (stop x))
    (hgo : ∀ x t b, go' (g x) (k t) b = (go x t b).carry g' k) :
    (v.carry g k).andThen stop' go' = (v.andThen stop go).carry g' k := by
  obtain ⟨x, t, result⟩ := v
  cases result with
  | ok b => exact hgo x t b
  | error e => exact congrArg (Visit.mk · (k t) (.error e)) (hstop x)

/-- A node that is put into another one. -/
theorem mapNode_carry {α' γ' : Type} {g : α → α'} {g' : γ → γ'} {k : Table → Table}
    (v : Visit α β) {put : α → γ} {put' : α' → γ'} (h : ∀ x, put' (g x) = g' (put x)) :
    (v.carry g k).mapNode put' = (v.mapNode put).carry g' k :=
  congrArg (Visit.mk · (k v.table) v.result) (h v.node)

/-- A basetype that is not handed on. -/
theorem forget_carry (g : α → γ) (k : Table → Table) (v : Visit α β) :
    (v.carry g k).forget = v.forget.carry g k := rfl

end Visit

/-- A visit that only reads, as one that passes its table on. -/
theorem Found.within_carry (g : α → γ) (k : Table → Table) (v : Found α β) (t : Table) :
    (v.carry g).within (k t) = (v.within t).carry g k := rfl

open Found Visit

/-! ## Expressions -/

/-- The names stand for values of the same basetype: those of `names` in `env`, and under their
    other names in `env'`. -/
def AgreeOn (σ : String → String) (names : List String) (env env' : Env) : Prop :=
  ∀ x ∈ names, (env' (σ x)).map Entity.basetype = (env x).map Entity.basetype

/-- The rule for names looks at a basetype and nothing else. -/
theorem Rule.named_congr {e e' : Option Entity}
    (h : e'.map Entity.basetype = e.map Entity.basetype) : Rule.named e' = Rule.named e := by
  have hnamed : ∀ e : Option Entity, Rule.named e =
      match e.map Entity.basetype with
      | some b => .ok b
      | none => .error .variableUndefined := by
    intro e
    cases e <;> rfl
  rw [hnamed, hnamed, h]

/-- The rule for elements looks at the basetype of the name, too, and at that of the index. -/
theorem Rule.element_congr {e e' : Option Entity}
    (h : e'.map Entity.basetype = e.map Entity.basetype) (index : Basetype) :
    Rule.element e' index = Rule.element e index := by
  unfold Rule.element
  rw [h]

section

variable {σ : String → String} {env env' : Env}

mutual

/-- An expression is checked through the basetypes of its names. -/
theorem Expr.check_rename (e : Expr) (h : AgreeOn σ e.names env env') :
    (e.rename σ).check env' = (e.check env).carry (Expr.rename σ) := by
  cases e with
  | binary a op l r =>
    obtain ⟨hl, hr⟩ := List.forall_mem_append.mp h
    rw [Expr.rename, Expr.check, Expr.check, Expr.check_rename l hl]
    refine andThen_carry _ (fun _ => rfl) fun l left => ?_
    rw [Expr.check_rename r hr]
    refine andThen_carry _ (fun _ => rfl) fun r right => ?_
    exact conclude_carry _ _ fun _ => rfl
  | unary a op e =>
    rw [Expr.rename, Expr.check, Expr.check, Expr.check_rename e h]
    refine andThen_carry _ (fun _ => rfl) fun e operand => ?_
    exact conclude_carry _ _ fun _ => rfl
  | addressOf a l =>
    rw [Expr.rename, Expr.check, Expr.check, Location.check_rename l h]
    refine andThen_carry _ (fun _ => rfl) fun l target => ?_
    exact conclude_carry _ _ fun _ => rfl
  | element a x i =>
    obtain ⟨hx, hi⟩ := List.forall_mem_cons.mp h
    rw [Expr.rename, Expr.check, Expr.check, Expr.check_rename i hi]
    refine andThen_carry _ (fun _ => rfl) fun i index => ?_
    rw [Rule.element_congr hx]
    exact conclude_carry _ _ fun _ => rfl
  | named a x =>
    rw [Expr.rename, Expr.check, Expr.check, Rule.named_congr (h x List.mem_cons_self)]
    exact conclude_carry _ _ fun _ => rfl
  | integer a n => rfl
  | char a c => rfl
  | boolean a b => rfl
  | null a => rfl

/-- A location under other names, in environments that agree on them. -/
theorem Location.check_rename (l : Location) (h : AgreeOn σ l.names env env') :
    (l.rename σ).check env' = (l.check env).carry (Location.rename σ) := by
  cases l with
  | named a x =>
    rw [Location.rename, Location.check, Location.check, Rule.named_congr (h x List.mem_cons_self)]
    exact conclude_carry _ _ fun _ => rfl
  | pointee a x =>
    rw [Location.rename, Location.check, Location.check, Rule.named_congr (h x List.mem_cons_self)]
    exact conclude_carry _ _ fun _ => rfl
  | element a x i =>
    obtain ⟨hx, hi⟩ := List.forall_mem_cons.mp h
    rw [Location.rename, Location.check, Location.check, Expr.check_rename i hi]
    refine andThen_carry _ (fun _ => rfl) fun i index => ?_
    rw [Rule.element_congr hx]
    exact conclude_carry _ _ fun _ => rfl

end

/-- Arguments under other names. -/
theorem checkArguments_rename (es : List Expr) (h : AgreeOn σ (es.flatMap Expr.names) env env') :
    checkArguments env' (es.map (Expr.rename σ)) =
      (checkArguments env es).carry (List.map (Expr.rename σ)) := by
  induction es with
  | nil => rfl
  | cons e es ih =>
    rw [List.flatMap_cons] at h
    obtain ⟨he, hes⟩ := List.forall_mem_append.mp h
    rw [List.map_cons, checkArguments, checkArguments, Expr.check_rename e he]
    refine andThen_carry _ (fun _ => rfl) fun e b => ?_
    rw [ih hes]
    exact andThen_carry _ (fun _ => rfl) fun es bs => rfl

end

section

variable (ρ : Renaming)

/-! ## Declarations -/

/-- A table and the table carried over agree on all names in use. -/
theorem Renaming.agreeOn {ρ : Renaming} {names : List String} (h : ρ.Covers names) (t : Table) :
    AgreeOn ρ.other names t.env (ρ.table t).env := fun x hx =>
  congrArg (Option.map Entity.basetype) (Renaming.env_table (h x hx) t)

/-- Names are bound in the table carried over exactly when they are bound in the table: different
    names stay different. -/
theorem bindNames_rename (t : Table) (type : Basetype) (xs : List String) (h : ρ.Covers xs) :
    bindNames (ρ.table t) type (xs.map ρ.other) =
      (bindNames t type xs).map ρ.table id := by
  induction xs generalizing t with
  | nil => rfl
  | cons x xs ih =>
    obtain ⟨hx, hxs⟩ := List.forall_mem_cons.mp h
    rw [List.map_cons, bindNames, bindNames, Renaming.insert_table hx]
    cases t.insert x (.value type) with
    | ok t' => exact ih t' hxs
    | error d => rfl

/-- A declaration under other names. -/
theorem Decl.check_rename (t : Table) (d : Decl) (h : ρ.Covers d.names) :
    (d.rename ρ.other).check (ρ.table t) = (d.check t).carry (Decl.rename ρ.other) ρ.table := by
  unfold Decl.check
  rw [show (d.rename ρ.other).names = d.names.map ρ.other from rfl,
    show (d.rename ρ.other).type = d.type from rfl, bindNames_rename ρ t _ _ h]
  rfl

/-- Declarations under other names. -/
theorem checkDecls_rename (t : Table) (ds : List Decl) (h : ρ.Covers (ds.flatMap Decl.names)) :
    checkDecls (ρ.table t) (ds.map (Decl.rename ρ.other)) =
      (checkDecls t ds).carry (List.map (Decl.rename ρ.other)) ρ.table := by
  induction ds generalizing t with
  | nil => rfl
  | cons d ds ih =>
    rw [List.flatMap_cons] at h
    obtain ⟨hd, hds⟩ := List.forall_mem_append.mp h
    rw [List.map_cons, checkDecls, checkDecls, Decl.check_rename ρ t d hd]
    refine andThen_carry _ (fun _ => rfl) fun d t _ => ?_
    rw [ih t hds]
    exact mapNode_carry _ fun _ => rfl

/-! ## Statements -/

/-- An assignment under other names. -/
theorem checkAssign_rename (t : Table) (a : Attribute) (l : Location) (e : Expr)
    (hl : ρ.Covers l.names) (he : ρ.Covers e.names) :
    checkAssign (ρ.table t).env a (l.rename ρ.other) (e.rename ρ.other) =
      (checkAssign t.env a l e).carry (Stmt.rename ρ.other) := by
  rw [checkAssign, checkAssign, Location.check_rename l (Renaming.agreeOn hl t)]
  refine andThen_carry _ (fun _ => rfl) fun l target => ?_
  rw [Expr.check_rename e (Renaming.agreeOn he t)]
  refine andThen_carry _ (fun _ => rfl) fun e value => ?_
  exact conclude_carry _ _ fun _ => rfl

/-- An assignment of a text under other names. -/
theorem checkAssignString_rename (t : Table) (a : Attribute) (l : Location) (text : String)
    (hl : ρ.Covers l.names) :
    checkAssignString (ρ.table t).env a (l.rename ρ.other) text =
      (checkAssignString t.env a l text).carry (Stmt.rename ρ.other) := by
  rw [checkAssignString, checkAssignString, Location.check_rename l (Renaming.agreeOn hl t)]
  refine andThen_carry _ (fun _ => rfl) fun l target => ?_
  exact conclude_carry _ _ fun _ => rfl

/-- A call under other names, the callee included. -/
theorem checkCall_rename (t : Table) (a : Attribute) (l : Location) (f : String)
    (es : List Expr) (hl : ρ.Covers l.names) (hf : ρ.inUse f = true)
    (hes : ρ.Covers (es.flatMap Expr.names)) :
    checkCall (ρ.table t).env a (l.rename ρ.other) (ρ.other f) (es.map (Expr.rename ρ.other)) =
      (checkCall t.env a l f es).carry (Stmt.rename ρ.other) := by
  rw [checkCall, checkCall, Location.check_rename l (Renaming.agreeOn hl t)]
  refine andThen_carry _ (fun _ => rfl) fun l target => ?_
  rw [checkArguments_rename es (Renaming.agreeOn hes t)]
  refine andThen_carry _ (fun _ => rfl) fun es arguments => ?_
  rw [Renaming.env_table hf]
  exact conclude_carry _ _ fun _ => rfl

/-- A condition under other names, as part of a statement. -/
theorem condition_rename (t : Table) (c : Expr) (h : ρ.Covers c.names) :
    ((c.rename ρ.other).check (ρ.table t).env).within (ρ.table t) =
      ((c.check t.env).within t).carry (Expr.rename ρ.other) ρ.table := by
  rw [Expr.check_rename c (Renaming.agreeOn h t), within_carry]

/-- The attribute of an expression has no name in it. -/
theorem Expr.attr_rename (σ : String → String) (e : Expr) : (e.rename σ).attr = e.attr := by
  cases e <;> rfl

/-- The end of the visit of a statement with a condition. -/
theorem verdict_rename (s : Stmt) (t : Table) (c : Expr) (v : Except Violation Unit) :
    Visit.mk (s.rename ρ.other) (ρ.table t) (onLine (c.rename ρ.other).attr.line v) =
      (Visit.mk s t (onLine c.attr.line v)).carry (Stmt.rename ρ.other) ρ.table := by
  rw [Expr.attr_rename]
  rfl

mutual

/-- A statement under other names. -/
theorem Stmt.check_rename (t : Table) (s : Stmt) (h : ρ.Covers s.names) :
    (s.rename ρ.other).check (ρ.table t) = (s.check t).carry (Stmt.rename ρ.other) ρ.table := by
  cases s with
  | assign a l e =>
    obtain ⟨hl, he⟩ := List.forall_mem_append.mp h
    rw [Stmt.rename, Stmt.check, Stmt.check, checkAssign_rename ρ t a l e hl he, within_carry]
    exact forget_carry _ _ _
  | assignString a l text =>
    rw [Stmt.rename, Stmt.check, Stmt.check, checkAssignString_rename ρ t a l text h,
      within_carry]
    exact forget_carry _ _ _
  | call a l f es =>
    obtain ⟨hl, hfes⟩ := List.forall_mem_append.mp h
    obtain ⟨hf, hes⟩ := List.forall_mem_cons.mp hfes
    rw [Stmt.rename, Stmt.check, Stmt.check, checkCall_rename ρ t a l f es hl hf hes, within_carry]
    exact forget_carry _ _ _
  -- the names of a statement are those of its parts, so the parts are covered as well
  | ifThen a c b =>
    obtain ⟨hc, hb⟩ := List.forall_mem_append.mp h
    rw [Stmt.rename, Stmt.check, Stmt.check, condition_rename ρ t c hc]
    refine andThen_carry _ (fun _ => rfl) fun c t condition => ?_
    rw [Block.check_rename t b hb]
    refine andThen_carry _ (fun _ => rfl) fun b t _ => ?_
    exact verdict_rename ρ (.ifThen a c b) t c _
  | ifElse a c b b' =>
    obtain ⟨hc, hbb'⟩ := List.forall_mem_append.mp h
    obtain ⟨hb, hb'⟩ := List.forall_mem_append.mp hbb'
    rw [Stmt.rename, Stmt.check, Stmt.check, condition_rename ρ t c hc]
    refine andThen_carry _ (fun _ => rfl) fun c t condition => ?_
    rw [Block.check_rename t b hb]
    refine andThen_carry _ (fun _ => rfl) fun b t _ => ?_
    rw [Block.check_rename t b' hb']
    refine andThen_carry _ (fun _ => rfl) fun b' t _ => ?_
    exact verdict_rename ρ (.ifElse a c b b') t c _
  | loop a c b =>
    obtain ⟨hc, hb⟩ := List.forall_mem_append.mp h
    rw [Stmt.rename, Stmt.check, Stmt.check, condition_rename ρ t c hc]
    refine andThen_carry _ (fun _ => rfl) fun c t condition => ?_
    rw [Block.check_rename t b hb]
    refine andThen_carry _ (fun _ => rfl) fun b t _ => ?_
    exact verdict_rename ρ (.loop a c b) t c _
  | block a b =>
    rw [Stmt.rename, Stmt.check, Stmt.check, Block.check_rename t b h]
    exact mapNode_carry _ fun _ => rfl

/-- A block under other names. -/
theorem Block.check_rename (t : Table) (b : Block) (h : ρ.Covers b.names) :
    (b.rename ρ.other).check (ρ.table t) = (b.check t).carry (Block.rename ρ.other) ρ.table := by
  cases b with
  | mk ds ss a =>
    obtain ⟨hds, hss⟩ := List.forall_mem_append.mp h
    rw [Block.rename, Block.check, Block.check, Renaming.openScope_table,
      checkDecls_rename ρ _ ds hds]
    refine andThen_carry _ (fun _ => rfl) fun ds t _ => ?_
    rw [checkStmts_rename t ss hss]
    refine andThen_carry _ (fun _ => rfl) fun ss t _ => ?_
    rw [Renaming.closeScope_table]
    rfl

/-- Statements under other names. -/
theorem checkStmts_rename (t : Table) (ss : List Stmt) (h : ρ.Covers (namesOfStmts ss)) :
    checkStmts (ρ.table t) (renameStmts ρ.other ss) =
      (checkStmts t ss).carry (renameStmts ρ.other) ρ.table := by
  cases ss with
  | nil => rfl
  | cons s ss =>
    obtain ⟨hs, hss⟩ := List.forall_mem_append.mp h
    rw [renameStmts, checkStmts, checkStmts, Stmt.check_rename t s hs]
    refine andThen_carry _ (fun _ => rfl) fun s t _ => ?_
    rw [checkStmts_rename t ss hss]
    exact mapNode_carry _ fun _ => rfl

end

/-- A return under other names. -/
theorem return_rename (t : Table) (r : Return) (h : ρ.Covers r.names) :
    ((r.rename ρ.other).check (ρ.table t).env).within (ρ.table t) =
      ((r.check t.env).within t).carry (Return.rename ρ.other) ρ.table := by
  have hreturn : (r.rename ρ.other).check (ρ.table t).env =
      (r.check t.env).carry (Return.rename ρ.other) := by
    rw [Return.rename, Return.check, Return.check,
      Expr.check_rename r.value (Renaming.agreeOn h t)]
    refine Found.andThen_carry _ (fun _ => rfl) fun e value => ?_
    exact conclude_carry _ _ fun _ => rfl
  rw [hreturn, within_carry]

/-! ## Headers -/

/-- The types of parameters have no names in them. -/
theorem Header.parameterTypes_rename (σ : String → String) (h : Header) :
    (h.rename σ).parameterTypes = h.parameterTypes := by
  simp only [Header.parameterTypes, Header.rename, Decl.rename, List.flatMap_map, List.map_map]
  rfl

/-- The name `Main` is in use, and is the other name of no other name. -/
structure Renaming.KeepsMain : Prop where
  inUse : ρ.inUse mainName = true
  other_eq : ρ.other mainName = mainName

variable {ρ}

/-- A clash of a name is the same violation as a clash of its other name, as `Main` alone is judged
    in its own way. -/
theorem Renaming.KeepsMain.clash (hmain : ρ.KeepsMain) {x : String} (hx : ρ.inUse x = true) :
    ProcLang.clash (ρ.other x) = ProcLang.clash x := by
  have hiff : ρ.other x = mainName ↔ x = mainName := by
    constructor
    · intro h
      exact ρ.injOn x mainName hx hmain.inUse (h.trans hmain.other_eq.symm)
    · rintro rfl
      exact hmain.other_eq
  simp only [ProcLang.clash, hiff]

/-- A header under other names. -/
theorem Header.declare_rename (hmain : ρ.KeepsMain) (t : Table) (h : Header)
    (hcovers : ρ.Covers h.names) :
    (h.rename ρ.other).declare (ρ.table t) =
      (h.declare t).carry (Header.rename ρ.other) ρ.table := by
  obtain ⟨hname, hparameters⟩ := List.forall_mem_cons.mp hcovers
  unfold Header.declare
  rw [show (h.rename ρ.other).parameters = h.parameters.map (Decl.rename ρ.other) from rfl,
    Renaming.openScope_table, checkDecls_rename ρ _ _ hparameters]
  refine andThen_carry _ (fun _ => rfl) fun ds t' _ => ?_
  have hdeclared : ({ h.rename ρ.other with
        parameters := ds.map (Decl.rename ρ.other),
        returnType := (h.rename ρ.other).returnType.annotate } : Header) =
      ({ h with parameters := ds, returnType := h.returnType.annotate } : Header).rename ρ.other :=
    rfl
  have hrename : (h.rename ρ.other).name = ρ.other h.name := rfl
  have htype : (h.rename ρ.other).returnType.basetype = h.returnType.basetype := rfl
  dsimp only
  rw [hdeclared, Header.parameterTypes_rename, hrename, htype, Renaming.insertOutside_table hname,
    hmain.clash hname, Renaming.size_scopes_table]
  cases t'.insertOutside h.name _ with
  | error d => rfl
  | ok t'' =>
    show Visit.mk _ (ρ.table t'').closeScope _ = Visit.mk _ (ρ.table t''.closeScope) _
    rw [Renaming.closeScope_table]

/-- Headers under other names. -/
theorem declareAll_rename (hmain : ρ.KeepsMain) (t : Table) (hs : List Header)
    (hcovers : ρ.Covers (hs.flatMap Header.names)) :
    declareAll (ρ.table t) (hs.map (Header.rename ρ.other)) =
      (declareAll t hs).carry (List.map (Header.rename ρ.other)) ρ.table := by
  induction hs generalizing t with
  | nil => rfl
  | cons h hs ih =>
    rw [List.flatMap_cons] at hcovers
    obtain ⟨hh, hhs⟩ := List.forall_mem_append.mp hcovers
    rw [List.map_cons, declareAll, declareAll, Header.declare_rename hmain t h hh]
    refine andThen_carry _ (fun _ => rfl) fun h t id => ?_
    rw [ih t hhs]
    exact andThen_carry _ (fun _ => rfl) fun hs t ids => rfl

/-- Headers can be taken before names are exchanged, or afterwards. -/
theorem headers_rename (σ : String → String) (ps : List Procedure) :
    (renameProcedures σ ps).map Procedure.header =
      (ps.map Procedure.header).map (Header.rename σ) := by
  induction ps with
  | nil => rfl
  | cons p ps ih =>
    obtain ⟨h, b⟩ := p
    exact congrArg (h.rename σ :: ·) ih

/-- Headers can be put on procedures before or after renaming. -/
theorem withHeaders_rename (σ : String → String) (ps : List Procedure) (hs : List Header) :
    withHeaders (renameProcedures σ ps) (hs.map (Header.rename σ)) =
      renameProcedures σ (withHeaders ps hs) := by
  induction ps generalizing hs with
  | nil => rfl
  | cons p ps ih =>
    cases hs with
    | nil => rfl
    | cons h hs =>
      obtain ⟨h₀, b⟩ := p
      rw [renameProcedures, List.map_cons, withHeaders, withHeaders, renameProcedures, ih]
      rfl

/-- The headers of procedures have some of their names. -/
theorem Renaming.Covers.headers {ps : List Procedure} (h : ρ.Covers (namesOfProcedures ps)) :
    ρ.Covers ((ps.map Procedure.header).flatMap Header.names) := by
  induction ps with
  | nil => exact nofun
  | cons p ps ih =>
    obtain ⟨hh, b⟩ := p
    obtain ⟨hp, hps⟩ := List.forall_mem_append.mp h
    rw [List.map_cons, List.flatMap_cons]
    exact List.forall_mem_append.mpr ⟨(List.forall_mem_append.mp hp).1, ih hps⟩

/-! ## Bodies -/

/-- Declared headers under other names, with their scopes. -/
def renameWaiting (σ : String → String) (ws : List (Header × Nat)) : List (Header × Nat) :=
  ws.map (Prod.map (Header.rename σ) id)

/-- Signatures and then bodies, if bodies under renamed headers do as they should. -/
theorem declareThen_rename (hmain : ρ.KeepsMain) (t : Table) (ps : List Procedure)
    (hcovers : ρ.Covers (namesOfProcedures ps))
    (hbodies : ∀ (t : Table) (ws : List (Header × Nat)),
      checkBodies (ρ.table t) (renameWaiting ρ.other ws) (renameProcedures ρ.other ps) =
        (checkBodies t ws ps).carry (renameProcedures ρ.other) ρ.table) :
    (declareThen (ρ.table t) (renameProcedures ρ.other ps) fun t hs =>
        checkBodies t hs (renameProcedures ρ.other ps)) =
      (declareThen t ps fun t hs => checkBodies t hs ps).carry (renameProcedures ρ.other)
        ρ.table := by
  unfold declareThen
  rw [headers_rename, declareAll_rename hmain t _ hcovers.headers]
  refine andThen_carry _ (withHeaders_rename ρ.other ps) fun hs t ids => ?_
  rw [← hbodies, renameWaiting, ← List.zip_map_left]

mutual

/-- A body under other names. -/
theorem Body.check_rename (hmain : ρ.KeepsMain) (t : Table) (b : Body) (h : ρ.Covers b.names) :
    (b.rename ρ.other).check (ρ.table t) = (b.check t).carry (Body.rename ρ.other) ρ.table := by
  cases b with
  | mk ps ds ss r a =>
    obtain ⟨hps, hrest⟩ := List.forall_mem_append.mp h
    obtain ⟨hds, hrest⟩ := List.forall_mem_append.mp hrest
    obtain ⟨hss, hr⟩ := List.forall_mem_append.mp hrest
    rw [Body.rename, Body.check, Body.check, declareThen_rename hmain t ps hps fun t ws =>
      checkBodies_rename hmain t ws ps hps]
    refine andThen_carry _ (fun _ => rfl) fun ps t _ => ?_
    rw [checkDecls_rename ρ t ds hds]
    refine andThen_carry _ (fun _ => rfl) fun ds t _ => ?_
    rw [checkStmts_rename ρ t ss hss]
    refine andThen_carry _ (fun _ => rfl) fun ss t _ => ?_
    rw [return_rename ρ t r hr]
    exact andThen_carry _ (fun _ => rfl) fun r t result => rfl

/-- The body of a procedure under other names. -/
theorem Procedure.checkBody_rename (hmain : ρ.KeepsMain) (t : Table) (h : Header) (id : Nat)
    (p : Procedure) (hcovers : ρ.Covers p.names) :
    (p.rename ρ.other).checkBody (ρ.table t) (h.rename ρ.other) id =
      (p.checkBody t h id).carry (Procedure.rename ρ.other) ρ.table := by
  cases p with
  | mk h₀ b =>
    obtain ⟨-, hb⟩ := List.forall_mem_append.mp hcovers
    rw [Procedure.rename, Procedure.checkBody, Procedure.checkBody, Renaming.reenter?_table]
    cases t.reenter? id with
    | none => rfl
    | some t₁ =>
      dsimp only [Option.map_some]
      rw [Body.check_rename hmain t₁ b hb]
      refine andThen_carry _ (fun _ => rfl) fun b t₂ result => ?_
      rw [Renaming.closeScope_table, ← forget_carry, ← within_carry]
      exact congrArg (fun v => (Found.within v _).forget) (conclude_carry _ _ fun _ => rfl)

/-- Bodies under other names, one after the other. -/
theorem checkBodies_rename (hmain : ρ.KeepsMain) (t : Table) (ws : List (Header × Nat))
    (ps : List Procedure) (hcovers : ρ.Covers (namesOfProcedures ps)) :
    checkBodies (ρ.table t) (renameWaiting ρ.other ws) (renameProcedures ρ.other ps) =
      (checkBodies t ws ps).carry (renameProcedures ρ.other) ρ.table := by
  cases ps with
  | nil => rfl
  | cons p ps =>
    match ws with
    | [] => rfl
    | (h, id) :: ws =>
      obtain ⟨hp, hps⟩ := List.forall_mem_append.mp hcovers
      have hheaders : (renameWaiting ρ.other ws).map Prod.fst =
          (ws.map Prod.fst).map (Header.rename ρ.other) := by
        rw [renameWaiting, List.map_map, List.map_map]
        rfl
      rw [renameProcedures, checkBodies]
      show (Procedure.checkBody (ρ.table t) (h.rename ρ.other) id _).andThen
        (fun p => p :: withHeaders _ ((renameWaiting ρ.other ws).map Prod.fst))
        (fun p t _ => (checkBodies t (renameWaiting ρ.other ws) _).mapNode fun ps => p :: ps) = _
      rw [Procedure.checkBody_rename hmain t h id p hp, hheaders]
      refine andThen_carry _ (fun p => ?_) fun p t _ => ?_
      · rw [withHeaders_rename]
        rfl
      · rw [checkBodies_rename hmain t ws ps hps]
        exact mapNode_carry _ fun _ => rfl

end

/-! ## Programs -/

/-- The main procedure is found under its own name. -/
theorem mainVerdict_rename (hmain : ρ.KeepsMain) (t : Table) :
    mainVerdict (ρ.table t) = mainVerdict t := by
  have hlookup := Renaming.lookup_table hmain.inUse t
  rw [hmain.other_eq] at hlookup
  unfold mainVerdict
  rw [hlookup]

/-- The check of a renamed program from the table carried over is the check of the program,
    carried over. -/
theorem Program.check_rename (hmain : ρ.KeepsMain) (t : Table) (p : Program)
    (hcovers : ρ.Covers p.names) :
    (p.rename ρ.other).check (ρ.table t) = (p.check t).carry (Program.rename ρ.other) ρ.table := by
  unfold Program.check checkProcedures
  rw [show (p.rename ρ.other).procedures = renameProcedures ρ.other p.procedures from rfl,
    declareThen_rename hmain t p.procedures hcovers fun t ws =>
      checkBodies_rename hmain t ws p.procedures hcovers]
  refine andThen_carry _ (fun _ => rfl) fun ps t _ => ?_
  rw [mainVerdict_rename hmain]
  rfl

end

/-- The table with `σ x` in the place of every name `x`. -/
def Table.rename (σ : String → String) (t : Table) : Table :=
  { t with scopes := t.scopes.map fun s =>
      { s with bindings := s.bindings.map fun b => (σ b.1, b.2) } }

/-- The renaming by `σ` of `Main` and the names `names`. -/
def Renaming.on (names : List String) (σ : String → String)
    (hσ : Set.InjOn σ {x | x = mainName ∨ x ∈ names}) : Renaming where
  inUse x := x = mainName ∨ x ∈ names
  other := σ
  injOn _ _ hx hy h := hσ (of_decide_eq_true hx) (of_decide_eq_true hy) h

/-- The names in use are those that were given. -/
theorem Renaming.covers_on {names : List String} {σ : String → String}
    (hσ : Set.InjOn σ {x | x = mainName ∨ x ∈ names}) : (Renaming.on names σ hσ).Covers names :=
  fun _ hx => decide_eq_true (Or.inr hx)

/-- A renaming that leaves `Main` alone, and sends no other name in use to it. -/
theorem Renaming.keepsMain_on {names : List String} {σ : String → String}
    (hσ : Set.InjOn σ {x | x = mainName ∨ x ∈ names}) (hmain : σ mainName = mainName) :
    (Renaming.on names σ hσ).KeepsMain where
  inUse := by simp [Renaming.on]
  other_eq := hmain

/-- What is carried over are the names in use, and these are renamed. -/
theorem Renaming.table_on {names : List String} {σ : String → String}
    (hσ : Set.InjOn σ {x | x = mainName ∨ x ∈ names}) (t : Table) :
    (Renaming.on names σ hσ).table t =
      ((Renaming.on names id (Set.injOn_id _)).table t).rename σ := by
  simp [Renaming.table, Renaming.scope, Renaming.bindings, Renaming.on, Table.rename,
    Function.comp_def]

/-- No names but those of the program come into the table. -/
theorem Program.table_typeCheck_on (p : Program) :
    (Renaming.on p.names id (Set.injOn_id _)).table p.typeCheck.table = p.typeCheck.table := by
  have hcheck := p.check_rename (Renaming.keepsMain_on (Set.injOn_id _) rfl) .initial
    (Renaming.covers_on _)
  rw [Renaming.table_initial] at hcheck
  have hid : p.rename (Renaming.on p.names id (Set.injOn_id _)).other = p := by
    show p.rename id = p
    rw [Program.rename, renameProcedures_id]
  rw [hid] at hcheck
  exact (congrArg Visit.table hcheck).symm

/-- Names matter only up to identity, but for `Main`.  When the names of a program are exchanged
    for others, different ones for different ones and `Main` for itself, the check has the same
    outcome, puts the same basetypes into the tree, and leaves the same table under the other
    names, whether it succeeds or not. -/
theorem Program.typeCheck_rename (p : Program) {σ : String → String}
    (hσ : Set.InjOn σ {x | x = mainName ∨ x ∈ p.names}) (hmain : σ mainName = mainName) :
    (p.rename σ).typeCheck.result = p.typeCheck.result ∧
      (p.rename σ).typeCheck.node = p.typeCheck.node.rename σ ∧
      (p.rename σ).typeCheck.table = p.typeCheck.table.rename σ := by
  have hcheck := p.check_rename (Renaming.keepsMain_on hσ hmain) .initial (Renaming.covers_on hσ)
  rw [Renaming.table_initial] at hcheck
  have htypeCheck : (p.rename σ).typeCheck = p.typeCheck.carry (Program.rename σ)
      (Renaming.on p.names σ hσ).table := hcheck
  rw [htypeCheck]
  refine ⟨rfl, rfl, ?_⟩
  show (Renaming.on p.names σ hσ).table p.typeCheck.table = _
  rw [Renaming.table_on, p.table_typeCheck_on]

/-- `x` and `c` for one another. -/
def exchanged (name : String) : String :=
  if name = "x" then "c" else if name = "c" then "x" else name

/-- A block declares `x` again, as a character, and assigns an integer to it in the end. -/
def shadowProgram : Program where
  procedures :=
    [.mk ⟨"Main", [], ⟨.integer, .bare 1⟩, .bare 1⟩
      (.mk [] [⟨["x"], ⟨.integer, .bare 2⟩, .bare 2⟩]
        [.block (.bare 3)
          (.mk [⟨["c", "x"], ⟨.char, .bare 3⟩, .bare 3⟩]
            [.assign (.bare 4) (.named (.bare 4) "x") (.named (.bare 4) "c"),
             .assign (.bare 5) (.named (.bare 5) "x") (.integer (.bare 5) 1)] (.bare 3))]
        ⟨.named (.bare 6) "x", .bare 6⟩ (.bare 1))]
  attr := .bare 1

/-- A program with a name that is declared twice, once in each of two scopes, has the same violation
    under exchanged names. -/
theorem typeCheck_rename_shadow :
    Set.InjOn exchanged {x | x = mainName ∨ x ∈ shadowProgram.names} ∧
    exchanged mainName = mainName ∧
    shadowProgram.typeCheck.result = .error ⟨.incompatibleAssignment, 5⟩ ∧
    shadowProgram.rename exchanged ≠ shadowProgram ∧
    (shadowProgram.rename exchanged).typeCheck.result = shadowProgram.typeCheck.result ∧
    (shadowProgram.rename exchanged).typeCheck.node =
      shadowProgram.typeCheck.node.rename exchanged ∧
    (shadowProgram.rename exchanged).typeCheck.table =
      shadowProgram.typeCheck.table.rename exchanged := by
  have hinvolutive : Function.Involutive exchanged := by
    intro name
    unfold exchanged
    grind
  have hinj := hinvolutive.injective.injOn (s := {x | x = mainName ∨ x ∈ shadowProgram.names})
  exact ⟨hinj, by decide, by decide +kernel, by decide +kernel,
    shadowProgram.typeCheck_rename hinj (by decide)⟩

end ProcLang
