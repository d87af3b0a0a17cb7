/-
  A check writes basetypes and nothing else.

  However a visit ends, the node that it hands back has the shape, the names, the literals and the
  lines of the node that it was given: without their basetypes the two are the same
  (`Program.strip_node_typeCheck`).

  What a sequence hands back is what its first part hands back, put into its place, or what its
  second part does (`image_andThen`); the end of a visit changes one attribute, and leaves its
  line (`image_conclude`).  Procedures are put together from two visits: the headers of the first
  one are those that the bodies of the second one are put under (`WearHeaders`).
-/
import ProcLang.Proofs.Typing.Idempotent

namespace ProcLang

variable {α β γ δ ξ : Type}

/-! ## Nodes of sequences -/

namespace Found

/-- What `g` shows of the node is the same when a part fails, and behind the part. -/
theorem image_andThen {g : γ → ξ} {x : ξ} {f : Found α β} {stop : α → γ}
    {go : α → β → Found γ δ} (hstop : g (stop f.node) = x)
    (hgo : ∀ b, g (go f.node b).node = x) : g (f.andThen stop go).node = x := by
  unfold andThen
  cases f.result with
  | ok b => exact hgo b
  | error e => exact hstop

/-- The end of a visit puts a basetype into one attribute, whose line stays. -/
theorem image_conclude {g : α → ξ} {x : ξ} {a : Attribute} {v : Except Violation Basetype}
    {build : Attribute → α} (h : ∀ a', a'.line = a.line → g (build a') = x) :
    g (conclude a v build).node = x :=
  node_conclude (P := fun n => g n = x) a v h

end Found

namespace Visit

/-- What a sequence of visits hands back, seen through `g`: that of the first part where this one
    fails, and else that of the second part. -/
theorem image_andThen {g : γ → ξ} {x : ξ} {v : Visit α β} {stop : α → γ}
    {go : α → Table → β → Visit γ δ} (hstop : g (stop v.node) = x)
    (hgo : ∀ b, v.result = .ok b → g (go v.node v.table b).node = x) :
    g (v.andThen stop go).node = x := by
  cases hv : v.result with
  | ok b =>
    rw [andThen_of_ok hv]
    exact hgo b hv
  | error e =>
    rw [andThen_of_error hv]
    exact hstop

end Visit

/-- Attributes on one line differ in their basetypes only. -/
theorem Attribute.strip_eq {a a' : Attribute} (h : a'.line = a.line) : a'.strip = a.strip :=
  congrArg bare h

/-! ## Expressions -/

section

open Found

mutual

/-- The visit of an expression keeps its shape, however it ends. -/
theorem Expr.strip_node_check (env : Env) (e : Expr) :
    (e.check env).node.mapAttrs .strip = e.mapAttrs .strip := by
  cases e with
  | binary a op l r =>
    have hl := Expr.strip_node_check env l
    have hr := Expr.strip_node_check env r
    rw [Expr.check]
    -- it can end in the left operand, in the right one, or with the rule
    refine image_andThen ?_ fun left => image_andThen ?_ fun right => image_conclude fun a' ha => ?_
    · simp only [Expr.mapAttrs, hl]
    · simp only [Expr.mapAttrs, hl, hr]
    · simp only [Expr.mapAttrs, hl, hr, Attribute.strip_eq ha]
  | unary a op e =>
    have he := Expr.strip_node_check env e
    rw [Expr.check]
    refine image_andThen ?_ fun operand => image_conclude fun a' ha => ?_
    · simp only [Expr.mapAttrs, he]
    · simp only [Expr.mapAttrs, he, Attribute.strip_eq ha]
  | addressOf a l =>
    have hl := Location.strip_node_check env l
    rw [Expr.check]
    refine image_andThen ?_ fun target => image_conclude fun a' ha => ?_
    · simp only [Expr.mapAttrs, hl]
    · simp only [Expr.mapAttrs, hl, Attribute.strip_eq ha]
  | element a x i =>
    have hi := Expr.strip_node_check env i
    rw [Expr.check]
    refine image_andThen ?_ fun index => image_conclude fun a' ha => ?_
    · simp only [Expr.mapAttrs, hi]
    · simp only [Expr.mapAttrs, hi, Attribute.strip_eq ha]
  | named a x =>
    refine image_conclude fun a' ha => ?_
    simp only [Expr.mapAttrs, Attribute.strip_eq ha]
  | integer a n => rfl
  | char a c => rfl
  | boolean a b => rfl
  | null a => rfl

/-- The visit of a location keeps its shape. -/
theorem Location.strip_node_check (env : Env) (l : Location) :
    (l.check env).node.mapAttrs .strip = l.mapAttrs .strip := by
  cases l with
  | named a x =>
    refine image_conclude fun a' ha => ?_
    simp only [Location.mapAttrs, Attribute.strip_eq ha]
  | pointee a x =>
    refine image_conclude fun a' ha => ?_
    simp only [Location.mapAttrs, Attribute.strip_eq ha]
  | element a x i =>
    have hi := Expr.strip_node_check env i
    rw [Location.check]
    refine image_andThen ?_ fun index => image_conclude fun a' ha => ?_
    · simp only [Location.mapAttrs, hi]
    · simp only [Location.mapAttrs, hi, Attribute.strip_eq ha]

end

/-- The visit of arguments keeps them.  Those behind a failure are handed back as they were. -/
theorem strip_node_checkArguments (env : Env) (es : List Expr) :
    (checkArguments env es).node.map (Expr.mapAttrs .strip) = es.map (Expr.mapAttrs .strip) := by
  induction es with
  | nil => rfl
  | cons e es ih =>
    have he := Expr.strip_node_check env e
    rw [checkArguments]
    refine image_andThen ?_ fun b => image_andThen ?_ fun bs => ?_
    · simp only [List.map_cons, he]
    · simp only [List.map_cons, he, ih]
    · simp only [List.map_cons, he, ih]

/-! ## Declarations and statements -/

/-- The visit of declarations keeps them. -/
theorem strip_node_checkDecls (t : Table) (ds : List Decl) :
    (checkDecls t ds).node.map (Decl.mapAttrs .strip) = ds.map (Decl.mapAttrs .strip) := by
  induction ds generalizing t with
  | nil => rfl
  | cons d ds ih =>
    refine Visit.image_andThen rfl fun _ _ => ?_
    show _ :: (checkDecls _ ds).node.map (Decl.mapAttrs .strip) = _
    rw [ih]
    rfl

/-- The visit of an assignment keeps its shape. -/
theorem strip_node_checkAssign (env : Env) (a : Attribute) (l : Location) (e : Expr) :
    (checkAssign env a l e).node.mapAttrs .strip = (Stmt.assign a l e).mapAttrs .strip := by
  have hl := Location.strip_node_check env l
  have he := Expr.strip_node_check env e
  refine image_andThen ?_ fun target => image_andThen ?_ fun value => image_conclude fun a' ha => ?_
  · simp only [Stmt.mapAttrs, hl]
  · simp only [Stmt.mapAttrs, hl, he]
  · simp only [Stmt.mapAttrs, hl, he, Attribute.strip_eq ha]

/-- The visit of an assignment of a text keeps its shape. -/
theorem strip_node_checkAssignString (env : Env) (a : Attribute) (l : Location) (text : String) :
    (checkAssignString env a l text).node.mapAttrs .strip =
      (Stmt.assignString a l text).mapAttrs .strip := by
  have hl := Location.strip_node_check env l
  refine image_andThen ?_ fun target => image_conclude fun a' ha => ?_
  · simp only [Stmt.mapAttrs, hl]
  · simp only [Stmt.mapAttrs, hl, Attribute.strip_eq ha]

/-- The visit of a call keeps its shape, and the name of the callee. -/
theorem strip_node_checkCall (env : Env) (a : Attribute) (l : Location) (g : String)
    (es : List Expr) :
    (checkCall env a l g es).node.mapAttrs .strip = (Stmt.call a l g es).mapAttrs .strip := by
  have hl := Location.strip_node_check env l
  have hes := strip_node_checkArguments env es
  refine image_andThen ?_ fun target =>
    image_andThen ?_ fun arguments =>
      image_conclude fun a' ha => ?_
  · simp only [Stmt.mapAttrs, hl]
  · simp only [Stmt.mapAttrs, hl, hes]
  · simp only [Stmt.mapAttrs, hl, hes, Attribute.strip_eq ha]

end

open Visit

mutual

/-- The visit of a statement keeps its shape. -/
theorem Stmt.strip_node_check (t : Table) (s : Stmt) :
    (s.check t).node.mapAttrs .strip = s.mapAttrs .strip := by
  cases s with
  | assign a l e => exact strip_node_checkAssign t.env a l e
  | assignString a l text => exact strip_node_checkAssignString t.env a l text
  | call a l g es => exact strip_node_checkCall t.env a l g es
  | ifThen a c b =>
    have hc : ((c.check t.env).within t).node.mapAttrs .strip = c.mapAttrs .strip :=
      Expr.strip_node_check t.env c
    rw [Stmt.check]
    refine image_andThen ?_ fun _ _ => image_andThen ?_ fun _ _ => ?_
    · simp only [Stmt.mapAttrs, hc]
    · simp only [Stmt.mapAttrs, hc, Block.strip_node_check _ b]
    · simp only [Stmt.mapAttrs, hc, Block.strip_node_check _ b]
  | ifElse a c b d =>
    have hc : ((c.check t.env).within t).node.mapAttrs .strip = c.mapAttrs .strip :=
      Expr.strip_node_check t.env c
    rw [Stmt.check]
    refine image_andThen ?_ fun _ _ => image_andThen ?_ fun _ _ => image_andThen ?_ fun _ _ => ?_
    · simp only [Stmt.mapAttrs, hc]
    · simp only [Stmt.mapAttrs, hc, Block.strip_node_check _ b]
    · simp only [Stmt.mapAttrs, hc, Block.strip_node_check _ b, Block.strip_node_check _ d]
    · simp only [Stmt.mapAttrs, hc, Block.strip_node_check _ b, Block.strip_node_check _ d]
  | loop a c b =>
    have hc : ((c.check t.env).within t).node.mapAttrs .strip = c.mapAttrs .strip :=
      Expr.strip_node_check t.env c
    rw [Stmt.check]
    refine image_andThen ?_ fun _ _ => image_andThen ?_ fun _ _ => ?_
    · simp only [Stmt.mapAttrs, hc]
    · simp only [Stmt.mapAttrs, hc, Block.strip_node_check _ b]
    · simp only [Stmt.mapAttrs, hc, Block.strip_node_check _ b]
  | block a b =>
    simp only [Stmt.check, mapNode, Stmt.mapAttrs, Block.strip_node_check t b]

/-- The visit of a block keeps its shape. -/
theorem Block.strip_node_check (t : Table) (b : Block) :
    (b.check t).node.mapAttrs .strip = b.mapAttrs .strip := by
  cases b with
  | mk ds ss a =>
    rw [Block.check]
    refine image_andThen ?_ fun _ _ => image_andThen ?_ fun _ _ => ?_
    · simp only [Block.mapAttrs, strip_node_checkDecls]
    · simp only [Block.mapAttrs, strip_node_checkDecls, strip_node_checkStmts _ ss]
    · simp only [Block.mapAttrs, strip_node_checkDecls, strip_node_checkStmts _ ss]

/-- The visit of statements keeps them. -/
theorem strip_node_checkStmts (t : Table) (ss : List Stmt) :
    mapStmtAttrs .strip (checkStmts t ss).node = mapStmtAttrs .strip ss := by
  cases ss with
  | nil => rfl
  | cons s ss =>
    rw [checkStmts]
    refine image_andThen ?_ fun _ _ => ?_
    · simp only [mapStmtAttrs, Stmt.strip_node_check t s]
    · simp only [mapStmtAttrs, mapNode, Stmt.strip_node_check t s, strip_node_checkStmts _ ss]

end

/-- The visit of a return keeps its shape. -/
theorem Return.strip_node_check (env : Env) (r : Return) :
    (r.check env).node.mapAttrs .strip = r.mapAttrs .strip := by
  have he := Expr.strip_node_check env r.value
  refine Found.image_andThen ?_ fun value => Found.image_conclude fun a' ha => ?_
  · simp only [Return.mapAttrs, he]
  · simp only [Return.mapAttrs, he, Attribute.strip_eq ha]

/-! ## Headers -/

/-- Declaring a header keeps its shape. -/
theorem Header.strip_node_declare (t : Table) (h : Header) :
    (h.declare t).node.mapAttrs .strip = h.mapAttrs .strip := by
  have hds := strip_node_checkDecls t.openScope h.parameters
  refine image_andThen ?_ fun _ _ => ?_
  · simp only [Header.mapAttrs, hds]
  · dsimp only
    split
    · simp only [Header.mapAttrs, hds]
      rfl
    · simp only [Header.mapAttrs, hds]
      rfl

/-- Declaring headers keeps them, those behind a failure included. -/
theorem strip_node_declareAll (t : Table) (hs : List Header) :
    (declareAll t hs).node.map (Header.mapAttrs .strip) = hs.map (Header.mapAttrs .strip) := by
  induction hs generalizing t with
  | nil => rfl
  | cons h hs ih =>
    have hh := Header.strip_node_declare t h
    refine image_andThen ?_ fun _ _ => image_andThen ?_ fun _ _ => ?_
    · simp only [List.map_cons, hh]
    · simp only [List.map_cons, hh, ih]
    · simp only [List.map_cons, hh, ih]

/-- The headers are those of the procedures, but for their basetypes. -/
def WearHeaders (ps : List Procedure) (hs : List Header) : Prop :=
  hs.map (Header.mapAttrs .strip) = (ps.map Procedure.header).map (Header.mapAttrs .strip)

/-- Procedures keep their shape when their own headers are put on them again, marked or not. -/
theorem strip_withHeaders {ps : List Procedure} {hs : List Header} (hhs : WearHeaders ps hs) :
    mapProcedureAttrs .strip (withHeaders ps hs) = mapProcedureAttrs .strip ps := by
  induction ps generalizing hs with
  | nil =>
    cases hs
    · rfl
    · rfl
  | cons p ps ih =>
    cases p with
    | mk h₀ b =>
      cases hs with
      | nil => rfl
      | cons h hs =>
        obtain ⟨hhead, htail⟩ := List.cons.inj hhs
        have hhead : h.mapAttrs .strip = h₀.mapAttrs .strip := hhead
        simp only [withHeaders, Procedure.withHeader, Procedure.body, mapProcedureAttrs,
          Procedure.mapAttrs, ih htail, hhead]

/-! ## Bodies -/

/-- Procedures keep their shape when their signatures are visited and, if that succeeds, their
    bodies. -/
theorem strip_node_declareThen (t : Table) (ps : List Procedure)
    (hbodies : ∀ {t : Table} {ws : List (Header × Nat)}, WearHeaders ps (ws.map Prod.fst) →
      mapProcedureAttrs .strip (checkBodies t ws ps).node = mapProcedureAttrs .strip ps) :
    mapProcedureAttrs .strip (declareThen t ps fun t hs => checkBodies t hs ps).node =
      mapProcedureAttrs .strip ps := by
  have hhs : WearHeaders ps (declareAll t (ps.map Procedure.header)).node :=
    strip_node_declareAll t _
  -- the headers are put back, whether the bodies are visited or not
  refine image_andThen (strip_withHeaders hhs) fun ids hids => ?_
  have hlength : (declareAll t (ps.map Procedure.header)).node.length = ids.length := by
    rw [length_node_declareAll, length_of_declareAll hids]
  refine hbodies ?_
  rw [List.map_fst_zip (Nat.le_of_eq hlength)]
  exact hhs

mutual

/-- The visit of a body keeps its shape. -/
theorem Body.strip_node_check (t : Table) (b : Body) :
    (b.check t).node.mapAttrs .strip = b.mapAttrs .strip := by
  cases b with
  | mk ps ds ss r a =>
    have hps := strip_node_declareThen t ps fun h => strip_node_checkBodies ps h
    have hr : ∀ t : Table, ((r.check t.env).within t).node.mapAttrs .strip = r.mapAttrs .strip :=
      fun t => Return.strip_node_check t.env r
    rw [Body.check]
    refine image_andThen ?_ fun _ _ =>
      image_andThen ?_ fun _ _ =>
        image_andThen ?_ fun _ _ =>
          image_andThen ?_ fun _ _ => ?_
    · simp only [Body.mapAttrs, hps]
    · simp only [Body.mapAttrs, hps, strip_node_checkDecls]
    · simp only [Body.mapAttrs, hps, strip_node_checkDecls, strip_node_checkStmts]
    · simp only [Body.mapAttrs, hps, strip_node_checkDecls, strip_node_checkStmts, hr]
    · simp only [Body.mapAttrs, hps, strip_node_checkDecls, strip_node_checkStmts, hr]
      rfl

/-- The visit of a body under a header of the procedure gives the procedure. -/
theorem Procedure.strip_node_checkBody (t : Table) (p : Procedure) {h : Header}
    (hh : h.mapAttrs .strip = p.header.mapAttrs .strip) (id : Nat) :
    (p.checkBody t h id).node.mapAttrs .strip = p.mapAttrs .strip := by
  cases p with
  | mk h₀ b =>
    have hh : h.mapAttrs .strip = h₀.mapAttrs .strip := hh
    rw [Procedure.checkBody]
    split
    · simp only [Procedure.mapAttrs, hh]
    · rename_i t' _
      have hb := Body.strip_node_check t' b
      refine image_andThen ?_ fun _ _ => ?_
      · simp only [Procedure.mapAttrs, hh, hb]
      · refine Found.image_conclude ?_
        intro a ha
        have ha : { h with attr := a }.mapAttrs .strip = h.mapAttrs .strip := by
          simp only [Header.mapAttrs, Attribute.strip_eq ha]
        simp only [Procedure.mapAttrs, ha, hh, hb]

/-- The visits of bodies keep the procedures. -/
theorem strip_node_checkBodies {t : Table} (ps : List Procedure) {ws : List (Header × Nat)}
    (h : WearHeaders ps (ws.map Prod.fst)) :
    mapProcedureAttrs .strip (checkBodies t ws ps).node = mapProcedureAttrs .strip ps := by
  cases ps with
  | nil => rfl
  | cons p ps =>
    match ws, h with
    | (_, id) :: ws, h =>
      rw [checkBodies]
      obtain ⟨hhead, htail⟩ := List.cons.inj h
      have hp := Procedure.strip_node_checkBody t p hhead id
      refine image_andThen ?_ fun _ _ => ?_
      · simp only [mapProcedureAttrs, hp, strip_withHeaders htail]
      · simp only [mapNode, mapProcedureAttrs, hp, strip_node_checkBodies ps htail]

end

/-! ## Programs -/

/-- A check of a program, however it ends, hands the program back but for its basetypes. -/
theorem Program.strip_node_typeCheck (p : Program) : p.typeCheck.node.strip = p.strip := by
  have hps := strip_node_declareThen .initial p.procedures fun h =>
    strip_node_checkBodies p.procedures h
  refine image_andThen ?_ fun _ _ => ?_
  · exact congrArg (Program.mk · _) hps
  · exact congrArg (Program.mk · _) hps

end ProcLang
