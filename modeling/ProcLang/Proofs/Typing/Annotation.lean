/-
  Annotations of an earlier check play no part in a check.

  `mapAttrs f` applies `f` to the attribute of every node of a tree, and `strip` takes all
  basetypes out of a tree, so that two trees differ only in their basetypes when they are
  stripped to the same tree.  A check of a stripped tree finds what a check of the tree finds,
  and leaves the same table (`Program.sameOutcome_strip`).

  There is one basetype that the checker reads off the tree: the return type of a procedure,
  when its body was checked.  By then the header was declared, so what is read was written by
  the same check (`Header.face_declare`).
-/
import ProcLang.Proofs.Typing.Outcome
import ProcLang.Typing.Procedure

namespace ProcLang

/-! ## Attributes of trees -/

/-- The attribute without its basetype. -/
def Attribute.strip (a : Attribute) : Attribute := .bare a.line

section

variable (f : Attribute → Attribute)

mutual

/-- The expression with `f` applied to all its attributes. -/
def Expr.mapAttrs : Expr → Expr
  | .binary a op l r => .binary (f a) op l.mapAttrs r.mapAttrs
  | .unary a op e => .unary (f a) op e.mapAttrs
  | .addressOf a l => .addressOf (f a) l.mapAttrs
  | .element a x i => .element (f a) x i.mapAttrs
  | .named a x => .named (f a) x
  | .integer a n => .integer (f a) n
  | .char a c => .char (f a) c
  | .boolean a b => .boolean (f a) b
  | .null a => .null (f a)

/-- The location with `f` applied to all its attributes. -/
def Location.mapAttrs : Location → Location
  | .named a x => .named (f a) x
  | .pointee a x => .pointee (f a) x
  | .element a x i => .element (f a) x i.mapAttrs

end

/-- The type with `f` applied to its attribute. -/
def TypeMark.mapAttrs (t : TypeMark) : TypeMark := ⟨t.declared, f t.attr⟩

/-- The declaration with `f` applied to all its attributes. -/
def Decl.mapAttrs (d : Decl) : Decl := ⟨d.names, d.type.mapAttrs f, f d.attr⟩

mutual

/-- The statement with `f` applied to all its attributes. -/
def Stmt.mapAttrs : Stmt → Stmt
  | .assign a l e => .assign (f a) (l.mapAttrs f) (e.mapAttrs f)
  | .assignString a l s => .assignString (f a) (l.mapAttrs f) s
  | .call a l g es => .call (f a) (l.mapAttrs f) g (es.map (Expr.mapAttrs f))
  | .ifThen a e b => .ifThen (f a) (e.mapAttrs f) b.mapAttrs
  | .ifElse a e b c => .ifElse (f a) (e.mapAttrs f) b.mapAttrs c.mapAttrs
  | .loop a e b => .loop (f a) (e.mapAttrs f) b.mapAttrs
  | .block a b => .block (f a) b.mapAttrs

/-- The block with `f` applied to all its attributes. -/
def Block.mapAttrs : Block → Block
  | .mk ds ss a => .mk (ds.map (Decl.mapAttrs f)) (mapStmtAttrs ss) (f a)

/-- The statements with `f` applied to all their attributes. -/
def mapStmtAttrs : List Stmt → List Stmt
  | [] => []
  | s :: ss => s.mapAttrs :: mapStmtAttrs ss

end

/-- The header with `f` applied to all its attributes. -/
def Header.mapAttrs (h : Header) : Header :=
  ⟨h.name, h.parameters.map (Decl.mapAttrs f), h.returnType.mapAttrs f, f h.attr⟩

/-- The return with `f` applied to all its attributes. -/
def Return.mapAttrs (r : Return) : Return := ⟨r.value.mapAttrs f, f r.attr⟩

mutual

/-- The procedure with `f` applied to all its attributes. -/
def Procedure.mapAttrs : Procedure → Procedure
  | .mk h b => .mk (h.mapAttrs f) b.mapAttrs

/-- The body with `f` applied to all its attributes. -/
def Body.mapAttrs : Body → Body
  | .mk ps ds ss r a =>
    .mk (mapProcedureAttrs ps) (ds.map (Decl.mapAttrs f)) (mapStmtAttrs f ss) (r.mapAttrs f) (f a)

/-- The procedures with `f` applied to all their attributes. -/
def mapProcedureAttrs : List Procedure → List Procedure
  | [] => []
  | p :: ps => p.mapAttrs :: mapProcedureAttrs ps

end

/-- The program with `f` applied to the attributes of all its nodes. -/
def Program.mapAttrs (p : Program) : Program := ⟨mapProcedureAttrs f p.procedures, f p.attr⟩

end

/-- The program without its basetypes. -/
def Program.strip (p : Program) : Program := p.mapAttrs .strip

/-! ## Expressions -/

open Found Visit

mutual

/-- An expression is checked the same, whatever basetypes it carries. -/
theorem Expr.result_strip (env : Env) (e : Expr) :
    ((e.mapAttrs .strip).check env).result = (e.check env).result := by
  cases e with
  | binary a op l r =>
    simp only [Expr.mapAttrs, Expr.check, result_andThen, result_conclude, Expr.result_strip env l,
      Expr.result_strip env r]
    rfl
  | unary a op e =>
    simp only [Expr.mapAttrs, Expr.check, result_andThen, result_conclude, Expr.result_strip env e]
    rfl
  | addressOf a l =>
    simp only [Expr.mapAttrs, Expr.check, result_andThen, result_conclude,
      Location.result_strip env l]
    rfl
  | element a x i =>
    simp only [Expr.mapAttrs, Expr.check, result_andThen, result_conclude, Expr.result_strip env i]
    rfl
  | named a x => simp only [Expr.mapAttrs, Expr.check, result_conclude]; rfl
  | integer a n => rfl
  | char a c => rfl
  | boolean a b => rfl
  | null a => rfl

/-- A location is checked the same, whatever basetypes it carries. -/
theorem Location.result_strip (env : Env) (l : Location) :
    ((l.mapAttrs .strip).check env).result = (l.check env).result := by
  cases l with
  | named a x => simp only [Location.mapAttrs, Location.check, result_conclude]; rfl
  | pointee a x => simp only [Location.mapAttrs, Location.check, result_conclude]; rfl
  | element a x i =>
    simp only [Location.mapAttrs, Location.check, result_andThen, result_conclude,
      Expr.result_strip env i]
    rfl

end

/-- Arguments are checked the same, whatever basetypes they carry. -/
theorem result_checkArguments_strip (env : Env) (es : List Expr) :
    (checkArguments env (es.map (Expr.mapAttrs .strip))).result =
      (checkArguments env es).result := by
  induction es with
  | nil => rfl
  | cons e es ih =>
    simp only [List.map_cons, checkArguments, result_andThen, Expr.result_strip env e, ih]

/-- Stripping leaves the lines. -/
theorem Expr.line_strip (e : Expr) : (e.mapAttrs .strip).attr.line = e.attr.line := by
  cases e <;> rfl

/-! ## Declarations and statements -/

/-- Declarations are checked the same, whatever basetypes they carry. -/
theorem checkDecls_strip (t : Table) (ds : List Decl) :
    (checkDecls t (ds.map (Decl.mapAttrs .strip))).SameOutcome (checkDecls t ds) := by
  induction ds generalizing t with
  | nil => exact ⟨rfl, rfl⟩
  | cons d ds ih =>
    have hd : ((d.mapAttrs .strip).check t).SameOutcome (d.check t) := ⟨rfl, rfl⟩
    exact hd.andThen fun t' _ _ _ => (ih t').mapNode

/-- An assignment is checked the same, whatever basetypes it carries. -/
theorem checkAssign_strip (env : Env) (a : Attribute) (l : Location) (e : Expr) :
    (checkAssign env a.strip (l.mapAttrs .strip) (e.mapAttrs .strip)).result =
      (checkAssign env a l e).result := by
  simp only [checkAssign, result_andThen, result_conclude, Location.result_strip env l,
    Expr.result_strip env e]
  rfl

/-- An assignment of a text is checked the same, whatever basetypes it carries. -/
theorem checkAssignString_strip (env : Env) (a : Attribute) (l : Location) (text : String) :
    (checkAssignString env a.strip (l.mapAttrs .strip) text).result =
      (checkAssignString env a l text).result := by
  simp only [checkAssignString, result_andThen, result_conclude, Location.result_strip env l]
  rfl

/-- A call is checked the same, whatever basetypes it carries. -/
theorem checkCall_strip (env : Env) (a : Attribute) (l : Location) (g : String) (es : List Expr) :
    (checkCall env a.strip (l.mapAttrs .strip) g (es.map (Expr.mapAttrs .strip))).result =
      (checkCall env a l g es).result := by
  simp only [checkCall, result_andThen, result_conclude, Location.result_strip env l,
    result_checkArguments_strip env es]
  rfl

/-- Of the node of a condition only the line is looked at later. -/
theorem Expr.line_node_strip (t : Table) (e : Expr) :
    (((e.mapAttrs .strip).check t.env).within t).node.attr.line =
      ((e.check t.env).within t).node.attr.line := by
  have hline : ∀ e : Expr, (e.check t.env).node.attr.line = e.attr.line :=
    Expr.onLine_node_check t.env
  exact (hline _).trans ((Expr.line_strip e).trans (hline e).symm)

mutual

/-- A statement has the same outcome, whatever basetypes it carries. -/
theorem Stmt.check_strip (t : Table) (s : Stmt) :
    ((s.mapAttrs .strip).check t).SameOutcome (s.check t) := by
  cases s with
  | assign a l e => exact (sameOutcome_within (checkAssign_strip t.env a l e) t).forget
  | assignString a l text =>
    exact (sameOutcome_within (checkAssignString_strip t.env a l text) t).forget
  | call a l g es => exact (sameOutcome_within (checkCall_strip t.env a l g es) t).forget
  -- the parts have the same outcomes, and the condition is judged on the line it has
  | ifThen a c b =>
    have hc := sameOutcome_within (Expr.result_strip t.env c) t
    simp only [Stmt.mapAttrs, Stmt.check]
    refine hc.andThen fun t₁ condition _ _ => ?_
    refine (Block.check_strip t₁ b).andThen fun t₂ _ _ _ => ?_
    exact ⟨by rw [Expr.line_node_strip], rfl⟩
  | ifElse a c b d =>
    have hc := sameOutcome_within (Expr.result_strip t.env c) t
    simp only [Stmt.mapAttrs, Stmt.check]
    refine hc.andThen fun t₁ condition _ _ => ?_
    refine (Block.check_strip t₁ b).andThen fun t₂ _ _ _ => ?_
    refine (Block.check_strip t₂ d).andThen fun t₃ _ _ _ => ?_
    exact ⟨by rw [Expr.line_node_strip], rfl⟩
  | loop a c b =>
    have hc := sameOutcome_within (Expr.result_strip t.env c) t
    simp only [Stmt.mapAttrs, Stmt.check]
    refine hc.andThen fun t₁ condition _ _ => ?_
    refine (Block.check_strip t₁ b).andThen fun t₂ _ _ _ => ?_
    exact ⟨by rw [Expr.line_node_strip], rfl⟩
  | block a b => exact (Block.check_strip t b).mapNode

/-- A block has the same outcome, whatever basetypes it carries. -/
theorem Block.check_strip (t : Table) (b : Block) :
    ((b.mapAttrs .strip).check t).SameOutcome (b.check t) := by
  cases b with
  | mk ds ss a =>
    simp only [Block.mapAttrs, Block.check]
    refine (checkDecls_strip t.openScope ds).andThen fun t' _ _ _ => ?_
    exact (checkStmts_strip t' ss).andThen fun t'' _ _ _ => ⟨rfl, rfl⟩

/-- Statements in a row have the same outcome, whatever basetypes they carry. -/
theorem checkStmts_strip (t : Table) (ss : List Stmt) :
    (checkStmts t (mapStmtAttrs .strip ss)).SameOutcome (checkStmts t ss) := by
  cases ss with
  | nil => exact ⟨rfl, rfl⟩
  | cons s ss =>
    simp only [mapStmtAttrs, checkStmts]
    exact (Stmt.check_strip t s).andThen fun t' _ _ _ => (checkStmts_strip t' ss).mapNode

end

/-- A return is checked the same, whatever basetypes it carries. -/
theorem Return.result_strip (env : Env) (r : Return) :
    ((r.mapAttrs .strip).check env).result = (r.check env).result := by
  simp only [Return.mapAttrs, Return.check, result_andThen, result_conclude,
    Expr.result_strip env r.value]
  rfl

/-! ## Headers -/

/-- What the check of a body reads off a header: the basetype written at the return type, and
    the line of the procedure. -/
def Header.face (h : Header) : Basetype × Nat := (h.returnType.attr.basetype, h.attr.line)

/-- What a header that was declared shows. -/
def Header.declaredFace (h : Header) : Basetype × Nat := (h.returnType.basetype, h.attr.line)

/-- Declarations keep their types, whether they can be bound or not. -/
theorem types_checkDecls (t : Table) (ds : List Decl) :
    ((checkDecls t ds).node.flatMap fun d => d.names.map fun _ => d.type.basetype) =
      ds.flatMap fun d => d.names.map fun _ => d.type.basetype := by
  induction ds generalizing t with
  | nil => rfl
  | cons d ds ih =>
    rw [checkDecls, Visit.andThen]
    cases (d.check t).result with
    | ok _ =>
      rw [List.flatMap_cons, ← ih (d.check t).table]
      rfl
    | error _ => rfl

/-- The visit of the parameters does not change their declared types. -/
theorem parameterTypes_checkDecls (t : Table) (h : Header) (ty : TypeMark) :
    { h with parameters := (checkDecls t h.parameters).node, returnType := ty }.parameterTypes =
      h.parameterTypes := types_checkDecls t h.parameters

/-- A change of attributes leaves the basetypes of the parameters. -/
theorem Header.parameterTypes_mapAttrs (f : Attribute → Attribute) (h : Header) :
    (h.mapAttrs f).parameterTypes = h.parameterTypes := by
  unfold Header.parameterTypes Header.mapAttrs
  rw [List.flatMap_map]
  rfl

/-- A header is declared the same, whatever basetypes it carries. -/
theorem Header.declare_strip (t : Table) (h : Header) :
    ((h.mapAttrs .strip).declare t).SameOutcome (h.declare t) := by
  have hds : (checkDecls t.openScope (h.mapAttrs .strip).parameters).SameOutcome
      (checkDecls t.openScope h.parameters) := checkDecls_strip t.openScope h.parameters
  unfold Header.declare
  refine hds.andThen ?_
  rintro t' - - -
  have hname : (h.mapAttrs .strip).name = h.name := rfl
  have htype : (h.mapAttrs .strip).returnType.basetype = h.returnType.basetype := rfl
  dsimp only
  rw [parameterTypes_checkDecls, parameterTypes_checkDecls, Header.parameterTypes_mapAttrs, hname,
    htype]
  cases t'.insertOutside h.name (.procedure h.parameterTypes h.returnType.basetype) with
  | ok t'' => exact ⟨rfl, rfl⟩
  | error _ => exact ⟨rfl, rfl⟩

/-- A declared header shows the basetype of its own return type. -/
theorem Header.face_declare {t : Table} {h : Header} {id : Nat}
    (hok : (h.declare t).result = .ok id) : (h.declare t).node.face = h.declaredFace := by
  unfold Header.declare at hok ⊢
  obtain ⟨_, hds, -⟩ := exists_of_andThen_ok hok
  rw [andThen_of_ok hds]
  dsimp only
  split
  · rfl
  · rfl

/-- Headers in a row have the same outcome, whatever basetypes they carry. -/
theorem declareAll_strip (t : Table) (hs : List Header) :
    (declareAll t (hs.map (Header.mapAttrs .strip))).SameOutcome (declareAll t hs) := by
  induction hs generalizing t with
  | nil => exact ⟨rfl, rfl⟩
  | cons h hs ih =>
    refine (Header.declare_strip t h).andThen fun t₁ id _ _ => ?_
    exact (ih t₁).andThen fun t₂ ids _ _ => ⟨rfl, rfl⟩

/-- Once all headers are declared, each shows what its type says, and nothing of what it carried
    before. -/
theorem faces_declareAll {t : Table} {hs : List Header} {ids : List Nat}
    (hok : (declareAll t hs).result = .ok ids) :
    (declareAll t hs).node.map Header.face = hs.map Header.declaredFace := by
  induction hs generalizing t ids with
  | nil => rfl
  | cons h hs ih =>
    obtain ⟨id, hh, hrest⟩ := exists_of_andThen_ok hok
    obtain ⟨ids', hhs, -⟩ := exists_of_andThen_ok hrest
    rw [declareAll, andThen_of_ok hh, andThen_of_ok hhs]
    simp only [List.map_cons, Header.face_declare hh, ih hhs]

/-! ## Bodies -/

/-- Two lists of declared headers with their scopes show the same. -/
def SameFaces (ws ws' : List (Header × Nat)) : Prop :=
  ws.map (Prod.map Header.face id) = ws'.map (Prod.map Header.face id)

/-- Headers that show the same, with the same scopes. -/
theorem sameFaces_zip {hs hs' : List Header} (h : hs.map Header.face = hs'.map Header.face)
    (ids : List Nat) : SameFaces (hs.zip ids) (hs'.zip ids) := by
  rw [SameFaces, ← List.zip_map_left, ← List.zip_map_left, h]

/-- A change of attributes commutes with taking the headers. -/
theorem headers_mapAttrs (f : Attribute → Attribute) (ps : List Procedure) :
    (mapProcedureAttrs f ps).map Procedure.header =
      (ps.map Procedure.header).map (Header.mapAttrs f) := by
  induction ps with
  | nil => rfl
  | cons p ps ih =>
    cases p
    rw [mapProcedureAttrs, List.map_cons, ih]
    rfl

/-- Signatures and then bodies have the same outcome.  The headers that the bodies are put under
    were declared by then, so they show the same. -/
theorem declareThen_strip (t : Table) (ps : List Procedure)
    (hbodies : ∀ {t : Table} {ws ws' : List (Header × Nat)}, SameFaces ws ws' →
      (checkBodies t ws (mapProcedureAttrs .strip ps)).SameOutcome (checkBodies t ws' ps)) :
    (declareThen t (mapProcedureAttrs .strip ps) fun t hs =>
        checkBodies t hs (mapProcedureAttrs .strip ps)).SameOutcome
      (declareThen t ps fun t hs => checkBodies t hs ps) := by
  unfold declareThen
  rw [headers_mapAttrs]
  refine (declareAll_strip t _).andThen ?_
  intro t' ids hstrip hok
  refine hbodies (sameFaces_zip ?_ ids)
  rw [faces_declareAll hstrip, faces_declareAll hok, List.map_map]
  rfl

mutual

/-- A body has the same outcome, whatever basetypes it carries. -/
theorem Body.check_strip (t : Table) (b : Body) :
    ((b.mapAttrs .strip).check t).SameOutcome (b.check t) := by
  cases b with
  | mk ps ds ss r a =>
    simp only [Body.mapAttrs, Body.check]
    refine (declareThen_strip t ps fun h => checkBodies_strip ps h).andThen fun t₁ _ _ _ => ?_
    refine (checkDecls_strip t₁ ds).andThen fun t₂ _ _ _ => ?_
    refine (checkStmts_strip t₂ ss).andThen fun t₃ _ _ _ => ?_
    exact (sameOutcome_within (Return.result_strip t₃.env r) t₃).andThen fun _ _ _ _ => ⟨rfl, rfl⟩

/-- The body of a procedure has the same outcome under headers that show the same. -/
theorem Procedure.checkBody_strip (t : Table) (p : Procedure) {h h' : Header}
    (hface : h.face = h'.face) (id : Nat) :
    ((p.mapAttrs .strip).checkBody t h id).SameOutcome (p.checkBody t h' id) := by
  cases p with
  | mk _ b =>
    obtain ⟨htype, hline⟩ := Prod.mk.inj hface
    simp only [Procedure.mapAttrs, Procedure.checkBody]
    cases t.reenter? id with
    | none => exact ⟨by rw [hline], rfl⟩
    | some t₁ =>
      refine (Body.check_strip t₁ b).andThen fun t₂ result _ _ => ?_
      refine SameOutcome.forget (sameOutcome_within ?_ t₂.closeScope)
      rw [result_conclude, result_conclude, htype, hline]

/-- Bodies, one after the other, have the same outcome, whatever basetypes they carry. -/
theorem checkBodies_strip {t : Table} (ps : List Procedure) {ws ws' : List (Header × Nat)}
    (hws : SameFaces ws ws') :
    (checkBodies t ws (mapProcedureAttrs .strip ps)).SameOutcome (checkBodies t ws' ps) := by
  cases ps with
  | nil => exact ⟨rfl, rfl⟩
  | cons p ps =>
    simp only [mapProcedureAttrs, checkBodies]
    match ws, ws', hws with
    | [], [], _ => exact ⟨rfl, rfl⟩
    | (h, id) :: ws, (h', id') :: ws', hws =>
      obtain ⟨hhead, htail⟩ := List.cons.inj hws
      obtain ⟨hface, hid⟩ := Prod.mk.inj hhead
      obtain rfl : id = id' := hid
      refine (Procedure.checkBody_strip t p hface id).andThen fun t₁ _ _ _ => ?_
      exact (checkBodies_strip ps htail).mapNode

end

/-! ## Programs -/

/-- **Blindness.**  A check of a program without its basetypes finds the same and leaves the same
    table. -/
theorem Program.sameOutcome_strip (p : Program) :
    p.strip.typeCheck.SameOutcome p.typeCheck := by
  have hps := declareThen_strip .initial p.procedures fun h => checkBodies_strip p.procedures h
  unfold Program.typeCheck Program.check checkProcedures
  refine hps.andThen ?_
  rintro t _ - -
  exact ⟨rfl, rfl⟩

end ProcLang
