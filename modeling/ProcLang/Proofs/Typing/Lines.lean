/-
  The checker does not look at line numbers.

  `mapLine f` puts line `f n` in the place of line `n`: in an attribute, and through `mapAttrs` in
  all attributes of a tree.  A check of a tree with other lines does what a check of the tree
  does, step by step, and leaves the same table; in the node that it hands back, and in its error,
  the lines are the other ones (`Program.typeCheck_mapLine`).
-/
import ProcLang.Proofs.Typing.Annotation

namespace ProcLang

variable {α β γ δ : Type}

/-! ## Lines of attributes, errors and visits -/

/-- The attribute on another line. -/
def Attribute.mapLine (f : Nat → Nat) (a : Attribute) : Attribute := { a with line := f a.line }

/-- The error on another line. -/
def SemanticError.mapLine (f : Nat → Nat) (e : SemanticError) : SemanticError :=
  { e with line := f e.line }

/-- A verdict on line `f n` is the verdict on line `n` with its line changed. -/
theorem onLine_mapLine (f : Nat → Nat) (line : Nat) (v : Except Violation β) :
    onLine (f line) v = (onLine line v).mapError (SemanticError.mapLine f) := by
  cases v <;> rfl

namespace Found

variable {f : Nat → Nat} {g : α → γ}

/-- The visit of a node with other lines: `g` puts them into the node. -/
def mapLine (f : Nat → Nat) (g : α → γ) (v : Found α β) : Found γ β :=
  ⟨g v.node, v.result.mapError (SemanticError.mapLine f)⟩

/-- A sequence can be relocated at its end, if its parts can.  Only the error has a line of its own;
    what is found has none. -/
theorem andThen_mapLine {α' γ' : Type} {g : α → α'} {k : γ → γ'} (v : Found α β) {stop : α → γ}
    {go : α → β → Found γ δ} {stop' : α' → γ'} {go' : α' → β → Found γ' δ}
    (hstop : ∀ x, stop' (g x) = k (stop x)) (hgo : ∀ x b, go' (g x) b = (go x b).mapLine f k) :
    (v.mapLine f g).andThen stop' go' = (v.andThen stop go).mapLine f k := by
  obtain ⟨x, result⟩ := v
  cases result with
  | ok b => exact hgo x b
  | error e =>
    show (⟨stop' (g x), _⟩ : Found γ' δ) = ⟨k (stop x), _⟩
    rw [hstop]
    rfl

/-- The end of a visit marks the relocated attribute and fails on the relocated line. -/
theorem conclude_mapLine (a : Attribute) (v : Except Violation Basetype) {build : Attribute → α}
    {build' : Attribute → γ} (h : ∀ a, build' (a.mapLine f) = g (build a)) :
    conclude (a.mapLine f) v build' = (conclude a v build).mapLine f g := by
  cases v with
  | ok b =>
    have hmark : build' ((a.mapLine f).mark b) = g (build (a.mark b)) := h (a.mark b)
    show (⟨build' ((a.mapLine f).mark b), _⟩ : Found γ Basetype) = ⟨g (build (a.mark b)), _⟩
    rw [hmark]
    rfl
  | error v =>
    show (⟨build' (a.mapLine f), _⟩ : Found γ Basetype) = ⟨g (build a), _⟩
    rw [h]
    rfl

end Found

namespace Visit

variable {f : Nat → Nat}

/-- The visit of a node with other lines, which leaves the same table. -/
def mapLine (f : Nat → Nat) (g : α → γ) (v : Visit α β) : Visit γ β :=
  ⟨g v.node, v.table, v.result.mapError (SemanticError.mapLine f)⟩

/-- A sequence of visits that pass a table on, with other lines. -/
theorem andThen_mapLine {α' γ' : Type} {g : α → α'} {k : γ → γ'} (v : Visit α β) {stop : α → γ}
    {go : α → Table → β → Visit γ δ} {stop' : α' → γ'} {go' : α' → Table → β → Visit γ' δ}
    (hstop : ∀ x, stop' (g x) = k (stop x))
    (hgo : ∀ x t b, go' (g x) t b = (go x t b).mapLine f k) :
    (v.mapLine f g).andThen stop' go' = (v.andThen stop go).mapLine f k := by
  obtain ⟨x, t, result⟩ := v
  cases result with
  | ok b => exact hgo x t b
  | error e =>
    show (⟨stop' (g x), t, _⟩ : Visit γ' δ) = ⟨k (stop x), t, _⟩
    rw [hstop]
    rfl

/-- A node that is put into another one. -/
theorem mapNode_mapLine {α' γ' : Type} {g : α → α'} {k : γ → γ'} (v : Visit α β) {put : α → γ}
    {put' : α' → γ'} (h : ∀ x, put' (g x) = k (put x)) :
    (v.mapLine f g).mapNode put' = (v.mapNode put).mapLine f k := by
  show (⟨put' (g v.node), v.table, _⟩ : Visit γ' β) = ⟨k (put v.node), v.table, _⟩
  rw [h]
  rfl

/-- A basetype that is not handed on. -/
theorem forget_mapLine (g : α → γ) (v : Visit α β) :
    (v.mapLine f g).forget = v.forget.mapLine f g := by
  obtain ⟨x, t, result⟩ := v
  cases result <;> rfl

end Visit

/-- A visit that only reads, as one that passes its table on. -/
theorem Found.within_mapLine (f : Nat → Nat) (g : α → γ) (v : Found α β) (t : Table) :
    (v.mapLine f g).within t = (v.within t).mapLine f g := rfl

open Found Visit

/-! ## Expressions -/

section

variable (f : Nat → Nat)

mutual

/-- An expression with other lines is checked as the expression. -/
theorem Expr.check_mapLine (env : Env) (e : Expr) :
    (e.mapAttrs (.mapLine f)).check env =
      (e.check env).mapLine f (Expr.mapAttrs (.mapLine f)) := by
  cases e with
  | binary a op l r =>
    rw [Expr.mapAttrs, Expr.check, Expr.check, Expr.check_mapLine env l]
    refine andThen_mapLine _ (fun _ => rfl) fun l left => ?_
    rw [Expr.check_mapLine env r]
    refine andThen_mapLine _ (fun _ => rfl) fun r right => ?_
    exact conclude_mapLine _ _ fun _ => rfl
  | unary a op e =>
    rw [Expr.mapAttrs, Expr.check, Expr.check, Expr.check_mapLine env e]
    refine andThen_mapLine _ (fun _ => rfl) fun e operand => ?_
    exact conclude_mapLine _ _ fun _ => rfl
  | addressOf a l =>
    rw [Expr.mapAttrs, Expr.check, Expr.check, Location.check_mapLine env l]
    refine andThen_mapLine _ (fun _ => rfl) fun l target => ?_
    exact conclude_mapLine _ _ fun _ => rfl
  | element a x i =>
    rw [Expr.mapAttrs, Expr.check, Expr.check, Expr.check_mapLine env i]
    refine andThen_mapLine _ (fun _ => rfl) fun i index => ?_
    exact conclude_mapLine _ _ fun _ => rfl
  | named a x =>
    rw [Expr.mapAttrs, Expr.check, Expr.check]
    exact conclude_mapLine _ _ fun _ => rfl
  | integer a n => rfl
  | char a c => rfl
  | boolean a b => rfl
  | null a => rfl

/-- A location with other lines is checked as the location. -/
theorem Location.check_mapLine (env : Env) (l : Location) :
    (l.mapAttrs (.mapLine f)).check env =
      (l.check env).mapLine f (Location.mapAttrs (.mapLine f)) := by
  cases l with
  | named a x =>
    rw [Location.mapAttrs, Location.check, Location.check]
    exact conclude_mapLine _ _ fun _ => rfl
  | pointee a x =>
    rw [Location.mapAttrs, Location.check, Location.check]
    exact conclude_mapLine _ _ fun _ => rfl
  | element a x i =>
    rw [Location.mapAttrs, Location.check, Location.check, Expr.check_mapLine env i]
    refine andThen_mapLine _ (fun _ => rfl) fun i index => ?_
    exact conclude_mapLine _ _ fun _ => rfl

end

/-- Arguments with other lines are checked as the arguments. -/
theorem checkArguments_mapLine (env : Env) (es : List Expr) :
    checkArguments env (es.map (Expr.mapAttrs (.mapLine f))) =
      (checkArguments env es).mapLine f (List.map (Expr.mapAttrs (.mapLine f))) := by
  induction es with
  | nil => rfl
  | cons e es ih =>
    rw [List.map_cons, checkArguments, checkArguments, Expr.check_mapLine]
    refine andThen_mapLine _ (fun _ => rfl) fun e b => ?_
    rw [ih]
    exact andThen_mapLine _ (fun _ => rfl) fun es bs => rfl

/-! ## Declarations and statements -/

/-- A declaration with other lines is checked as the declaration. -/
theorem Decl.check_mapLine (t : Table) (d : Decl) :
    (d.mapAttrs (.mapLine f)).check t = (d.check t).mapLine f (Decl.mapAttrs (.mapLine f)) := by
  show Visit.mk _ _ (onLine (f d.attr.line) _) = Visit.mk _ _ _
  rw [onLine_mapLine]
  rfl

/-- Declarations with other lines are checked as the declarations. -/
theorem checkDecls_mapLine (t : Table) (ds : List Decl) :
    checkDecls t (ds.map (Decl.mapAttrs (.mapLine f))) =
      (checkDecls t ds).mapLine f (List.map (Decl.mapAttrs (.mapLine f))) := by
  induction ds generalizing t with
  | nil => rfl
  | cons d ds ih =>
    rw [List.map_cons, checkDecls, checkDecls, Decl.check_mapLine]
    refine andThen_mapLine _ (fun _ => rfl) fun d t _ => ?_
    rw [ih]
    exact mapNode_mapLine _ fun _ => rfl

/-- An assignment with other lines is checked as the assignment. -/
theorem checkAssign_mapLine (env : Env) (a : Attribute) (l : Location) (e : Expr) :
    checkAssign env (a.mapLine f) (l.mapAttrs (.mapLine f)) (e.mapAttrs (.mapLine f)) =
      (checkAssign env a l e).mapLine f (Stmt.mapAttrs (.mapLine f)) := by
  rw [checkAssign, checkAssign, Location.check_mapLine]
  refine andThen_mapLine _ (fun _ => rfl) fun l target => ?_
  rw [Expr.check_mapLine]
  refine andThen_mapLine _ (fun _ => rfl) fun e value => ?_
  exact conclude_mapLine _ _ fun _ => rfl

/-- An assignment of a text with other lines is checked as the assignment. -/
theorem checkAssignString_mapLine (env : Env) (a : Attribute) (l : Location) (text : String) :
    checkAssignString env (a.mapLine f) (l.mapAttrs (.mapLine f)) text =
      (checkAssignString env a l text).mapLine f (Stmt.mapAttrs (.mapLine f)) := by
  rw [checkAssignString, checkAssignString, Location.check_mapLine]
  refine andThen_mapLine _ (fun _ => rfl) fun l target => ?_
  exact conclude_mapLine _ _ fun _ => rfl

/-- A call with other lines is checked as the call.  Its callee has no line of its own. -/
theorem checkCall_mapLine (env : Env) (a : Attribute) (l : Location) (x : String)
    (es : List Expr) :
    checkCall env (a.mapLine f) (l.mapAttrs (.mapLine f)) x
        (es.map (Expr.mapAttrs (.mapLine f))) =
      (checkCall env a l x es).mapLine f (Stmt.mapAttrs (.mapLine f)) := by
  rw [checkCall, checkCall, Location.check_mapLine]
  refine andThen_mapLine _ (fun _ => rfl) fun l target => ?_
  rw [checkArguments_mapLine]
  refine andThen_mapLine _ (fun _ => rfl) fun es arguments => ?_
  exact conclude_mapLine _ _ fun _ => rfl

/-- A condition, as part of a statement. -/
theorem condition_mapLine (t : Table) (c : Expr) :
    ((c.mapAttrs (.mapLine f)).check t.env).within t =
      ((c.check t.env).within t).mapLine f (Expr.mapAttrs (.mapLine f)) := by
  rw [Expr.check_mapLine, within_mapLine]

/-- The line of an expression is that of its node. -/
theorem Expr.line_mapLine (e : Expr) : (e.mapAttrs (.mapLine f)).attr.line = f e.attr.line := by
  cases e <;> rfl

/-- The end of the visit of a statement with a condition, which is judged on its own line. -/
theorem verdict_mapLine (s : Stmt) (t : Table) (c : Expr) (v : Except Violation Unit) :
    Visit.mk (s.mapAttrs (.mapLine f)) t (onLine (c.mapAttrs (.mapLine f)).attr.line v) =
      (Visit.mk s t (onLine c.attr.line v)).mapLine f (Stmt.mapAttrs (.mapLine f)) := by
  rw [Expr.line_mapLine, onLine_mapLine]
  rfl

mutual

/-- A statement with other lines is checked as the statement. -/
theorem Stmt.check_mapLine (t : Table) (s : Stmt) :
    (s.mapAttrs (.mapLine f)).check t = (s.check t).mapLine f (Stmt.mapAttrs (.mapLine f)) := by
  -- a condition is judged on its own line, which `verdict_mapLine` moves along
  cases s with
  | assign a l e =>
    rw [Stmt.mapAttrs, Stmt.check, Stmt.check, checkAssign_mapLine, within_mapLine]
    exact forget_mapLine _ _
  | assignString a l text =>
    rw [Stmt.mapAttrs, Stmt.check, Stmt.check, checkAssignString_mapLine, within_mapLine]
    exact forget_mapLine _ _
  | call a l x es =>
    rw [Stmt.mapAttrs, Stmt.check, Stmt.check, checkCall_mapLine, within_mapLine]
    exact forget_mapLine _ _
  | ifThen a c b =>
    rw [Stmt.mapAttrs, Stmt.check, Stmt.check, condition_mapLine]
    refine andThen_mapLine _ (fun _ => rfl) fun c t condition => ?_
    rw [Block.check_mapLine t b]
    refine andThen_mapLine _ (fun _ => rfl) fun b t _ => ?_
    exact verdict_mapLine f (.ifThen a c b) t c _
  | ifElse a c b b' =>
    rw [Stmt.mapAttrs, Stmt.check, Stmt.check, condition_mapLine]
    refine andThen_mapLine _ (fun _ => rfl) fun c t condition => ?_
    rw [Block.check_mapLine t b]
    refine andThen_mapLine _ (fun _ => rfl) fun b t _ => ?_
    rw [Block.check_mapLine t b']
    refine andThen_mapLine _ (fun _ => rfl) fun b' t _ => ?_
    exact verdict_mapLine f (.ifElse a c b b') t c _
  | loop a c b =>
    rw [Stmt.mapAttrs, Stmt.check, Stmt.check, condition_mapLine]
    refine andThen_mapLine _ (fun _ => rfl) fun c t condition => ?_
    rw [Block.check_mapLine t b]
    refine andThen_mapLine _ (fun _ => rfl) fun b t _ => ?_
    exact verdict_mapLine f (.loop a c b) t c _
  | block a b =>
    rw [Stmt.mapAttrs, Stmt.check, Stmt.check, Block.check_mapLine t b]
    exact mapNode_mapLine _ fun _ => rfl

/-- A block with other lines is checked as the block. -/
theorem Block.check_mapLine (t : Table) (b : Block) :
    (b.mapAttrs (.mapLine f)).check t = (b.check t).mapLine f (Block.mapAttrs (.mapLine f)) := by
  cases b with
  | mk ds ss a =>
    rw [Block.mapAttrs, Block.check, Block.check, checkDecls_mapLine]
    refine andThen_mapLine _ (fun _ => rfl) fun ds t _ => ?_
    rw [checkStmts_mapLine t ss]
    exact andThen_mapLine _ (fun _ => rfl) fun ss t _ => rfl

/-- Statements with other lines are checked as the statements. -/
theorem checkStmts_mapLine (t : Table) (ss : List Stmt) :
    checkStmts t (mapStmtAttrs (.mapLine f) ss) =
      (checkStmts t ss).mapLine f (mapStmtAttrs (.mapLine f)) := by
  cases ss with
  | nil => rfl
  | cons s ss =>
    rw [mapStmtAttrs, checkStmts, checkStmts, Stmt.check_mapLine t s]
    refine andThen_mapLine _ (fun _ => rfl) fun s t _ => ?_
    rw [checkStmts_mapLine t ss]
    exact mapNode_mapLine _ fun _ => rfl

end

/-- A return, as part of a body. -/
theorem return_mapLine (t : Table) (r : Return) :
    ((r.mapAttrs (.mapLine f)).check t.env).within t =
      ((r.check t.env).within t).mapLine f (Return.mapAttrs (.mapLine f)) := by
  have hreturn : (r.mapAttrs (.mapLine f)).check t.env =
      (r.check t.env).mapLine f (Return.mapAttrs (.mapLine f)) := by
    rw [Return.mapAttrs, Return.check, Return.check, Expr.check_mapLine]
    refine Found.andThen_mapLine _ (fun _ => rfl) fun e value => ?_
    exact conclude_mapLine _ _ fun _ => rfl
  rw [hreturn, within_mapLine]

/-! ## Headers -/

/-- A header with other lines is declared as the header. -/
theorem Header.declare_mapLine (t : Table) (h : Header) :
    (h.mapAttrs (.mapLine f)).declare t =
      (h.declare t).mapLine f (Header.mapAttrs (.mapLine f)) := by
  unfold Header.declare
  rw [show (h.mapAttrs (.mapLine f)).parameters =
    h.parameters.map (Decl.mapAttrs (.mapLine f)) from rfl, checkDecls_mapLine]
  refine andThen_mapLine _ (fun _ => rfl) fun ds t' _ => ?_
  have hdeclared : ({ h.mapAttrs (.mapLine f) with
        parameters := ds.map (Decl.mapAttrs (.mapLine f)),
        returnType := (h.mapAttrs (.mapLine f)).returnType.annotate } : Header) =
      ({ h with parameters := ds, returnType := h.returnType.annotate } : Header).mapAttrs
        (.mapLine f) := rfl
  have hname : (h.mapAttrs (.mapLine f)).name = h.name := rfl
  have htype : (h.mapAttrs (.mapLine f)).returnType.basetype = h.returnType.basetype := rfl
  dsimp only
  rw [hdeclared, Header.parameterTypes_mapAttrs, hname, htype]
  split
  · rfl
  · rfl

/-- Headers with other lines are declared as the headers. -/
theorem declareAll_mapLine (t : Table) (hs : List Header) :
    declareAll t (hs.map (Header.mapAttrs (.mapLine f))) =
      (declareAll t hs).mapLine f (List.map (Header.mapAttrs (.mapLine f))) := by
  induction hs generalizing t with
  | nil => rfl
  | cons h hs ih =>
    rw [List.map_cons, declareAll, declareAll, Header.declare_mapLine]
    refine andThen_mapLine _ (fun _ => rfl) fun h t id => ?_
    rw [ih]
    exact andThen_mapLine _ (fun _ => rfl) fun hs t ids => rfl

/-- Lines can be changed before headers are put on procedures, or afterwards. -/
theorem withHeaders_mapLine (ps : List Procedure) (hs : List Header) :
    withHeaders (mapProcedureAttrs (.mapLine f) ps) (hs.map (Header.mapAttrs (.mapLine f))) =
      mapProcedureAttrs (.mapLine f) (withHeaders ps hs) := by
  induction ps generalizing hs with
  | nil => rfl
  | cons p ps ih =>
    cases hs with
    | nil => rfl
    | cons h hs =>
      obtain ⟨h₀, b⟩ := p
      rw [mapProcedureAttrs, List.map_cons, withHeaders, withHeaders, mapProcedureAttrs, ih]
      rfl

/-! ## Bodies -/

/-- Declared headers on other lines, with their scopes. -/
def mapWaiting (ws : List (Header × Nat)) : List (Header × Nat) :=
  ws.map (Prod.map (Header.mapAttrs (.mapLine f)) id)

/-- Signatures and then bodies, if bodies under relocated headers do as they should. -/
theorem declareThen_mapLine (t : Table) (ps : List Procedure)
    (hbodies : ∀ (t : Table) (ws : List (Header × Nat)),
      checkBodies t (mapWaiting f ws) (mapProcedureAttrs (.mapLine f) ps) =
        (checkBodies t ws ps).mapLine f (mapProcedureAttrs (.mapLine f))) :
    (declareThen t (mapProcedureAttrs (.mapLine f) ps) fun t hs =>
        checkBodies t hs (mapProcedureAttrs (.mapLine f) ps)) =
      (declareThen t ps fun t hs => checkBodies t hs ps).mapLine f
        (mapProcedureAttrs (.mapLine f)) := by
  unfold declareThen
  rw [headers_mapAttrs, declareAll_mapLine]
  refine andThen_mapLine _ (withHeaders_mapLine f ps) fun hs t ids => ?_
  rw [← hbodies, mapWaiting, ← List.zip_map_left]

mutual

/-- A body with other lines is checked as the body. -/
theorem Body.check_mapLine (t : Table) (b : Body) :
    (b.mapAttrs (.mapLine f)).check t = (b.check t).mapLine f (Body.mapAttrs (.mapLine f)) := by
  cases b with
  | mk ps ds ss r a =>
    rw [Body.mapAttrs, Body.check, Body.check,
      declareThen_mapLine f t ps fun t ws => checkBodies_mapLine t ws ps]
    refine andThen_mapLine _ (fun _ => rfl) fun ps t _ => ?_
    rw [checkDecls_mapLine]
    refine andThen_mapLine _ (fun _ => rfl) fun ds t _ => ?_
    rw [checkStmts_mapLine]
    refine andThen_mapLine _ (fun _ => rfl) fun ss t _ => ?_
    rw [return_mapLine]
    exact andThen_mapLine _ (fun _ => rfl) fun r t result => rfl

/-- The body of a procedure under a relocated header. -/
theorem Procedure.checkBody_mapLine (t : Table) (h : Header) (id : Nat) (p : Procedure) :
    (p.mapAttrs (.mapLine f)).checkBody t (h.mapAttrs (.mapLine f)) id =
      (p.checkBody t h id).mapLine f (Procedure.mapAttrs (.mapLine f)) := by
  cases p with
  | mk h₀ b =>
    rw [Procedure.mapAttrs, Procedure.checkBody, Procedure.checkBody]
    cases t.reenter? id with
    | none => rfl
    | some t₁ =>
      dsimp only
      rw [Body.check_mapLine t₁ b]
      refine andThen_mapLine _ (fun _ => rfl) fun b t₂ result => ?_
      rw [← forget_mapLine]
      have hend : conclude (h.mapAttrs (.mapLine f)).attr
          (Rule.procedure (h.mapAttrs (.mapLine f)).returnType.attr.basetype result)
          (fun a => Procedure.mk { h.mapAttrs (.mapLine f) with attr := a }
            (b.mapAttrs (.mapLine f))) =
          (conclude h.attr (Rule.procedure h.returnType.attr.basetype result) fun a =>
            Procedure.mk { h with attr := a } b).mapLine f (Procedure.mapAttrs (.mapLine f)) :=
        conclude_mapLine _ _ fun _ => rfl
      rw [hend]
      rfl

/-- Bodies under relocated headers, one after the other. -/
theorem checkBodies_mapLine (t : Table) (ws : List (Header × Nat)) (ps : List Procedure) :
    checkBodies t (mapWaiting f ws) (mapProcedureAttrs (.mapLine f) ps) =
      (checkBodies t ws ps).mapLine f (mapProcedureAttrs (.mapLine f)) := by
  cases ps with
  | nil => rfl
  | cons p ps =>
    match ws with
    | [] => rfl
    | (h, id) :: ws =>
      have hheaders : (mapWaiting f ws).map Prod.fst =
          (ws.map Prod.fst).map (Header.mapAttrs (.mapLine f)) := by
        rw [mapWaiting, List.map_map, List.map_map]
        rfl
      rw [mapProcedureAttrs, checkBodies]
      show (Procedure.checkBody t (h.mapAttrs (.mapLine f)) id _).andThen
        (fun p => p :: withHeaders _ ((mapWaiting f ws).map Prod.fst))
        (fun p t _ => (checkBodies t (mapWaiting f ws) _).mapNode fun ps => p :: ps) = _
      rw [Procedure.checkBody_mapLine t h id p, hheaders]
      refine andThen_mapLine _ (fun p => ?_) fun p t _ => ?_
      · rw [withHeaders_mapLine]
        rfl
      · rw [checkBodies_mapLine t ws ps]
        exact mapNode_mapLine _ fun _ => rfl

end

end

/-! ## Programs -/

/-- A check of a program with other lines does the same, with those lines. -/
theorem Program.typeCheck_mapLine (f : Nat → Nat) (p : Program) :
    (p.mapAttrs (.mapLine f)).typeCheck =
      p.typeCheck.mapLine f (Program.mapAttrs (.mapLine f)) := by
  unfold Program.typeCheck Program.check checkProcedures
  rw [show (p.mapAttrs (.mapLine f)).procedures =
    mapProcedureAttrs (.mapLine f) p.procedures from rfl,
    declareThen_mapLine f _ p.procedures fun t ws => checkBodies_mapLine f t ws p.procedures]
  refine andThen_mapLine _ (fun _ => rfl) fun ps t _ => ?_
  show Visit.mk _ t (onLine (f p.attr.line) (mainVerdict t)) = _
  rw [onLine_mapLine]
  rfl

end ProcLang
