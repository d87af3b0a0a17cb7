/-
  The nodes of a program, with the declarations that are visible at each.

  `n.inner fs` are the nodes inside of a node `n` that stands in the frames `fs`, each with its own
  frames: a procedure puts a frame with its parameters in front, a nested block one with its
  declarations, and a body adds the nested procedures and then the variables to the frame of the
  parameters.  A node below is given by its address (`Node.at?`).

  What the check of a program does to a node is known from the node and its frames alone
  (`Node.annotated`).  One step: when the static rules permit a node, they permit those inside of it
  (`Node.permitted_inner`), and the nodes inside of the annotated node are the annotated ones
  (`Node.inner_annotated`).  So it goes along every address (`Program.at?_typeCheck`).

  Names stand for declared types and procedures on declared types (`Frames.Declared`), at every
  address.
-/
import ProcLang.Proofs.Typing.Success

namespace ProcLang

open Static

/-! ## Nodes -/

/-- A node of the tree of a program. -/
inductive Node where
  | program (p : Program)
  | procedure (p : Procedure)
  | body (b : Body)
  | block (b : Block)
  | decl (d : Decl)
  | type (t : TypeMark)
  | stmt (s : Stmt)
  | result (r : Return)
  | expr (e : Expr)
  | location (l : Location)

/-- The frames with more names in the innermost one. -/
def Static.Frames.bindAll (fs : Frames) (names : List (String × Entity)) : Frames :=
  (fs.headD .empty).bindAll names :: fs.tail

/-- The nodes that stand directly inside of an expression.  They are visible in the frames of the
    expression itself, since no expression opens a scope. -/
def Expr.inner : Expr → List Node
  | .binary _ _ l r => [.expr l, .expr r]
  | .unary _ _ e => [.expr e]
  | .addressOf _ l => [.location l]
  | .element _ _ i => [.expr i]
  | .named _ _ | .integer _ _ | .char _ _ | .boolean _ _ | .null _ => []

/-- The nodes that stand directly inside of a location: the index of an element. -/
def Location.inner : Location → List Node
  | .named _ _ | .pointee _ _ => []
  | .element _ _ i => [.expr i]

/-- The nodes that stand directly inside of a statement, from left to right.  A nested block is one
    of them, and puts its own frame in front (`Node.inner`). -/
def Stmt.inner : Stmt → List Node
  | .assign _ l e => [.location l, .expr e]
  | .assignString _ l _ => [.location l]
  | .call _ l _ es => .location l :: es.map .expr
  | .ifThen _ c b => [.expr c, .block b]
  | .ifElse _ c b b' => [.expr c, .block b, .block b']
  | .loop _ c b => [.expr c, .block b]
  | .block _ b => [.block b]

namespace Node

/-- The attribute of a node. -/
def attr : Node → Attribute
  | program p => p.attr
  | procedure p => p.header.attr
  | body b => b.attr
  | block b => b.attr
  | decl d => d.attr
  | type t => t.attr
  | stmt s => s.attr
  | result r => r.attr
  | expr e => e.attr
  | location l => l.attr

/-- The nodes inside of a node that stands in the frames `fs`, each in its own frames. -/
def inner (fs : Frames) : Node → List (Frames × Node)
  | program p =>
    let global := [Frame.empty.bindAll (p.procedures.map fun p => p.header.entry)]
    p.procedures.map fun p => (global, procedure p)
  | procedure (.mk h b) =>
    h.parameters.map (fun d => (fs, decl d)) ++
      [(fs, type h.returnType), (Frame.empty.bindAll (entriesOf h.parameters) :: fs, body b)]
  | body (.mk ps ds ss r _) =>
    let outer := fs.bindAll (ps.map fun p => p.header.entry)
    let inner := outer.bindAll (entriesOf ds)
    ps.map (fun p => (outer, procedure p)) ++ ds.map (fun d => (inner, decl d)) ++
      ss.map (fun s => (inner, stmt s)) ++ [(inner, result r)]
  | block (.mk ds ss _) =>
    let inner := Frame.empty.bindAll (entriesOf ds) :: fs
    ds.map (fun d => (inner, decl d)) ++ ss.map fun s => (inner, stmt s)
  | decl d => [(fs, type d.type)]
  | type _ => []
  | stmt s => s.inner.map fun n => (fs, n)
  | result r => [(fs, expr r.value)]
  | expr e => e.inner.map fun n => (fs, n)
  | location l => l.inner.map fun n => (fs, n)

/-- The node at an address below a node that stands in the frames `fs`, with its own frames. -/
def at? : Node → Frames → List Nat → Option (Frames × Node)
  | n, fs, [] => some (fs, n)
  | n, fs, i :: a => (n.inner fs)[i]?.bind fun c => c.2.at? c.1 a

/-- Nodes that have no basetype of their own. -/
def isStructural : Node → Bool
  | program _ | block _ => true
  | stmt (.ifThen _ _ _) | stmt (.ifElse _ _ _ _) | stmt (.loop _ _ _) | stmt (.block _ _) => true
  | _ => false

/-- The node with its basetypes, where names stand for what `fs` says. -/
def annotated (fs : Frames) : Node → Node
  | program p => program p.annotated
  | procedure p => procedure (p.annotated fs)
  | body b => body (b.annotated fs.tail (fs.headD .empty))
  | block b => block (b.annotated fs)
  | decl d => decl d.annotate
  | type t => type t.annotate
  | stmt s => stmt (s.annotated fs)
  | result r => result (r.check fs.find).node
  | expr e => expr (e.check fs.find).node
  | location l => location (l.check fs.find).node

/-- The static rules permit the node in the frames `fs`. -/
def Permitted (fs : Frames) : Node → Prop
  | program p => Static.program p = .ok ()
  | procedure p => Static.procedure fs p = .ok ()
  | body b => ∃ result, Static.body fs.tail (fs.headD .empty) b = .ok result
  | block b => Static.block fs b = .ok ()
  | decl _ | type _ => True
  | stmt s => Static.stmt fs s = .ok ()
  | result r => ∃ b, (r.check fs.find).result = .ok b
  | expr e => ∃ b, (e.check fs.find).result = .ok b
  | location l => ∃ b, (l.check fs.find).result = .ok b

end Node

open Found

/-! ## One step down -/

section

variable {fs : Frames}

/-- A permitted expression has permitted operands. -/
theorem Expr.permitted_inner {e : Expr} (h : (Node.expr e).Permitted fs) :
    ∀ n ∈ e.inner, n.Permitted fs := by
  obtain ⟨b, h⟩ := h
  cases e with
  -- an error of an operand would be the error of the expression, so a permitted expression has
  -- checked them all
  | binary a op l r =>
    obtain ⟨left, right, hl, hr, -⟩ := Expr.check_binary_ok h
    exact List.forall_mem_cons.mpr ⟨⟨left, hl⟩, List.forall_mem_singleton.mpr ⟨right, hr⟩⟩
  | unary a op e =>
    obtain ⟨operand, he, -⟩ := Expr.check_unary_ok h
    exact List.forall_mem_singleton.mpr ⟨operand, he⟩
  | addressOf a l =>
    obtain ⟨target, hl, -⟩ := Expr.check_addressOf_ok h
    exact List.forall_mem_singleton.mpr ⟨target, hl⟩
  | element a x i =>
    obtain ⟨index, hi, -⟩ := Expr.check_element_ok h
    exact List.forall_mem_singleton.mpr ⟨index, hi⟩
  | named | integer | char | boolean | null => exact fun _ hn => absurd hn List.not_mem_nil

/-- A permitted location has a permitted index. -/
theorem Location.permitted_inner {l : Location} (h : (Node.location l).Permitted fs) :
    ∀ n ∈ l.inner, n.Permitted fs := by
  obtain ⟨b, h⟩ := h
  cases l with
  | element a x i =>
    obtain ⟨index, hi, -⟩ := Location.check_element_ok h
    exact List.forall_mem_singleton.mpr ⟨index, hi⟩
  | named | pointee => exact fun _ hn => absurd hn List.not_mem_nil

/-- A permitted statement has permitted parts, in the frames of the statement. -/
theorem Stmt.permitted_inner {s : Stmt} (h : (Node.stmt s).Permitted fs) :
    ∀ n ∈ s.inner, n.Permitted fs := by
  have h : Static.stmt fs s = .ok () := h
  cases s with
  | assign a l e =>
    obtain ⟨b, h⟩ := stmt_assign_ok h
    obtain ⟨target, value, hl, he, -⟩ := checkAssign_ok h
    exact List.forall_mem_cons.mpr ⟨⟨target, hl⟩, List.forall_mem_singleton.mpr ⟨value, he⟩⟩
  | assignString a l text =>
    obtain ⟨b, h⟩ := stmt_assignString_ok h
    obtain ⟨target, hl, -⟩ := checkAssignString_ok h
    exact List.forall_mem_singleton.mpr ⟨target, hl⟩
  | call a l f es =>
    obtain ⟨b, h⟩ := stmt_call_ok h
    obtain ⟨target, arguments, hl, hes, -⟩ := checkCall_ok h
    refine List.forall_mem_cons.mpr ⟨⟨target, hl⟩, fun n hn => ?_⟩
    obtain ⟨e, he, rfl⟩ := List.mem_map.mp hn
    exact (checkArguments_ok hes).1 e he
  | ifThen a c b =>
    obtain ⟨condition, hc, -, hb⟩ := stmt_ifThen_ok h
    exact List.forall_mem_cons.mpr ⟨⟨condition, hc⟩, List.forall_mem_singleton.mpr hb⟩
  | ifElse a c b b' =>
    obtain ⟨condition, hc, -, hb, hb'⟩ := stmt_ifElse_ok h
    exact List.forall_mem_cons.mpr ⟨⟨condition, hc⟩, List.forall_mem_cons.mpr
      ⟨hb, List.forall_mem_singleton.mpr hb'⟩⟩
  | loop a c b =>
    obtain ⟨condition, hc, -, hb⟩ := stmt_loop_ok h
    exact List.forall_mem_cons.mpr ⟨⟨condition, hc⟩, List.forall_mem_singleton.mpr hb⟩
  | block a b =>
    rw [Static.stmt] at h
    exact List.forall_mem_singleton.mpr h

/-- When the rules permit a node, they permit the nodes inside. -/
theorem Node.permitted_inner {n : Node} (h : n.Permitted fs) :
    ∀ c ∈ n.inner fs, c.2.Permitted c.1 := by
  cases n with
  | program p =>
    obtain ⟨g, hsig, h⟩ := bind_eq_ok_iff.mp h
    obtain ⟨_, hps, -⟩ := bind_eq_ok_iff.mp h
    have hg := signatures_eq_bindAll hsig
    -- the global frame of the rules is the one of `Node.inner`
    rw [List.map_map] at hg
    rw [hg] at hps
    exact List.forall_mem_map.mpr (procedures_eq_ok_iff.mp hps)
  | procedure p =>
    cases p with
    | mk h₀ b =>
      refine List.forall_mem_append.mpr ⟨List.forall_mem_map.mpr fun _ _ => trivial, ?_⟩
      exact List.forall_mem_cons.mpr ⟨trivial, List.forall_mem_singleton.mpr ⟨_, procedure_ok h⟩⟩
  | body b =>
    cases b with
    | mk ps ds ss r a =>
      obtain ⟨result, h⟩ := h
      obtain ⟨hps, hss, hr⟩ := body_ok h
      refine List.forall_mem_append.mpr ⟨List.forall_mem_append.mpr ⟨List.forall_mem_append.mpr
        ⟨List.forall_mem_map.mpr hps, List.forall_mem_map.mpr fun _ _ => trivial⟩,
        List.forall_mem_map.mpr hss⟩, List.forall_mem_singleton.mpr ⟨result, hr⟩⟩
  | block b =>
    cases b with
    | mk ds ss a =>
      obtain ⟨f, hds, hss⟩ := bind_eq_ok_iff.mp h
      obtain rfl := declared_eq_bindAll hds
      exact List.forall_mem_append.mpr ⟨List.forall_mem_map.mpr fun _ _ => trivial,
        List.forall_mem_map.mpr (stmts_eq_ok_iff.mp hss)⟩
  | decl d => exact List.forall_mem_singleton.mpr trivial
  | type t => exact fun _ hc => absurd hc List.not_mem_nil
  | stmt s => exact List.forall_mem_map.mpr (Stmt.permitted_inner h)
  | result r =>
    obtain ⟨b, h⟩ := h
    obtain ⟨value, he, -⟩ := Return.check_ok h
    exact List.forall_mem_singleton.mpr ⟨value, he⟩
  | expr e => exact List.forall_mem_map.mpr (Expr.permitted_inner h)
  | location l => exact List.forall_mem_map.mpr (Location.permitted_inner h)

/-- Annotating an expression annotates its operands, each for itself. -/
theorem Expr.inner_annotated {e : Expr} (h : (Node.expr e).Permitted fs) :
    (e.check fs.find).node.inner = e.inner.map (Node.annotated fs) := by
  obtain ⟨b, h⟩ := h
  cases e with
  | binary a op l r =>
    obtain ⟨_, _, -, -, -, hnode⟩ := Expr.check_binary_ok h
    rw [hnode]
    rfl
  | unary a op e =>
    obtain ⟨_, -, -, hnode⟩ := Expr.check_unary_ok h
    rw [hnode]
    rfl
  | addressOf a l =>
    obtain ⟨_, -, -, hnode⟩ := Expr.check_addressOf_ok h
    rw [hnode]
    rfl
  | element a x i =>
    obtain ⟨_, -, -, hnode⟩ := Expr.check_element_ok h
    rw [hnode]
    rfl
  | named a x =>
    rw [Expr.check] at h ⊢
    rw [(conclude_of_ok h).2]
    rfl
  | integer | char | boolean | null => rfl

/-- Annotating a location annotates its index. -/
theorem Location.inner_annotated {l : Location} (h : (Node.location l).Permitted fs) :
    (l.check fs.find).node.inner = l.inner.map (Node.annotated fs) := by
  obtain ⟨b, h⟩ := h
  cases l with
  | named a x =>
    rw [Location.check] at h ⊢
    rw [(conclude_of_ok h).2]
    rfl
  | pointee a x =>
    rw [Location.check] at h ⊢
    rw [(conclude_of_ok h).2]
    rfl
  | element a x i =>
    obtain ⟨_, -, -, hnode⟩ := Location.check_element_ok h
    rw [hnode]
    rfl

/-- Annotating a statement annotates its parts, each for itself. -/
theorem Stmt.inner_annotated {s : Stmt} (h : (Node.stmt s).Permitted fs) :
    (s.annotated fs).inner = s.inner.map (Node.annotated fs) := by
  have h : Static.stmt fs s = .ok () := h
  cases s with
  | assign a l e =>
    obtain ⟨b, h⟩ := stmt_assign_ok h
    obtain ⟨_, _, -, -, -, hnode⟩ := checkAssign_ok h
    rw [Stmt.annotated, hnode]
    rfl
  | assignString a l text =>
    obtain ⟨b, h⟩ := stmt_assignString_ok h
    obtain ⟨_, -, -, hnode⟩ := checkAssignString_ok h
    rw [Stmt.annotated, hnode]
    rfl
  | call a l f es =>
    obtain ⟨b, h⟩ := stmt_call_ok h
    obtain ⟨_, _, -, hes, -, hnode⟩ := checkCall_ok h
    rw [Stmt.annotated, hnode, Stmt.inner, (checkArguments_ok hes).2, Stmt.inner, List.map_cons,
      List.map_map, List.map_map]
    rfl
  | ifThen | ifElse | loop | block => rfl

/-! Annotations do not touch what is declared. -/

/-- Annotations leave the declared names and their basetypes. -/
theorem entriesOf_annotate (ds : List Decl) : entriesOf (ds.map Decl.annotate) = entriesOf ds := by
  unfold entriesOf
  rw [List.flatMap_map]
  rfl

/-- Annotations leave what a procedure is in the frame that holds it. -/
theorem Procedure.entry_annotated (p : Procedure) :
    (p.annotated fs).header.entry = p.header.entry := by
  cases p with
  | mk h b =>
    have hparameters : (h.declared.mark .procedure).parameterTypes = h.parameterTypes :=
      parameterTypes_annotate h h.returnType.annotate
    show (h.name, Entity.procedure (h.declared.mark .procedure).parameterTypes _) = _
    rw [hparameters]
    rfl

/-- Procedures in a row, annotated, have the entries that they had. -/
theorem entries_annotatedProcedures (ps : List Procedure) :
    ((annotatedProcedures fs ps).map fun p => p.header.entry) = ps.map fun p => p.header.entry := by
  rw [annotatedProcedures_eq_map, List.map_map]
  exact List.map_congr_left fun p _ => p.entry_annotated

/-- Statements in a row are annotated one by one. -/
theorem annotatedStmts_eq_map (ss : List Stmt) :
    annotatedStmts fs ss = ss.map (Stmt.annotated fs) := by
  induction ss with
  | nil => rfl
  | cons s ss ih => rw [annotatedStmts, ih, List.map_cons]

/-- The nodes inside of an annotated node are the annotated ones, in the same frames. -/
theorem Node.inner_annotated {n : Node} (h : n.Permitted fs) :
    (n.annotated fs).inner fs = (n.inner fs).map fun c => (c.1, c.2.annotated c.1) := by
  cases n with
  | program p =>
    rw [annotated, Program.annotated, inner, inner, entries_annotatedProcedures,
      annotatedProcedures_eq_map, List.map_map, List.map_map]
    rfl
  | procedure p =>
    cases p with
    | mk h₀ b =>
      simp only [annotated, Procedure.annotated, inner, Header.declared, Header.mark,
        entriesOf_annotate, List.map_append, List.map_map, List.map_cons, List.map_nil]
      rfl
  | body b =>
    cases b with
    | mk ps ds ss r a =>
      rw [annotated, Body.annotated, inner, inner, entries_annotatedProcedures,
        entriesOf_annotate, annotatedStmts_eq_map, annotatedProcedures_eq_map]
      simp only [List.map_append, List.map_map, List.map_cons, List.map_nil]
      rfl
  | block b =>
    cases b with
    | mk ds ss a =>
      simp only [annotated, Block.annotated, inner, entriesOf_annotate, annotatedStmts_eq_map,
        List.map_append, List.map_map]
      rfl
  | decl d => rfl
  | type t => rfl
  | stmt s =>
    simp only [annotated, inner, Stmt.inner_annotated h, List.map_map]
    rfl
  | result r =>
    obtain ⟨b, h⟩ := h
    obtain ⟨_, -, -, hnode⟩ := Return.check_ok h
    simp only [annotated, inner, hnode]
    rfl
  | expr e =>
    simp only [annotated, inner, Expr.inner_annotated h, List.map_map]
    rfl
  | location l =>
    simp only [annotated, inner, Location.inner_annotated h, List.map_map]
    rfl

end

/-! ## Declared types -/

/-- A basetype that a program can declare. -/
def Basetype.IsDeclared (b : Basetype) : Prop := ∃ d : DeclaredType, d.basetype = b

/-- A variable has a declared type, and a procedure has declared types for its parameters and for
    what it returns. -/
def Entity.Declared : Entity → Prop
  | .value t => t.IsDeclared
  | .procedure ps r => (∀ b ∈ ps, b.IsDeclared) ∧ r.IsDeclared

/-- The basetype of a type in the text can be declared. -/
theorem TypeMark.isDeclared (t : TypeMark) : t.basetype.IsDeclared := ⟨t.declared, rfl⟩

namespace Static

/-- The names of the frame stand for what can be declared. -/
def Frame.Declared (f : Frame) : Prop := ∀ x e, f x = some e → e.Declared

/-- The names of the frames stand for what can be declared. -/
def Frames.Declared (fs : Frames) : Prop := ∀ f ∈ fs, f.Declared

/-- An empty frame binds nothing, in particular nothing that cannot be declared. -/
theorem Frame.declared_empty : Frame.empty.Declared := fun _ _ h => by cases h

/-- Binding names to declared entities keeps a frame declared. -/
theorem Frame.Declared.bindAll {f : Frame} (hf : f.Declared) {names : List (String × Entity)}
    (hnames : ∀ b ∈ names, b.2.Declared) : (f.bindAll names).Declared := by
  induction names generalizing f with
  | nil => exact hf
  | cons b names ih =>
    obtain ⟨hb, hnames⟩ := List.forall_mem_cons.mp hnames
    refine ih (fun x e he => ?_) hnames
    have he : f.bind b.1 b.2 x = some e := he
    rw [Frame.bind] at he
    -- the name that was bound last, or one of the frame as it was
    split at he
    · obtain rfl := Option.some.inj he
      exact hb
    · exact hf x e he

/-- Binding in the innermost frame keeps all frames declared. -/
theorem Frames.Declared.bindAll {fs : Frames} (hfs : fs.Declared) {names : List (String × Entity)}
    (hnames : ∀ b ∈ names, b.2.Declared) : (fs.bindAll names).Declared := by
  cases fs with
  | nil => exact List.forall_mem_singleton.mpr (Frame.declared_empty.bindAll hnames)
  | cons f fs =>
    obtain ⟨hf, hfs⟩ := List.forall_mem_cons.mp hfs
    exact List.forall_mem_cons.mpr ⟨hf.bindAll hnames, hfs⟩

/-- A new frame of declared entities may be put in front. -/
theorem Frames.Declared.cons {fs : Frames} (hfs : fs.Declared) {names : List (String × Entity)}
    (hnames : ∀ b ∈ names, b.2.Declared) :
    Frames.Declared (Frame.empty.bindAll names :: fs) :=
  List.forall_mem_cons.mpr ⟨Frame.declared_empty.bindAll hnames, hfs⟩

/-- What a name is found to stand for comes from one of the frames. -/
theorem Frames.Declared.find {fs : Frames} (hfs : fs.Declared) {x : String} {e : Entity}
    (h : fs.find x = some e) : e.Declared := by
  obtain ⟨f, hf, hx⟩ := List.exists_of_findSome?_eq_some h
  exact hfs f hf x e hx

end Static

/-- Variables stand for basetypes that can be declared. -/
theorem declared_entriesOf (ds : List Decl) : ∀ b ∈ entriesOf ds, b.2.Declared := by
  intro b hb
  obtain ⟨d, -, hb⟩ := List.mem_flatMap.mp hb
  obtain ⟨x, -, rfl⟩ := List.mem_map.mp hb
  exact d.type.isDeclared

/-- Parameters have basetypes that can be declared. -/
theorem Header.declared_parameterTypes (h : Header) : ∀ b ∈ h.parameterTypes, b.IsDeclared := by
  intro b hb
  obtain ⟨d, -, hb⟩ := List.mem_flatMap.mp hb
  obtain ⟨x, -, rfl⟩ := List.mem_map.mp hb
  exact d.type.isDeclared

/-- Procedures stand for basetypes that can be declared, for their parameters and their result. -/
theorem declared_entries (ps : List Procedure) :
    ∀ b ∈ ps.map (fun p => p.header.entry), b.2.Declared :=
  List.forall_mem_map.mpr fun p _ =>
    ⟨p.header.declared_parameterTypes, p.header.returnType.isDeclared⟩

/-- The frames of the nodes inside bind declared types only, when those around do. -/
theorem Node.declared_inner {fs : Frames} (hfs : fs.Declared) (n : Node) :
    ∀ c ∈ n.inner fs, c.1.Declared := by
  cases n with
  | program p =>
    refine List.forall_mem_map.mpr fun _ _ => ?_
    exact List.forall_mem_singleton.mpr (Frame.declared_empty.bindAll (declared_entries _))
  | procedure p =>
    cases p with
    | mk h b =>
      refine List.forall_mem_append.mpr ⟨List.forall_mem_map.mpr fun _ _ => hfs, ?_⟩
      exact List.forall_mem_cons.mpr
        ⟨hfs, List.forall_mem_singleton.mpr (hfs.cons (declared_entriesOf _))⟩
  | body b =>
    cases b with
    | mk ps ds ss r a =>
      have houter := hfs.bindAll (declared_entries ps)
      have hinner := houter.bindAll (declared_entriesOf ds)
      refine List.forall_mem_append.mpr ⟨List.forall_mem_append.mpr ⟨List.forall_mem_append.mpr
        ⟨List.forall_mem_map.mpr fun _ _ => houter, List.forall_mem_map.mpr fun _ _ => hinner⟩,
        List.forall_mem_map.mpr fun _ _ => hinner⟩, List.forall_mem_singleton.mpr hinner⟩
  | block b =>
    cases b with
    | mk ds ss a =>
      have hinner := hfs.cons (declared_entriesOf ds)
      exact List.forall_mem_append.mpr ⟨List.forall_mem_map.mpr fun _ _ => hinner,
        List.forall_mem_map.mpr fun _ _ => hinner⟩
  | decl d => exact List.forall_mem_singleton.mpr hfs
  | type t => exact fun _ hc => absurd hc List.not_mem_nil
  | stmt s => exact List.forall_mem_map.mpr fun _ _ => hfs
  | result r => exact List.forall_mem_singleton.mpr hfs
  | expr e => exact List.forall_mem_map.mpr fun _ _ => hfs
  | location l => exact List.forall_mem_map.mpr fun _ _ => hfs

/-! ## Every step down -/

namespace Node

/-- What passes from a node to those inside holds at every address. -/
theorem holds_at? {P : Frames → Node → Prop}
    (hstep : ∀ {fs n}, P fs n → ∀ c ∈ n.inner fs, P c.1 c.2) {fs : Frames} {n : Node} (h : P fs n)
    (a : List Nat) {c : Frames × Node} (hc : n.at? fs a = some c) : P c.1 c.2 := by
  induction a generalizing fs n with
  | nil =>
    obtain rfl := Option.some.inj hc
    exact h
  | cons i a ih =>
    obtain ⟨c', hi, hc⟩ := Option.bind_eq_some_iff.mp hc
    exact ih (hstep h c' (List.mem_of_getElem? hi)) hc

/-- At every address of an annotated node stands the annotated node. -/
theorem at?_annotated {fs : Frames} {n : Node} (h : n.Permitted fs) (a : List Nat) :
    (n.annotated fs).at? fs a = (n.at? fs a).map fun c => (c.1, c.2.annotated c.1) := by
  induction a generalizing fs n with
  | nil => rfl
  | cons i a ih =>
    rw [at?, at?, inner_annotated h, List.getElem?_map]
    cases hi : (n.inner fs)[i]? with
    | none => rfl
    | some c => exact ih (permitted_inner h c (List.mem_of_getElem? hi))

end Node

/-- The nodes of a program, with their frames. -/
def Program.at? (p : Program) (a : List Nat) : Option (Frames × Node) := (Node.program p).at? [] a

/-- **Nodes.**  At every address of an accepted program, the check leaves the annotated node of the
    node that was there.  The static rules permit that node, in frames that bind declared types
    only. -/
theorem Program.at?_typeCheck {p : Program} (hok : p.typeCheck.result = .ok ()) (a : List Nat) :
    p.typeCheck.node.at? a = (p.at? a).map (fun c => (c.1, c.2.annotated c.1)) ∧
    ∀ fs n, p.at? a = some (fs, n) → n.Permitted fs ∧ fs.Declared := by
  have hpermitted : (Node.program p).Permitted [] := (typeCheck_result_eq_program p).symm.trans hok
  have hdeclared : Frames.Declared [] := fun _ hf => absurd hf List.not_mem_nil
  -- each part holds of the program and goes one step down, so it holds at every address
  rw [Program.typeCheck_node hok]
  refine ⟨Node.at?_annotated hpermitted a, fun fs n hn => ⟨?_, ?_⟩⟩
  · exact Node.holds_at? (P := fun fs n => n.Permitted fs) Node.permitted_inner hpermitted a hn
  · exact Node.holds_at? (P := fun fs _ => fs.Declared) (fun hfs => Node.declared_inner hfs _)
      hdeclared a hn

end ProcLang
