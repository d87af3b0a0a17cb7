/-
  The annotated tree of an accepted program, without a symbol table.

  `Program.annotated` puts the basetypes into a tree by recursion on the tree alone: expressions
  are visited in frames, and the frame of a scope has the names that its construct declares.  A
  check that succeeds hands back that tree (`Program.typeCheck_node`), so what it writes into a
  node depends on the tree and on the frames around the node, and on nothing else: neither on the
  numbers of the scopes nor on what was checked before.
-/
import ProcLang.Proofs.Typing.Declared

namespace ProcLang

open Static Table

variable {α β γ δ : Type}

/-! ## Frames with the names of declarations -/

namespace Static

variable {f g : Frame}

/-- The frame with more names, bound one after the other. -/
def Frame.bindAll (f : Frame) (names : List (String × Entity)) : Frame :=
  names.foldl (fun f b => f.bind b.1 b.2) f

/-- Names can be bound in two parts. -/
theorem Frame.bindAll_append (f : Frame) (ns ns' : List (String × Entity)) :
    f.bindAll (ns ++ ns') = (f.bindAll ns).bindAll ns' := List.foldl_append

/-- A name is added to a frame that does not have it. -/
theorem add_eq_ok_iff {x : String} {e : Entity} {taken : SemanticError} :
    f.add x e taken = .ok g ↔ f x = none ∧ g = f.bind x e := by
  unfold Frame.add
  cases f x with
  | none =>
    constructor
    · intro h
      exact ⟨rfl, (Except.ok.inj h).symm⟩
    · rintro ⟨-, rfl⟩
      rfl
  | some _ =>
    constructor
    · intro h
      cases h
    · rintro ⟨h, -⟩
      cases h

/-- A sequence succeeds when its parts do. -/
theorem bind_eq_ok_iff {x : Except SemanticError α} {k : α → Except SemanticError β} {b : β} :
    (x >>= k) = .ok b ↔ ∃ a, x = .ok a ∧ k a = .ok b := by
  cases x with
  | ok a =>
    constructor
    · intro h
      exact ⟨a, rfl, h⟩
    · rintro ⟨a', ha, h⟩
      obtain rfl := Except.ok.inj ha
      exact h
  | error e =>
    constructor
    · intro h
      cases h
    · rintro ⟨_, h, -⟩
      cases h

/-- Variables that are added without a clash are bound. -/
theorem addVariables_eq_bindAll {line : Nat} {type : Basetype} {xs : List String}
    (h : addVariables line type f xs = .ok g) :
    g = f.bindAll (xs.map fun x => (x, .value type)) := by
  induction xs generalizing f with
  | nil => exact (Except.ok.inj h).symm
  | cons x xs ih =>
    obtain ⟨f₁, hadd, hrest⟩ := bind_eq_ok_iff.mp h
    obtain ⟨-, rfl⟩ := add_eq_ok_iff.mp hadd
    exact ih hrest

/-- The frame behind declarations has their names, all of them. -/
theorem declared_eq_bindAll {ds : List Decl} (h : declared f ds = .ok g) :
    g = f.bindAll (entriesOf ds) := by
  induction ds generalizing f with
  | nil => exact (Except.ok.inj h).symm
  | cons d ds ih =>
    obtain ⟨f₁, hadd, hrest⟩ := bind_eq_ok_iff.mp h
    obtain rfl := addVariables_eq_bindAll hadd
    rw [entriesOf, List.flatMap_cons, Frame.bindAll_append]
    exact ih hrest

/-- A signature can be bound when the parameters can, and the name is free. -/
theorem signature_eq_ok_iff {h : Header} :
    signature f h = .ok g ↔
      (∃ ps, parameters h = .ok ps) ∧ f h.name = none ∧ g = f.bind h.name h.entry.2 := by
  constructor
  · intro hsig
    obtain ⟨ps, hps, hadd⟩ := bind_eq_ok_iff.mp hsig
    exact ⟨⟨ps, hps⟩, add_eq_ok_iff.mp hadd⟩
  · rintro ⟨⟨ps, hps⟩, hadd⟩
    unfold signature
    rw [hps]
    exact add_eq_ok_iff.mpr hadd

/-- The frame behind headers has the procedures with their signatures. -/
theorem signatures_eq_bindAll {hs : List Header} (h : signatures f hs = .ok g) :
    g = f.bindAll (hs.map Header.entry) := by
  induction hs generalizing f with
  | nil => exact (Except.ok.inj h).symm
  | cons h₀ hs ih =>
    obtain ⟨f₁, hsig, hrest⟩ := bind_eq_ok_iff.mp h
    obtain ⟨-, -, rfl⟩ := signature_eq_ok_iff.mp hsig
    exact ih hrest

end Static

/-! ## Annotated trees -/

mutual

/-- A statement with its basetypes, where names stand for what `fs` says. -/
def Stmt.annotated (fs : Frames) : Stmt → Stmt
  | .assign a l e => (checkAssign fs.find a l e).node
  | .assignString a l text => (checkAssignString fs.find a l text).node
  | .call a l f es => (checkCall fs.find a l f es).node
  | .ifThen a c b => .ifThen a (c.check fs.find).node (b.annotated fs)
  | .ifElse a c b b' => .ifElse a (c.check fs.find).node (b.annotated fs) (b'.annotated fs)
  | .loop a c b => .loop a (c.check fs.find).node (b.annotated fs)
  | .block a b => .block a (b.annotated fs)

/-- A nested block: the frame of its declarations lies in front. -/
def Block.annotated (fs : Frames) : Block → Block
  | .mk ds ss a =>
    .mk (ds.map Decl.annotate) (annotatedStmts (Frame.empty.bindAll (entriesOf ds) :: fs) ss) a

/-- Statements, annotated in the frames around them. -/
def annotatedStmts (fs : Frames) : List Stmt → List Stmt
  | [] => []
  | s :: ss => s.annotated fs :: annotatedStmts fs ss

end

/-- A header as its declaration leaves it. -/
def Header.declared (h : Header) : Header :=
  { h with parameters := h.parameters.map Decl.annotate, returnType := h.returnType.annotate }

mutual

/-- A procedure with its basetypes. -/
def Procedure.annotated (fs : Frames) : Procedure → Procedure
  | .mk h b =>
    .mk (h.declared.mark .procedure) (b.annotated fs (Frame.empty.bindAll (entriesOf h.parameters)))

/-- A body in the frame `f` of the parameters: nested procedures see one another and the
    parameters, the statements and the return see the local variables too. -/
def Body.annotated (fs : Frames) (f : Frame) : Body → Body
  | .mk ps ds ss r a =>
    let outer := f.bindAll (ps.map fun p => p.header.entry)
    let inner := outer.bindAll (entriesOf ds)
    let result := (r.check (Frames.find (inner :: fs))).node
    .mk (annotatedProcedures (outer :: fs) ps) (ds.map Decl.annotate)
      (annotatedStmts (inner :: fs) ss) result (a.mark result.attr.basetype)

/-- Procedures, annotated in the frames that all of them share. -/
def annotatedProcedures (fs : Frames) : List Procedure → List Procedure
  | [] => []
  | p :: ps => p.annotated fs :: annotatedProcedures fs ps

end

/-- A program with its basetypes. -/
def Program.annotated (p : Program) : Program where
  procedures :=
    annotatedProcedures [Frame.empty.bindAll (p.procedures.map fun p => p.header.entry)]
      p.procedures
  attr := p.attr

/-! ## Statements -/

open Visit Found

/-- A visit that agrees with the reference succeeds only where the reference does. -/
theorem Visit.Agrees.ends {v : Visit α β} {r : Except SemanticError γ}
    {Q : α → Table → β → γ → Prop} (h : v.Agrees r Q) :
    v.Ends fun x t b => ∃ c, r = .ok c ∧ Q x t b c := by
  intro b hb
  unfold Agrees at h
  rw [hb] at h
  cases r with
  | ok c => exact ⟨c, rfl, h⟩
  | error e => exact h.elim

/-- A verdict that holds puts its basetype into the node. -/
theorem ends_conclude {a : Attribute} {verdict : Except Violation Basetype}
    {build : Attribute → α} {t : Table} {Q : α → Table → Basetype → Prop}
    (h : ∀ b, verdict = .ok b → Q (build (a.mark b)) t b) :
    ((conclude a verdict build).within t).Ends Q := by
  intro b hb
  cases verdict with
  | ok b' =>
    obtain rfl := Except.ok.inj hb
    exact h b' rfl
  | error v => cases hb

/-- A condition is handed back as it is visited in the frames, and leaves the table. -/
theorem ends_condition (t : Table) (c : Expr) :
    ((c.check t.env).within t).Ends fun c' t' _ => c' = (c.check t.frames.find).node ∧ t' = t := by
  intro _ _
  rw [env_eq_find]
  exact ⟨rfl, rfl⟩

/-- Declarations mark themselves with their types, and bind their names in the current scope. -/
theorem node_checkDecls {t : Table} (ht : t.Valid) (ds : List Decl) :
    (checkDecls t ds).Ends fun ds' t' _ => ds' = ds.map Decl.annotate ∧
      t.LeadsTo (· = t.current) t' ∧
      t'.frame t.current = (t.frame t.current).bindAll (entriesOf ds) := by
  intro b hb
  obtain ⟨f, hdeclared, hnode, hl, rfl⟩ := (agrees_checkDecls ht ds).ends b hb
  exact ⟨hnode, hl, declared_eq_bindAll hdeclared⟩

mutual

/-- A statement that is accepted is annotated as its frames say. -/
theorem Stmt.node_check {t : Table} (ht : t.Valid) (s : Stmt) :
    (s.check t).Ends fun s' t' _ => s' = s.annotated t.frames ∧ t.LeadsTo nowhere t' := by
  refine Ends.and ?_ fun b hb => ?_
  · cases s with
    | assign a l e =>
      rw [Stmt.check, env_eq_find]
      exact fun _ _ => rfl
    | assignString a l text =>
      rw [Stmt.check, env_eq_find]
      exact fun _ _ => rfl
    | call a l f es =>
      rw [Stmt.check, env_eq_find]
      exact fun _ _ => rfl
    | ifThen a c b =>
      rw [Stmt.check]
      refine (ends_condition t c).andThen ?_
      rintro _ _ condition ⟨rfl, rfl⟩
      refine (Block.node_check ht b).andThen ?_
      rintro _ t₁ - ⟨rfl, -⟩
      exact ends_mk fun _ _ => rfl
    | ifElse a c b₁ b₂ =>
      rw [Stmt.check]
      refine (ends_condition t c).andThen ?_
      rintro _ _ condition ⟨rfl, rfl⟩
      refine (Block.node_check ht b₁).andThen ?_
      rintro _ t₁ - ⟨rfl, hl₁⟩
      refine (Block.node_check hl₁.valid b₂).andThen ?_
      rintro _ t₂ - ⟨rfl, -⟩
      -- the first branch has left the frames as they were
      rw [hl₁.frames_eq ht fun _ _ => not_false]
      exact ends_mk fun _ _ => rfl
    | loop a c b =>
      rw [Stmt.check]
      refine (ends_condition t c).andThen ?_
      rintro _ _ condition ⟨rfl, rfl⟩
      refine (Block.node_check ht b).andThen ?_
      rintro _ t₁ - ⟨rfl, -⟩
      exact ends_mk fun _ _ => rfl
    | block a b =>
      rw [Stmt.check]
      refine (Block.node_check ht b).mapNode ?_
      rintro _ t₁ - ⟨rfl, -⟩
      rfl
  · obtain ⟨_, -, hl⟩ := (Stmt.agrees_check ht s).ends b hb
    exact hl

/-- A block that is accepted is annotated as its frames say. -/
theorem Block.node_check {t : Table} (ht : t.Valid) (b : Block) :
    (b.check t).Ends fun b' t' _ => b' = b.annotated t.frames ∧ t.LeadsTo nowhere t' := by
  refine Ends.and ?_ fun u hu => ?_
  · cases b with
    | mk ds ss a =>
      rw [Block.check]
      refine (node_checkDecls ht.openScope ds).andThen ?_
      rintro _ t₁ - ⟨rfl, hl, hframe⟩
      rw [current_openScope, frame_openScope_size] at hframe
      have hfs : t₁.frames = Frame.empty.bindAll (entriesOf ds) :: t.frames := by
        rw [hl.frames_eq_cons ht.openScope, ht.frames_openScope, List.tail_cons,
          current_openScope, hframe]
      refine (node_checkStmts hl.valid ss).andThen ?_
      rintro _ t₂ - ⟨rfl, -⟩
      rw [hfs]
      exact ends_mk fun _ _ => rfl
  · obtain ⟨_, -, hl⟩ := (Block.agrees_check ht b).ends u hu
    exact hl

/-- Statements that are accepted are annotated as their frames say. -/
theorem node_checkStmts {t : Table} (ht : t.Valid) (ss : List Stmt) :
    (checkStmts t ss).Ends fun ss' t' _ =>
      ss' = annotatedStmts t.frames ss ∧ t.LeadsTo nowhere t' := by
  refine Ends.and ?_ fun b hb => ?_
  · cases ss with
    | nil => exact ends_mk fun _ _ => rfl
    | cons s ss =>
      rw [checkStmts]
      refine (Stmt.node_check ht s).andThen ?_
      rintro _ t₁ - ⟨rfl, hl₁⟩
      refine (node_checkStmts hl₁.valid ss).mapNode ?_
      rintro _ t₂ - ⟨rfl, -⟩
      rw [hl₁.frames_eq ht fun _ _ => not_false]
      rfl
  · obtain ⟨_, -, hl⟩ := (agrees_checkStmts ht ss).ends b hb
    exact hl

end

/-! ## Headers -/

/-- A header that is declared has its marks from its types alone. -/
theorem Header.node_declare {t : Table} (ht : t.Valid) (h : Header) :
    (h.declare t).Ends fun h' t' _ => h' = h.declared ∧ t'.Valid := by
  refine Ends.and ?_ fun b hb => ?_
  · unfold Header.declare
    refine (node_checkDecls ht.openScope h.parameters).andThen ?_
    rintro _ t₁ - ⟨rfl, -, -⟩
    dsimp only
    split
    · exact ends_mk fun _ _ => rfl
    · exact ends_mk fun _ _ => rfl
  · obtain ⟨_, -, hl, -⟩ := (Header.agrees_declare ht h).ends b hb
    exact hl.valid

/-- Headers in a row come out as declared ones, each beside the scope that was opened for it. -/
theorem node_declareAll {t : Table} (ht : t.Valid) (hs : List Header) :
    (declareAll t hs).Ends fun hs' _ ids =>
      (hs'.zip ids).map Prod.fst = hs.map Header.declared := by
  induction hs generalizing t with
  | nil => exact ends_mk fun _ _ => rfl
  | cons h hs ih =>
    refine (Header.node_declare ht h).andThen ?_
    rintro _ t₁ id ⟨rfl, ht₁⟩
    refine (ih ht₁).andThen ?_
    intro hs' t₂ ids hzip
    refine ends_mk fun ids' hids => ?_
    obtain rfl := Except.ok.inj hids
    rw [List.zip_cons_cons, List.map_cons, List.map_cons, hzip]

/-! ## Bodies -/

/-- Procedures are annotated as their frames say when their bodies are: all bodies see all
    headers. -/
theorem node_declareThen {t : Table} (ht : t.Valid) (ps : List Procedure)
    (hbodies : ∀ {t' : Table} {ws : List (Header × Nat)}, t'.Valid →
      AllWaiting t' (ps.map Procedure.header) ws →
      ws.map Prod.fst = (ps.map Procedure.header).map Header.declared →
      (checkBodies t' ws ps).Ends fun ps' _ _ => ps' = annotatedProcedures t'.frames ps) :
    (declareThen t ps fun t hs => checkBodies t hs ps).Ends fun ps' _ _ =>
      ps' = annotatedProcedures
        ((t.frame t.current).bindAll (ps.map fun p => p.header.entry) :: t.frames.tail) ps := by
  have hdeclared := (node_declareAll ht (ps.map Procedure.header)).and
    (agrees_declareAll ht (ps.map Procedure.header)).ends
  refine hdeclared.andThen ?_
  rintro hs t₁ ids ⟨hzip, f, hsig, hl, rfl, hws, -⟩
  have hframe := signatures_eq_bindAll hsig
  rw [List.map_map] at hframe
  have hfs := hl.frames_eq_cons ht
  rw [hframe] at hfs
  have hends := hbodies hl.valid hws hzip
  rw [hfs] at hends
  exact hends

/-- A return that succeeds has the basetype that was found in it. -/
theorem Return.basetype_node_check {env : Env} {r : Return} {b : Basetype}
    (h : (r.check env).result = .ok b) : (r.check env).node.attr.basetype = b := by
  unfold Return.check Found.andThen at h ⊢
  split at h
  · rename_i value _
    dsimp only at h ⊢
    cases hv : Rule.returned value with
    | ok b' =>
      rw [hv] at h
      obtain rfl := Except.ok.inj h
      rfl
    | error v =>
      rw [hv] at h
      cases h
  · cases h

/-- A return is handed back as it is visited in the frames. -/
theorem ends_return (t : Table) (r : Return) :
    ((r.check t.env).within t).Ends fun r' _ b =>
      r' = (r.check t.frames.find).node ∧ r'.attr.basetype = b := by
  intro b hb
  have hbasetype := Return.basetype_node_check hb
  rw [env_eq_find] at hbasetype ⊢
  exact ⟨rfl, hbasetype⟩

mutual

/-- A body that is accepted is annotated as its frames say. -/
theorem Body.node_check {t : Table} (ht : t.Valid) (b : Body) :
    (b.check t).Ends fun b' _ _ => b' = b.annotated t.frames.tail (t.frame t.current) := by
  cases b with
  | mk ps ds ss r a =>
    have hps := node_declareThen ht ps fun ht' hws hhs => node_checkBodies ht' ps hws hhs
    have hagrees := (agrees_declareThen ht ps fun ht' hws => agrees_checkBodies ht' ps hws).ends
    rw [Body.check]
    refine (hps.and hagrees).andThen ?_
    rintro _ t₁ - ⟨rfl, f, hf, hl₁, rfl⟩
    -- behind the procedures the current frame has their names, and then those of the variables
    obtain ⟨g, hsig, hrest⟩ := bind_eq_ok_iff.mp hf
    obtain ⟨_, -, hg⟩ := bind_eq_ok_iff.mp hrest
    obtain rfl := Except.ok.inj hg
    have houter := signatures_eq_bindAll hsig
    rw [List.map_map] at houter
    refine (node_checkDecls hl₁.valid ds).andThen ?_
    rintro _ t₂ - ⟨rfl, hl₂, hframe⟩
    rw [hl₁.current_eq] at hl₂ hframe
    have hl := hl₁.trans hl₂
    rw [houter] at hframe
    have hfs := hl.frames_eq_cons ht
    rw [hframe] at hfs
    refine (node_checkStmts hl.valid ss).andThen ?_
    rintro _ t₃ - ⟨rfl, hl₃⟩
    rw [hfs]
    have hfs₃ := hl₃.frames_eq hl.valid fun _ _ => not_false
    refine (ends_return t₃ r).andThen ?_
    rintro _ t₄ b ⟨rfl, hb⟩
    refine ends_mk fun _ _ => ?_
    rw [hfs₃, hfs] at hb ⊢
    rw [← hb]
    rfl

/-- A procedure that waits in its scope comes out as the frames say. -/
theorem Procedure.node_checkBody {t : Table} (ht : t.Valid) (p : Procedure) {id : Nat}
    (hw : Waiting t p.header p.header.declared id) :
    (p.checkBody t p.header.declared id).Ends fun p' _ _ => p' = p.annotated t.frames := by
  cases p with
  | mk h b =>
    have hr : t.reenter? id = some { t with path := id :: t.path } :=
      reenter?_eq_some_iff.mpr ⟨hw.parent?_eq, rfl⟩
    have hparameters : t.frame id = Frame.empty.bindAll (entriesOf h.parameters) :=
      declared_eq_bindAll hw.frame_eq
    rw [Procedure.checkBody, hr]
    refine (Body.node_check (ht.reenter hr) b).andThen ?_
    rintro _ t₁ result rfl
    refine Ends.forget (ends_conclude fun b' hb' => ?_) fun _ _ _ hq => hq
    have hb' : b' = .procedure := by
      unfold Rule.procedure at hb'
      split at hb'
      · exact (Except.ok.inj hb').symm
      · cases hb'
    rw [hb', Procedure.annotated, ← hparameters]
    rfl

/-- Procedures that wait, one after the other, come out as the frames say. -/
theorem node_checkBodies {t : Table} (ht : t.Valid) (ps : List Procedure)
    {ws : List (Header × Nat)} (hws : AllWaiting t (ps.map Procedure.header) ws)
    (hhs : ws.map Prod.fst = (ps.map Procedure.header).map Header.declared) :
    (checkBodies t ws ps).Ends fun ps' _ _ => ps' = annotatedProcedures t.frames ps := by
  cases ps with
  | nil => exact ends_mk fun _ _ => rfl
  | cons p ps =>
    cases hws with
    | @cons _ h id _ ws hw hnew hws =>
      obtain ⟨rfl, hrest⟩ := List.cons.inj hhs
      rw [checkBodies]
      have hagrees := (Procedure.agrees_checkBody ht p hw).ends
      refine ((Procedure.node_checkBody ht p hw).and hagrees).andThen ?_
      rintro _ t₁ - ⟨rfl, _, -, hl⟩
      have hopen : ∀ k ∈ t.path, k ≠ id := by
        intro k hk
        have hle := ht.le_current_of_mem hk
        have hlt := ht.parent?_lt hw.parent?_eq
        omega
      have hws := hws.of_leadsTo hl fun k hk he => hnew (he ▸ hk)
      refine (node_checkBodies hl.valid ps hws hrest).mapNode ?_
      rintro _ t₂ - rfl
      rw [hl.frames_eq ht hopen]
      rfl

end

/-! ## Programs -/

/-- The tree that the check of an accepted program hands back is the annotated one. -/
theorem Program.typeCheck_node {p : Program} (hok : p.typeCheck.result = .ok ()) :
    p.typeCheck.node = p.annotated := by
  have hps := node_declareThen valid_initial p.procedures fun ht' hws hhs =>
    node_checkBodies ht' p.procedures hws hhs
  have hcheck : p.typeCheck.Ends fun p' _ _ => p' = p.annotated := by
    unfold Program.typeCheck Program.check checkProcedures
    refine hps.andThen ?_
    rintro _ t - rfl
    exact ends_mk fun _ _ => rfl
  exact hcheck () hok

end ProcLang
