/-
  The table of an accepted program holds what the program declares.

  `Program.outline` is the declaration structure of a program, read off the tree: a scope for the
  whole, for each procedure and for each nested block, with the names that are declared there.

  A check builds it bit by bit.  `t.Builds names os ids t'`: on the way from `t` to `t'` the
  current scope got the `names` and new scopes `ids` came into it, which hold the outlines `os`;
  nothing else has changed.  Steps compose (`Builds.trans`), and what is built in a new scope is
  one outline more in the scope around (`Builds.closeScope`).

  Procedures that stand side by side come in two steps.  Their headers build scopes that hold
  their parameters and nothing inside; the bodies fill these scopes, one by one
  (`Table.Fills`).  Scopes that are filled already are left alone, since they are not those that
  the later bodies are given.

  The main statement is `typeCheck_declared`.
-/
import ProcLang.Proofs.Scope.Outline
import ProcLang.Proofs.Typing.Agreement
import ProcLang.Proofs.Typing.Footprint
import ProcLang.Proofs.Typing.Idempotent

namespace ProcLang

/-! ## The declaration structure of a tree -/

/-- The variables of a declaration. -/
def Decl.entries (d : Decl) : List (String × Entity) :=
  d.names.map fun x => (x, .value d.type.basetype)

/-- The variables of declarations. -/
def entriesOf (ds : List Decl) : List (String × Entity) := ds.flatMap Decl.entries

/-- The name of a procedure, with its signature. -/
def Header.entry (h : Header) : String × Entity :=
  (h.name, .procedure h.parameterTypes h.returnType.basetype)

mutual

/-- The scopes of a statement: those of its blocks. -/
def Stmt.outlines : Stmt → List Outline
  | .assign _ _ _ => []
  | .assignString _ _ _ => []
  | .call _ _ _ _ => []
  | .ifThen _ _ b => [b.outline]
  | .ifElse _ _ b b' => [b.outline, b'.outline]
  | .loop _ _ b => [b.outline]
  | .block _ b => [b.outline]

/-- The scope of a nested block. -/
def Block.outline : Block → Outline
  | .mk ds ss _ => .mk (entriesOf ds) (outlinesOf ss)

/-- The scopes of statements. -/
def outlinesOf : List Stmt → List Outline
  | [] => []
  | s :: ss => s.outlines ++ outlinesOf ss

end

/-- The names that a body declares in the scope of its procedure. -/
def Body.entries (b : Body) : List (String × Entity) :=
  b.procedures.map (fun p => p.header.entry) ++ entriesOf b.decls

mutual

/-- The scope of a procedure, which begins with its parameters. -/
def Procedure.outline : Procedure → Outline
  | .mk h b => .mk (entriesOf h.parameters ++ b.entries) b.outlines

/-- The scopes in the scope of a procedure. -/
def Body.outlines : Body → List Outline
  | .mk ps _ ss _ _ => procedureOutlines ps ++ outlinesOf ss

/-- The scopes of procedures. -/
def procedureOutlines : List Procedure → List Outline
  | [] => []
  | p :: ps => p.outline :: procedureOutlines ps

end

/-- The scopes of a program: the global one, and the procedures inside. -/
def Program.outline (p : Program) : Outline :=
  .mk (p.procedures.map fun p => p.header.entry) (procedureOutlines p.procedures)

/-- The scope of a procedure before its body. -/
def Header.outline (h : Header) : Outline := .mk (entriesOf h.parameters) []

namespace Table

variable {t t' t'' : Table} {names names' : List (String × Entity)} {os os' : List Outline}
  {ids ids' : List Nat}

/-! ## New scopes -/

/-- `ids` are the numbers of the scopes that `t'` has and `t` has not, each of them once. -/
def Adds (t : Table) (ids : List Nat) (t' : Table) : Prop :=
  (List.range t'.scopes.size).Perm (List.range t.scopes.size ++ ids)

/-- An arena of the same size has no new scopes. -/
theorem Adds.of_size_eq (h : t'.scopes.size = t.scopes.size) : t.Adds [] t' := by
  rw [Adds, h, List.append_nil]

/-- New scopes of two steps. -/
theorem Adds.trans (h : t.Adds ids t') (h' : t'.Adds ids' t'') : t.Adds (ids ++ ids') t'' := by
  rw [Adds, ← List.append_assoc]
  exact List.Perm.trans h' (h.append_right ids')

/-- The order of the new numbers does not matter. -/
theorem Adds.of_perm (h : t.Adds ids t') (hids : ids.Perm ids') : t.Adds ids' t' :=
  List.Perm.trans h (hids.append_left _)

/-- The arena does not shrink. -/
theorem Adds.size_le (h : t.Adds ids t') : t.scopes.size ≤ t'.scopes.size := by
  have hlength := h.length_eq
  simp only [List.length_range, List.length_append] at hlength
  omega

/-- The new numbers are positions of the arena. -/
theorem Adds.lt_size (h : t.Adds ids t') {k : Nat} (hk : k ∈ ids) : k < t'.scopes.size :=
  List.mem_range.mp (h.mem_iff.mpr (List.mem_append_right _ hk))

/-- The new numbers are none of the old ones. -/
theorem Adds.size_le_of_mem (h : t.Adds ids t') {k : Nat} (hk : k ∈ ids) :
    t.scopes.size ≤ k := by
  have hnodup := h.nodup_iff.mp List.nodup_range
  have hdisjoint := (List.nodup_append.mp hnodup).2.2
  rcases Nat.lt_or_ge k t.scopes.size with hlt | hle
  · exact absurd rfl (hdisjoint k (List.mem_range.mpr hlt) k hk)
  · exact hle

/-! ## Steps that build -/

/-- From `t` to `t'` the current scope got the names `names`, and new scopes `ids`, which hold the
    outlines `os`, came into it. -/
structure Builds (t : Table) (names : List (String × Entity)) (os : List Outline)
    (ids : List Nat) (t' : Table) : Prop where
  valid : t'.Valid
  path_eq : t'.path = t.path
  current : ∀ s, t.scope? t.current = some s →
    t'.scope? t.current = some { s with bindings := s.bindings ++ bound t.current names }
  others : ∀ k < t.scopes.size, k ≠ t.current → t'.scope? k = t.scope? k
  lays : t'.LaysAll (some t.current) os ids
  adds : t.Adds ids t'

/-- From a table to itself nothing is built. -/
theorem Builds.refl (h : t.Valid) : t.Builds [] [] [] t where
  valid := h
  path_eq := rfl
  current := by
    intro s hs
    rw [hs, bound, List.map_nil, List.append_nil]
  others := fun _ _ _ => rfl
  lays := .nil
  adds := .of_size_eq rfl

/-- Building leaves the current scope the current one. -/
theorem Builds.current_eq (h : t.Builds names os ids t') : t'.current = t.current :=
  current_eq_of_path_eq h.path_eq

/-- What two steps build one after the other. -/
theorem Builds.trans (ht : t.Valid) (h : t.Builds names os ids t')
    (h' : t'.Builds names' os' ids' t'') :
    t.Builds (names ++ names') (os ++ os') (ids ++ ids') t'' where
  -- what the first step has built must survive the second one, which adds names only in the current
  -- scope
  valid := h'.valid
  path_eq := h'.path_eq.trans h.path_eq
  current := by
    intro s hs
    have hs' := h.current s hs
    rw [← h.current_eq] at hs' ⊢
    rw [h'.current _ hs', bound_append, List.append_assoc]
  others := by
    intro k hk hne
    rw [h'.others k (Nat.lt_of_lt_of_le hk h.adds.size_le) (by rwa [h.current_eq]),
      h.others k hk hne]
  lays := by
    have hlays' := h'.lays
    rw [h.current_eq] at hlays'
    -- the scopes that were built first are neither new nor the current one
    refine (h.lays.of_scope?_eq fun k hk => ?_).append hlays'
    have hnew := h.adds.size_le_of_mem hk
    have hcur := ht.current_lt_size
    refine h'.others k (h.adds.lt_size hk) ?_
    rw [h.current_eq]
    omega
  adds := h.adds.trans h'.adds

/-- Binding a name in the current scope builds that name. -/
theorem builds_of_bindIn (h : t.Valid) {x : String} {e : Entity}
    (hb : t.bindIn t.current x e = .ok t') : t.Builds [(x, e)] [] [] t' where
  valid := h.bindIn hb
  path_eq := path_of_bindIn hb
  current := by
    intro s hs
    rw [scope?_of_bindIn hb, if_pos rfl, hs, Option.map_some, Scope.bind, h.id_eq _ _ hs]
    rfl
  others := by
    intro k _ hne
    rw [scope?_of_bindIn hb, if_neg hne]
  lays := .nil
  adds := .of_size_eq (size_of_bindIn hb)

/-- What is built in a new scope is one outline more in the scope around it. -/
theorem Builds.closeScope (h : t.Valid) (hb : t.openScope.Builds names os ids t') :
    t.Builds [] [.mk names os] (t.scopes.size :: ids) t'.closeScope := by
  have hsame : ∀ k < t.scopes.size, t'.closeScope.scope? k = t.scope? k := by
    intro k hk
    have hlt : k < t.openScope.scopes.size := by rw [size_openScope]; omega
    rw [scope?_closeScope, hb.others k hlt (Nat.ne_of_lt hk), scope?_openScope_of_lt hk]
  have hsize : t'.closeScope.scopes.size = t'.scopes.size := by rw [scopes_closeScope]
  refine ⟨hb.valid.closeScope, h.path_closeScope_of_cons hb.path_eq, ?_, fun k hk _ => hsame k hk,
    ?_, ?_⟩
  · intro s hs
    rw [hsame _ h.current_lt_size, hs, bound, List.map_nil, List.append_nil]
  · refine laysAll_singleton (.mk ?_ (.refl _) ?_)
    · have hnew : t.openScope.scope? t.openScope.current =
          some ⟨t.scopes.size, some t.current, []⟩ := by
        rw [current_openScope, scope?_openScope, if_pos rfl]
      rw [scope?_closeScope]
      exact hb.current _ hnew
    · exact hb.lays.of_scope?_eq fun k _ => scope?_closeScope t' k
  · have hadds : (List.range t'.scopes.size).Perm (List.range (t.scopes.size + 1) ++ ids) := by
      rw [← size_openScope t]
      exact hb.adds
    rw [Adds, hsize]
    rw [List.range_succ, List.append_assoc] at hadds
    exact hadds

/-- Closing a scope and binding in one that stays open can change places. -/
theorem bindIn_closeScope {id : Nat} {x : String} {e : Entity} (hb : t.bindIn id x e = .ok t') :
    t.closeScope.bindIn id x e = .ok t'.closeScope := by
  have hscopes : t.closeScope.scopes = t.scopes := scopes_closeScope t
  unfold bindIn at hb ⊢
  rw [scope?_closeScope]
  split at hb
  · cases hb
  · rename_i hfree
    obtain rfl := Except.ok.inj hb
    rw [if_neg hfree, hscopes]
    unfold Table.closeScope
    dsimp only
    split <;> rfl

/-! ## Steps that fill scopes -/

/-- From `t` to `t'` the scopes `ws`, which lie in the current one, and new scopes inside of them
    came to hold the outlines `os`; `ids` are the numbers of all these scopes. -/
structure Fills (t : Table) (ws : List Nat) (os : List Outline) (ids : List Nat) (t' : Table) :
    Prop where
  valid : t'.Valid
  path_eq : t'.path = t.path
  others : ∀ k < t.scopes.size, k ∉ ws → t'.scope? k = t.scope? k
  lays : t'.LaysAll (some t.current) os ids
  adds : ∃ news, t.Adds news t' ∧ ids.Perm (ws ++ news)

/-- No scopes are filled by doing nothing. -/
theorem Fills.refl (h : t.Valid) : t.Fills [] [] [] t :=
  ⟨h, rfl, fun _ _ _ => rfl, .nil, [], .of_size_eq rfl, .refl _⟩

/-- One scope is filled, and then the others. -/
theorem Fills.cons {id : Nat} {ws : List Nat} {o : Outline} (h : t.Fills [id] [o] ids t')
    (h' : t'.Fills ws os ids' t'') (hid : id < t.scopes.size) (hnew : id ∉ ws)
    (hws : ∀ k ∈ ws, k < t.scopes.size) :
    t.Fills (id :: ws) (o :: os) (ids ++ ids') t'' where
  valid := h'.valid
  path_eq := h'.path_eq.trans h.path_eq
  others := by
    intro k hk hne
    obtain ⟨news, hadds, -⟩ := h.adds
    rw [h'.others k (Nat.lt_of_lt_of_le hk hadds.size_le)
      fun hmem => hne (List.mem_cons_of_mem _ hmem)]
    refine h.others k hk ?_
    rintro hmem
    obtain rfl := List.mem_singleton.mp hmem
    exact hne List.mem_cons_self
  lays := by
    obtain ⟨news, hadds, hids⟩ := h.adds
    have hlays' := h'.lays
    rw [current_eq_of_path_eq h.path_eq] at hlays'
    -- the scopes filled first are not among those that are filled later
    refine LaysAll.append (h.lays.of_scope?_eq fun k hk => ?_) hlays'
    rcases List.mem_cons.mp (hids.mem_iff.mp hk) with rfl | hk
    · exact h'.others k (Nat.lt_of_lt_of_le hid hadds.size_le) hnew
    · have hle := hadds.size_le_of_mem hk
      refine h'.others k (hadds.lt_size hk) fun hmem => ?_
      have := hws k hmem
      omega
  adds := by
    obtain ⟨news, hadds, hids⟩ := h.adds
    obtain ⟨news', hadds', hids'⟩ := h'.adds
    refine ⟨news ++ news', hadds.trans hadds', (hids.append hids').trans ?_⟩
    show (id :: (news ++ (ws ++ news'))).Perm (id :: (ws ++ (news ++ news')))
    refine List.Perm.cons _ ?_
    rw [← List.append_assoc, ← List.append_assoc]
    exact List.perm_append_comm.append_right _

/-- A step that builds in a scope that was entered again fills it. -/
theorem Builds.fills {id : Nat} {bindings : List (String × Symbol)} (h : t.Valid)
    (hs : t.scope? id = some ⟨id, some t.current, bindings⟩)
    (hb : bindings.Perm (bound id names))
    (hbuilds : Builds { t with path := id :: t.path } names' os ids t') :
    t.Fills [id] [.mk (names ++ names') os] (id :: ids) t'.closeScope where
  valid := hbuilds.valid.closeScope
  path_eq := h.path_closeScope_of_cons hbuilds.path_eq
  others := by
    intro k hk hne
    rw [scope?_closeScope]
    exact hbuilds.others k hk fun he => hne (List.mem_singleton.mpr he)
  lays := by
    have hscope : t'.closeScope.scope? id =
        some ⟨id, some t.current, bindings ++ bound id names'⟩ := by
      rw [scope?_closeScope]
      exact hbuilds.current _ hs
    refine laysAll_singleton (.mk hscope ?_ ?_)
    · rw [bound_append]
      exact hb.append_right _
    · exact hbuilds.lays.of_scope?_eq fun k _ => scope?_closeScope t' k
  adds := by
    refine ⟨ids, ?_, .refl _⟩
    have hadds : (List.range t'.scopes.size).Perm (List.range t.scopes.size ++ ids) := hbuilds.adds
    rw [Adds, scopes_closeScope]
    exact hadds

/-- Scopes that were built first can be filled afterwards. -/
theorem Builds.fill (ht : t.Valid) {hs : List Outline} (h : t.Builds names hs ids t')
    (h' : t'.Fills ids os ids' t'') : t.Builds names os ids' t'' where
  valid := h'.valid
  path_eq := h'.path_eq.trans h.path_eq
  current := by
    intro s hs
    have hlt := ht.current_lt_size
    rw [h'.others _ (Nat.lt_of_lt_of_le hlt h.adds.size_le), h.current s hs]
    intro hmem
    have := h.adds.size_le_of_mem hmem
    omega
  others := by
    intro k hk hne
    rw [h'.others k (Nat.lt_of_lt_of_le hk h.adds.size_le), h.others k hk hne]
    intro hmem
    have := h.adds.size_le_of_mem hmem
    omega
  lays := by
    rw [← h.current_eq]
    exact h'.lays
  adds := by
    obtain ⟨news, hadds, hids⟩ := h'.adds
    exact (h.adds.trans hadds).of_perm hids.symm

end Table

open Table Visit

variable {t : Table}

/-! ## Declarations -/

/-- Names of one declaration are built with their common basetype. -/
theorem builds_bindNames (h : t.Valid) (type : Basetype) {xs : List String}
    (hok : (bindNames t type xs).2 = .ok ()) :
    t.Builds (xs.map fun x => (x, .value type)) [] [] (bindNames t type xs).1 := by
  induction xs generalizing t with
  | nil => exact .refl h
  | cons x xs ih =>
    rw [bindNames] at hok ⊢
    cases hb : t.insert x (.value type) with
    | error d =>
      rw [hb] at hok
      cases hok
    | ok t₁ =>
      rw [hb] at hok
      exact (builds_of_bindIn h hb).trans h (ih (h.bindIn hb) hok)

/-- A declaration builds its names. -/
theorem Decl.ends_check (h : t.Valid) (d : Decl) :
    (d.check t).Ends fun x t' _ => x = d.annotate ∧ t.Builds d.entries [] [] t' := by
  intro b hb
  refine ⟨rfl, builds_bindNames h d.type.basetype ?_⟩
  have hb' : onLine d.attr.line (bindNames t d.type.basetype d.names).2 = .ok b := hb
  cases hr : (bindNames t d.type.basetype d.names).2 with
  | ok _ => rfl
  | error v =>
    rw [hr] at hb'
    cases hb'

/-- Declarations in a row build their names, in their order. -/
theorem ends_checkDecls (h : t.Valid) (ds : List Decl) :
    (checkDecls t ds).Ends fun xs t' _ =>
      xs = ds.map Decl.annotate ∧ t.Builds (entriesOf ds) [] [] t' := by
  induction ds generalizing t with
  | nil => exact ends_mk fun _ _ => ⟨rfl, .refl h⟩
  | cons d ds ih =>
    refine (Decl.ends_check h d).andThen ?_
    rintro x t₁ - ⟨rfl, h₁⟩
    refine (ih h₁.valid).mapNode ?_
    rintro xs t₂ - ⟨rfl, h₂⟩
    exact ⟨rfl, h₁.trans h h₂⟩

/-! ## Statements -/

/-- A check that only reads the table ends with that table. -/
theorem ends_within (f : Found α β) : (f.within t).Ends fun _ t' _ => t' = t := fun _ _ => rfl

mutual

/-- A statement builds the scopes of its blocks. -/
theorem Stmt.ends_check {t : Table} (h : t.Valid) (s : Stmt) :
    (s.check t).Ends fun _ t' _ => ∃ ids, t.Builds [] s.outlines ids t' := by
  -- the first three forms leave the table, and a block builds one scope; two of them build theirs
  -- side by side
  cases s with
  | assign a l e =>
    refine (ends_within _).forget ?_
    rintro _ _ _ rfl
    exact ⟨[], .refl h⟩
  | assignString a l text =>
    refine (ends_within _).forget ?_
    rintro _ _ _ rfl
    exact ⟨[], .refl h⟩
  | call a l g es =>
    refine (ends_within _).forget ?_
    rintro _ _ _ rfl
    exact ⟨[], .refl h⟩
  | ifThen a c b =>
    rw [Stmt.check]
    refine (ends_within _).andThen ?_
    rintro c' _ condition rfl
    refine (Block.ends_check h b).andThen ?_
    rintro b' t₁ - h₁
    exact ends_mk fun _ _ => h₁
  | ifElse a c b₁ b₂ =>
    rw [Stmt.check]
    refine (ends_within _).andThen ?_
    rintro c' _ condition rfl
    refine (Block.ends_check h b₁).andThen ?_
    rintro b' t₁ - ⟨ids₁, h₁⟩
    refine (Block.ends_check h₁.valid b₂).andThen ?_
    rintro b'' t₂ - ⟨ids₂, h₂⟩
    exact ends_mk fun _ _ => ⟨_, h₁.trans h h₂⟩
  | loop a c b =>
    rw [Stmt.check]
    refine (ends_within _).andThen ?_
    rintro c' _ condition rfl
    refine (Block.ends_check h b).andThen ?_
    rintro b' t₁ - h₁
    exact ends_mk fun _ _ => h₁
  | block a b =>
    rw [Stmt.check]
    exact (Block.ends_check h b).mapNode fun _ _ _ h₁ => h₁

/-- A nested block builds one scope, with those of its statements inside. -/
theorem Block.ends_check {t : Table} (h : t.Valid) (b : Block) :
    (b.check t).Ends fun _ t' _ => ∃ ids, t.Builds [] [b.outline] ids t' := by
  cases b with
  | mk ds ss a =>
    rw [Block.check]
    refine (ends_checkDecls h.openScope ds).andThen ?_
    rintro ds' t₁ - ⟨-, h₁⟩
    refine (ends_checkStmts h₁.valid ss).andThen ?_
    rintro ss' t₂ - ⟨ids, h₂⟩
    have hbuilds := h₁.trans h.openScope h₂
    rw [List.append_nil] at hbuilds
    exact ends_mk fun _ _ => ⟨_, hbuilds.closeScope h⟩

/-- Statements build the scopes of their nested blocks, and no names. -/
theorem ends_checkStmts {t : Table} (h : t.Valid) (ss : List Stmt) :
    (checkStmts t ss).Ends fun _ t' _ => ∃ ids, t.Builds [] (outlinesOf ss) ids t' := by
  cases ss with
  | nil => exact ends_mk fun _ _ => ⟨[], .refl h⟩
  | cons s ss =>
    rw [checkStmts]
    refine (Stmt.ends_check h s).andThen ?_
    rintro s' t₁ - ⟨ids₁, h₁⟩
    refine (ends_checkStmts h₁.valid ss).mapNode ?_
    rintro ss' t₂ - ⟨ids₂, h₂⟩
    exact ⟨_, h₁.trans h h₂⟩

end

/-! ## Headers -/

/-- A header binds its name in the current scope, and builds one for its parameters. -/
theorem Header.ends_declare (ht : t.Valid) (h : Header) :
    (h.declare t).Ends fun _ t' id => t.Builds [h.entry] [h.outline] [id] t' := by
  unfold Header.declare
  refine (ends_checkDecls ht.openScope h.parameters).andThen ?_
  rintro ds t₁ - ⟨rfl, h₁⟩
  have hclosed : t.Builds [] [h.outline] [t.scopes.size] t₁.closeScope := h₁.closeScope ht
  have henclosing : t₁.enclosing = t.current := ht.enclosing_of_cons h₁.valid h₁.path_eq
  dsimp only
  rw [parameterTypes_annotate, insertOutside, henclosing]
  split
  · rename_i t₂ hb
    have hb' := bindIn_closeScope hb
    rw [← hclosed.current_eq] at hb'
    refine ends_mk fun id hid => ?_
    obtain rfl := Except.ok.inj hid
    exact hclosed.trans ht (builds_of_bindIn hclosed.valid hb')
  · exact ends_mk fun _ hid => by cases hid

/-- Headers build their entries, and a scope for the parameters of each. -/
theorem ends_declareAll (ht : t.Valid) (hs : List Header) :
    (declareAll t hs).Ends fun _ t' ids =>
      t.Builds (hs.map Header.entry) (hs.map Header.outline) ids t' := by
  induction hs generalizing t with
  | nil =>
    refine ends_mk fun ids hids => ?_
    obtain rfl := Except.ok.inj hids
    exact .refl ht
  | cons h hs ih =>
    refine (Header.ends_declare ht h).andThen ?_
    intro h' t₁ id h₁
    refine (ih h₁.valid).andThen ?_
    intro hs' t₂ ids h₂
    refine ends_mk fun ids' hids => ?_
    obtain rfl := Except.ok.inj hids
    exact h₁.trans ht h₂

/-! ## Bodies -/

/-- Procedures in a row build their entries and outlines, if the bodies fill the scopes of the
    headers. -/
theorem ends_declareThen (ht : t.Valid) (ps : List Procedure)
    (hbodies : ∀ {t' : Table} {ws : List (Header × Nat)}, t'.Valid →
      t'.LaysAll (some t'.current) ((ps.map Procedure.header).map Header.outline)
        (ws.map Prod.snd) → (ws.map Prod.snd).Nodup →
      (checkBodies t' ws ps).Ends fun _ t'' _ =>
        ∃ ids, t'.Fills (ws.map Prod.snd) (procedureOutlines ps) ids t'') :
    (declareThen t ps fun t hs => checkBodies t hs ps).Ends fun _ t' _ =>
      ∃ ids, t.Builds (ps.map fun p => p.header.entry) (procedureOutlines ps) ids t' := by
  intro b hb
  unfold declareThen at hb ⊢
  obtain ⟨ids, hids, hrest⟩ := exists_of_andThen_ok hb
  rw [andThen_of_ok hids]
  have h₁ := ends_declareAll ht _ ids hids
  have hlength : ids.length = (declareAll t (ps.map Procedure.header)).node.length := by
    rw [length_of_declareAll hids, length_node_declareAll]
  have hsnd := List.map_snd_zip (Nat.le_of_eq hlength)
  have hlays := h₁.lays
  have hnodup := (List.nodup_append.mp (h₁.adds.nodup_iff.mp List.nodup_range)).2.1
  rw [← h₁.current_eq] at hlays
  obtain ⟨ids', h₂⟩ := hbodies h₁.valid (hsnd.symm ▸ hlays) (hsnd.symm ▸ hnodup) b hrest
  rw [hsnd] at h₂
  rw [List.map_map] at h₁
  exact ⟨ids', h₁.fill ht h₂⟩

mutual

/-- A body declares its names in the current scope, and builds those inside. -/
theorem Body.ends_check {t : Table} (ht : t.Valid) (b : Body) :
    (b.check t).Ends fun _ t' _ => ∃ ids, t.Builds b.entries b.outlines ids t' := by
  cases b with
  | mk ps ds ss r a =>
    rw [Body.check]
    have hps := ends_declareThen ht ps fun h hlays hnodup => ends_checkBodies h ps hlays hnodup
    refine hps.andThen ?_
    rintro ps' t₁ - ⟨ids₁, h₁⟩
    refine (ends_checkDecls h₁.valid ds).andThen ?_
    rintro ds' t₂ - ⟨-, h₂⟩
    have h₂ := h₁.trans ht h₂
    refine (ends_checkStmts h₂.valid ss).andThen ?_
    rintro ss' t₃ - ⟨ids₃, h₃⟩
    have h₃ := h₂.trans ht h₃
    rw [List.append_nil, List.append_nil] at h₃
    refine (ends_within _).andThen ?_
    rintro r' _ result rfl
    exact ends_mk fun _ _ => ⟨_, h₃⟩

/-- The body of a procedure fills the scope of its parameters. -/
theorem Procedure.ends_checkBody {t : Table} (ht : t.Valid) (p : Procedure) (h : Header)
    {id : Nat} (hlays : t.Lays (some t.current) p.header.outline [id]) :
    (p.checkBody t h id).Ends fun _ t' _ => ∃ ids, t.Fills [id] [p.outline] ids t' := by
  cases p with
  | mk h₀ b =>
    obtain ⟨hs, hbindings, -⟩ := hlays
    rw [Procedure.checkBody]
    cases hr : t.reenter? id with
    | none => exact ends_mk fun _ hb => by cases hb
    | some t₁ =>
      obtain ⟨-, rfl⟩ := reenter?_eq_some_iff.mp hr
      refine (Body.ends_check (ht.reenter hr) b).andThen ?_
      rintro b' t₂ result ⟨ids, h₂⟩
      refine Ends.forget (ends_mk fun _ _ => ?_) fun _ _ _ hq => hq
      exact ⟨_, h₂.fills ht hs hbindings⟩

/-- Each body fills the scope that waits for it. -/
theorem ends_checkBodies {t : Table} (ht : t.Valid) (ps : List Procedure)
    {ws : List (Header × Nat)}
    (hlays : t.LaysAll (some t.current) ((ps.map Procedure.header).map Header.outline)
      (ws.map Prod.snd)) (hnodup : (ws.map Prod.snd).Nodup) :
    (checkBodies t ws ps).Ends fun _ t' _ =>
      ∃ ids, t.Fills (ws.map Prod.snd) (procedureOutlines ps) ids t' := by
  cases ps with
  | nil =>
    have hws := hlays.eq_nil
    rw [checkBodies, hws]
    exact ends_mk fun _ _ => ⟨[], .refl ht⟩
  | cons p ps =>
    obtain ⟨id, ids₁, ids₂, hids, hhead, hinner, htail⟩ := hlays.exists_of_cons
    obtain rfl : ids₁ = [] := hinner.eq_nil
    match ws, hids with
    | (h, _) :: ws, hids =>
      obtain ⟨rfl, rfl⟩ := List.cons.inj hids
      obtain ⟨hnew, hnodup⟩ := List.nodup_cons.mp hnodup
      rw [checkBodies]
      refine (Procedure.ends_checkBody ht p h hhead).andThen ?_
      rintro p' t₁ - ⟨ids₁, h₁⟩
      -- the scopes of the later procedures are as they were
      have hsame : ∀ k ∈ ws.map Prod.snd, t₁.scope? k = t.scope? k := by
        intro k hk
        refine h₁.others k (htail.lt_size k hk) fun hmem => ?_
        obtain rfl := List.mem_singleton.mp hmem
        exact hnew hk
      have htail₁ := htail.of_scope?_eq hsame
      rw [← current_eq_of_path_eq h₁.path_eq] at htail₁
      refine (ends_checkBodies h₁.valid ps htail₁ hnodup).mapNode ?_
      rintro ps' t₂ - ⟨ids₂, h₂⟩
      exact ⟨_, h₁.cons h₂ (hhead.lt_size _ List.mem_cons_self) hnew htail.lt_size⟩

end

/-! ## Programs -/

/-- The table of an accepted program holds its outline, and nothing else. -/
theorem Program.typeCheck_lays {p : Program} (hok : p.typeCheck.result = .ok ()) :
    p.typeCheck.table.Valid ∧ p.typeCheck.table.path = [globalId] ∧
      ∃ ids, p.typeCheck.table.Lays none p.outline (globalId :: ids) ∧
        (globalId :: ids).Perm (List.range p.typeCheck.table.scopes.size) := by
  have hps := ends_declareThen valid_initial p.procedures fun h hlays hnodup =>
    ends_checkBodies h p.procedures hlays hnodup
  have hcheck : p.typeCheck.Ends fun _ t' _ => ∃ ids,
      initial.Builds (p.procedures.map fun p => p.header.entry) (procedureOutlines p.procedures)
        ids t' := by
    unfold Program.typeCheck Program.check checkProcedures
    refine hps.andThen ?_
    intro ps t₁ _ h₁
    exact ends_mk fun _ _ => h₁
  obtain ⟨ids, h⟩ := hcheck () hok
  refine ⟨h.valid, h.path_eq, ids, ?_, ?_⟩
  · have hglobal := h.current ⟨globalId, none, []⟩ rfl
    exact .mk hglobal (.refl _) h.lays
  · exact h.adds.symm

/-- **The table is the declaration structure.**  When a program is accepted, only the global scope
    is left open, and the scopes of the table correspond one to one to the constructs of the
    program that have a scope: the program itself, its procedures and its nested blocks, at any
    depth.  A scope lies in that of the construct around, and has exactly the names that are
    declared in its construct, each of them once, with what they stand for. -/
theorem typeCheck_declared (p : Program) (hok : p.typeCheck.result = .ok ()) :
    let t := p.typeCheck.table
    t.path = [globalId] ∧
    (∀ k s, t.scope? k = some s → (s.bindings.map Prod.fst).Nodup) ∧
    ∃ number : List Nat → Nat,
      Set.BijOn number {a | (p.outline.at? a).isSome} {k | k < t.scopes.size} ∧
      number [] = globalId ∧ t.Numbers none p.outline number := by
  intro t
  obtain ⟨hvalid, hpath, ids, hlays, hids⟩ := Program.typeCheck_lays hok
  obtain ⟨number, hroot, hnumbers, hbij⟩ := hlays.exists_bijOn hids
  exact ⟨hpath, hvalid.names_nodup, number, hbij, hroot, hnumbers⟩

/-- A program with a scope of each kind: `Main` declares a procedure `Rest` with two parameters
    and a loop, and an `if` with two branches, one of which hides a variable of `Main`. -/
def nestingProgram : Program where
  procedures :=
    [.mk ⟨"Main", [], ⟨.integer, .bare 1⟩, .bare 1⟩
      (.mk
        [.mk ⟨"Rest", [⟨["n", "m"], ⟨.integer, .bare 2⟩, .bare 2⟩], ⟨.integer, .bare 2⟩, .bare 2⟩
          (.mk [] []
            [.loop (.bare 3) (.binary (.bare 3) .greater (.named (.bare 3) "n")
                (.named (.bare 3) "m"))
              (.mk [⟨["k"], ⟨.integer, .bare 4⟩, .bare 4⟩]
                [.assign (.bare 5) (.named (.bare 5) "n") (.named (.bare 5) "m")] (.bare 3))]
            ⟨.named (.bare 6) "n", .bare 6⟩ (.bare 2))]
        [⟨["x"], ⟨.integer, .bare 8⟩, .bare 8⟩]
        [.ifElse (.bare 9) (.boolean (.bare 9) true)
          (.mk [⟨["x"], ⟨.char, .bare 10⟩, .bare 10⟩] [] (.bare 9))
          (.mk [] [.call (.bare 11) (.named (.bare 11) "x") "Rest"
            [.integer (.bare 11) 7, .named (.bare 11) "x"]] (.bare 11))]
        ⟨.named (.bare 12) "x", .bare 12⟩ (.bare 1))]
  attr := .bare 1

/-- The six scopes of a program with a nested procedure and a nested block. -/
theorem typeCheck_declared_nesting :
    nestingProgram.typeCheck.result = .ok () ∧ nestingProgram.typeCheck.table.scopes.size = 6 ∧
    nestingProgram.typeCheck.table.path = [globalId] ∧
    (∀ k s, nestingProgram.typeCheck.table.scope? k = some s →
      (s.bindings.map Prod.fst).Nodup) ∧
    ∃ number : List Nat → Nat,
      Set.BijOn number {a | (nestingProgram.outline.at? a).isSome}
        {k | k < nestingProgram.typeCheck.table.scopes.size} ∧
      number [] = globalId ∧
      nestingProgram.typeCheck.table.Numbers none nestingProgram.outline number := by
  have hok : nestingProgram.typeCheck.result = .ok () := by decide +kernel
  exact ⟨hok, by decide +kernel, typeCheck_declared nestingProgram hok⟩

end ProcLang
