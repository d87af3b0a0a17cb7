/-
  A declaration of a name that nothing mentions changes nothing but itself.

  When such a declaration comes into the declarations of a procedure body or of a nested block,
  the check has the same outcome, the tree is annotated as it was, and, if the check succeeds,
  the table has one binding more, in the scope of that body or block (`typeCheck_insertDecl`).

  1. **The place.**  From a table without `z`, declarations among which there is now one of `z`
     are visited as before; what is left behind differs by bindings of `z` only
     (`checkDecls_insertIdx`).
  2. **What comes before and behind.**  The check comes to the declarations as before, and then
     goes on from a table that has `z` in addition.  Nothing behind mentions `z`, so it makes no
     difference (`Enters.gains`).
  3. **The table.**  The declaration structure of the program has one name more in one scope
     (`Outline.Gains`), and the table of an accepted program is its declaration structure.  What
     is bound where the check comes to the declarations stays there, so this scope is the one
     that is current there (`exists_scope_of_insertDecl`).
-/
import Mathlib.Data.List.InsertIdx
import ProcLang.Proofs.Typing.Declared
import ProcLang.Proofs.Typing.Entry

namespace ProcLang

variable {α γ δ : Type}

/-! ## Tables without a name -/

namespace Table

variable {z : String} {t t' : Table}

/-- Each scope loses its own bindings of `z`, and keeps its place. -/
theorem scope?_without (z : String) (t : Table) (k : Nat) :
    (t.without z).scope? k = (t.scope? k).map fun s =>
      { s with bindings := s.bindings.filter fun b => b.1 ≠ z } := Array.getElem?_map

/-- A table without `z` has no binding of `z`. -/
theorem ne_of_without_eq (ht : t.without z = t) {k : Nat} {s : Scope} (hs : t.scope? k = some s) :
    ∀ b ∈ s.bindings, b.1 ≠ z := by
  have hscope := scope?_without z t k
  rw [ht, hs] at hscope
  have hfilter := congrArg Scope.bindings (Option.some.inj hscope)
  intro b hb
  rw [hfilter] at hb
  exact of_decide_eq_true (List.mem_filter.mp hb).2

/-- A name that the table has not can be bound. -/
theorem insert_of_without_eq (ht : t.without z = t) (e : Entity) :
    ∃ t', t.insert z e = .ok t' ∧ t'.without z = t := by
  have hfree : ((t.scope? t.current).bind (·.find? z)).isSome = false := by
    cases hs : t.scope? t.current with
    | none => rfl
    | some s =>
      have hnone : s.find? z = none := by
        rw [Scope.find?_eq_none_iff]
        intro hz
        obtain ⟨b, hb, hbz⟩ := List.mem_map.mp hz
        exact ne_of_without_eq ht hs b hb hbz
      show (s.find? z).isSome = false
      rw [hnone]
      rfl
  have hinsert : t.insert z e =
      .ok { t with scopes := t.scopes.modify t.current (·.bind z e) } := by
    unfold insert bindIn
    rw [hfree]
    rfl
  refine ⟨_, hinsert, ?_⟩
  have hlost := Renaming.table_of_insert_unused (ρ := .without z) (by simp [Renaming.without])
    hinsert
  rwa [Renaming.table_without, ht] at hlost

end Table

/-! ## Visits of one declaration more -/

/-- The visits `v'` and `v` have the same outcome; `v'` leaves the node that `v` leaves with one
    declaration more, which is put in by `ins`, and a table with bindings of `z` more. -/
structure Visit.Gains (z : String) (d : Decl) (ins : Decl → γ → γ) (v' v : Visit γ δ) : Prop where
  result_eq : v'.result = v.result
  node : ∃ d', (d' = d ∨ d' = d.annotate) ∧ ((∃ b, v.result = .ok b) → d' = d.annotate) ∧
    v'.node = ins d' v.node
  table_eq : v'.table.without z = v.table

section

variable {z : String} {d : Decl}

/-- A declaration of a name that the table has not succeeds. -/
theorem Decl.check_of_without_eq (hd : d.names = [z]) {t : Table} (ht : t.without z = t) :
    ∃ t', d.check t = ⟨d.annotate, t', .ok ()⟩ ∧ t'.without z = t := by
  obtain ⟨t', hinsert, ht'⟩ := Table.insert_of_without_eq ht (.value d.type.basetype)
  refine ⟨t', ?_, ht'⟩
  unfold Decl.check
  simp only [hd, bindNames, hinsert]
  rfl

/-- Declarations with one of `z` among them do what they did, and bind `z` in addition. -/
theorem checkDecls_insertIdx (hd : d.names = [z]) {ds : List Decl}
    (hz : z ∉ ds.flatMap Decl.names) {i : Nat} (hi : i ≤ ds.length) {t : Table}
    (ht : t.without z = t) :
    Visit.Gains z d (fun d ds => ds.insertIdx i d) (checkDecls t (ds.insertIdx i d))
      (checkDecls t ds) := by
  -- one declaration in front at a time; when one of them fails, the new one is not reached
  induction i generalizing ds t with
  | zero =>
    obtain ⟨t', hcheck, ht'⟩ := Decl.check_of_without_eq hd ht
    have hsame := checkDecls_without hz t'
    rw [ht'] at hsame
    have hfirst : checkDecls t (d :: ds) = (checkDecls t' ds).mapNode (d.annotate :: ·) := by
      rw [checkDecls, hcheck]
      rfl
    rw [List.insertIdx_zero, hfirst, hsame]
    exact ⟨rfl, ⟨d.annotate, Or.inr rfl, fun _ => rfl, List.insertIdx_zero.symm⟩, rfl⟩
  | succ i ih =>
    cases ds with
    | nil => cases hi
    | cons d₀ ds =>
      rw [List.flatMap_cons, List.mem_append, not_or] at hz
      have ht₀ := Visit.table_without_eq (fun t => d₀.check t) (Decl.check_without hz.1 t) ht
      rw [List.insertIdx_succ_cons, checkDecls, checkDecls]
      cases h₀ : (d₀.check t).result with
      | error e =>
        rw [Visit.andThen_of_error h₀, Visit.andThen_of_error h₀]
        refine ⟨rfl, ⟨d, Or.inl rfl, ?_, List.insertIdx_succ_cons.symm⟩, ht₀⟩
        rintro ⟨b, hb⟩
        cases hb
      | ok b =>
        rw [Visit.andThen_of_ok h₀, Visit.andThen_of_ok h₀]
        obtain ⟨hresult, ⟨d', hd', hok, hnode⟩, htable⟩ :=
          ih hz.2 (Nat.le_of_succ_le_succ hi) ht₀
        refine ⟨hresult, ⟨d', hd', hok, ?_⟩, htable⟩
        show _ :: _ = List.insertIdx (_ :: _) (i + 1) d'
        rw [List.insertIdx_succ_cons, hnode]

/-- Behind the declarations nothing mentions the new name. -/
theorem Enters.gains {names : List String} {P : Site (List Decl) γ} {t : Table} {ds : List Decl}
    {F : (List Decl → List Decl) → Visit γ δ} (h : Enters names checkDecls P t ds F)
    (hnames : ds.flatMap Decl.names ⊆ names) (hd : d.names = [z]) (hz : z ∉ names)
    (ht : t.without z = t) (hF : (F id).table.without z = (F id).table) {i : Nat}
    (hi : i ≤ ds.length) :
    Visit.Gains z d (fun d => P.change (·.insertIdx i d)) (F (·.insertIdx i d)) (F id) := by
  -- the check ends in front of the declarations, or comes to them and goes on
  rcases h with ⟨n, u, e, h⟩ | ⟨n, u, rest, hu, hrest, h⟩
  · rw [h, P.change_id] at hF
    rw [h, h, P.change_id]
    refine ⟨rfl, ⟨d, Or.inl rfl, ?_, rfl⟩, hF⟩
    rintro ⟨b, hb⟩
    cases hb
  · obtain ⟨hresult, ⟨d', hd', hok, hnode⟩, htable⟩ :=
      checkDecls_insertIdx hd (not_mem_of_subset hnames hz) hi (hu.without z hz ht)
    have hput : ∀ m, P.put (checkDecls u (ds.insertIdx i d)).node m =
        P.change (·.insertIdx i d') (P.put (checkDecls u ds).node m) := by
      intro m
      rw [P.change_put, hnode]
    rw [h, h, id]
    cases hv : (checkDecls u ds).result with
    | error e =>
      rw [Visit.andThen_of_error (hresult.trans hv), Visit.andThen_of_error hv]
      refine ⟨rfl, ⟨d', hd', ?_, hput n⟩, htable⟩
      rintro ⟨b, hb⟩
      cases hb
    | ok b =>
      rw [Visit.andThen_of_ok (hresult.trans hv), Visit.andThen_of_ok hv]
      have hsame := hrest.without z hz (checkDecls u (ds.insertIdx i d)).table b
      rw [htable] at hsame
      rw [hsame]
      exact ⟨rfl, ⟨d', hd', fun _ => hok ⟨b, hv⟩, hput _⟩, rfl⟩

end

/-! ## Declaration structures with one name more -/

/-- The outline `o'` is `o` with the name `x` more in the scope at the address. -/
inductive Outline.Gains (x : String × Entity) : List Nat → Outline → Outline → Prop
  | here (pre post : List (String × Entity)) (inner : List Outline) :
      Gains x [] (.mk (pre ++ post) inner) (.mk (pre ++ x :: post) inner)
  | inside (names : List (String × Entity)) (pre post : List Outline) {a : List Nat}
      {o o' : Outline} (h : Gains x a o o') :
      Gains x (pre.length :: a) (.mk names (pre ++ o :: post)) (.mk names (pre ++ o' :: post))

namespace Outline

variable {x : String × Entity}

/-- An address that goes through the middle of a row. -/
theorem at?_middle (names : List (String × Entity)) (pre post : List Outline) (o : Outline)
    (b : List Nat) : (mk names (pre ++ o :: post)).at? (pre.length :: b) = o.at? b := by
  have hmiddle : (mk names (pre ++ o :: post)).inner[pre.length]? = some o := by
    show (pre ++ o :: post)[pre.length]? = some o
    simp
  rw [at?, hmiddle]
  rfl

/-- An address that goes beside the middle of a row does not see what stands there. -/
theorem at?_beside {names : List (String × Entity)} {pre post : List Outline} {i : Nat}
    (hi : i ≠ pre.length) (o o' : Outline) (b : List Nat) :
    (mk names (pre ++ o' :: post)).at? (i :: b) = (mk names (pre ++ o :: post)).at? (i :: b) := by
  have hbeside : (mk names (pre ++ o' :: post)).inner[i]? =
      (mk names (pre ++ o :: post)).inner[i]? := by
    show (pre ++ o' :: post)[i]? = (pre ++ o :: post)[i]?
    grind
  rw [at?, at?, hbeside]

/-- The scope that gains a name is one of the outline. -/
theorem Gains.isSome_at? {a : List Nat} {o o' : Outline} (h : o.Gains x a o') :
    (o'.at? a).isSome := by
  induction h with
  | here pre post inner => rfl
  | inside names pre post _ ih => rwa [at?_middle]

/-- Every scope has the names that it had, but for the one that has gained a name. -/
theorem Gains.names_at {a : List Nat} {o o' : Outline} (h : o.Gains x a o') {b : List Nat}
    {c' : Outline} (hc' : o'.at? b = some c') :
    ∃ c, o.at? b = some c ∧ (b ≠ a → c'.names = c.names) ∧
      (b = a → ∃ pre post, c.names = pre ++ post ∧ c'.names = pre ++ x :: post) := by
  induction h generalizing b with
  | here pre post inner =>
    cases b with
    | nil =>
      obtain rfl := Option.some.inj hc'
      exact ⟨_, rfl, fun hne => absurd rfl hne, fun _ => ⟨pre, post, rfl, rfl⟩⟩
    | cons i b => exact ⟨c', hc', fun _ => rfl, nofun⟩
  | @inside names pre post a o o' _ ih =>
    cases b with
    | nil =>
      obtain rfl := Option.some.inj hc'
      exact ⟨_, rfl, fun _ => rfl, nofun⟩
    | cons i b =>
      by_cases hi : i = pre.length
      · subst hi
        rw [at?_middle] at hc'
        obtain ⟨c, hc, hother, hsame⟩ := ih hc'
        refine ⟨c, (at?_middle names pre post o b).trans hc, ?_, ?_⟩
        · exact fun hne => hother fun hb => hne (congrArg _ hb)
        · exact fun he => hsame (List.cons.inj he).2
      · rw [at?_beside hi o] at hc'
        exact ⟨c', hc', fun _ => rfl, fun he => absurd (List.cons.inj he).1 hi⟩

end Outline

/-- One of the outlines that stand side by side has gained a name. -/
def GainsAmong (x : String × Entity) (os os' : List Outline) : Prop :=
  ∃ a pre post o o', o.Gains x a o' ∧ os = pre ++ o :: post ∧ os' = pre ++ o' :: post

/-- The scope of a procedure gains a name when its body is exchanged, whatever the header is. -/
def Body.Gains (x : String × Entity) (b b' : Body) : Prop :=
  ∀ h, ∃ a, (Procedure.mk h b).outline.Gains x a (Procedure.mk h b').outline

section

variable {x : String × Entity} {os os' : List Outline}

/-- The first of a row gains the name. -/
theorem GainsAmong.single {a : List Nat} {o o' : Outline} (h : o.Gains x a o')
    (os : List Outline) : GainsAmong x (o :: os) (o' :: os) := ⟨a, [], os, o, o', h, rfl, rfl⟩

/-- Outlines in front do not matter. -/
theorem GainsAmong.append_left (h : GainsAmong x os os') (first : List Outline) :
    GainsAmong x (first ++ os) (first ++ os') := by
  obtain ⟨a, pre, post, o, o', h, rfl, rfl⟩ := h
  exact ⟨a, first ++ pre, post, o, o', h, (List.append_assoc ..).symm,
    (List.append_assoc ..).symm⟩

/-- Outlines behind do not matter. -/
theorem GainsAmong.append_right (h : GainsAmong x os os') (last : List Outline) :
    GainsAmong x (os ++ last) (os' ++ last) := by
  obtain ⟨a, pre, post, o, o', h, rfl, rfl⟩ := h
  exact ⟨a, pre, post ++ last, o, o', h, List.append_assoc .., List.append_assoc ..⟩

/-- A scope around outlines of which one gains a name. -/
theorem GainsAmong.mk (h : GainsAmong x os os') (names : List (String × Entity)) :
    ∃ a, (Outline.mk names os).Gains x a (.mk names os') := by
  obtain ⟨a, pre, post, o, o', h, rfl, rfl⟩ := h
  -- the address starts with the position in the row
  exact ⟨_, .inside names pre post h⟩

/-! ## Sites that gain a name -/

/-- What a block inside of a statement gains, the scopes of the statement gain. -/
theorem gainsAmong_inStmt {Q : Site Block Stmt} (hQ : InStmt Q) {s : Stmt} {b : Block}
    (hb : Q.part? s = some b) {f : Block → Block}
    (h : ∃ a, b.outline.Gains x a (f b).outline) :
    GainsAmong x s.outlines (Q.change f s).outlines := by
  obtain ⟨a, h⟩ := h
  cases hQ with
  | block => cases s <;> cases hb <;> exact .single h _
  | otherwise =>
    cases s <;> cases hb
    exact (GainsAmong.single h []).append_left [_]

/-- What a block inside of the `i`th statement gains, the scopes of the statements gain. -/
theorem gainsAmong_outlinesOf {Q : Site Block Stmt} (hQ : InStmt Q) {ss : List Stmt} {i : Nat}
    {b : Block} (hb : ((Site.nth i).comp Q).part? ss = some b) {f : Block → Block}
    (h : ∃ a, b.outline.Gains x a (f b).outline) :
    GainsAmong x (outlinesOf ss) (outlinesOf (((Site.nth i).comp Q).change f ss)) := by
  induction ss generalizing i with
  | nil => cases hb
  | cons s₀ ss ih =>
    cases i with
    | zero => exact (gainsAmong_inStmt hQ hb h).append_right (outlinesOf ss)
    | succ i => exact (ih hb).append_left s₀.outlines

/-- What the `j`th body gains, the scopes of the procedures gain. -/
theorem gainsAmong_procedureOutlines {ps : List Procedure} {j : Nat} {p : Procedure}
    (hp : ps[j]? = some p) {f : Body → Body} (h : p.body.Gains x (f p.body)) :
    GainsAmong x (procedureOutlines ps)
      (procedureOutlines (((Site.nth j).comp .body).change f ps)) := by
  induction ps generalizing j with
  | nil => cases hp
  | cons p₀ ps ih =>
    cases j with
    | zero =>
      obtain rfl := Option.some.inj hp
      obtain ⟨header, b⟩ := p₀
      obtain ⟨a, h⟩ := h header
      exact .single h _
    | succ j => exact (ih hp).append_left [p₀.outline]

/-- A change inside of a body leaves the entries of the procedures. -/
theorem entries_change (j : Nat) (f : Body → Body) (ps : List Procedure) :
    (((Site.nth j).comp .body).change f ps).map (fun p => p.header.entry) =
      ps.map fun p => p.header.entry := by
  have hheaders := congrArg (List.map Header.entry) (headers_change j f ps)
  rwa [List.map_map, List.map_map] at hheaders

/-- When the scope of a procedure gains a name, a scope of the program does. -/
theorem gains_of_bodySite {p : Program} {P : Site Body Program} (hP : BodySite P) {b : Body}
    (hb : P.part? p = some b) {f : Body → Body} (h : b.Gains x (f b)) :
    ∃ a, p.outline.Gains x a (P.change f p).outline := by
  induction hP generalizing b f with
  | topLevel j =>
    obtain ⟨q, hq, hbody⟩ := Option.bind_eq_some_iff.mp hb
    obtain rfl := Option.some.inj hbody
    have hgains := (gainsAmong_procedureOutlines hq h).mk (p.procedures.map fun p => p.header.entry)
    show ∃ a, p.outline.Gains x a (.mk ((((Site.nth j).comp .body).change f p.procedures).map
      fun p => p.header.entry) _)
    rw [entries_change]
    exact hgains
  | nested hP j ih =>
    obtain ⟨b', hb', hrest⟩ := Option.bind_eq_some_iff.mp hb
    obtain ⟨q, hq, hbody⟩ := Option.bind_eq_some_iff.mp
      (show (b'.procedures[j]?.bind Site.body.part?) = some b from hrest)
    obtain rfl := Option.some.inj hbody
    refine ih (f := (Site.nested.comp ((Site.nth j).comp .body)).change f) hb' fun header => ?_
    obtain ⟨ps, ds, ss, r, a⟩ := b'
    show ∃ a, Outline.Gains x a _ (.mk (entriesOf header.parameters ++
      ((((Site.nth j).comp .body).change f ps).map (fun p => p.header.entry) ++ entriesOf ds)) _)
    rw [entries_change]
    exact ((gainsAmong_procedureOutlines hq h).append_right (outlinesOf ss)).mk _

/-- What a block gains, the outline of the program gains, at some address. -/
theorem gains_of_blockSite {p : Program} {P : Site Block Program} (hP : BlockSite P) {b : Block}
    (hb : P.part? p = some b) {f : Block → Block} (h : ∃ a, b.outline.Gains x a (f b).outline) :
    ∃ a, p.outline.Gains x a (P.change f p).outline := by
  -- on the way down to the block, from the innermost body that holds it
  induction hP generalizing b f with
  | body hP i hQ =>
    obtain ⟨b', hb', hrest⟩ := Option.bind_eq_some_iff.mp hb
    refine gains_of_bodySite hP hb' fun header => ?_
    obtain ⟨ps, ds, ss, r, a⟩ := b'
    exact ((gainsAmong_outlinesOf hQ hrest h).append_left (procedureOutlines ps)).mk _
  | nested hP i hQ ih =>
    obtain ⟨b', hb', hrest⟩ := Option.bind_eq_some_iff.mp hb
    refine ih hb' ?_
    obtain ⟨ds, ss, a⟩ := b'
    exact (gainsAmong_outlinesOf hQ hrest h).mk _

end

/-- The names of a declaration come in one piece between those of the others. -/
theorem exists_entriesOf_insertIdx {ds : List Decl} {i : Nat} (hi : i ≤ ds.length) (d : Decl) :
    ∃ pre post, entriesOf ds = pre ++ post ∧
      entriesOf (ds.insertIdx i d) = pre ++ (d.entries ++ post) := by
  -- the declaration moves past one other at a time
  induction i generalizing ds with
  | zero => exact ⟨[], entriesOf ds, rfl, by rw [List.insertIdx_zero]; rfl⟩
  | succ i ih =>
    cases ds with
    | nil => cases hi
    | cons d₀ ds =>
      obtain ⟨pre, post, hold, hnew⟩ := ih (Nat.le_of_succ_le_succ hi)
      refine ⟨d₀.entries ++ pre, post, ?_, ?_⟩
      · rw [List.append_assoc, ← hold]
        rfl
      · rw [List.append_assoc, ← hnew, List.insertIdx_succ_cons]
        rfl

/-- A declaration more is a name more in the scope that it is declared in. -/
theorem gains_of_declsSite {p : Program} {P : Site (List Decl) Program} (hP : DeclsSite P)
    {ds : List Decl} (hds : P.part? p = some ds) {i : Nat} (hi : i ≤ ds.length) {d : Decl}
    {z : String} (hd : d.names = [z]) :
    ∃ a, p.outline.Gains (z, .value d.type.basetype) a (P.change (·.insertIdx i d) p).outline := by
  have hentries : d.entries = [(z, .value d.type.basetype)] := by
    rw [Decl.entries, hd]
    rfl
  obtain ⟨pre, post, hold, hnew⟩ := exists_entriesOf_insertIdx hi d
  rw [hentries, List.singleton_append] at hnew
  -- the names of a body come behind those of its parameters and procedures, the names of a block
  -- stand alone
  cases hP with
  | body hP =>
    obtain ⟨b, hb, hds⟩ := Option.bind_eq_some_iff.mp hds
    obtain rfl := Option.some.inj hds
    refine gains_of_bodySite hP hb fun header => ⟨[], ?_⟩
    obtain ⟨ps, ds, ss, r, a⟩ := b
    change entriesOf ds = _ at hold
    change entriesOf (ds.insertIdx i d) = _ at hnew
    have hhere := Outline.Gains.here (x := (z, .value d.type.basetype))
      (entriesOf header.parameters ++ (ps.map (fun p => p.header.entry) ++ pre)) post
      (procedureOutlines ps ++ outlinesOf ss)
    rw [List.append_assoc, List.append_assoc, List.append_assoc, List.append_assoc, ← hold,
      ← hnew] at hhere
    exact hhere
  | block hP =>
    obtain ⟨b, hb, hds⟩ := Option.bind_eq_some_iff.mp hds
    obtain rfl := Option.some.inj hds
    refine gains_of_blockSite hP hb ⟨[], ?_⟩
    obtain ⟨ds, ss, a⟩ := b
    change entriesOf ds = _ at hold
    change entriesOf (ds.insertIdx i d) = _ at hnew
    show Outline.Gains _ [] (.mk (entriesOf ds) _) (.mk (entriesOf (ds.insertIdx i d)) _)
    rw [hold, hnew]
    exact .here pre post _

/-! ## Tables with one binding more -/

/-- The table `t'` is `t` with a binding of `z` to `e` more, in the scope `k`. -/
structure Table.Gains (z : String) (e : Entity) (k : Nat) (t t' : Table) : Prop where
  path_eq : t'.path = t.path
  others : ∀ i ≠ k, t'.scope? i = t.scope? i
  scope : ∃ around pre post, t.scope? k = some ⟨k, around, pre ++ post⟩ ∧
    t'.scope? k = some ⟨k, around, pre ++ (z, ⟨e, k⟩) :: post⟩

section

variable {t t' : Table} {z : String} {e : Entity} {o o' : Outline} {number : List Nat → Nat}

/-- A scope that has `z` in addition is the old one when the bindings of `z` are dropped. -/
theorem scope?_of_without_eq (ht : t'.without z = t) {k : Nat} {s : Scope}
    (hs : t'.scope? k = some s) :
    t.scope? k = some { s with bindings := s.bindings.filter fun b => b.1 ≠ z } := by
  rw [← ht, Table.scope?_without, hs]
  rfl

/-- A scope without `z` loses nothing. -/
theorem filter_ne_eq_self {id : Nat} {bs : List (String × Symbol)} {names : List (String × Entity)}
    (hbs : bs.Perm (bound id names)) (hfree : ∀ y ∈ names, y.1 ≠ z) :
    bs.filter (fun b => b.1 ≠ z) = bs := by
  refine List.filter_eq_self.mpr fun b hb => ?_
  obtain ⟨y, hy, rfl⟩ := List.mem_map.mp (hbs.mem_iff.mp hb)
  exact decide_eq_true (hfree y hy)

/-- The table of an outline with one name more has one binding more, where the outline has the
    name. -/
theorem Table.gains_of_outline (ht : t'.without z = t) {a : List Nat}
    (hgains : o.Gains (z, e) a o') (hfree : ∀ b c, o.at? b = some c → ∀ y ∈ c.names, y.1 ≠ z)
    {around : Option Nat} (hnumbers : t'.Numbers around o' number)
    (hbij : Set.BijOn number {b | (o'.at? b).isSome} {k | k < t'.scopes.size}) :
    t.Gains z e (number a) t' where
  path_eq := by
    rw [← ht]
    rfl
  others := by
    intro k hk
    cases hs : t'.scope? k with
    | none =>
      rw [← ht, scope?_without, hs]
      rfl
    | some s =>
      -- scopes other than `number a` are those at other addresses, which have the names that they
      -- had
      obtain ⟨b, hb, rfl⟩ := hbij.surjOn (lt_size_of_scope? hs)
      obtain ⟨c', hc'⟩ := Option.isSome_iff_exists.mp hb
      obtain ⟨c, hc, hother, -⟩ := hgains.names_at hc'
      obtain ⟨s', hs', -, hperm⟩ := hnumbers.scope b c' hc'
      obtain rfl := Option.some.inj (hs.symm.trans hs')
      have hne : b ≠ a := fun hba => hk (congrArg number hba)
      rw [hother hne] at hperm
      rw [scope?_of_without_eq ht hs, filter_ne_eq_self hperm (hfree b c hc)]
  scope := by
    obtain ⟨c', hc'⟩ := Option.isSome_iff_exists.mp hgains.isSome_at?
    obtain ⟨c, hc, -, hsame⟩ := hgains.names_at hc'
    obtain ⟨pre, post, hnames, hnames'⟩ := hsame rfl
    obtain ⟨⟨id, around, bs⟩, hs, rfl, hperm⟩ := hnumbers.scope a c' hc'
    rw [hnames'] at hperm
    have hmem : (z, ⟨e, number a⟩) ∈ bs := hperm.mem_iff.mpr (by simp [bound])
    obtain ⟨bs₁, bs₂, rfl⟩ := List.append_of_mem hmem
    -- the bindings are the names of the outline in some order, so without the new one they are the
    -- old names in some order
    have hrest : (bs₁ ++ bs₂).Perm (bound (number a) (pre ++ post)) := by
      rw [bound_append] at hperm ⊢
      exact (List.perm_middle.symm.trans (hperm.trans List.perm_middle)).cons_inv
    rw [← hnames] at hrest
    have hkept := filter_ne_eq_self hrest (hfree a c hc)
    have hlost : (bs₁ ++ (z, (⟨e, number a⟩ : Symbol)) :: bs₂).filter (fun b => b.1 ≠ z) =
        bs₁ ++ bs₂ := by
      rw [← hkept]
      simp
    refine ⟨around, bs₁, bs₂, ?_, hs⟩
    rw [scope?_of_without_eq ht hs, hlost]

end

/-! ## Programs -/

/-- The check of an accepted program comes to the declarations at a site, and what they bind in the
    scope that is current there stays in it. -/
theorem exists_visits_of_ok {p : Program} {P : Site (List Decl) Program} (hP : DeclsSite P)
    {ds : List Decl} (hds : P.part? p = some ds) {f : List Decl → List Decl}
    (hok : (P.change f p).typeCheck.result = .ok ()) :
    ∃ u s, p.Visits P checkDecls u ∧ (P.change f p).typeCheck.table.scope? u.current = some s ∧
      bound u.current (entriesOf (f ds)) ⊆ s.bindings := by
  have hmain : mainName ∈ mainName :: p.names := List.mem_cons_self
  obtain ⟨-, henters⟩ := enters_declsSite hmain (List.subset_cons_self _ _) hP hds .initial
  have hcheck : ∀ f, (P.change f p).typeCheck = Program.check .initial (P.change f p) :=
    fun _ => rfl
  rcases henters with ⟨n, u, e, h⟩ | ⟨n, u, rest, hu, hrest, h⟩
  · rw [hcheck, h f] at hok
    cases hok
  · have hvalid := hu.valid Table.valid_initial
    rw [hcheck, h f] at hok ⊢
    obtain ⟨b, hb, -⟩ := Visit.exists_of_andThen_ok hok
    obtain ⟨-, hbuilds⟩ := ends_checkDecls hvalid (f ds) b hb
    obtain ⟨s, hs⟩ := Table.exists_scope? hvalid.current_lt_size
    obtain ⟨more, hmore, -⟩ := (hrest.grows _ b hbuilds.valid).keeps _ _ (hbuilds.current s hs)
    have hstays : bound u.current (entriesOf (f ds)) ⊆
        s.bindings ++ bound u.current (entriesOf (f ds)) ++ more :=
      fun _ hy => List.mem_append_left _ (List.mem_append_right _ hy)
    rw [Visit.andThen_of_ok hb]
    exact ⟨u, _, ⟨n, rest, fun ds => h fun _ => ds⟩, hmore, hstays⟩

/-- The declaration structure of an accepted program has no name that its table has not. -/
theorem ne_of_outline {p : Program} (hok : p.typeCheck.result = .ok ()) {z : String}
    (hfree : p.typeCheck.table.without z = p.typeCheck.table) :
    ∀ b c, p.outline.at? b = some c → ∀ y ∈ c.names, y.1 ≠ z := by
  obtain ⟨-, -, ids, hlays, hids⟩ := Program.typeCheck_lays hok
  obtain ⟨number, -, hnumbers, -⟩ := hlays.exists_bijOn hids
  intro b c hc y hy
  obtain ⟨s, hs, -, hperm⟩ := hnumbers.scope b c hc
  have hmem : (y.1, ⟨y.2, number b⟩) ∈ s.bindings := hperm.mem_iff.mpr (List.mem_map_of_mem hy)
  exact Table.ne_of_without_eq hfree hs _ hmem

/-- In an accepted program, a declaration of a new name makes one binding more.  It is in the scope
    that is current when the check comes to the place of the declaration, and this is the scope of
    the procedure or block that has the declaration. -/
theorem exists_scope_of_insertDecl {p : Program} {P : Site (List Decl) Program} (hP : DeclsSite P)
    {ds : List Decl} (hds : P.part? p = some ds) {i : Nat} (hi : i ≤ ds.length) {d : Decl}
    {z : String} (hd : d.names = [z]) (hok : p.typeCheck.result = .ok ())
    (hfree : p.typeCheck.table.without z = p.typeCheck.table) {q : Program}
    (hq : q = P.change (·.insertIdx i d) p) (hokq : q.typeCheck.result = .ok ())
    (htable : q.typeCheck.table.without z = p.typeCheck.table) :
    ∃ a number u, p.outline.Gains (z, .value d.type.basetype) a q.outline ∧
      Set.BijOn number {b | (q.outline.at? b).isSome} {k | k < q.typeCheck.table.scopes.size} ∧
      q.typeCheck.table.Numbers none q.outline number ∧
      p.Visits P checkDecls u ∧ u.current = number a ∧
      p.typeCheck.table.Gains z (.value d.type.basetype) (number a) q.typeCheck.table := by
  subst hq
  obtain ⟨-, -, ids, hlays, hids⟩ := Program.typeCheck_lays hokq
  obtain ⟨number, -, hnumbers, hbij⟩ := hlays.exists_bijOn hids
  obtain ⟨a, houtline⟩ := gains_of_declsSite hP hds hi hd
  have hone := Table.gains_of_outline htable houtline (ne_of_outline hok hfree) hnumbers hbij
  obtain ⟨u, s, hvisits, hs, hbound⟩ := exists_visits_of_ok hP hds hokq
  refine ⟨a, number, u, houtline, hbij, hnumbers, hvisits, ?_, hone⟩
  -- only the scope that has gained a binding has one of `z`
  by_contra hne
  obtain ⟨pre, post, -, hentries⟩ := exists_entriesOf_insertIdx hi d
  have hmem : (z, ⟨.value d.type.basetype, u.current⟩) ∈ s.bindings := by
    refine hbound ?_
    rw [hentries, Decl.entries, hd]
    simp [bound]
  have hs' := (hone.others _ hne).symm.trans hs
  exact Table.ne_of_without_eq hfree hs' _ hmem rfl

/-- **Weakening and strengthening.**  When a declaration of a name that does not occur in the
    program comes into the declarations of a procedure body or of a nested block, at whatever
    position, the outcome stays what it is, and the tree is annotated as it was, but for the new
    declaration; and the table has, apart from the new name, the bindings that it had.

    When the program is accepted, the table has one binding more.  It is in the scope that the
    declarations at this place are bound in, and this is the scope of the procedure or block. -/
theorem typeCheck_insertDecl {p : Program} {P : Site (List Decl) Program} (hP : DeclsSite P)
    {ds : List Decl} (hds : P.part? p = some ds) {i : Nat} (hi : i ≤ ds.length) {d : Decl}
    {z : String} (hd : d.names = [z]) (hz : z ∉ p.names) (hmain : z ≠ mainName) :
    let q := P.change (·.insertIdx i d) p
    q.typeCheck.result = p.typeCheck.result ∧
    (∃ d', (d' = d ∨ d' = d.annotate) ∧ (p.typeCheck.result = .ok () → d' = d.annotate) ∧
      q.typeCheck.node = P.change (·.insertIdx i d') p.typeCheck.node) ∧
    q.typeCheck.table.without z = p.typeCheck.table ∧
    (p.typeCheck.result = .ok () → ∃ a number u,
      p.outline.Gains (z, .value d.type.basetype) a q.outline ∧
      Set.BijOn number {b | (q.outline.at? b).isSome} {k | k < q.typeCheck.table.scopes.size} ∧
      q.typeCheck.table.Numbers none q.outline number ∧
      p.Visits P checkDecls u ∧ u.current = number a ∧
      p.typeCheck.table.Gains z (.value d.type.basetype) (number a) q.typeCheck.table) := by
  intro q
  have hz' : z ∉ mainName :: p.names := by
    rw [List.mem_cons, not_or]
    exact ⟨hmain, hz⟩
  have hfree : p.typeCheck.table.without z = p.typeCheck.table :=
    Visit.table_without_eq (fun t => p.check t) (Program.check_without hmain hz .initial)
      (Table.without_initial z)
  obtain ⟨hnames, henters⟩ := enters_declsSite (List.mem_cons_self : mainName ∈ mainName :: p.names)
    (List.subset_cons_self _ _) hP hds .initial
  have hgains := henters.gains (List.Subset.trans hnames (List.subset_cons_self _ _)) hd hz'
    (Table.without_initial z) (by rw [P.change_id]; exact hfree) hi
  rw [P.change_id] at hgains
  obtain ⟨hresult, ⟨d', hd', hannotate, hnode⟩, htable⟩ := hgains
  refine ⟨hresult, ⟨d', hd', fun hok => hannotate ⟨(), hok⟩, hnode⟩, htable, fun hok => ?_⟩
  exact exists_scope_of_insertDecl hP hds hi hd hok hfree rfl (hresult.trans hok) htable

/-- The declarations of the loop in the procedure that `Main` declares. -/
def loopDecls : Site (List Decl) Program :=
  (((Site.topLevel.comp ((Site.nth 0).comp .body)).comp
    (Site.nested.comp ((Site.nth 0).comp .body))).comp
      (Site.bodyStmts.comp ((Site.nth 0).comp .block))).comp .blockDecls

/-- The declarations of the loop are a place where a declaration may come in. -/
theorem declsSite_loopDecls : DeclsSite loopDecls :=
  .block (.body (.nested (.topLevel 0) 0) 0 .block)

/-- A declaration of a name that nothing mentions. -/
def spareDecl : Decl := ⟨["spare"], ⟨.string 8, .bare 4⟩, .bare 4⟩

/-- `nestingProgram` with one variable more in the loop. -/
def spareProgram : Program := loopDecls.change (·.insertIdx 1 spareDecl) nestingProgram

/-- The spare declaration comes into the block of a loop, and its scope has one binding more. -/
theorem typeCheck_insertDecl_loop :
    DeclsSite loopDecls ∧
    loopDecls.part? nestingProgram = some [⟨["k"], ⟨.integer, .bare 4⟩, .bare 4⟩] ∧
    "spare" ∉ nestingProgram.names ∧ "spare" ≠ mainName ∧
    nestingProgram.typeCheck.result = .ok () ∧
    spareProgram.typeCheck.result = nestingProgram.typeCheck.result ∧
    (∃ d', (d' = spareDecl ∨ d' = spareDecl.annotate) ∧
      (nestingProgram.typeCheck.result = .ok () → d' = spareDecl.annotate) ∧
      spareProgram.typeCheck.node =
        loopDecls.change (·.insertIdx 1 d') nestingProgram.typeCheck.node) ∧
    spareProgram.typeCheck.table.without "spare" = nestingProgram.typeCheck.table ∧
    (nestingProgram.typeCheck.result = .ok () → ∃ a number u,
      nestingProgram.outline.Gains ("spare", .value .string) a spareProgram.outline ∧
      Set.BijOn number {b | (spareProgram.outline.at? b).isSome}
        {k | k < spareProgram.typeCheck.table.scopes.size} ∧
      spareProgram.typeCheck.table.Numbers none spareProgram.outline number ∧
      nestingProgram.Visits loopDecls checkDecls u ∧ u.current = number a ∧
      nestingProgram.typeCheck.table.Gains "spare" (.value .string) (number a)
        spareProgram.typeCheck.table) := by
  have hds : loopDecls.part? nestingProgram = some [⟨["k"], ⟨.integer, .bare 4⟩, .bare 4⟩] := rfl
  have hz : "spare" ∉ nestingProgram.names := by decide +kernel
  have hok : nestingProgram.typeCheck.result = .ok () := by decide +kernel
  exact ⟨declsSite_loopDecls, hds, hz, by decide, hok,
    typeCheck_insertDecl declsSite_loopDecls hds (Nat.le_refl 1) rfl hz (by decide)⟩

end ProcLang
