/-
  The order of sibling procedures does not matter.

  A list of siblings is given by the path of procedures that leads to it, and put into another
  order (`Program.rearrange`).  Then a program is accepted when it was accepted before, its
  annotated tree is the one from before with the siblings in the new order, and the symbol table
  is the one from before with other numbers (`typeCheck_rearrange`).

  All siblings are declared before the body of any, so each body sees the frame with all their
  signatures, in which the order leaves no trace (`signatures_of_perm`).  Then acceptance and
  annotations are those of the procedures one by one.  For the tables, both hold the same
  declaration structure, so each scope of one corresponds to the scope of the other that has the
  same address (`renumbered_of_numbers`).

  The main statement is `typeCheck_rearrange`.
-/
import ProcLang.Proofs.Typing.Annotated

namespace ProcLang

open Static Table

variable {α β : Type}

/-! ## Lists in another order -/

/-- What stands at the given positions, in that order. -/
def rearrange (order : List Nat) (xs : List α) : List α := order.filterMap fun i => xs[i]?

/-- Rearranging goes by positions, so it commutes with a function on the elements. -/
theorem rearrange_map (f : α → β) (order : List Nat) (xs : List α) :
    rearrange order (xs.map f) = (rearrange order xs).map f := by
  simp only [rearrange, List.map_filterMap, List.getElem?_map]

/-- The order as it is. -/
theorem rearrange_range (xs : List α) : rearrange (List.range xs.length) xs = xs := by
  -- all positions but the first are those of the tail, moved up by one
  induction xs with
  | nil => rfl
  | cons x xs ih =>
    rw [rearrange, List.length_cons, List.range_succ_eq_map, List.filterMap_cons,
      List.filterMap_map]
    exact congrArg (x :: ·) ih

/-- An order of the positions gives an order of the elements. -/
theorem rearrange_perm {order : List Nat} {xs : List α}
    (h : order.Perm (List.range xs.length)) : (rearrange order xs).Perm xs := by
  have hperm := h.filterMap fun i => xs[i]?
  rw [show (List.range xs.length).filterMap (fun i => xs[i]?) = xs from rearrange_range xs] at hperm
  exact hperm

/-! ## Siblings -/

/-- The procedure with another list of nested procedures. -/
def Procedure.mapNested (f : List Procedure → List Procedure) : Procedure → Procedure
  | .mk h (.mk ps ds ss r a) => .mk h (.mk (f ps) ds ss r a)

/-- The siblings that a path leads to: it takes one procedure after the other. -/
def siblingsAt : List Nat → List Procedure → List Procedure
  | [], ps => ps
  | i :: path, ps => ((ps[i]?).map fun p => siblingsAt path p.body.procedures).getD []

/-- The procedures with the siblings that a path leads to in another order. -/
def rearrangeAt (order : List Nat) : List Nat → List Procedure → List Procedure
  | [], ps => rearrange order ps
  | i :: path, ps => ps.modify i (Procedure.mapNested (rearrangeAt order path))

/-- The siblings in a program that a path leads to. -/
def Program.siblings (p : Program) (path : List Nat) : List Procedure :=
  siblingsAt path p.procedures

/-- The program with the siblings that a path leads to in another order. -/
def Program.rearrange (p : Program) (path order : List Nat) : Program :=
  { p with procedures := rearrangeAt order path p.procedures }

/-- Of two lists of procedures, one has siblings in another order, here or inside one of its
    procedures. -/
inductive Reordered : List Procedure → List Procedure → Prop
  | here {ps ps' : List Procedure} (h : ps.Perm ps') : Reordered ps ps'
  | inside {h : Header} {ps ps' : List Procedure} {ds : List Decl} {ss : List Stmt} {r : Return}
      {a : Attribute} (qs : List Procedure) (hps : Reordered ps ps') :
      Reordered (.mk h (.mk ps ds ss r a) :: qs) (.mk h (.mk ps' ds ss r a) :: qs)
  | behind (p : Procedure) {ps ps' : List Procedure} (h : Reordered ps ps') :
      Reordered (p :: ps) (p :: ps')

/-- The old order is an order of the new list. -/
theorem Reordered.symm {ps ps' : List Procedure} (h : Reordered ps ps') : Reordered ps' ps := by
  induction h with
  | here h => exact .here h.symm
  | inside qs _ ih => exact .inside qs ih
  | behind p _ ih => exact .behind p ih

/-- Rearranging the siblings at the end of a path puts the procedures into another order. -/
theorem reordered_rearrangeAt {order : List Nat} (path : List Nat) {ps : List Procedure}
    (h : order.Perm (List.range (siblingsAt path ps).length)) :
    Reordered ps (rearrangeAt order path ps) := by
  -- the siblings are those of the list itself, or lie inside of the one that the path names
  induction path generalizing ps with
  | nil => exact .here (rearrange_perm h).symm
  | cons i path ih =>
    induction ps generalizing i with
    | nil =>
      rw [rearrangeAt, List.modify_nil]
      exact .here (.refl _)
    | cons p ps ihps =>
      cases i with
      | zero =>
        obtain ⟨h₀, qs, ds, ss, r, a⟩ := p
        exact .inside ps (ih h)
      | succ i => exact .behind p (ihps i h)

/-! ## Acceptance -/

/-- In the frame `f`, inside `fs`, procedures that stand side by side keep the static rules, and
    `g` is the frame with their signatures. -/
def Accepted (fs : Frames) (f : Frame) (ps : List Procedure) (g : Frame) : Prop :=
  signatures f (ps.map Procedure.header) = .ok g ∧ procedures (g :: fs) ps = .ok ()

/-- What the rules ask for in two passes, as two conditions. -/
theorem accepted_iff {fs : Frames} {f g : Frame} {ps : List Procedure} :
    (signatures f (ps.map Procedure.header) >>= fun f =>
      procedures (f :: fs) ps >>= fun _ => .ok f) = .ok g ↔ Accepted fs f ps g := by
  constructor
  · intro h
    obtain ⟨g', hsig, h⟩ := bind_eq_ok_iff.mp h
    obtain ⟨_, hps, h⟩ := bind_eq_ok_iff.mp h
    obtain rfl := Except.ok.inj h
    exact ⟨hsig, hps⟩
  · rintro ⟨hsig, hps⟩
    exact bind_eq_ok_iff.mpr ⟨g, hsig, bind_eq_ok_iff.mpr ⟨(), hps, rfl⟩⟩

/-- Different names can be bound in any order. -/
theorem Static.Frame.bind_comm (f : Frame) {x y : String} (hne : x ≠ y) (e e' : Entity) :
    (f.bind x e).bind y e' = (f.bind y e').bind x e := by
  funext z
  simp only [Frame.bind]
  by_cases hy : z = y
  · subst hy
    rw [if_pos rfl, if_neg (Ne.symm hne), if_pos rfl]
  · rw [if_neg hy, if_neg hy]

/-- Two neighbours can change places. -/
theorem signatures_swap {f g : Frame} {h h' : Header} {hs : List Header}
    (hok : signatures f (h :: h' :: hs) = .ok g) : signatures f (h' :: h :: hs) = .ok g := by
  obtain ⟨f₁, hsig, hrest⟩ := bind_eq_ok_iff.mp hok
  obtain ⟨f₂, hsig', hrest⟩ := bind_eq_ok_iff.mp hrest
  obtain ⟨hparameters, hfree, rfl⟩ := signature_eq_ok_iff.mp hsig
  obtain ⟨hparameters', hfree', rfl⟩ := signature_eq_ok_iff.mp hsig'
  -- the second name was free behind the first, so the names differ
  have hne : h'.name ≠ h.name := by
    intro he
    rw [Frame.bind, if_pos he] at hfree'
    cases hfree'
  rw [Frame.bind, if_neg hne] at hfree'
  have hfirst := signature_eq_ok_iff.mpr ⟨hparameters', hfree', rfl⟩
  have hsecond : signature (f.bind h'.name h'.entry.2) h =
      .ok ((f.bind h'.name h'.entry.2).bind h.name h.entry.2) := by
    refine signature_eq_ok_iff.mpr ⟨hparameters, ?_, rfl⟩
    rw [Frame.bind, if_neg hne.symm]
    exact hfree
  refine bind_eq_ok_iff.mpr ⟨_, hfirst, bind_eq_ok_iff.mpr ⟨_, hsecond, ?_⟩⟩
  rw [Frame.bind_comm f hne]
  exact hrest

/-- The frame with the signatures is the same in every order. -/
theorem signatures_of_perm {hs hs' : List Header} (hperm : hs.Perm hs') {f g : Frame}
    (h : signatures f hs = .ok g) : signatures f hs' = .ok g := by
  induction hperm generalizing f with
  | nil => exact h
  | cons h₀ _ ih =>
    obtain ⟨f₁, hsig, hrest⟩ := bind_eq_ok_iff.mp h
    exact bind_eq_ok_iff.mpr ⟨f₁, hsig, ih hrest⟩
  | swap h₁ h₂ hs => exact signatures_swap h
  | trans _ _ ih₁ ih₂ => exact ih₂ (ih₁ h)

/-- Procedures in a row are permitted when each of them is. -/
theorem procedures_eq_ok_iff {fs : Frames} {ps : List Procedure} :
    procedures fs ps = .ok () ↔ ∀ p ∈ ps, Static.procedure fs p = .ok () := by
  induction ps with
  | nil => exact ⟨fun _ _ hp => absurd hp List.not_mem_nil, fun _ => rfl⟩
  | cons p ps ih =>
    rw [procedures, bind_eq_ok_iff, List.forall_mem_cons, ← ih]
    constructor
    · rintro ⟨_, hp, hps⟩
      exact ⟨hp, hps⟩
    · rintro ⟨hp, hps⟩
      exact ⟨(), hp, hps⟩

/-- The first procedure is declared, permitted in the frame with all of them, and the rest is
    accepted. -/
theorem accepted_cons_iff {fs : Frames} {f g : Frame} {p : Procedure} {ps : List Procedure} :
    Accepted fs f (p :: ps) g ↔ ∃ f₁, signature f p.header = .ok f₁ ∧
      Static.procedure (g :: fs) p = .ok () ∧ Accepted fs f₁ ps g := by
  unfold Accepted
  rw [List.map_cons, signatures, bind_eq_ok_iff, procedures_eq_ok_iff, List.forall_mem_cons,
    ← procedures_eq_ok_iff]
  constructor
  · rintro ⟨⟨f₁, hsig, hrest⟩, hp, hps⟩
    exact ⟨f₁, hsig, hp, hrest, hps⟩
  · rintro ⟨f₁, hsig, hp, hrest, hps⟩
    exact ⟨⟨f₁, hsig, hrest⟩, hp, hps⟩

/-- A procedure that keeps the rules has nested procedures that do, in the frame of its
    parameters; and it goes on to do so with others in their place that give the same frame. -/
theorem exists_accepted {fs : Frames} {h : Header} {ps : List Procedure} {ds : List Decl}
    {ss : List Stmt} {r : Return} {a : Attribute}
    (hok : Static.procedure fs (.mk h (.mk ps ds ss r a)) = .ok ()) :
    ∃ f g, parameters h = .ok f ∧ Accepted fs f ps g ∧ ∀ ps', Accepted fs f ps' g →
      Static.procedure fs (.mk h (.mk ps' ds ss r a)) = .ok () := by
  obtain ⟨f, hparameters, hrest⟩ := bind_eq_ok_iff.mp hok
  obtain ⟨b, hbody, hend⟩ := bind_eq_ok_iff.mp hrest
  rw [body_eq_bind] at hbody
  obtain ⟨g, hps, hbody⟩ := bind_eq_ok_iff.mp hbody
  refine ⟨f, g, hparameters, accepted_iff.mp hps, fun ps' hps' => ?_⟩
  refine bind_eq_ok_iff.mpr ⟨f, hparameters, bind_eq_ok_iff.mpr ⟨b, ?_, hend⟩⟩
  rw [body_eq_bind]
  exact bind_eq_ok_iff.mpr ⟨g, accepted_iff.mpr hps', hbody⟩

/-- The order has no part in acceptance. -/
theorem Reordered.accepted {ps ps' : List Procedure} (h : Reordered ps ps') {fs : Frames}
    {f g : Frame} (hok : Accepted fs f ps g) : Accepted fs f ps' g := by
  induction h generalizing fs f g with
  | here hperm =>
    refine ⟨signatures_of_perm (hperm.map _) hok.1, ?_⟩
    rw [procedures_eq_ok_iff]
    intro p hp
    exact procedures_eq_ok_iff.mp hok.2 p (hperm.mem_iff.mpr hp)
  | inside qs _ ih =>
    obtain ⟨f₁, hsig, hp, hqs⟩ := accepted_cons_iff.mp hok
    obtain ⟨f₀, g₀, -, hps, hback⟩ := exists_accepted hp
    exact accepted_cons_iff.mpr ⟨f₁, hsig, hback _ (ih hps), hqs⟩
  | behind p _ ih =>
    obtain ⟨f₁, hsig, hp, hps⟩ := accepted_cons_iff.mp hok
    exact accepted_cons_iff.mpr ⟨f₁, hsig, hp, ih hps⟩

/-- A program is accepted when its procedures are, and `Main` is as it should be. -/
theorem Program.typeCheck_eq_ok_iff (p : Program) :
    p.typeCheck.result = .ok () ↔
      ∃ g, Accepted [] .empty p.procedures g ∧ onLine p.attr.line (Static.main g) = .ok () := by
  have hps := agrees_declareThen valid_initial p.procedures fun ht hws =>
    agrees_checkBodies ht p.procedures hws
  have hp : p.typeCheck.Agrees
      ((signatures .empty (p.procedures.map Procedure.header) >>= fun f =>
        Static.procedures [f] p.procedures >>= fun _ => .ok f) >>= fun f =>
        onLine p.attr.line (Static.main f)) fun _ _ _ _ => True := by
    unfold Program.typeCheck Program.check checkProcedures
    refine Visit.Agrees.andThen hps ?_
    rintro ps t - f ⟨hl, rfl⟩
    refine Visit.agrees_mk ?_ fun _ => trivial
    rw [mainVerdict_eq hl.valid hl.path_eq]
    rfl
  rw [hp.result_eq fun _ _ _ _ _ => rfl, bind_eq_ok_iff]
  exact exists_congr fun g => and_congr_left' accepted_iff

/-! ## Annotations -/

/-- Procedures in a row are annotated one by one. -/
theorem annotatedProcedures_eq_map (fs : Frames) (ps : List Procedure) :
    annotatedProcedures fs ps = ps.map (Procedure.annotated fs) := by
  induction ps with
  | nil => rfl
  | cons p ps ih => rw [annotatedProcedures, ih, List.map_cons]

/-- The frame that accepted procedures leave has their entries. -/
theorem Accepted.eq_bindAll {fs : Frames} {f g : Frame} {ps : List Procedure}
    (h : Accepted fs f ps g) : g = f.bindAll (ps.map fun p => p.header.entry) := by
  have hg := signatures_eq_bindAll h.1
  rw [List.map_map] at hg
  exact hg

/-- The siblings carry their annotations to their new places. -/
theorem annotatedProcedures_rearrangeAt {order : List Nat} (path : List Nat)
    {ps : List Procedure} (h : order.Perm (List.range (siblingsAt path ps).length)) {fs : Frames}
    {f g : Frame} (hok : Accepted fs f ps g) :
    annotatedProcedures (g :: fs) (rearrangeAt order path ps) =
      rearrangeAt order path (annotatedProcedures (g :: fs) ps) := by
  induction path generalizing ps fs f g with
  | nil =>
    rw [annotatedProcedures_eq_map, annotatedProcedures_eq_map]
    exact (rearrange_map _ order ps).symm
  | cons i path ih =>
    induction ps generalizing i f with
    | nil => rw [rearrangeAt, List.modify_nil, annotatedProcedures, rearrangeAt, List.modify_nil]
    | cons p ps ihps =>
      obtain ⟨f₁, -, hp, hps⟩ := accepted_cons_iff.mp hok
      cases i with
      | zero =>
        obtain ⟨h₀, qs, ds, ss, r, a⟩ := p
        obtain ⟨f₀, g₀, hf₀, hqs, -⟩ := exists_accepted hp
        have hqs' := (reordered_rearrangeAt path h).accepted hqs
        -- the nested procedures see the same frame in the new order
        have hframe : f₀.bindAll ((rearrangeAt order path qs).map fun p => p.header.entry) =
            f₀.bindAll (qs.map fun p => p.header.entry) :=
          hqs'.eq_bindAll.symm.trans hqs.eq_bindAll
        have hnested : annotatedProcedures (g₀ :: g :: fs) (rearrangeAt order path qs) =
            rearrangeAt order path (annotatedProcedures (g₀ :: g :: fs) qs) := ih h hqs
        rw [hqs.eq_bindAll] at hnested
        have hparameters : Frame.empty.bindAll (entriesOf h₀.parameters) = f₀ :=
          (declared_eq_bindAll hf₀).symm
        have hhead : Procedure.annotated (g :: fs)
            (.mk h₀ (.mk (rearrangeAt order path qs) ds ss r a)) =
              Procedure.mapNested (rearrangeAt order path)
                (Procedure.annotated (g :: fs) (.mk h₀ (.mk qs ds ss r a))) := by
          rw [Procedure.annotated, Procedure.annotated, hparameters, Body.annotated,
            Body.annotated, hframe, hnested]
          rfl
        rw [rearrangeAt, List.modify_zero_cons, annotatedProcedures, annotatedProcedures,
          rearrangeAt, List.modify_zero_cons, ← hhead]
        rfl
      | succ i =>
        have hrest := ihps i h hps
        rw [rearrangeAt] at hrest
        rw [rearrangeAt, List.modify_succ_cons, annotatedProcedures, annotatedProcedures, hrest]
        rfl

/-- Annotating commutes with rearranging. -/
theorem Program.annotated_rearrange {p : Program} {path order : List Nat}
    (h : order.Perm (List.range (p.siblings path).length))
    (hok : p.typeCheck.result = .ok ()) :
    (p.rearrange path order).annotated = p.annotated.rearrange path order := by
  obtain ⟨g, hps, -⟩ := p.typeCheck_eq_ok_iff.mp hok
  have hps' := (reordered_rearrangeAt path h).accepted hps
  have hnodes := annotatedProcedures_rearrangeAt path h hps
  have hframe : Frame.empty.bindAll
      ((rearrangeAt order path p.procedures).map fun p => p.header.entry) = g :=
    hps'.eq_bindAll.symm
  have hframe₀ : Frame.empty.bindAll (p.procedures.map fun p => p.header.entry) = g :=
    hps.eq_bindAll.symm
  unfold Program.annotated Program.rearrange
  dsimp only
  rw [hframe, hframe₀, hnodes]

/-! ## Tables -/

/-- Reordered procedures have the same headers, in some order. -/
theorem Reordered.headers_perm {ps ps' : List Procedure} (h : Reordered ps ps') :
    (ps.map Procedure.header).Perm (ps'.map Procedure.header) := by
  induction h with
  | here h => exact h.map _
  | inside qs _ _ => exact .refl _
  | behind p _ ih => exact ih.cons _

/-- Procedures in a row have one outline each. -/
theorem procedureOutlines_eq_map (ps : List Procedure) :
    procedureOutlines ps = ps.map Procedure.outline := by
  induction ps with
  | nil => rfl
  | cons p ps ih => rw [procedureOutlines, ih, List.map_cons]

/-- Reordered procedures have the same entries, in some order. -/
theorem Reordered.entries_perm {ps ps' : List Procedure} (h : Reordered ps ps') :
    (ps.map fun p => p.header.entry).Perm (ps'.map fun p => p.header.entry) := by
  have hperm := h.headers_perm.map Header.entry
  rw [List.map_map, List.map_map] at hperm
  exact hperm

/-- A table that holds the scopes of procedures holds them in another order too. -/
theorem Reordered.lays {ps ps' : List Procedure} (h : Reordered ps ps') {t : Table}
    {around : Option Nat} {ids : List Nat} (hl : t.LaysAll around (procedureOutlines ps) ids) :
    ∃ ids', ids'.Perm ids ∧ t.LaysAll around (procedureOutlines ps') ids' := by
  induction h generalizing around ids with
  | here hperm =>
    rw [procedureOutlines_eq_map] at hl ⊢
    exact hl.of_perm (hperm.map _)
  | inside qs hps ih =>
    cases hl with
    | cons hp hqs =>
      cases hp with
      | mk hs hb hinner =>
        obtain ⟨ids₁, ids₂, rfl, hps₁, hss⟩ := hinner.exists_of_append
        obtain ⟨ids₁', hperm, hps₁'⟩ := ih hps₁
        refine ⟨_, ?_, .cons (.mk hs (hb.trans ?_) (hps₁'.append hss)) hqs⟩
        · exact ((hperm.append_right _).cons _).append_right _
        · exact ((hps.entries_perm.append_right _).append_left _).map _
  | behind p _ ih =>
    cases hl with
    | cons hp hps =>
      obtain ⟨ids', hperm, hps'⟩ := ih hps
      exact ⟨_, hperm.append_left _, .cons hp hps'⟩

namespace Table

variable {t t' : Table}

/-- The tables differ in the numbers of their scopes, which `σ` translates, and in the order in
    which the names of a scope were bound. -/
structure Renumbered (t : Table) (σ : Nat → Nat) (t' : Table) : Prop where
  bijOn : Set.BijOn σ {k | k < t.scopes.size} {k | k < t'.scopes.size}
  path_eq : t'.path = t.path.map σ
  scope : ∀ k s, t.scope? k = some s → ∃ s', t'.scope? (σ k) = some s' ∧ s'.id = σ s.id ∧
    s'.parent? = s.parent?.map σ ∧
    s'.bindings.Perm (s.bindings.map fun b => (b.1, ⟨b.2.entity, σ b.2.scope⟩))

/-- A scope lies in the scope of the address that is one step shorter. -/
theorem Numbers.parent?_eq_map {o : Outline} {number number' : List Nat → Nat} {σ : Nat → Nat}
    (h : t.Numbers none o number) (h' : t'.Numbers none o number')
    (hσ : ∀ a, (o.at? a).isSome → σ (number a) = number' a) {a : List Nat}
    (ha : (o.at? a).isSome) : t'.parent? (number' a) = (t.parent? (number a)).map σ := by
  rcases List.eq_nil_or_concat a with rfl | ⟨b, i, rfl⟩
  · rw [h.root, h'.root]
    rfl
  · rw [List.concat_eq_append] at ha ⊢
    rw [h.inside b i ha, h'.inside b i ha, Option.map_some, hσ b (Outline.isSome_at?_of_append ha)]

/-- Tables that hold the same declaration structure, and nothing else, differ in their numbers:
    the scope of an address gets the number that the other table has for the address. -/
theorem renumbered_of_numbers {o : Outline} {number number' : List Nat → Nat}
    (h : t.Numbers none o number) (h' : t'.Numbers none o number')
    (hbij : Set.BijOn number {a | (o.at? a).isSome} {k | k < t.scopes.size})
    (hbij' : Set.BijOn number' {a | (o.at? a).isSome} {k | k < t'.scopes.size})
    (hpath : t.path = [number []]) (hpath' : t'.path = [number' []]) :
    ∃ σ, t.Renumbered σ t' := by
  -- from a number of the first table to its address, and on to the number that the second table
  -- gives to it
  let address := Function.invFunOn number {a | (o.at? a).isSome}
  have hinv : Set.InvOn address number {a | (o.at? a).isSome} {k | k < t.scopes.size} :=
    hbij.invOn_invFunOn
  have hσ : ∀ a, (o.at? a).isSome → number' (address (number a)) = number' a := by
    intro a ha
    rw [hinv.left ha]
  refine ⟨fun k => number' (address k), hbij'.comp (hbij.symm hinv.symm), ?_, ?_⟩
  · rw [hpath, hpath', List.map_singleton, hσ [] rfl]
  · intro k s hs
    obtain ⟨a, ha, rfl⟩ := hbij.surjOn (lt_size_of_scope? hs)
    obtain ⟨oa, hoa⟩ := Option.isSome_iff_exists.mp ha
    obtain ⟨s₁, hs₁, hid, hb⟩ := h.scope a oa hoa
    obtain ⟨s', hs', hid', hb'⟩ := h'.scope a oa hoa
    obtain rfl := Option.some.inj (hs.symm.trans hs₁)
    have hparent : t'.parent? (number' a) =
        (t.parent? (number a)).map fun k => number' (address k) := h.parent?_eq_map h' hσ ha
    rw [parent?, parent?, hs, hs'] at hparent
    refine ⟨s', ?_, ?_, hparent, ?_⟩
    · rw [hσ a ha]
      exact hs'
    · rw [hid, hid', hσ a ha]
    · have hbound : (bound (number a) oa.names).map
          (fun b => (b.1, (⟨b.2.entity, number' (address b.2.scope)⟩ : Symbol))) =
            bound (number' a) oa.names := by
        rw [bound, List.map_map, bound]
        refine List.map_congr_left fun b _ => ?_
        rw [Function.comp_apply, hσ a ha]
      have hmap := hb.map fun b => (b.1, (⟨b.2.entity, number' (address b.2.scope)⟩ : Symbol))
      rw [hbound] at hmap
      exact hb'.trans hmap.symm

end Table

/-- A table that holds a program holds it in every order of siblings, with the scopes numbered as
    they are. -/
theorem Program.lays_rearrange {p : Program} {path order : List Nat}
    (h : order.Perm (List.range (p.siblings path).length)) {t : Table} {around : Option Nat}
    {id : Nat} {ids : List Nat} (hl : t.Lays around p.outline (id :: ids)) :
    ∃ ids', ids'.Perm ids ∧ t.Lays around (p.rearrange path order).outline (id :: ids') := by
  have hps := reordered_rearrangeAt path h
  cases hl with
  | mk hs hb hinner =>
    obtain ⟨ids', hperm, hinner'⟩ := hps.lays hinner
    exact ⟨ids', hperm, .mk hs (hb.trans (hps.entries_perm.map _)) hinner'⟩

/-! ## Programs -/

/-- The tables of the two programs hold the same outline, so they agree up to numbers. -/
theorem Program.renumbered_rearrange {p : Program} {path order : List Nat}
    (h : order.Perm (List.range (p.siblings path).length)) (hok : p.typeCheck.result = .ok ())
    (hok' : (p.rearrange path order).typeCheck.result = .ok ()) :
    ∃ σ, p.typeCheck.table.Renumbered σ (p.rearrange path order).typeCheck.table := by
  obtain ⟨-, hpath, ids, hl, hids⟩ := Program.typeCheck_lays hok
  obtain ⟨-, hpath', ids', hl', hids'⟩ := Program.typeCheck_lays hok'
  -- both tables hold the structure of the program in the new order
  obtain ⟨ids₁, hperm, hl₁⟩ := Program.lays_rearrange h hl
  obtain ⟨number, hroot, hnumbers, hbij⟩ := hl₁.exists_bijOn ((hperm.cons _).trans hids)
  obtain ⟨number', hroot', hnumbers', hbij'⟩ := hl'.exists_bijOn hids'
  refine renumbered_of_numbers hnumbers hnumbers' hbij hbij' ?_ ?_
  · rw [hpath, hroot]
  · rw [hpath', hroot']

/-- **The order of siblings does not matter.**  With the top level procedures in another order, or
    the nested procedures of any procedure, a program is accepted if and only if it was before.
    Then the check hands back the same annotated procedures in the new order, and leaves the same
    symbol table up to the numbers of the scopes. -/
theorem typeCheck_rearrange (p : Program) (path order : List Nat)
    (h : order.Perm (List.range (p.siblings path).length)) :
    let p' := p.rearrange path order
    (p'.typeCheck.result = .ok () ↔ p.typeCheck.result = .ok ()) ∧
    (p.typeCheck.result = .ok () →
      p'.typeCheck.node = p.typeCheck.node.rearrange path order ∧
      ∃ σ, p.typeCheck.table.Renumbered σ p'.typeCheck.table) := by
  intro p'
  have hps := reordered_rearrangeAt path h
  have hiff : p'.typeCheck.result = .ok () ↔ p.typeCheck.result = .ok () := by
    rw [Program.typeCheck_eq_ok_iff, Program.typeCheck_eq_ok_iff]
    constructor
    · rintro ⟨g, hok, hmain⟩
      exact ⟨g, hps.symm.accepted hok, hmain⟩
    · rintro ⟨g, hok, hmain⟩
      exact ⟨g, hps.accepted hok, hmain⟩
  refine ⟨hiff, fun hok => ⟨?_, Program.renumbered_rearrange h hok (hiff.mpr hok)⟩⟩
  rw [Program.typeCheck_node (hiff.mpr hok), Program.typeCheck_node hok]
  exact Program.annotated_rearrange h hok

/-- `Main` with two nested procedures that call one another, the first of them with a block. -/
def turnsProgram : Program where
  procedures :=
    [.mk ⟨"Main", [], ⟨.integer, .bare 1⟩, .bare 1⟩
      (.mk
        [.mk ⟨"Ping", [⟨["n"], ⟨.integer, .bare 2⟩, .bare 2⟩], ⟨.integer, .bare 2⟩, .bare 2⟩
          (.mk [] []
            [.ifThen (.bare 3) (.binary (.bare 3) .greater (.named (.bare 3) "n")
                (.integer (.bare 3) 0))
              (.mk [] [.call (.bare 4) (.named (.bare 4) "n") "Pong" [.named (.bare 4) "n"]]
                (.bare 3))]
            ⟨.named (.bare 5) "n", .bare 5⟩ (.bare 2)),
         .mk ⟨"Pong", [⟨["n"], ⟨.integer, .bare 7⟩, .bare 7⟩], ⟨.integer, .bare 7⟩, .bare 7⟩
          (.mk [] []
            [.call (.bare 8) (.named (.bare 8) "n") "Ping"
              [.binary (.bare 8) .minus (.named (.bare 8) "n") (.integer (.bare 8) 1)]]
            ⟨.named (.bare 9) "n", .bare 9⟩ (.bare 7))]
        [] [] ⟨.integer (.bare 11) 0, .bare 11⟩ (.bare 1))]
  attr := .bare 1

/-- Two siblings change places, and the numbers of their scopes do too. -/
theorem typeCheck_rearrange_turns :
    [1, 0].Perm (List.range (turnsProgram.siblings [0]).length) ∧
    turnsProgram.typeCheck.result = .ok () ∧
    (turnsProgram.rearrange [0] [1, 0]).typeCheck.result = .ok () ∧
    (turnsProgram.rearrange [0] [1, 0]).typeCheck.table ≠ turnsProgram.typeCheck.table ∧
    (turnsProgram.rearrange [0] [1, 0]).typeCheck.node =
      turnsProgram.typeCheck.node.rearrange [0] [1, 0] ∧
    ∃ σ, turnsProgram.typeCheck.table.Renumbered σ
      (turnsProgram.rearrange [0] [1, 0]).typeCheck.table := by
  have horder : [1, 0].Perm (List.range (turnsProgram.siblings [0]).length) := by decide
  have hok : turnsProgram.typeCheck.result = .ok () := by decide +kernel
  obtain ⟨hiff, hsame⟩ := typeCheck_rearrange turnsProgram [0] [1, 0] horder
  obtain ⟨hnode, hrenumbered⟩ := hsame hok
  exact ⟨horder, hok, hiff.mpr hok, by decide +kernel, hnode, hrenumbered⟩

end ProcLang
