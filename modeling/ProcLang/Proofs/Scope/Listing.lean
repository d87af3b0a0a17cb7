/-
  The written form of a table is canonical.

  Two tables are the `Same` when they have the same scopes inside one another, with the same names
  for the same things; the order in which names were bound is left out.  A table is `Plain` when
  it is valid, its names are words, and they stand for what a program can declare.  On plain
  tables `dump` is equal exactly for those that are the same (`Plain.dump_eq_iff`).

  1. **Down from the table.**  No scope has a name twice, so the listed names increase strictly,
     and what is listed depends on what is found in the scope only (`listed_eq_iff`).
  2. **Up from the text.**  No line has a newline in it, so the text can be cut into its lines.
     A headline is told from the line of a name by its first character, which gives the scopes
     back (`eq_of_flatMap_eq`).  In the line of a name the first colon ends the name
     (`entryLine_inj`); behind it, the first closing parenthesis ends the types of the parameters,
     and commas stand between them (`Entity.describe_inj`).
-/
import ProcLang.Proofs.Lexical.Grammar
import ProcLang.Proofs.Scope.Invariant
import ProcLang.Proofs.Source.Place
import ProcLang.Proofs.Text.ByteOrder
import ProcLang.Proofs.Typing.Nodes
import ProcLang.Scope.Dump

namespace ProcLang

open ProcLang.Text

/-! ## Taking lists apart -/

/-- Two lists that are equal are cut at the first `a` into the same parts. -/
theorem eq_of_append_cons_eq {α : Type} {a : α} {xs xs' ys ys' : List α} (hxs : a ∉ xs)
    (hxs' : a ∉ xs') (h : xs ++ a :: ys = xs' ++ a :: ys') : xs = xs' ∧ ys = ys' := by
  induction xs generalizing xs' with
  | nil =>
    cases xs' with
    | nil => exact ⟨rfl, (List.cons.inj h).2⟩
    | cons x' xs' => exact absurd ((List.cons.inj h).1 ▸ List.mem_cons_self) hxs'
  | cons x xs ih =>
    cases xs' with
    | nil => exact absurd ((List.cons.inj h).1 ▸ List.mem_cons_self) hxs
    | cons x' xs' =>
      obtain ⟨rfl, htail⟩ := List.cons.inj h
      obtain ⟨rfl, rfl⟩ := ih (fun ha => hxs (List.mem_cons_of_mem _ ha))
        (fun ha => hxs' (List.mem_cons_of_mem _ ha)) htail
      exact ⟨rfl, rfl⟩

/-- Groups that are put one behind the other can be told apart by their marked heads. -/
theorem eq_of_flatMap_eq {α : Type} {marked : α → Bool} {gs gs' : List (α × List α)}
    (hgs : ∀ g ∈ gs, marked g.1 = true ∧ ∀ x ∈ g.2, marked x = false)
    (hgs' : ∀ g ∈ gs', marked g.1 = true ∧ ∀ x ∈ g.2, marked x = false)
    (h : gs.flatMap (fun g => g.1 :: g.2) = gs'.flatMap fun g => g.1 :: g.2) : gs = gs' := by
  -- what stands in front of the next head
  have hfront : ∀ (xs : List α) (gs : List (α × List α)), (∀ x ∈ xs, marked x = false) →
      (∀ g ∈ gs, marked g.1 = true ∧ ∀ x ∈ g.2, marked x = false) →
      (xs ++ gs.flatMap fun g => g.1 :: g.2).takeWhile (! marked ·) = xs := by
    intro xs gs hxs hgs
    rw [List.takeWhile_append_of_pos (by simpa using hxs)]
    cases gs with
    | nil => rw [List.flatMap_nil, List.takeWhile_nil, List.append_nil]
    | cons g gs =>
      have hhead := (List.forall_mem_cons.mp hgs).1.1
      rw [List.flatMap_cons, List.cons_append, List.takeWhile_cons_of_neg (by simpa using hhead),
        List.append_nil]
  induction gs generalizing gs' with
  | nil =>
    cases gs' with
    | nil => rfl
    | cons g' gs' => cases h
  | cons g gs ih =>
    cases gs' with
    | nil => cases h
    | cons g' gs' =>
      obtain ⟨⟨-, hg⟩, hrest⟩ := List.forall_mem_cons.mp hgs
      obtain ⟨⟨-, hg'⟩, hrest'⟩ := List.forall_mem_cons.mp hgs'
      obtain ⟨hhead, hbehind⟩ : g.1 = g'.1 ∧
          g.2 ++ gs.flatMap (fun g => g.1 :: g.2) = g'.2 ++ gs'.flatMap fun g => g.1 :: g.2 :=
        List.cons.inj h
      have htail : g.2 = g'.2 := by
        rw [← hfront g.2 gs hg hrest, ← hfront g'.2 gs' hg' hrest', hbehind]
      rw [htail] at hbehind
      rw [Prod.ext hhead htail, ih hrest hrest' (List.append_cancel_left hbehind)]

/-! ## What a name stands for -/

/-- The names of basetypes are in lower case. -/
theorem Basetype.isLower_of_mem_name {b : Basetype} : ∀ c ∈ b.name.toList, c.isLower = true := by
  have hall : b.name.toList.all Char.isLower = true := by cases b <;> decide
  exact List.all_eq_true.mp hall

/-- None of them is empty. -/
theorem Basetype.name_ne_empty (b : Basetype) : b.name.toList ≠ [] := by
  cases b <;> decide

/-- No two basetypes have one name. -/
theorem Basetype.name_inj {b b' : Basetype} (h : b.name = b'.name) : b = b' := by
  cases b <;> cases b' <;> first | rfl | exact absurd h (by decide)

/-- Punctuation does not occur in the name of a basetype. -/
theorem Basetype.notMem_name {b : Basetype} {c : Char} (hc : c.isLower = false) :
    c ∉ b.name.toList := fun h => by
  rw [isLower_of_mem_name c h] at hc
  cases hc

/-- No variable is declared as a procedure. -/
theorem Basetype.IsDeclared.ne_procedure {b : Basetype} (h : b.IsDeclared) : b ≠ .procedure := by
  obtain ⟨d, rfl⟩ := h
  cases d <;> exact Basetype.noConfusion

/-- The names of types, with commas between them. -/
def joined (bs : List Basetype) : String := ", ".intercalate (bs.map Basetype.name)

/-- The first name of a list, a comma, and the other names. -/
theorem toList_joined_cons (b b' : Basetype) (bs : List Basetype) :
    (joined (b :: b' :: bs)).toList =
      b.name.toList ++ ',' :: ' ' :: (joined (b' :: bs)).toList := by
  rw [joined, List.map_cons, List.map_cons, String.intercalate_cons_cons, String.toList_append,
    String.toList_append, List.append_assoc]
  rfl

/-- A list of one name is the name. -/
theorem toList_joined_singleton (b : Basetype) : (joined [b]).toList = b.name.toList := by
  rw [joined, List.map_cons, List.map_nil, String.intercalate_singleton]

/-- Other punctuation than commas and spaces does not occur in a list of names. -/
theorem notMem_joined {c : Char} (hc : c.isLower = false) (hcomma : c ≠ ',') (hspace : c ≠ ' ')
    (bs : List Basetype) : c ∉ (joined bs).toList := by
  induction bs with
  | nil => exact List.not_mem_nil
  | cons b bs ih =>
    cases bs with
    | nil =>
      rw [toList_joined_singleton]
      exact Basetype.notMem_name hc
    | cons b' bs =>
      rw [toList_joined_cons]
      simp [Basetype.notMem_name hc, hcomma, hspace, ih]

/-- The names of basetypes can be read back from their list. -/
theorem joined_inj {bs bs' : List Basetype} (h : joined bs = joined bs') : bs = bs' := by
  have hcomma : ∀ b : Basetype, ',' ∉ b.name.toList := fun _ => Basetype.notMem_name rfl
  replace h := congrArg String.toList h
  induction bs generalizing bs' with
  | nil =>
    match bs' with
    | [] => rfl
    | [b'] =>
      rw [toList_joined_singleton] at h
      exact absurd h.symm b'.name_ne_empty
    | b' :: c' :: bs' =>
      rw [toList_joined_cons] at h
      exact absurd h.symm (List.append_ne_nil_of_right_ne_nil _ (List.cons_ne_nil _ _))
  -- bs, b' :: c' :: bs' => :: the first comma ends the first name
  | cons b bs ih =>
    match bs, bs' with
    | [], [] =>
      rw [toList_joined_singleton] at h
      exact absurd h b.name_ne_empty
    | [], [b'] =>
      rw [toList_joined_singleton, toList_joined_singleton] at h
      rw [Basetype.name_inj (String.toList_injective h)]
    -- c' :: bs' => :: a comma tells a list of two names or more from a single one
    | [], b' :: c' :: bs' =>
      rw [toList_joined_singleton, toList_joined_cons] at h
      exact absurd (h ▸ List.mem_append_right _ List.mem_cons_self) (hcomma b)
    | c :: bs, [] =>
      rw [toList_joined_cons] at h
      exact absurd h (List.append_ne_nil_of_right_ne_nil _ (List.cons_ne_nil _ _))
    | c :: bs, [b'] =>
      rw [toList_joined_singleton, toList_joined_cons] at h
      exact absurd (h ▸ List.mem_append_right _ List.mem_cons_self) (hcomma b')
    | c :: bs, b' :: c' :: bs' =>
      rw [toList_joined_cons, toList_joined_cons] at h
      obtain ⟨hname, hrest⟩ := eq_of_append_cons_eq (hcomma b) (hcomma b') h
      rw [Basetype.name_inj (String.toList_injective hname), ih (List.cons.inj hrest).2]

namespace Entity

/-- A variable is described by the name of its basetype. -/
theorem describe_value {b : Basetype} (h : b.IsDeclared) : (value b).describe = b.name := by
  have hne : ¬ (value b).isProcedure = true := fun hp => h.ne_procedure (of_decide_eq_true hp)
  rw [describe, if_neg hne]
  rfl

/-- A procedure is described by the types of its parameters and that of its result. -/
theorem toList_describe_procedure (bs : List Basetype) (b : Basetype) :
    (procedure bs b).describe.toList =
      "procedure(".toList ++
        ((joined bs).toList ++ ')' :: (" return ".toList ++ b.name.toList)) := by
  rw [show (procedure bs b).describe = "procedure(" ++ joined bs ++ ") return " ++ b.name from rfl]
  simp only [String.toList_append, List.append_assoc]
  rfl

/-- What is declared can be read back from its description. -/
theorem describe_inj {e e' : Entity} (he : e.Declared) (he' : e'.Declared)
    (h : e.describe = e'.describe) : e = e' := by
  -- procedures are written with parentheses, and no name of a basetype has one
  have hopen : ∀ (bs : List Basetype) (b b' : Basetype),
      b'.name.toList ≠ (procedure bs b).describe.toList := by
    intro bs b b' hname
    have hmem : '(' ∈ b'.name.toList := by
      rw [hname, toList_describe_procedure]
      exact List.mem_append_left _ (by decide)
    exact Basetype.notMem_name rfl hmem
  cases e with
  | value b =>
    rw [describe_value he] at h
    cases e' with
    | value b' =>
      rw [describe_value he'] at h
      rw [Basetype.name_inj h]
    | procedure bs' b' => exact absurd (congrArg String.toList h) (hopen bs' b' b)
  | procedure bs b =>
    cases e' with
    | value b' =>
      rw [describe_value he'] at h
      exact absurd (congrArg String.toList h.symm) (hopen bs b b')
    | procedure bs' b' =>
      have hlists := congrArg String.toList h
      rw [toList_describe_procedure, toList_describe_procedure] at hlists
      -- so the first closing one ends the parameters, on both sides at the same place
      have hclose : ∀ bs : List Basetype, ')' ∉ (joined bs).toList :=
        notMem_joined rfl (by decide) (by decide)
      obtain ⟨hparameters, hresult⟩ :=
        eq_of_append_cons_eq (hclose bs) (hclose bs') (List.append_cancel_left hlists)
      rw [joined_inj (String.toList_injective hparameters),
        Basetype.name_inj (String.toList_injective (List.append_cancel_left hresult))]

/-- A description is in one line. -/
theorem newline_notMem_describe (e : Entity) (he : e.Declared) : '\n' ∉ e.describe.toList := by
  cases e with
  | value b =>
    rw [describe_value he]
    exact Basetype.notMem_name rfl
  | procedure bs b =>
    rw [toList_describe_procedure]
    have hparameters := notMem_joined (c := '\n') rfl (by decide) (by decide) bs
    have hresult := Basetype.notMem_name (b := b) (c := '\n') rfl
    simp [hparameters, hresult]

end Entity

/-! ## Lines -/

/-- The line of a name. -/
def entryLine (b : String × Entity) : String := "  " ++ b.1 ++ ": " ++ b.2.describe

/-- The name is a word, and stands for what can be declared. -/
def PlainEntry (b : String × Entity) : Prop := Lexeme.IsWord b.1.toList ∧ b.2.Declared

/-- The line of a name: the name, a colon, and the description. -/
theorem toList_entryLine (b : String × Entity) :
    (entryLine b).toList =
      ' ' :: ' ' :: (b.1.toList ++ ':' :: ' ' :: b.2.describe.toList) := by
  simp only [entryLine, String.toList_append, List.append_assoc]
  rfl

/-- Only parts of words occur in a word. -/
theorem Lexeme.IsWord.notMem {cs : List Char} {c : Char} (h : IsWord cs)
    (hc : isWordPart c = false) : c ∉ cs := by
  obtain ⟨d, ds, rfl, hd, hds⟩ := h
  intro hmem
  have hpart : isWordPart c = true := by
    rcases List.mem_cons.mp hmem with rfl | hmem
    · exact isWordPart_of_isWordStart hd
    · exact hds c hmem
  rw [hc] at hpart
  cases hpart

/-- A name and what it stands for can be read back from their line, since no colon occurs in a
    word. -/
theorem entryLine_inj {b b' : String × Entity} (hb : PlainEntry b) (hb' : PlainEntry b')
    (h : entryLine b = entryLine b') : b = b' := by
  have hlists := congrArg String.toList h
  rw [toList_entryLine, toList_entryLine] at hlists
  have hnames := (List.cons.inj (List.cons.inj hlists).2).2
  obtain ⟨hname, hentity⟩ := eq_of_append_cons_eq (hb.1.notMem rfl) (hb'.1.notMem rfl) hnames
  exact Prod.ext (String.toList_injective hname) (Entity.describe_inj hb.2 hb'.2
    (String.toList_injective (List.cons.inj hentity).2))

/-- The line of a name is one line. -/
theorem newline_notMem_entryLine {b : String × Entity} (hb : PlainEntry b) :
    '\n' ∉ (entryLine b).toList := by
  have hname := hb.1.notMem (c := '\n') rfl
  have hentity := b.2.newline_notMem_describe hb.2
  rw [toList_entryLine]
  simp [hname, hentity]

/-- Names and what they stand for can be read back from their lines. -/
theorem map_entryLine_inj {bs bs' : List (String × Entity)} (hbs : ∀ b ∈ bs, PlainEntry b)
    (hbs' : ∀ b ∈ bs', PlainEntry b) (h : bs.map entryLine = bs'.map entryLine) : bs = bs' := by
  induction bs generalizing bs' with
  | nil => exact (List.map_eq_nil_iff.mp h.symm).symm
  | cons b bs ih =>
    cases bs' with
    | nil => cases h
    | cons b' bs' =>
      obtain ⟨hb, hbs⟩ := List.forall_mem_cons.mp hbs
      obtain ⟨hb', hbs'⟩ := List.forall_mem_cons.mp hbs'
      obtain ⟨hline, hlines⟩ := List.cons.inj h
      rw [entryLine_inj hb hb' hline, ih hbs hbs' hlines]

/-! ## Headlines -/

/-- A number is in one line. -/
theorem newline_notMem_toDigits (n : Nat) : '\n' ∉ Nat.toDigits 10 n := by
  intro h
  have hdigit := Nat.isDigit_of_mem_toDigits (by decide) (by decide) h
  cases hdigit

/-- A number can be read back from its digits. -/
theorem toDigits_inj {n n' : Nat} (h : Nat.toDigits 10 n = Nat.toDigits 10 n') : n = n' := by
  rw [← Nat.ofDigitChars_ten_toDigits (n := n), h, Nat.ofDigitChars_ten_toDigits]

namespace Scope

/-- A headline begins with a letter, where the line of a name begins with a space. -/
theorem headline_eq_cons (s : Scope) : ∃ cs, s.headline.toList = 's' :: cs := by
  simp only [headline, String.toList_append, List.append_assoc]
  exact ⟨_, rfl⟩

/-- A headline is in one line. -/
theorem newline_notMem_headline (s : Scope) : '\n' ∉ s.headline.toList := by
  obtain ⟨id, parent?, bindings⟩ := s
  cases parent? with
  | none => simp [headline, newline_notMem_toDigits]
  | some p => simp [headline, newline_notMem_toDigits]

/-- The headline tells the scope around. -/
theorem headline_inj {s s' : Scope} (hid : s.id = s'.id) (h : s.headline = s'.headline) :
    s.parent? = s'.parent? := by
  obtain ⟨id, parent?, bindings⟩ := s
  obtain ⟨id', parent?', bindings'⟩ := s'
  obtain rfl : id = id' := hid
  have hlists := congrArg String.toList h
  cases parent? with
  | none =>
    cases parent?' with
    | none => rfl
    | some p' => simp [headline] at hlists
  | some p =>
    cases parent?' with
    | none => simp [headline] at hlists
    | some p' =>
      have hdigits : Nat.toDigits 10 p = Nat.toDigits 10 p' := by simpa [headline] using hlists
      rw [toDigits_inj hdigits]

/-! ## What a scope lists -/

/-- The names of a scope as they are listed, with what they stand for. -/
def listed (s : Scope) : List (String × Entity) := s.sorted.map fun b => (b.1, b.2.entity)

/-- The report of a scope is its headline and the lines of its names. -/
theorem report_eq (s : Scope) : s.report = s.headline :: s.listed.map entryLine := by
  rw [report, listed, List.map_map]
  rfl

/-- The listed names are the bound names in another order. -/
theorem perm_listed (s : Scope) :
    s.listed.Perm (s.bindings.map fun b => (b.1, b.2.entity)) :=
  (List.mergeSort_perm _ _).map _

variable {s s' : Scope}

/-- In a scope that has no name twice, what is found of a name is what was bound. -/
theorem find?_eq_some_iff (h : (s.bindings.map Prod.fst).Nodup) {x : String} {y : Symbol} :
    s.find? x = some y ↔ (x, y) ∈ s.bindings := by
  refine ⟨mem_of_find?, fun hmem => ?_⟩
  obtain ⟨front, back, hsplit⟩ := List.append_of_mem hmem
  refine List.lookup_eq_some_iff.mpr ⟨front, back, hsplit, fun b hb => ?_⟩
  rw [hsplit, List.map_append, List.map_cons] at h
  have hne := (List.nodup_append.mp h).2.2 b.1 (List.mem_map_of_mem hb) x List.mem_cons_self
  simpa using hne.symm

/-- A scope lists what is found in it. -/
theorem mem_listed (h : (s.bindings.map Prod.fst).Nodup) {x : String} {e : Entity} :
    (x, e) ∈ s.listed ↔ (s.find? x).map Symbol.entity = some e := by
  rw [s.perm_listed.mem_iff, List.mem_map, Option.map_eq_some_iff]
  constructor
  · rintro ⟨⟨x', y⟩, hmem, hb⟩
    obtain ⟨rfl, rfl⟩ := Prod.mk.inj hb
    exact ⟨y, (find?_eq_some_iff h).mpr hmem, rfl⟩
  · rintro ⟨y, hy, rfl⟩
    exact ⟨(x, y), (find?_eq_some_iff h).mp hy, rfl⟩

/-- Each name comes once, in order. -/
theorem pairwise_listed (h : (s.bindings.map Prod.fst).Nodup) :
    s.listed.Pairwise fun b b' => b.1 < b'.1 := by
  have hle : s.sorted.Pairwise fun b b' => decide (b.1 ≤ b'.1) = true := by
    refine List.pairwise_mergeSort ?_ ?_ _
    · intro b b' b'' hb hb'
      exact decide_eq_true (le_trans (of_decide_eq_true hb) (of_decide_eq_true hb'))
    · intro b b'
      simpa using le_total b.1 b'.1
  have hne : s.sorted.Pairwise fun b b' => b.1 ≠ b'.1 :=
    List.pairwise_map.mp (((List.mergeSort_perm _ _).map Prod.fst).nodup_iff.mpr h)
  refine List.pairwise_map.mpr ((hle.and hne).imp fun hb => ?_)
  exact lt_of_le_of_ne (of_decide_eq_true hb.1) hb.2

/-- What is listed depends on what is found, and not on the order in which it was bound. -/
theorem listed_eq_iff (h : (s.bindings.map Prod.fst).Nodup)
    (h' : (s'.bindings.map Prod.fst).Nodup) :
    s.listed = s'.listed ↔
      ∀ x, (s.find? x).map Symbol.entity = (s'.find? x).map Symbol.entity := by
  constructor
  · intro heq x
    refine Option.ext fun e => ?_
    rw [← mem_listed h, ← mem_listed h', heq]
  · intro hfind
    have hnodup : ∀ {s : Scope}, (s.bindings.map Prod.fst).Nodup → s.listed.Nodup := fun h =>
      (pairwise_listed h).imp fun hlt heq => absurd (congrArg Prod.fst heq) (ne_of_lt hlt)
    have hperm : s.listed.Perm s'.listed := by
      refine (List.perm_ext_iff_of_nodup (hnodup h) (hnodup h')).mpr fun b => ?_
      rw [mem_listed h, mem_listed h', hfind]
    exact hperm.eq_of_pairwise (fun b b' _ _ hlt hlt' => absurd hlt' (lt_asymm hlt))
      (pairwise_listed h) (pairwise_listed h')

end Scope

/-! ## What a table lists -/

namespace Table

variable {t t' : Table}

/-- The same scopes inside one another, with the same names for the same things. -/
structure Same (t t' : Table) : Prop where
  size : t.scopes.size = t'.scopes.size
  parent : ∀ k, t.parent? k = t'.parent? k
  frame : ∀ k, t.frame k = t'.frame k

/-- A valid table, whose names are words and stand for what can be declared. -/
structure Plain (t : Table) : Prop where
  valid : t.Valid
  entries : ∀ k s, t.scope? k = some s → ∀ b ∈ s.bindings, PlainEntry (b.1, b.2.entity)

/-- The scopes of a table are those that have a number. -/
theorem mem_scopes_iff {s : Scope} : s ∈ t.scopes.toList ↔ ∃ k, t.scope? k = some s := by
  rw [List.mem_iff_getElem?]
  simp only [Array.getElem?_toList]
  rfl

/-- A scope in the text: its headline, and the lines of its names. -/
def group (s : Scope) : String × List String := (s.headline, s.listed.map entryLine)

/-- The report of a table is that of its scopes, one behind the other. -/
theorem report_eq_flatMap (t : Table) :
    t.report = (t.scopes.toList.map group).flatMap fun g => g.1 :: g.2 := by
  rw [report, List.flatMap_map]
  exact congrArg (List.flatMap · _) (funext Scope.report_eq)

/-- What a plain table lists can be told from its lines. -/
theorem Plain.entry_of_mem (h : t.Plain) {k : Nat} {s : Scope} (hs : t.scope? k = some s) :
    ∀ b ∈ s.listed, PlainEntry b := by
  intro b hb
  obtain ⟨c, hc, rfl⟩ := List.mem_map.mp (s.perm_listed.mem_iff.mp hb)
  exact h.entries k s hs c hc

/-- Each line of a plain table is one line. -/
theorem Plain.newline_notMem (h : t.Plain) : ∀ l ∈ t.report, '\n' ∉ l.toList := by
  intro l hl
  obtain ⟨s, hs, hl⟩ := List.mem_flatMap.mp hl
  obtain ⟨k, hs⟩ := mem_scopes_iff.mp hs
  rw [s.report_eq] at hl
  rcases List.mem_cons.mp hl with rfl | hl
  · exact s.newline_notMem_headline
  · obtain ⟨b, hb, rfl⟩ := List.mem_map.mp hl
    exact newline_notMem_entryLine (h.entry_of_mem hs b hb)

/-- The text is cut into the lines of the report. -/
theorem Plain.lines_dump (h : t.Plain) :
    Source.lines t.dump.toList = t.report.map fun l => l.toList ++ ['\n'] := by
  have hcut : ∀ ls : List String, (∀ l ∈ ls, '\n' ∉ l.toList) →
      Source.Cut (ls.map fun l => l.toList ++ ['\n']) := by
    intro ls hls
    induction ls with
    | nil => exact .nil
    | cons l ls ih =>
      obtain ⟨hl, hls⟩ := List.forall_mem_cons.mp hls
      exact .cons hl (ih hls)
  refine Source.lines_eq_iff.mpr ⟨hcut _ h.newline_notMem, ?_⟩
  rw [dump, String.toList_join, List.flatMap_map, List.flatMap_def]
  refine congrArg List.flatten (List.map_congr_left fun l _ => ?_)
  rw [String.toList_append]
  rfl

/-- A headline is told from the line of a name by its first character. -/
def isHeadline (l : String) : Bool := l.toList.head? = some 's'

/-- Headlines and lines of names can be told apart. -/
theorem isHeadline_of_mem_groups (t : Table) : ∀ g ∈ t.scopes.toList.map group,
    isHeadline g.1 = true ∧ ∀ l ∈ g.2, isHeadline l = false := by
  intro g hg
  obtain ⟨s, -, rfl⟩ := List.mem_map.mp hg
  obtain ⟨cs, hcs⟩ := s.headline_eq_cons
  refine ⟨by simp [group, isHeadline, hcs], fun l hl => ?_⟩
  obtain ⟨b, -, rfl⟩ := List.mem_map.mp hl
  simp [isHeadline, toList_entryLine]

/-- Tables have the same text when they have the same groups of lines. -/
theorem Plain.dump_eq_iff_groups (h : t.Plain) (h' : t'.Plain) :
    t.dump = t'.dump ↔ t.scopes.toList.map group = t'.scopes.toList.map group := by
  constructor
  · intro heq
    have hlines := congrArg (Source.lines ·.toList) heq
    rw [h.lines_dump, h'.lines_dump] at hlines
    have hreport : t.report = t'.report := List.map_injective_iff.mpr
      (fun l l' hl => String.toList_injective (List.append_cancel_right hl)) hlines
    rw [report_eq_flatMap, report_eq_flatMap] at hreport
    exact eq_of_flatMap_eq t.isHeadline_of_mem_groups t'.isHeadline_of_mem_groups hreport
  · intro hgroups
    rw [dump, dump, report_eq_flatMap, report_eq_flatMap, hgroups]

/-- The lines of a scope tell the scope around, and what is found in the scope. -/
theorem Plain.group_eq_iff (h : t.Plain) (h' : t'.Plain) {k : Nat} {s s' : Scope}
    (hs : t.scope? k = some s) (hs' : t'.scope? k = some s') :
    group s = group s' ↔ s.parent? = s'.parent? ∧
      ∀ x, (s.find? x).map Symbol.entity = (s'.find? x).map Symbol.entity := by
  have hid : s.id = s'.id := (h.valid.id_eq k s hs).trans (h'.valid.id_eq k s' hs').symm
  rw [← Scope.listed_eq_iff (h.valid.names_nodup k s hs) (h'.valid.names_nodup k s' hs'), group,
    group, Prod.mk.injEq]
  constructor
  · rintro ⟨hheadline, hlines⟩
    exact ⟨Scope.headline_inj hid hheadline,
      map_entryLine_inj (h.entry_of_mem hs) (h'.entry_of_mem hs') hlines⟩
  · rintro ⟨hparent, hlisted⟩
    refine ⟨?_, by rw [hlisted]⟩
    rw [Scope.headline, Scope.headline, hid, hparent]

/-- On plain tables the text is canonical. -/
theorem Plain.dump_eq_iff (h : t.Plain) (h' : t'.Plain) : t.dump = t'.dump ↔ t.Same t' := by
  have hscopes : t.scopes.toList.map group = t'.scopes.toList.map group ↔
      ∀ k, (t.scope? k).map group = (t'.scope? k).map group := by
    rw [List.ext_getElem?_iff]
    simp only [List.getElem?_map, Array.getElem?_toList]
    rfl
  rw [h.dump_eq_iff_groups h']
  constructor
  · -- equal texts have equal groups, and a group gives back parent and names
    intro hgroups
    have hsize : t.scopes.size = t'.scopes.size := by simpa using congrArg List.length hgroups
    have hall := hscopes.mp hgroups
    have hpart : ∀ k, t.parent? k = t'.parent? k ∧ ∀ x, t.frame k x = t'.frame k x := by
      intro k
      have hk := hall k
      simp only [parent?, frame]
      cases hs : t.scope? k with
      | none =>
        rw [hs, Option.map_none, eq_comm, Option.map_eq_none_iff] at hk
        rw [hk]
        exact ⟨rfl, fun _ => rfl⟩
      | some s =>
        rw [hs, Option.map_some, eq_comm, Option.map_eq_some_iff] at hk
        obtain ⟨s', hs', hgroup⟩ := hk
        rw [hs']
        exact (h.group_eq_iff h' hs hs').mp hgroup.symm
    exact ⟨hsize, fun k => (hpart k).1, fun k => funext (hpart k).2⟩
  · -- tables that are the same have the same group under every number
    intro hsame
    refine hscopes.mpr fun k => ?_
    by_cases hk : k < t.scopes.size
    · obtain ⟨s, hs⟩ := exists_scope? hk
      obtain ⟨s', hs'⟩ := exists_scope? (hsame.size ▸ hk)
      have hparent := hsame.parent k
      have hframe := fun x => congrFun (hsame.frame k) x
      simp only [parent?, frame, hs, hs', Option.bind_some] at hparent hframe
      rw [hs, hs', Option.map_some, Option.map_some,
        (h.group_eq_iff h' hs hs').mpr ⟨hparent, hframe⟩]
    · have hk' : ¬ k < t'.scopes.size := fun hlt => hk (hsame.size ▸ hlt)
      rw [scope?, scope?, Array.getElem?_eq_none (Nat.not_lt.mp hk),
        Array.getElem?_eq_none (Nat.not_lt.mp hk')]

/-- The scopes are listed by their numbers. -/
theorem Valid.map_id_scopes (h : t.Valid) :
    t.scopes.toList.map Scope.id = List.range t.scopes.size := by
  refine List.ext_getElem (by simp) fun k hk _ => ?_
  rw [List.length_map, Array.length_toList] at hk
  rw [List.getElem_map, List.getElem_range, Array.getElem_toList]
  exact h.id_eq k _ (Array.getElem?_eq_getElem hk)

/-- How a table is written. -/
structure Listed (t : Table) : Prop where
  /-- A headline for each scope, and behind it a line for each of its names. -/
  lines : Source.lines t.dump.toList =
    (t.scopes.toList.flatMap fun s => s.headline :: s.listed.map entryLine).map
      fun l => l.toList ++ ['\n']
  /-- Every scope comes once, in the order of the numbers. -/
  ids : t.scopes.toList.map Scope.id = List.range t.scopes.size
  /-- In each scope the names come once, in the order of their bytes. -/
  ordered : ∀ s ∈ t.scopes.toList, s.listed.Pairwise fun b b' => bytes b.1 < bytes b'.1
  /-- They are the names that are found there. -/
  names : ∀ s ∈ t.scopes.toList, ∀ x e,
    (x, e) ∈ s.listed ↔ (s.find? x).map Symbol.entity = some e

/-- The text of a plain table lists what the table says it should. -/
theorem Plain.isListed (h : t.Plain) : t.Listed where
  lines := by
    rw [h.lines_dump, report]
    exact congrArg _ (congrArg (List.flatMap · _) (funext Scope.report_eq))
  ids := h.valid.map_id_scopes
  ordered := by
    intro s hs
    obtain ⟨k, hs⟩ := mem_scopes_iff.mp hs
    exact (Scope.pairwise_listed (h.valid.names_nodup k s hs)).imp fun hlt => bytes_lt_bytes hlt
  names := by
    intro s hs x e
    obtain ⟨k, hs⟩ := mem_scopes_iff.mp hs
    exact Scope.mem_listed (h.valid.names_nodup k s hs)

example :
    let main : List (String × Symbol) := [("Main", ⟨.procedure [.integer, .char] .integer, 0⟩)]
    let inner : List (String × Symbol) := [("b", ⟨.value .char, 1⟩), ("a", ⟨.value .integer, 1⟩)]
    Table.dump ⟨#[⟨0, none, main⟩, ⟨1, some 0, inner⟩], [0]⟩ =
      "scope 0 (global)\n  Main: procedure(integer, char) return integer\n" ++
        "scope 1 (parent 0)\n  a: integer\n  b: char\n" := by
  cbv

end Table
end ProcLang
