/-
  Sources with the same dump have the same table.

  The dump of a table is canonical when its names are words and stand for what can be declared
  (`Plain.dump_eq_iff`).  It remains to see that the table of an accepted source is such a table:

  1. what its scopes bind is bound in the outline of the program (`Lays.mem_entries`);
  2. the names of the outline are identifiers among the tokens from which the program is derived
     (`Concrete.plain_program`);
  3. the identifiers of a source are words (`isWord_of_tokenize`).

  `dump_canonical` is the main statement.
-/
import ProcLang.Command.Run
import ProcLang.Proofs.Grammar.Exact
import ProcLang.Proofs.Grammar.Number
import ProcLang.Proofs.Scope.Listing

namespace ProcLang

open Command Lexeme ProcLang.Text

/-! ## What an outline binds -/

mutual

/-- The names of an outline, at any depth, with what they stand for. -/
def Outline.entries : Outline → List (String × Entity)
  | .mk names inner => names ++ outlineEntries inner

/-- The names of outlines. -/
def outlineEntries : List Outline → List (String × Entity)
  | [] => []
  | o :: os => o.entries ++ outlineEntries os

end

/-- The names of outlines one behind the other. -/
theorem outlineEntries_append (os os' : List Outline) :
    outlineEntries (os ++ os') = outlineEntries os ++ outlineEntries os' := by
  induction os with
  | nil => rfl
  | cons o os ih => rw [List.cons_append, outlineEntries, outlineEntries, ih, List.append_assoc]

namespace Table

variable {t : Table}

mutual

/-- What is bound in a scope of an outline is bound by the outline. -/
theorem Lays.mem_entries {around : Option Nat} {o : Outline} {ids : List Nat}
    (h : t.Lays around o ids) {k : Nat} (hk : k ∈ ids) {s : Scope} (hs : t.scope? k = some s)
    {b : String × Symbol} (hb : b ∈ s.bindings) : (b.1, b.2.entity) ∈ o.entries := by
  cases h with
  | mk hscope hperm hinner =>
    rw [Outline.entries]
    rcases List.mem_cons.mp hk with rfl | hk
    · obtain rfl := Option.some.inj (hscope.symm.trans hs)
      obtain ⟨c, hc, rfl⟩ := List.mem_map.mp (hperm.mem_iff.mp hb)
      exact List.mem_append_left _ hc
    · exact List.mem_append_right _ (hinner.mem_entries hk hs hb)

/-- What the scopes of outlines bind is bound in the outlines. -/
theorem LaysAll.mem_entries {around : Option Nat} {os : List Outline} {ids : List Nat}
    (h : t.LaysAll around os ids) {k : Nat} (hk : k ∈ ids) {s : Scope} (hs : t.scope? k = some s)
    {b : String × Symbol} (hb : b ∈ s.bindings) : (b.1, b.2.entity) ∈ outlineEntries os := by
  cases h with
  | nil => cases hk
  | cons ho hos =>
    rw [outlineEntries]
    rcases List.mem_append.mp hk with hk | hk
    · exact List.mem_append_left _ (ho.mem_entries hk hs hb)
    · exact List.mem_append_right _ (hos.mem_entries hk hs hb)

end

end Table

/-! ## The names of a derived program -/

namespace Concrete

/-- The identifiers among the tokens are words. -/
def Words (ts : List Token) : Prop := ∀ t ∈ ts, t.kind = .identifier → IsWord t.value.toList

/-- Identifiers among tokens are words when the first one is, if it is one, and the others are. -/
theorem words_cons {t : Token} {ts : List Token} :
    Words (t :: ts) ↔ (t.kind = .identifier → IsWord t.value.toList) ∧ Words ts :=
  List.forall_mem_cons

/-- Identifiers of both parts of a token list are words. -/
theorem words_append {ts us : List Token} : Words (ts ++ us) ↔ Words ts ∧ Words us :=
  List.forall_mem_append

/-- Identifiers of any number of parts of a token list are words. -/
theorem words_flatMap {α : Type} {f : α → List Token} {xs : List α} :
    Words (xs.flatMap f) ↔ ∀ x ∈ xs, Words (f x) := by
  induction xs with
  | nil => simp [Words]
  | cons x xs ih => rw [List.flatMap_cons, words_append, ih, List.forall_mem_cons]

/-- Words in all of a list are words in its items. -/
theorem Separated.words {k : Kind} {α : Type} {f : α → List Token} {l : Separated k α}
    (h : Words (l.yield f)) : ∀ x ∈ l.items, Words (f x) := by
  obtain ⟨hfirst, hrest⟩ := words_append.mp h
  refine List.forall_mem_cons.mpr ⟨hfirst, List.forall_mem_map.mpr fun x hx => ?_⟩
  exact (words_cons.mp (words_flatMap.mp hrest x hx)).2

/-- The names of a list are words. -/
theorem isWord_of_mem_names {ns : Names} (h : Words ns.yield) :
    ∀ x ∈ ns.tree, IsWord x.toList := by
  refine List.forall_mem_map.mpr fun x hx => ?_
  exact (words_cons.mp (Separated.words h x hx)).1 x.2

/-- A declaration of words has lines that can be told. -/
theorem plain_decl {d : Decl} (h : ∀ x ∈ d.names, IsWord x.toList) :
    ∀ b ∈ d.entries, PlainEntry b :=
  List.forall_mem_map.mpr fun x hx => ⟨h x hx, d.type.isDeclared⟩

/-- Declarations that are derived from tokens have plain entries. -/
theorem plain_declarations {ds : List Declaration} (h : Words (ds.flatMap Declaration.yield)) :
    ∀ b ∈ entriesOf (ds.map Declaration.tree), PlainEntry b := by
  intro b hb
  obtain ⟨d, hd, hb⟩ := List.mem_flatMap.mp hb
  obtain ⟨c, hc, rfl⟩ := List.mem_map.mp hd
  have hc := words_flatMap.mp h c hc
  exact plain_decl (isWord_of_mem_names (words_append.mp (words_cons.mp hc).2).1) b hb

/-- Parameters that are derived from tokens have plain entries. -/
theorem plain_parameters {h : Head} (hw : Words h.yield) :
    ∀ b ∈ entriesOf h.tree.parameters, PlainEntry b := by
  intro b hb
  obtain ⟨d, hd, hb⟩ := List.mem_flatMap.mp hb
  obtain ⟨p, hp, rfl⟩ := List.mem_map.mp hd
  rw [Head.yield, words_cons, words_cons, words_cons, words_append] at hw
  cases hl : h.parameters with
  | none =>
    rw [hl] at hp
    cases hp
  | some l =>
    rw [hl] at hp hw
    have hp := Separated.words hw.2.2.2.1 p hp
    exact plain_decl (isWord_of_mem_names (words_append.mp hp).1) b hb

/-- The entry of a procedure is plain, since its name is a word. -/
theorem plain_entry {h : Head} (hw : Words h.yield) : PlainEntry h.tree.entry := by
  rw [Head.yield, words_cons, words_cons] at hw
  exact ⟨hw.2.1 h.name.2, h.tree.declared_parameterTypes, h.tree.returnType.isDeclared⟩

mutual

/-- What the blocks in a statement declare has lines that can be told. -/
theorem plain_statement (s : Statement) (h : Words s.yield) :
    ∀ b ∈ outlineEntries s.tree.outlines, PlainEntry b := by
  cases s with
  | assignString | call | assign => exact fun b hb => absurd hb List.not_mem_nil
  | ifThen w c b =>
    rw [Statement.yield, words_cons, words_append] at h
    have hb := plain_nested b h.2.2
    simpa only [Statement.tree, Stmt.outlines, outlineEntries, List.append_nil] using hb
  | ifElse w c b e b' =>
    rw [Statement.yield, words_cons, words_append, words_append, words_cons] at h
    have hb := plain_nested b h.2.2.1
    have hb' := plain_nested b' h.2.2.2.2
    have hboth := List.forall_mem_append.mpr ⟨hb, hb'⟩
    simpa only [Statement.tree, Stmt.outlines, outlineEntries, List.append_nil] using hboth
  | loop w c b =>
    rw [Statement.yield, words_cons, words_append] at h
    have hb := plain_nested b h.2.2
    simpa only [Statement.tree, Stmt.outlines, outlineEntries, List.append_nil] using hb
  | block b =>
    have hb := plain_nested b h
    simpa only [Statement.tree, Stmt.outlines, outlineEntries, List.append_nil] using hb

/-- What a block declares is plain, blocks in it included. -/
theorem plain_nested (b : Nested) (h : Words b.yield) :
    ∀ x ∈ b.tree.outline.entries, PlainEntry x := by
  cases b with
  | mk l ds ss r =>
    rw [Nested.yield, words_cons, words_append, words_append] at h
    rw [Nested.tree, Block.outline, Outline.entries, List.forall_mem_append]
    exact ⟨plain_declarations h.2.1, plain_statements ss h.2.2.1⟩

/-- What the blocks in statements declare is plain. -/
theorem plain_statements (ss : List Statement) (h : Words (statementsYield ss)) :
    ∀ x ∈ outlineEntries (outlinesOf (statementsTree ss)), PlainEntry x := by
  cases ss with
  | nil => exact fun x hx => absurd hx List.not_mem_nil
  | cons s ss =>
    rw [statementsYield, words_append] at h
    rw [statementsTree, outlinesOf, outlineEntries_append, List.forall_mem_append]
    exact ⟨plain_statement s h.1, plain_statements ss h.2⟩

end

/-- The headers of derived procedures. -/
theorem plain_headers {ps : List Routine} (h : Words (routinesYield ps)) :
    ∀ b ∈ (routinesTree ps).map (fun p => p.header.entry), PlainEntry b := by
  induction ps with
  | nil => exact fun b hb => absurd hb List.not_mem_nil
  | cons p ps ih =>
    obtain ⟨hd, b⟩ := p
    rw [routinesYield, Routine.yield, words_append, words_append] at h
    exact List.forall_mem_cons.mpr ⟨plain_entry h.1.1, ih h.2⟩

mutual

/-- What a procedure declares is plain. -/
theorem plain_routine (p : Routine) (h : Words p.yield) :
    ∀ x ∈ p.tree.outline.entries, PlainEntry x := by
  cases p with
  | mk hd b =>
    rw [Routine.yield, words_append] at h
    rw [Routine.tree, Procedure.outline, Outline.entries, List.append_assoc,
      List.forall_mem_append]
    exact ⟨plain_parameters h.1, plain_interior b h.2⟩

/-- What a body declares is plain. -/
theorem plain_interior (b : Interior) (h : Words b.yield) :
    ∀ x ∈ b.tree.entries ++ outlineEntries b.tree.outlines, PlainEntry x := by
  cases b with
  | mk l ps ds ss f r =>
    rw [Interior.yield, words_cons, words_append, words_append, words_append] at h
    obtain ⟨-, hps, hds, hss, -⟩ := h
    rw [Interior.tree, Body.entries, Body.outlines, outlineEntries_append]
    simp only [List.forall_mem_append]
    exact ⟨⟨plain_headers hps, plain_declarations hds⟩, plain_routines ps hps,
      plain_statements ss hss⟩

/-- What procedures in a row declare is plain. -/
theorem plain_routines (ps : List Routine) (h : Words (routinesYield ps)) :
    ∀ x ∈ outlineEntries (procedureOutlines (routinesTree ps)), PlainEntry x := by
  cases ps with
  | nil => exact fun x hx => absurd hx List.not_mem_nil
  | cons p ps =>
    rw [routinesYield, words_append] at h
    rw [routinesTree, procedureOutlines, outlineEntries, List.forall_mem_append]
    exact ⟨plain_routine p h.1, plain_routines ps h.2⟩

end

/-- A derived program declares words, provided that the identifiers among its tokens are words. -/
theorem plain_program (p : ProgramText) (line : Nat) (h : Words p.yield) :
    ∀ x ∈ (p.tree line).outline.entries, PlainEntry x := by
  rw [Program.outline, Outline.entries, List.forall_mem_append]
  exact ⟨plain_headers h, plain_routines p.routines h⟩

end Concrete

/-! ## The tokens of a source -/

/-- The value of an identifier is a word. -/
theorem Lexeme.IsLexeme.isWord {word : List Char} {v : String}
    (h : IsLexeme word (some (.identifier, v))) : IsWord v.toList := by
  -- no operator is an identifier
  have hoperator : ∀ p ∈ operators, p.2 ≠ .identifier := by decide
  generalize hm : some (Kind.identifier, v) = m at h
  cases h with
  | reserved h _ | identifier h _ =>
    obtain ⟨-, rfl⟩ := Prod.mk.inj (Option.some.inj hm)
    rwa [String.toList_ofList]
  | operator hk =>
    obtain ⟨rfl, -⟩ := Prod.mk.inj (Option.some.inj hm)
    exact absurd rfl (hoperator _ hk)
  | blank | decimal | hexadecimal | char | string => cases hm

section

variable {source : String} {file? : Option String} {ts : List Token}

/-- The identifiers of a source are words. -/
theorem isWord_of_tokenize (h : tokenize source file? = .ok ts) {t : Token} (ht : t ∈ ts)
    (hk : t.kind = .identifier) : IsWord t.value.toList := by
  obtain ⟨word, hword⟩ := exists_isLexeme_of_tokenize h ht (by rw [hk]; decide)
  rw [hk] at hword
  exact hword.isWord

/-- The tokens of a source are lexical. -/
theorem lexical_of_tokenize (h : tokenize source file? = .ok ts) {t : Token} (ht : t ∈ ts) :
    t.Lexical where
  number := fun hk => by
    obtain ⟨b, ds, hspelled⟩ := exists_spelled_of_tokenize h ht hk
    exact ⟨_, hspelled.numeral⟩
  char := fun hk => by
    obtain ⟨word, hword⟩ := exists_isLexeme_of_tokenize h ht (by rw [hk]; decide)
    obtain ⟨-, -, hspelled⟩ := hword.spelledBy rfl rfl
    cases hspelled with
    | string hs =>
      rw [hk] at hs
      cases hs
    | @char c _ _ hv _ => exact ⟨c, by rw [hv, String.toList_singleton]⟩
    | verbatim _ hc => exact absurd hk hc

end

/-- The tokens that are passed are those of the list. -/
theorem mem_of_passes {file : String} {tokens us : List Token} {u : Stream}
    (h : (Stream.ofTokens file tokens).Passes us u) : us ⊆ tokens := by
  intro x hx
  have hmem : x ∈ (Stream.ofTokens file tokens).tokens := by
    rw [h.tokens_eq]
    exact List.mem_append_left _ hx
  rcases Grammar.tokens_ofTokens file tokens with htokens | htokens
  · rwa [htokens] at hmem
  · rw [htokens] at hmem
    refine (List.mem_append.mp hmem).resolve_right fun hlast => ?_
    -- a token that is passed is no end marker
    exact h.ne_eof_of_mem x hx (by rw [List.mem_singleton.mp hlast]; rfl)

/-! ## The table of a source -/

section

variable {source source' name name' : String} {file? file?' : Option String} {p p' : Program}

/-- A source that is read has tokens, which are read. -/
theorem exists_of_readProgram (h : readProgram source file? name = .ok p) :
    ∃ ts, tokenize source file? = .ok ts ∧ Grammar.parse name ts = .ok p := by
  have hmap : ∀ {α : Type} {x : Except Diagnostic α} {f : Diagnostic → Stage × Diagnostic} {a : α},
      x.mapError f = .ok a → x = .ok a := by
    intro α x f a hx
    cases x with
    | error d => cases hx
    | ok b => exact congrArg Except.ok (Except.ok.inj hx)
  unfold readProgram at h
  cases hts : tokenize source file? with
  | error d =>
    rw [hts] at h
    cases h
  | ok ts =>
    rw [hts] at h
    exact ⟨ts, rfl, hmap h⟩

/-- A program that is read declares words. -/
theorem plain_of_readProgram (h : readProgram source file? name = .ok p) :
    ∀ b ∈ p.outline.entries, PlainEntry b := by
  obtain ⟨ts, hts, hp⟩ := exists_of_readProgram h
  obtain ⟨t, ht⟩ := Grammar.parse_eq_ok_iff.mp hp
  have hlexical : (Stream.ofTokens name ts).Lexical := fun us u hu x hx =>
    lexical_of_tokenize hts (mem_of_passes hu hx)
  obtain ⟨d, rfl, hpass, -⟩ := Concrete.exists_programText hlexical ht
  exact Concrete.plain_program d _ fun x hx hk => isWord_of_tokenize hts (mem_of_passes hpass hx) hk

/-- The table of an accepted source is plain. -/
theorem plain_typeCheck (h : readProgram source file? name = .ok p)
    (hok : p.typeCheck.result = .ok ()) : p.typeCheck.table.Plain := by
  obtain ⟨hvalid, -, ids, hlays, hids⟩ := Program.typeCheck_lays hok
  refine ⟨hvalid, fun k s hs b hb => plain_of_readProgram h _ ?_⟩
  have hk := hids.mem_iff.mpr (List.mem_range.mpr (Table.lt_size_of_scope? hs))
  exact hlays.mem_entries hk hs hb

/-- **The dump is canonical.**  The tables of two accepted sources have the same text exactly when
    they are the same: they have the same scopes inside one another, and in each scope the same
    names for the same things, in whatever order they were bound.  The text has the scopes in the
    order of their numbers, each once, and behind the headline of a scope its names in the order
    of their bytes, each once. -/
theorem dump_canonical (hp : readProgram source file? name = .ok p)
    (hok : p.typeCheck.result = .ok ()) (hp' : readProgram source' file?' name' = .ok p')
    (hok' : p'.typeCheck.result = .ok ()) :
    (p.typeCheck.table.dump = p'.typeCheck.table.dump ↔
      p.typeCheck.table.Same p'.typeCheck.table) ∧ p.typeCheck.table.Listed :=
  ⟨(plain_typeCheck hp hok).dump_eq_iff (plain_typeCheck hp' hok'),
    (plain_typeCheck hp hok).isListed⟩

end

/-- Two variables in one order. -/
def orderedSource : String :=
  "procedure Main() return integer \x7b var a: integer; var b: char; return 0; \x7d"

/-- The variables of `orderedSource` in the other order. -/
def swappedSource : String :=
  "procedure Main() return integer \x7b var b: char; var a: integer; return 0; \x7d"

/-- A `Main` with these declarations, which returns `0`. -/
def declaringProgram (ds : List Decl) : Program :=
  ⟨[.mk ⟨"Main", [], ⟨.integer, .bare 1⟩, .bare 1⟩
    (.mk [] ds [] ⟨.integer (.bare 1) 0, .bare 1⟩ (.bare 1))], .bare 1⟩

/-- Two sources that declare the same names in another order have the same dump. -/
theorem dump_canonical_swapped :
    let p := declaringProgram
      [⟨["a"], ⟨.integer, .bare 1⟩, .bare 1⟩, ⟨["b"], ⟨.char, .bare 1⟩, .bare 1⟩]
    let p' := declaringProgram
      [⟨["b"], ⟨.char, .bare 1⟩, .bare 1⟩, ⟨["a"], ⟨.integer, .bare 1⟩, .bare 1⟩]
    readProgram orderedSource none "stdin" = .ok p ∧ p.typeCheck.result = .ok () ∧
    readProgram swappedSource none "stdin" = .ok p' ∧ p'.typeCheck.result = .ok () ∧
    p.typeCheck.table ≠ p'.typeCheck.table ∧
    (p.typeCheck.table.dump = p'.typeCheck.table.dump ↔
      p.typeCheck.table.Same p'.typeCheck.table) ∧ p.typeCheck.table.Listed := by
  intro p p'
  have hp : readProgram orderedSource none "stdin" = .ok p := by decide +kernel
  have hok : p.typeCheck.result = .ok () := by decide +kernel
  have hp' : readProgram swappedSource none "stdin" = .ok p' := by decide +kernel
  have hok' : p'.typeCheck.result = .ok () := by decide +kernel
  exact ⟨hp, hok, hp', hok', by decide +kernel, dump_canonical hp hok hp' hok'⟩

end ProcLang
