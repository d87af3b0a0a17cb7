/-
  The layout of a source does not matter.

  Two sources may put white space, line breaks and comments where they like: as long as their
  tokens have the same kinds and values, they have the same outcome (`layout_independent`).

  Both token lists are then the same list at different places.  That list can be written down
  with the numbers of the tokens for places (`numbered`); each source tells where these numbers
  lie (`placesOf`).  What comes of the numbered tokens comes of both sources at their places, and
  an error of the numbered tokens lies at one of them, whose number is the common index.
-/
import ProcLang.Proofs.Grammar.Places
import ProcLang.Proofs.Lexical.Munch
import ProcLang.Scope.Dump

namespace ProcLang

open Grammar

/-! ## The tokens of a source -/

/-- The tokens of a source end with an end marker, and have no other. -/
theorem ended_of_tokenize {source : String} {file? : Option String} {ts : List Token}
    (h : tokenize source file? = .ok ts) : Ended ts := by
  obtain ⟨us, -, rfl⟩ := exists_munched_of_tokenize h
  exact ⟨us, _, rfl, rfl⟩

/-- All tokens of a source lie in its file. -/
theorem Munched.file_eq {file : String} {source pre rest : List Char} {ts : List Token}
    (h : Munched file source pre rest ts) :
    ∀ t ∈ ts, t.span.start.file = file ∧ t.span.stop.file = file := by
  induction h with
  | start => exact fun t ht => absurd ht List.not_mem_nil
  | @step pre word _ ts m _ _ ih =>
    intro t ht
    rcases List.mem_append.mp ht with ht | ht
    · exact ih t ht
    · obtain ⟨p, -, rfl⟩ := List.mem_map.mp ht
      exact ⟨rfl, rfl⟩

/-- All tokens lie in the source. -/
theorem file_of_tokenize {source : String} {file? : Option String} {ts : List Token}
    (h : tokenize source file? = .ok ts) :
    ∀ t ∈ ts, t.span.start.file = file?.getD "stdin" ∧
      t.span.stop.file = file?.getD "stdin" := by
  obtain ⟨us, hus, rfl⟩ := exists_munched_of_tokenize h
  intro t ht
  rcases List.mem_append.mp ht with ht | ht
  · exact hus.file_eq t ht
  · obtain rfl := List.mem_singleton.mp ht
    exact ⟨rfl, rfl⟩

/-! ## Numbered tokens -/

/-- What a token is, apart from its place. -/
def Token.content (t : Token) : Kind × String := (t.kind, t.value)

/-- The token `c` at place number `i`. -/
def numberedToken (i : Nat) (c : Kind × String) : Token :=
  ⟨c.1, c.2, ⟨⟨i, ""⟩, ⟨i, ""⟩⟩, i⟩

/-- Tokens with their own numbers for places. -/
def numbered (cs : List (Kind × String)) : List Token := cs.mapIdx numberedToken

/-- The places of the tokens with the numbers. -/
def placesOf (file : String) (ts : List Token) : Relocation where
  file _ := file
  start i := (ts[i]?.map fun t => t.span.start.offset).getD 0
  stop i := (ts[i]?.map fun t => t.span.stop.offset).getD 0
  line i := (ts[i]?.map Token.line).getD 0

/-- The numbered tokens, put at the places of a source, are its tokens. -/
theorem map_placesOf {file : String} {ts : List Token}
    (hfile : ∀ t ∈ ts, t.span.start.file = file ∧ t.span.stop.file = file) :
    (numbered (ts.map Token.content)).map (placesOf file ts).token = ts := by
  refine List.ext_getElem? fun i => ?_
  rw [List.getElem?_map, numbered, List.getElem?_mapIdx, List.getElem?_map]
  cases h : ts[i]? with
  | none => rfl
  | some t =>
    obtain ⟨hstart, hstop⟩ := hfile t (List.mem_of_getElem? h)
    obtain ⟨kind, value, ⟨⟨start, _⟩, ⟨stop, _⟩⟩, line⟩ := t
    dsimp only at hstart hstop
    subst hstart hstop
    simp only [Option.map_some, Relocation.token, Relocation.position, placesOf, numberedToken,
      Token.content, h, Option.getD_some]

/-- Numbering the tokens keeps the end marker. -/
theorem ended_numbered {ts : List Token} (h : Ended ts) :
    Ended (numbered (ts.map Token.content)) := by
  obtain ⟨us, t, rfl, ht⟩ := h
  refine ⟨numbered (us.map Token.content), numberedToken (us.map Token.content).length t.content,
    ?_, ht⟩
  rw [numbered, List.map_append, List.map_singleton, List.mapIdx_concat]
  rfl

/-- A numbered token stands for the tokens with its number in both lists. -/
theorem exists_of_mem_numbered {ts ts' : List Token}
    (hsame : ts.map Token.content = ts'.map Token.content) {u : Token}
    (hu : u ∈ numbered (ts.map Token.content)) :
    ∃ (i : Nat) (t t' : Token), ts[i]? = some t ∧ ts'[i]? = some t' ∧
      u.span.start.offset = i ∧ u.line = i := by
  obtain ⟨i, hi, rfl⟩ := List.mem_mapIdx.mp hu
  have hlt : i < ts.length := by rwa [List.length_map] at hi
  have hlt' : i < ts'.length := by rwa [hsame, List.length_map] at hi
  exact ⟨i, ts[i], ts'[i], List.getElem?_eq_getElem hlt, List.getElem?_eq_getElem hlt', rfl, rfl⟩

/-- A source is read as its numbered tokens are, at its own places. -/
theorem parse_eq_of_tokenize {source : String} {file? : Option String} {ts : List Token}
    (h : tokenize source file? = .ok ts) :
    parse (file?.getD "stdin") ts =
      match parse "" (numbered (ts.map Token.content)) with
      | .ok p => .ok (p.mapAttrs (lines (placesOf (file?.getD "stdin") ts)))
      | .error d => .error ((placesOf (file?.getD "stdin") ts).diagnostic d) := by
  have hparse := parse_relocate (placesOf (file?.getD "stdin") ts) ""
    (ended_numbered (ended_of_tokenize h))
  rw [map_placesOf (file_of_tokenize h)] at hparse
  exact hparse

/-- An error at a numbered token lies, in a source, at the start of the token with the number. -/
theorem position_of_tokenize {source : String} {file? : Option String} {ts : List Token}
    (h : tokenize source file? = .ok ts) {i : Nat} {t : Token} (ht : ts[i]? = some t)
    {d : Diagnostic} (hd : d.position.offset = i) :
    ((placesOf (file?.getD "stdin") ts).diagnostic d).position = t.span.start := by
  obtain ⟨hfile, -⟩ := file_of_tokenize h t (List.mem_of_getElem? ht)
  rw [Relocation.diagnostic, Relocation.position, hd]
  simp only [placesOf, ht, Option.map_some, Option.getD_some, ← hfile]

/-- A violation at the number of a token has the line of that token in the source. -/
theorem line_placesOf (file : String) {ts : List Token} {i : Nat} {t : Token}
    (ht : ts[i]? = some t) {e : SemanticError} (he : e.line = i) :
    (e.mapLine (placesOf file ts).line).line = t.line := by
  rw [SemanticError.mapLine, he]
  simp only [placesOf, ht, Option.map_some, Option.getD_some]

/-! ## Trees without lines -/

/-- The program with all its lines forgotten. -/
def Program.unlined (p : Program) : Program := p.mapAttrs (.mapLine fun _ => 0)

/-- The relocation that forgets all places. -/
def nowhereAt : Relocation := ⟨fun _ => "", fun _ => 0, fun _ => 0, fun _ => 0⟩

/-- Tokens with the same kinds and values are the same once their places are dropped. -/
theorem map_nowhereAt {ts ts' : List Token}
    (h : ts.map Token.content = ts'.map Token.content) :
    ts.map nowhereAt.token = ts'.map nowhereAt.token := by
  have htoken : nowhereAt.token = nowhereAt.token ∘ numberedToken 0 ∘ Token.content := rfl
  rw [htoken, ← List.map_map, ← List.map_map, ← List.map_map, ← List.map_map, h]

/-- Programs that are read from the same kinds and values differ in their lines only. -/
theorem unlined_eq_of_parse {file : String} {ts ts' : List Token} (hts : Ended ts)
    (hts' : Ended ts') (h : ts.map Token.content = ts'.map Token.content) {p p' : Program}
    (hp : parse file ts = .ok p) (hp' : parse file ts' = .ok p') : p.unlined = p'.unlined := by
  have hparse := parse_relocate nowhereAt file hts
  have hparse' := parse_relocate nowhereAt file hts'
  rw [hp] at hparse
  rw [hp', ← map_nowhereAt h] at hparse'
  exact Except.ok.inj (hparse.symm.trans hparse')

/-- The annotated tree without its lines is that of the program without its lines. -/
theorem node_unlined (p : Program) :
    p.typeCheck.node.unlined = p.unlined.typeCheck.node := by
  rw [Program.unlined, Program.unlined, Program.typeCheck_mapLine]
  rfl

/-! ## Two sources -/

/-- **Layout does not matter.**  When the tokens of two sources have the same kinds and values,
    both sources are refused by the grammar, for the same cause and at tokens with the same
    number; or both violate the same static rule, on the lines of tokens with the same number; or
    both are accepted, with annotated trees that differ in their lines only, and with the same
    symbol table and the same text for it. -/
theorem layout_independent {source source' : String} {file? : Option String}
    {ts ts' : List Token} (h : tokenize source file? = .ok ts)
    (h' : tokenize source' file? = .ok ts')
    (hsame : ts.map Token.content = ts'.map Token.content) :
    let file := file?.getD "stdin"
    (∃ d d', parse file ts = .error d ∧ parse file ts' = .error d' ∧ d.cause = d'.cause ∧
      ∃ (i : Nat) (t t' : Token), ts[i]? = some t ∧ ts'[i]? = some t' ∧
        d.position = t.span.start ∧ d'.position = t'.span.start) ∨
    ∃ p p', parse file ts = .ok p ∧ parse file ts' = .ok p' ∧
      ((∃ e e', p.typeCheck.result = .error e ∧ p'.typeCheck.result = .error e' ∧
        e.violation = e'.violation ∧
        ∃ (i : Nat) (t t' : Token), ts[i]? = some t ∧ ts'[i]? = some t' ∧
          e.line = t.line ∧ e'.line = t'.line) ∨
      (p.typeCheck.result = .ok () ∧ p'.typeCheck.result = .ok () ∧
        p.typeCheck.node.unlined = p'.typeCheck.node.unlined ∧
        p.typeCheck.table = p'.typeCheck.table ∧
        p.typeCheck.table.dump = p'.typeCheck.table.dump)) := by
  intro file
  have hus := ended_numbered (ended_of_tokenize h)
  -- both sources are read as the same numbered tokens are
  have hparse := parse_eq_of_tokenize h
  have hparse' := parse_eq_of_tokenize h'
  rw [← hsame] at hparse'
  cases hread : parse "" (numbered (ts.map Token.content)) with
  | error d =>
    rw [hread] at hparse hparse'
    obtain ⟨u, hu, hstart⟩ := exists_start_of_parse_error hus hread
    obtain ⟨i, t, t', ht, ht', hi, -⟩ := exists_of_mem_numbered hsame hu
    have hd : d.position.offset = i := hstart.symm.trans hi
    exact Or.inl ⟨_, _, hparse, hparse', rfl, i, t, t', ht, ht', position_of_tokenize h ht hd,
      position_of_tokenize h' ht' hd⟩
  | ok q =>
    rw [hread] at hparse hparse'
    refine Or.inr ⟨_, _, hparse, hparse', ?_⟩
    have hunlined := unlined_eq_of_parse (ended_of_tokenize h) (ended_of_tokenize h') hsame
      hparse hparse'
    rw [node_unlined, node_unlined, hunlined, Program.typeCheck_mapLine,
      Program.typeCheck_mapLine]
    unfold Visit.mapLine
    cases hcheck : q.typeCheck.result with
    | error e =>
      obtain ⟨u, hu, hline⟩ := exists_line_of_typeCheck_error hus hread hcheck
      obtain ⟨i, t, t', ht, ht', -, hi⟩ := exists_of_mem_numbered hsame hu
      have he : e.line = i := hline.symm.trans hi
      exact Or.inl ⟨_, _, rfl, rfl, rfl, i, t, t', ht, ht', line_placesOf file ht he,
        line_placesOf file ht' he⟩
    | ok u => exact Or.inr ⟨rfl, rfl, rfl, rfl, rfl⟩

/-- A program without `Main` on one line. -/
def denseSource : String := "procedure P() return integer \x7breturn 0;\x7d"

/-- The program of `denseSource` on many lines, with a comment. -/
def wideSource : String :=
  "/% no main %/\nprocedure P ( )\n  return integer\n\x7b\n  return 0 ;\n\n\x7d\n"

/-- The tokens of a source that has some. -/
def tokensOf (source : String) : List Token :=
  match tokenize source none with
  | .ok ts => ts
  | .error _ => []

/-- One program, in one line and in many with a comment. -/
theorem layout_independent_dense :
    tokenize denseSource none = .ok (tokensOf denseSource) ∧
    tokenize wideSource none = .ok (tokensOf wideSource) ∧
    (tokensOf denseSource).map Token.content = (tokensOf wideSource).map Token.content ∧
    let file := (none : Option String).getD "stdin"
    (∃ d d', parse file (tokensOf denseSource) = .error d ∧
      parse file (tokensOf wideSource) = .error d' ∧ d.cause = d'.cause ∧
      ∃ (i : Nat) (t t' : Token), (tokensOf denseSource)[i]? = some t ∧
        (tokensOf wideSource)[i]? = some t' ∧
        d.position = t.span.start ∧ d'.position = t'.span.start) ∨
    ∃ p p', parse file (tokensOf denseSource) = .ok p ∧ parse file (tokensOf wideSource) = .ok p' ∧
      ((∃ e e', p.typeCheck.result = .error e ∧ p'.typeCheck.result = .error e' ∧
        e.violation = e'.violation ∧
        ∃ (i : Nat) (t t' : Token), (tokensOf denseSource)[i]? = some t ∧
          (tokensOf wideSource)[i]? = some t' ∧ e.line = t.line ∧ e'.line = t'.line) ∨
      (p.typeCheck.result = .ok () ∧ p'.typeCheck.result = .ok () ∧
        p.typeCheck.node.unlined = p'.typeCheck.node.unlined ∧
        p.typeCheck.table = p'.typeCheck.table ∧
        p.typeCheck.table.dump = p'.typeCheck.table.dump)) := by
  have hdense : tokenize denseSource none = .ok (tokensOf denseSource) := by decide +kernel
  have hwide : tokenize wideSource none = .ok (tokensOf wideSource) := by decide +kernel
  have hsame : (tokensOf denseSource).map Token.content =
      (tokensOf wideSource).map Token.content := by decide +kernel
  exact ⟨hdense, hwide, hsame, layout_independent hdense hwide hsame⟩

end ProcLang
