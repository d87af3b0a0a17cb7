/-
  The line of a position is the one line that holds it.

  `IsLine front l back`: the text `front ++ l ++ back` is cut in front of `l` and behind it, and
  nowhere in between.  A list of lines is `Cut` when its text is cut into just these lines, which
  makes `lines` the inverse of putting lines together (`lines_eq_iff`).

  `lineAt?` walks along the lines.  Where it stops, the lines in front, the line itself and those
  behind are such a cut (`exists_locate`), and wherever a text is cut around a line, the positions
  on it are found there (`lineAt?_of_isLine`).  Both together are the main statement,
  `lineAt?_inverse`.
-/
import ProcLang.Proofs.Source.Line

namespace ProcLang.Source

open ProcLang.Text

/-! ## Cutting after newlines -/

/-- Lines as they are cut off a text: each ends with its first newline, and only the last one can
    do without. -/
inductive Cut : List (List Char) → Prop
  | nil : Cut []
  | last {l : List Char} (hne : l ≠ []) (h : '\n' ∉ l) : Cut [l]
  | cons {l : List Char} {ls : List (List Char)} (h : '\n' ∉ l) (hs : Cut ls) :
      Cut ((l ++ ['\n']) :: ls)

/-- A text is cut into its lines. -/
theorem cut_lines (cs : List Char) : Cut (lines cs) := by
  induction cs with
  | nil => exact .nil
  | cons c cs ih =>
    rw [lines]
    split
    · rename_i hc
      subst hc
      exact .cons (l := []) List.not_mem_nil ih
    · rename_i hc
      have hnew : ∀ {l : List Char}, '\n' ∉ l → '\n' ∉ c :: l := fun hl hmem =>
        (List.mem_cons.mp hmem).elim (fun h => hc h.symm) hl
      generalize lines cs = ls at ih
      cases ih with
      | nil => exact .last (List.cons_ne_nil _ _) (hnew List.not_mem_nil)
      | last _ h => exact .last (List.cons_ne_nil _ _) (hnew h)
      | cons h hs => exact .cons (hnew h) hs

/-- No line of a cut is empty. -/
theorem Cut.ne_nil {ls : List (List Char)} (h : Cut ls) : ∀ l ∈ ls, l ≠ [] := by
  induction h with
  | nil => exact fun _ hl => absurd hl List.not_mem_nil
  | last hne _ => simpa using hne
  | cons _ _ ih => simpa using ih

/-- A line with its newline is cut off. -/
theorem lines_line {l : List Char} (h : '\n' ∉ l) (cs : List Char) :
    lines (l ++ '\n' :: cs) = (l ++ ['\n']) :: lines cs := by
  induction l with
  | nil => rfl
  | cons c l ih =>
    have hc : c ≠ '\n' := fun he => h (he ▸ List.mem_cons_self)
    rw [List.cons_append, lines, if_neg hc, ih fun hl => h (List.mem_cons_of_mem _ hl)]
    rfl

/-- A text without newlines is one line. -/
theorem lines_of_notMem {l : List Char} (hne : l ≠ []) (h : '\n' ∉ l) : lines l = [l] := by
  induction l with
  | nil => exact absurd rfl hne
  | cons c l ih =>
    have hc : c ≠ '\n' := fun he => h (he ▸ List.mem_cons_self)
    rw [lines, if_neg hc]
    by_cases hl : l = []
    · subst hl
      rfl
    · rw [ih hl fun hmem => h (List.mem_cons_of_mem _ hmem)]

/-- Lines are cut apart where they were put together. -/
theorem Cut.lines_flatten {ls : List (List Char)} (h : Cut ls) : lines ls.flatten = ls := by
  induction h with
  | nil => rfl
  | last hne h =>
    rw [List.flatten_singleton]
    exact lines_of_notMem hne h
  | cons h _ ih =>
    rw [List.flatten_cons, List.append_assoc, List.singleton_append, lines_line h, ih]

/-- The lines of a text are the only way to cut it. -/
theorem lines_eq_iff {cs : List Char} {ls : List (List Char)} :
    lines cs = ls ↔ Cut ls ∧ ls.flatten = cs := by
  constructor
  · rintro rfl
    exact ⟨cut_lines cs, flatten_lines cs⟩
  · rintro ⟨h, rfl⟩
    exact h.lines_flatten

/-! ## A line and what is around it -/

/-- The text `front ++ l ++ back` is cut in front of `l` and behind it, and not inside. -/
structure IsLine (front l back : List Char) : Prop where
  /-- A line begins with the text, or behind a newline. -/
  starts : front = [] ∨ front.getLast? = some '\n'
  /-- A newline ends the line. -/
  inner : '\n' ∉ l.dropLast
  /-- Only the end of the text ends a line without a newline. -/
  ends : back = [] ∨ l.getLast? = some '\n'

/-- Each of the lines is a line of the text that they make up, with as many newlines in front as
    there are lines in front. -/
theorem Cut.isLine {ls₀ fs ls : List (List Char)} {l : List Char} (h : Cut ls₀)
    (hls : ls₀ = fs ++ l :: ls) :
    IsLine fs.flatten l ls.flatten ∧ fs.flatten.count '\n' = fs.length := by
  induction fs generalizing ls₀ with
  | nil =>
    subst hls
    cases h with
    | last _ h => exact ⟨⟨Or.inl rfl, fun hl => h (List.dropLast_subset _ hl), Or.inl rfl⟩, rfl⟩
    | cons h _ =>
      refine ⟨⟨Or.inl rfl, ?_, Or.inr List.getLast?_concat⟩, rfl⟩
      rwa [List.dropLast_concat]
  | cons f fs ih =>
    cases h with
    | nil => cases hls
    | last => simp at hls
    | @cons f' _ hf hs =>
      obtain ⟨rfl, hinner⟩ := List.cons.inj hls
      obtain ⟨hline, hcount⟩ := ih hs hinner
      refine ⟨⟨Or.inr ?_, hline.inner, hline.ends⟩, ?_⟩
      · rw [List.flatten_cons, List.getLast?_append, List.getLast?_concat]
        rcases hline.starts with hnil | hlast
        · rw [hnil]
          rfl
        · rw [hlast]
          rfl
      · have hzero : f'.count '\n' = 0 := List.count_eq_zero.mpr hf
        rw [List.flatten_cons, List.count_append, List.count_append, hzero, hcount,
          List.count_singleton_self, List.length_cons]
        omega

/-- What ends with a newline is cut into lines of its own. -/
theorem lines_append {front : List Char} (h : front = [] ∨ front.getLast? = some '\n')
    (cs : List Char) : lines (front ++ cs) = lines front ++ lines cs := by
  have hcut := cut_lines front
  rw [← flatten_lines front] at h ⊢
  generalize lines front = fs at h hcut
  rw [hcut.lines_flatten]
  induction hcut with
  | nil => rfl
  | @last l hne hl =>
    -- this one does not end with a newline
    rw [List.flatten_singleton] at h
    rcases h with rfl | hlast
    · exact absurd rfl hne
    · exact absurd (List.mem_of_getLast? hlast) hl
  | @cons l ls hl _ ih =>
    have hls : ls.flatten = [] ∨ ls.flatten.getLast? = some '\n' := by
      rcases h with hnil | hlast
      · simp at hnil
      · rw [List.flatten_cons, List.getLast?_append] at hlast
        cases hrest : ls.flatten.getLast? with
        | none => exact Or.inl (List.getLast?_eq_none_iff.mp hrest)
        | some c =>
          rw [hrest] at hlast
          exact Or.inr hlast
    rw [List.flatten_cons, List.append_assoc, List.append_assoc, List.singleton_append,
      lines_line hl, ih hls, List.cons_append]

/-- A line is cut out of the text around it. -/
theorem IsLine.lines_eq {front l back : List Char} (h : IsLine front l back) (hne : l ≠ []) :
    lines (front ++ (l ++ back)) = lines front ++ l :: lines back := by
  rw [lines_append h.starts]
  congr 1
  obtain ⟨init, c, rfl⟩ : ∃ init c, l = init ++ [c] :=
    ⟨_, _, (List.dropLast_concat_getLast hne).symm⟩
  have hinit : '\n' ∉ init := by simpa using h.inner
  by_cases hc : c = '\n'
  · subst hc
    rw [List.append_assoc, List.singleton_append, lines_line hinit]
  · obtain rfl : back = [] := h.ends.resolve_right (by simpa using hc)
    rw [List.append_nil]
    exact lines_of_notMem hne (by simpa [hinit] using fun he => hc he.symm)

/-! ## Walking along the lines -/

/-- Where the walk stops, all lines are in front of it, or behind, or the one that it found. -/
theorem exists_locate (n p : Nat) (l : List Char) (ls : List (List Char)) :
    ∃ fs m ms off, fs ++ m :: ms = l :: ls ∧
      locate n p l ls = ⟨n + fs.length, String.ofList m, off⟩ ∧
      p = byteLength fs.flatten + off ∧ (off < byteLength m ∨ ms = []) := by
  induction ls generalizing n p l with
  | nil => exact ⟨[], l, [], p, rfl, rfl, (Nat.zero_add p).symm, Or.inr rfl⟩
  | cons l' ls ih =>
    by_cases hp : p < byteLength l
    · refine ⟨[], l, l' :: ls, p, rfl, ?_, (Nat.zero_add p).symm, Or.inl hp⟩
      rw [locate, if_pos hp]
      rfl
    · obtain ⟨fs, m, ms, off, hls, hfound, hrest, hoff⟩ := ih (n + 1) (p - byteLength l) l'
      refine ⟨l :: fs, m, ms, off, by rw [List.cons_append, hls], ?_, ?_, hoff⟩
      · rw [locate, if_neg hp, hfound, List.length_cons]
        congr 1
        omega
      · rw [List.flatten_cons, byteLength_append]
        omega

/-- The walk passes the lines in front of a position, and stops on its line. -/
theorem locate_eq {fs ms : List (List Char)} {m : List Char} {off : Nat}
    (hoff : off < byteLength m ∨ ms = []) (n : Nat) {l : List Char} {ls : List (List Char)}
    (h : fs ++ m :: ms = l :: ls) :
    locate n (byteLength fs.flatten + off) l ls = ⟨n + fs.length, String.ofList m, off⟩ := by
  induction fs generalizing n l ls with
  | nil =>
    obtain ⟨rfl, rfl⟩ := List.cons.inj h
    rw [List.flatten_nil, byteLength_nil, Nat.zero_add]
    cases ms with
    | nil => rfl
    | cons m' ms => exact if_pos (hoff.resolve_right (List.cons_ne_nil _ _))
  | cons f fs ih =>
    obtain ⟨rfl, hls⟩ := List.cons.inj h
    obtain ⟨l', ls', rfl⟩ : ∃ l' ls', ls = l' :: ls' :=
      List.exists_cons_of_ne_nil (by rw [← hls]; simp)
    rw [List.flatten_cons, byteLength_append, locate, if_neg (by omega), Nat.add_assoc,
      Nat.add_sub_cancel_left, ih (n + 1) hls, List.length_cons]
    congr 1
    omega

/-- A position is found on a line that holds it; the end of the text belongs to the last line. -/
theorem lineAt?_of_isLine {source : String} {front l back : List Char} {off : Nat}
    (h : IsLine front l back) (hne : l ≠ []) (happend : front ++ (l ++ back) = source.toList)
    (hoff : off < byteLength l ∨ back = [] ∧ off = byteLength l) :
    lineAt? source (byteLength front + off) =
      some ⟨1 + front.count '\n', String.ofList l, off⟩ := by
  have hle : ¬ byteLength source.toList < byteLength front + off := by
    rw [← happend, byteLength_append, byteLength_append]
    omega
  have hlines := h.lines_eq hne
  have hcount : front.count '\n' = (lines front).length := by
    have hcut := cut_lines (front ++ (l ++ back))
    have hfront := (hcut.isLine hlines).2
    rwa [flatten_lines] at hfront
  rw [happend] at hlines
  rw [lineAt?, if_neg hle]
  cases hsource : lines source.toList with
  | nil => simp [hsource] at hlines
  | cons m ms =>
    have hlast : off < byteLength l ∨ lines back = [] :=
      hoff.imp_right fun hend => lines_eq_nil_iff.mpr hend.1
    have hfound := locate_eq hlast 1 (hlines.symm.trans hsource)
    rw [flatten_lines] at hfound
    rw [hcount]
    exact congrArg some hfound

/-! ## The line of a position -/

/-- `l` is a line of `source`, between `front` and `back`, and its number is its place among the
    lines. -/
structure Line.Cuts (l : Line) (source front back : String) : Prop where
  append_eq : front ++ l.text ++ back = source
  isLine : IsLine front.toList l.text.toList back.toList
  number : l.number = 1 + front.toList.count '\n'

/-- `l` is the line of `source` that holds byte `p`.  The end of the source is held by its last
    line, which is not empty unless the source is. -/
def Line.Holds (l : Line) (source : String) (p : Nat) : Prop :=
  ∃ front back, l.Cuts source front back ∧ p = front.utf8ByteSize + l.offset ∧
    (l.offset < l.text.utf8ByteSize ∨
      back = "" ∧ l.offset = l.text.utf8ByteSize ∧ (l.text = "" → front = ""))

/-- The size of a text is that of its characters. -/
theorem utf8ByteSize_ofList (cs : List Char) : (String.ofList cs).utf8ByteSize = byteLength cs := by
  rw [← byteLength_toList, String.toList_ofList]

/-- The line that is found holds the position. -/
theorem holds_of_lineAt? {source : String} {p : Nat} {l : Line} (h : lineAt? source p = some l) :
    l.Holds source p := by
  unfold lineAt? at h
  split at h
  · cases h
  rename_i hle
  -- an empty source has one line to be shown, which `lines` does not list
  cases hlines : lines source.toList with
  | nil =>
    have hnil : source.toList = [] := lines_eq_nil_iff.mp hlines
    rw [hlines] at h
    rw [hnil, byteLength_nil] at hle
    obtain rfl := Option.some.inj h
    refine ⟨"", "", ⟨?_, ⟨Or.inl rfl, List.not_mem_nil, Or.inl rfl⟩, rfl⟩, ?_,
      Or.inr ⟨rfl, rfl, fun _ => rfl⟩⟩
    · exact (String.toList_eq_nil_iff.mp hnil).symm
    · exact Nat.eq_zero_of_not_pos hle
  | cons m ms =>
    rw [hlines] at h
    obtain ⟨fs, l', ls, off, hcut, hfound, hp, hoff⟩ := exists_locate 1 p m ms
    have hlines' := hlines.trans hcut.symm
    obtain ⟨hline, hcount⟩ := (cut_lines source.toList).isLine hlines'
    have happend : fs.flatten ++ (l' ++ ls.flatten) = source.toList := by
      rw [← flatten_lines source.toList, hlines', List.flatten_append, List.flatten_cons]
    obtain rfl : _ = l := hfound.symm.trans (Option.some.inj h)
    refine ⟨String.ofList fs.flatten, String.ofList ls.flatten, ⟨?_, ?_, ?_⟩, ?_, ?_⟩
    · rw [← String.ofList_append, ← String.ofList_append, List.append_assoc, happend,
        String.ofList_toList]
    · rwa [String.toList_ofList, String.toList_ofList, String.toList_ofList]
    · rw [String.toList_ofList, hcount]
    · rwa [utf8ByteSize_ofList]
    · have hl' : l' ≠ [] := by
        refine (cut_lines source.toList).ne_nil l' ?_
        rw [hlines']
        exact List.mem_append_right fs List.mem_cons_self
      rw [utf8ByteSize_ofList]
      -- on the line, or behind the last character of the last line
      by_cases hlt : off < byteLength l'
      · exact Or.inl hlt
      · obtain rfl := hoff.resolve_left hlt
        rw [← happend, byteLength_append, byteLength_append] at hle
        rw [List.flatten_nil, byteLength_nil] at hle
        have hend : off = byteLength l' := by omega
        exact Or.inr ⟨rfl, hend, fun he => absurd (String.ofList_eq_empty_iff.mp he) hl'⟩

/-- The line that holds a position is found. -/
theorem Line.Holds.lineAt?_eq {l : Line} {source : String} {p : Nat} (h : l.Holds source p) :
    lineAt? source p = some l := by
  obtain ⟨front, back, hcuts, rfl, hoff⟩ := h
  obtain ⟨n, text, off⟩ := l
  obtain rfl : n = 1 + front.toList.count '\n' := hcuts.number
  have happend : front.toList ++ (text.toList ++ back.toList) = source.toList := by
    rw [← hcuts.append_eq, String.toList_append, String.toList_append, List.append_assoc]
  by_cases htext : text = ""
  · -- only an empty source has an empty line
    subst htext
    obtain ⟨rfl, hzero, hfront⟩ := hoff.resolve_left (Nat.not_lt_zero _)
    obtain rfl := hfront rfl
    obtain rfl : off = 0 := hzero
    obtain rfl : "" = source := hcuts.append_eq
    rfl
  · have hoff' : off < byteLength text.toList ∨
        back.toList = [] ∧ off = byteLength text.toList := by
      rw [byteLength_toList]
      exact hoff.imp_right fun hend => ⟨by rw [hend.1]; rfl, hend.2.1⟩
    have hfound := lineAt?_of_isLine hcuts.isLine
      (fun hnil => htext (String.toList_eq_nil_iff.mp hnil)) happend hoff'
    rwa [byteLength_toList, String.ofList_toList] at hfound

/-- No line is found exactly when the position lies beyond the text. -/
theorem lineAt?_eq_none_iff {source : String} {p : Nat} :
    lineAt? source p = none ↔ source.utf8ByteSize < p := by
  rw [← byteLength_toList, lineAt?]
  split
  · rename_i hlt
    exact iff_of_true rfl hlt
  · rename_i hle
    refine iff_of_false ?_ hle
    split <;> exact Option.some_ne_none _

/-- **A position is found on the one line that holds it.**  There is none only for a position
    behind the end of the source.  For a position inside, the source is cut around the line: it
    begins with the source or behind a newline, it has a newline at its end and nowhere else, and
    only the last line can do without, its number counts the newlines in front, and the offset is
    what is left of the position on the line.  The end of the source lies at the end of the last
    line. -/
theorem lineAt?_inverse (source : String) (p : Nat) :
    (lineAt? source p = none ↔ source.utf8ByteSize < p) ∧
    (∀ l, lineAt? source p = some l ∧ p < source.utf8ByteSize ↔
      ∃ front back, l.Cuts source front back ∧ p = front.utf8ByteSize + l.offset ∧
        l.offset < l.text.utf8ByteSize) ∧
    ∀ l, lineAt? source p = some l ∧ p = source.utf8ByteSize ↔
      ∃ front, l.Cuts source front "" ∧ p = front.utf8ByteSize + l.offset ∧
        l.offset = l.text.utf8ByteSize ∧ (l.text = "" → front = "") := by
  refine ⟨lineAt?_eq_none_iff, fun l => ⟨?_, ?_⟩, fun l => ⟨?_, ?_⟩⟩
  · rintro ⟨h, hlt⟩
    obtain ⟨front, back, hcuts, hp, hoff⟩ := holds_of_lineAt? h
    refine ⟨front, back, hcuts, hp, hoff.resolve_right ?_⟩
    -- at the end of the last line is the end of the source
    rintro ⟨rfl, hend, -⟩
    rw [← hcuts.append_eq, String.append_empty, String.utf8ByteSize_append] at hlt
    omega
  · rintro ⟨front, back, hcuts, hp, hoff⟩
    refine ⟨Line.Holds.lineAt?_eq ⟨front, back, hcuts, hp, Or.inl hoff⟩, ?_⟩
    rw [← hcuts.append_eq, String.utf8ByteSize_append, String.utf8ByteSize_append]
    omega
  · rintro ⟨h, hend⟩
    obtain ⟨front, back, hcuts, hp, hoff⟩ := holds_of_lineAt? h
    obtain ⟨rfl, hlast⟩ := hoff.resolve_left fun hlt => by
      rw [← hcuts.append_eq, String.utf8ByteSize_append, String.utf8ByteSize_append] at hend
      omega
    exact ⟨front, hcuts, hp, hlast⟩
  · rintro ⟨front, hcuts, hp, hlast⟩
    refine ⟨Line.Holds.lineAt?_eq ⟨front, "", hcuts, hp, Or.inr ⟨rfl, hlast⟩⟩, ?_⟩
    rw [← hcuts.append_eq, String.append_empty, String.utf8ByteSize_append, hp, hlast.1]

example : lineAt? "é\n\nab" 3 = some ⟨2, "\n", 0⟩ ∧ lineAt? "é\n\nab" 6 = some ⟨3, "ab", 2⟩ := by
  decide

end ProcLang.Source
