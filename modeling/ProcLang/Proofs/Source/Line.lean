/-
  Line numbers count newlines.

  `lineAt?` walks over the lines of a source, while the scanner counts newlines as it goes.  For
  the place behind the first part `pre` of a source both come to the same number, with one
  exception (`exists_lineAt?`): the scanner starts a new line behind a newline at the very end of
  the source, and there is no such line to be shown.
-/
import ProcLang.Source.Line

namespace ProcLang.Source

open ProcLang.Text

/-! ## Lines are not empty -/

/-- Only the empty text has no lines. -/
theorem lines_eq_nil_iff {cs : List Char} : lines cs = [] ↔ cs = [] := by
  constructor
  · intro hnil
    have hcs := flatten_lines cs
    rw [hnil] at hcs
    exact hcs.symm
  · rintro rfl
    rfl

/-- No line is empty, since its newline is one of its characters. -/
theorem ne_nil_of_lines {cs l : List Char} {ls : List (List Char)} (h : lines cs = l :: ls) :
    l ≠ [] := by
  cases cs with
  | nil => cases h
  | cons c cs =>
    unfold lines at h
    split at h
    · obtain ⟨rfl, -⟩ := List.cons.inj h
      exact List.cons_ne_nil _ _
    · split at h
      · obtain ⟨rfl, -⟩ := List.cons.inj h
        exact List.cons_ne_nil _ _
      · obtain ⟨rfl, -⟩ := List.cons.inj h
        exact List.cons_ne_nil _ _

/-! ## The number of a line -/

/-- The number of lines that begin behind `pre` and cannot be shown: one when the source ends
    there, with a newline. -/
def unshown (pre rest : List Char) : Nat := if rest = [] ∧ pre.getLast? = some '\n' then 1 else 0

/-- In front of a text nothing is missing. -/
theorem unshown_nil (rest : List Char) : unshown [] rest = 0 := by
  simp [unshown]

/-- Nothing is missing when characters follow. -/
theorem unshown_of_ne_nil (pre : List Char) {rest : List Char} (h : rest ≠ []) :
    unshown pre rest = 0 := if_neg fun hand => h hand.1

/-- The first character of the text decides nothing, unless it is the only one. -/
theorem unshown_cons (c : Char) {pre rest : List Char} (h : pre ++ rest ≠ []) :
    unshown (c :: pre) rest = unshown pre rest := by
  cases pre with
  | nil =>
    rw [List.nil_append] at h
    rw [unshown_of_ne_nil [c] h, unshown_nil]
  | cons d pre => rw [unshown, unshown, List.getLast?_cons_cons]

/-- A character at the front of the first line moves the position, and not the line. -/
theorem number_locate_cons (c : Char) (n p : Nat) (l : List Char) (ls : List (List Char)) :
    (locate n (c.utf8Size + p) (c :: l) ls).number = (locate n p l ls).number := by
  cases ls with
  | nil => rfl
  | cons l' ls =>
    unfold locate
    rw [byteLength_cons, Nat.add_sub_add_left]
    by_cases h : p < byteLength l
    · rw [if_pos h, if_pos (Nat.add_lt_add_left h _)]
    · rw [if_neg h, if_neg (by omega)]

/-- A newline ends its line. -/
theorem locate_newline (n p : Nat) (l : List Char) (ls : List (List Char)) :
    locate n (('\n').utf8Size + p) ['\n'] (l :: ls) = locate (n + 1) p l ls := by
  have hbytes : byteLength ['\n'] = ('\n').utf8Size := rfl
  rw [locate, hbytes, if_neg (Nat.not_lt.mpr (Nat.le_add_right _ p)), Nat.add_sub_cancel_left]

/-- In front of the line that holds the place behind `pre` are as many lines as `pre` has
    newlines. -/
theorem number_locate {pre rest l : List Char} {ls : List (List Char)} (n : Nat)
    (h : lines (pre ++ rest) = l :: ls) :
    (locate n (byteLength pre) l ls).number + unshown pre rest = n + pre.count '\n' := by
  induction pre generalizing n l ls with
  | nil =>
    have hpos : 0 < byteLength l :=
      Nat.pos_of_ne_zero fun hzero => ne_nil_of_lines h (byteLength_eq_zero_iff.mp hzero)
    have hfirst : locate n 0 l ls = ⟨n, String.ofList l, 0⟩ := by
      cases ls with
      | nil => rfl
      | cons l' ls => exact if_pos hpos
    rw [byteLength_nil, hfirst, unshown_nil]
    rfl
  | cons c pre ih =>
    rw [List.cons_append, lines] at h
    by_cases hrest : pre ++ rest = []
    · -- one character is all there is
      obtain ⟨rfl, rfl⟩ := List.append_eq_nil_iff.mp hrest
      by_cases hc : c = '\n'
      · subst hc
        obtain ⟨rfl, rfl⟩ := List.cons.inj h
        rfl
      · rw [if_neg hc] at h
        obtain ⟨rfl, rfl⟩ := List.cons.inj h
        have hshown : unshown [c] [] = 0 := if_neg fun hand => hc (Option.some.inj hand.2)
        rw [hshown, List.count_cons_of_ne hc]
        rfl
    · obtain ⟨l', ls', hlines⟩ : ∃ l' ls', lines (pre ++ rest) = l' :: ls' :=
        List.exists_cons_of_ne_nil fun hnil => hrest (lines_eq_nil_iff.mp hnil)
      rw [hlines] at h
      by_cases hc : c = '\n'
      · subst hc
        obtain ⟨rfl, rfl⟩ := List.cons.inj h
        rw [byteLength_cons, locate_newline, unshown_cons _ hrest, ih (n + 1) hlines,
          List.count_cons_self]
        omega
      · rw [if_neg hc] at h
        obtain ⟨rfl, rfl⟩ := List.cons.inj h
        rw [byteLength_cons, number_locate_cons, unshown_cons c hrest, ih n hlines,
          List.count_cons_of_ne hc]

/-- At every boundary of characters a line is found, and its number is the one that counting the
    newlines in front gives, unless that line cannot be shown. -/
theorem exists_lineAt? {source : String} {pre rest : List Char} (h : pre ++ rest = source.toList) :
    ∃ l, lineAt? source (byteLength pre) = some l ∧
      l.number + unshown pre rest = 1 + pre.count '\n' := by
  have hle : ¬ byteLength source.toList < byteLength pre := by
    rw [← h, byteLength_append]
    omega
  rw [lineAt?, if_neg hle]
  cases hlines : lines source.toList with
  | nil =>
    have hnil : pre ++ rest = [] := h.trans (lines_eq_nil_iff.mp hlines)
    obtain ⟨rfl, rfl⟩ := List.append_eq_nil_iff.mp hnil
    exact ⟨_, rfl, rfl⟩
  | cons l ls =>
    rw [← h] at hlines
    exact ⟨_, rfl, number_locate 1 hlines⟩

end ProcLang.Source
