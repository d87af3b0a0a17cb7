/-
  Where the arrow of an excerpt points.

  An excerpt quotes the line of an error, without its indentation and without the white space at
  its end, and draws an arrow below it.  The arrow has one dash for each byte between the
  indentation and the error, and the characters above it can take more than one.  So its head is
  below the character where the error lies when all characters in front of it are of one byte,
  and too far to the right otherwise (`report_arrow`).  Behind 65535 bytes or more there is no
  arrow at all.

  The place of an error is given by the text `pre` in front of it.  The line around it is found by
  going back and forth to the next newline (`isLine_around`).
-/
import Mathlib.Data.List.DropRight
import ProcLang.Proofs.Diagnosis
import ProcLang.Proofs.Source.Place

namespace ProcLang

open ProcLang.Source ProcLang.Text

namespace Source

/-! ## The line around a place -/

/-- What the line of a place has in front of it, of the text `pre` in front of it. -/
def lineFront (pre : List Char) : List Char := pre.rtakeWhile (· ≠ '\n')

/-- What the line of a place has behind it, of the text `rest` behind it, up to the newline. -/
def lineBack (rest : List Char) : List Char := rest.takeWhile (· ≠ '\n')

/-- The part of a line in front of a position has no newline. -/
theorem newline_notMem_lineFront (pre : List Char) : '\n' ∉ lineFront pre := fun h => by
  simpa using List.mem_rtakeWhile_imp h

/-- The part of a line behind a position has no newline, but the one that ends it. -/
theorem newline_notMem_lineBack (rest : List Char) : '\n' ∉ lineBack rest := fun h => by
  simpa using List.mem_takeWhile_imp h

/-- The line of a place: what it has in front and behind, and a newline if there is one. -/
theorem isLine_around (pre rest : List Char) : ∃ front stop back,
    front ++ lineFront pre = pre ∧ lineBack rest ++ (stop ++ back) = rest ∧
      IsLine front (lineFront pre ++ (lineBack rest ++ stop)) back ∧
      ∀ x ∈ stop, isBlank x = true := by
  have hfront : pre.rdropWhile (· ≠ '\n') = [] ∨
      (pre.rdropWhile (· ≠ '\n')).getLast? = some '\n' := by
    by_cases hne : pre.rdropWhile (· ≠ '\n') = []
    · exact Or.inl hne
    · have hlast := List.rdropWhile_last_not (· ≠ '\n') pre hne
      refine Or.inr ?_
      rw [List.getLast?_eq_some_getLast hne]
      simpa using hlast
  -- between the newlines that were found there is no other, so both parts are on one line
  have hinner : '\n' ∉ lineFront pre ++ lineBack rest := fun h =>
    (List.mem_append.mp h).elim (newline_notMem_lineFront pre) (newline_notMem_lineBack rest)
  have hrest : lineBack rest ++ rest.dropWhile (· ≠ '\n') = rest := List.takeWhile_append_dropWhile
  -- the line ends with the text or with a newline, which is white space
  cases hback : rest.dropWhile (· ≠ '\n') with
  | nil =>
    rw [hback] at hrest
    refine ⟨_, [], [], List.rdropWhile_append_rtakeWhile, hrest, ⟨hfront, ?_, Or.inl rfl⟩, by simp⟩
    rw [List.append_nil]
    exact fun h => hinner (List.dropLast_subset _ h)
  | cons x back =>
    obtain rfl : x = '\n' := by
      have hhead := List.head?_dropWhile_not (· ≠ '\n') rest
      rw [hback] at hhead
      simpa using hhead
    rw [hback] at hrest
    refine ⟨_, ['\n'], back, List.rdropWhile_append_rtakeWhile, hrest,
      ⟨hfront, ?_, Or.inr ?_⟩, List.forall_mem_singleton.mpr (by decide)⟩
    · rwa [← List.append_assoc, List.dropLast_concat]
    · rw [← List.append_assoc, List.getLast?_concat]

/-- The line that is found for the place of a character, which is no newline itself. -/
theorem lineAt?_around {source : String} {pre post : List Char} {c : Char} (hc : c ≠ '\n')
    (h : pre ++ c :: post = source.toList) : ∃ stop, (∀ x ∈ stop, isBlank x = true) ∧
      lineAt? source (byteLength pre) = some ⟨1 + pre.count '\n',
        String.ofList (lineFront pre ++ c :: (lineBack post ++ stop)),
        byteLength (lineFront pre)⟩ := by
  obtain ⟨front, stop, back, hpre, hrest, hline, hstop⟩ := isLine_around pre (c :: post)
  have hback : lineBack (c :: post) = c :: lineBack post :=
    List.takeWhile_cons_of_pos (by simpa using hc)
  rw [hback, List.cons_append] at hrest hline
  have hsource : front ++ ((lineFront pre ++ c :: (lineBack post ++ stop)) ++ back) =
      source.toList := by
    rw [← h, ← hrest, List.append_assoc, ← List.append_assoc, hpre, List.cons_append,
      List.append_assoc]
  have hcount : pre.count '\n' = front.count '\n' := by
    have hzero := List.count_eq_zero.mpr (newline_notMem_lineFront pre)
    have hsum := congrArg (List.count '\n') hpre
    rw [List.count_append] at hsum
    omega
  have hbytes : byteLength pre = byteLength front + byteLength (lineFront pre) := by
    rw [← byteLength_append, hpre]
  have hoff : byteLength (lineFront pre) <
      byteLength (lineFront pre ++ c :: (lineBack post ++ stop)) := by
    have hpos := c.utf8Size_pos
    rw [byteLength_append, byteLength_cons]
    omega
  refine ⟨stop, hstop, ?_⟩
  rw [hcount, hbytes]
  exact lineAt?_of_isLine hline (by simp) hsource (Or.inl hoff)

end Source

namespace Diagnostic

/-! ## What an excerpt leaves out -/

/-- What is shown of the line in front of a place: all but the indentation. -/
def shownFront (pre : List Char) : List Char := (lineFront pre).dropWhile isIndent

/-- The indentation ends in front of a character that is none of it, or earlier. -/
theorem dropWhile_isIndent {front : List Char} {c : Char}
    (h : ∃ x ∈ front ++ [c], isIndent x = false) (back : List Char) :
    (front ++ c :: back).dropWhile isIndent = front.dropWhile isIndent ++ c :: back := by
  rw [List.dropWhile_append]
  split
  · rename_i hnil
    have hnil : front.dropWhile isIndent = [] := List.isEmpty_iff.mp hnil
    have hall := List.dropWhile_eq_nil_iff.mp hnil
    obtain ⟨x, hx, hxi⟩ := h
    rcases List.mem_append.mp hx with hx | hx
    · rw [hall x hx] at hxi
      cases hxi
    · obtain rfl := List.mem_singleton.mp hx
      rw [hnil, List.nil_append, List.dropWhile_cons_of_neg (by rw [hxi]; decide)]
  · rfl

/-- The indentation of a line ends in front of a position that is not part of it. -/
theorem takeWhile_isIndent {front : List Char} {c : Char}
    (h : ∃ x ∈ front ++ [c], isIndent x = false) (back : List Char) :
    (front ++ c :: back).takeWhile isIndent = front.takeWhile isIndent := by
  have hall := List.takeWhile_append_dropWhile (p := isIndent) (l := front ++ c :: back)
  have hfront := List.takeWhile_append_dropWhile (p := isIndent) (l := front)
  rw [dropWhile_isIndent h, ← List.append_assoc] at hall
  exact List.append_cancel_right ((List.append_cancel_right hall).trans hfront.symm)

/-- The white space at the end begins behind a character that is none, or later. -/
theorem exists_trimEnd {c : Char} {back : List Char} (h : ∃ x ∈ c :: back, isBlank x = false) :
    ∃ rest, ∀ front, trimEnd (front ++ c :: back) = front ++ c :: rest := by
  have hne : trimEnd (c :: back) ≠ [] := by
    intro hnil
    obtain ⟨x, hx, hxb⟩ := h
    have hblank := List.rdropWhile_eq_nil_iff.mp hnil x hx
    rw [hxb] at hblank
    cases hblank
  obtain ⟨y, rest, hrest⟩ := List.exists_cons_of_ne_nil hne
  obtain ⟨more, hmore⟩ := List.rdropWhile_prefix isBlank (c :: back)
  obtain rfl : y = c := by
    rw [show (c :: back).rdropWhile isBlank = y :: rest from hrest] at hmore
    exact (List.cons.inj hmore).1
  refine ⟨rest, fun front => ?_⟩
  have hdrop : (y :: back).reverse.dropWhile isBlank ≠ [] := fun hnil =>
    hne (List.reverse_eq_nil_iff.mpr hnil)
  rw [← hrest, trimEnd, trimEnd, List.reverse_append, List.dropWhile_append,
    if_neg (by rwa [List.isEmpty_iff]), List.reverse_append, List.reverse_reverse]

/-! ## The arrow -/

/-- The bar stands in the column behind the number of the line and a space. -/
theorem length_numberBar (l : Line) : l.numberBar.length = (toString l.number).length + 2 := by
  rw [Line.numberBar, String.length_append, String.length_ofList, List.length_replicate]
  rfl

/-- Characters take at least one byte each. -/
theorem length_le_byteLength (cs : List Char) : cs.length ≤ byteLength cs := by
  induction cs with
  | nil => exact Nat.le_refl 0
  | cons c cs ih =>
    have hc := c.utf8Size_pos
    rw [List.length_cons, byteLength_cons]
    omega

/-- A text has as many bytes as characters when each of them is of one byte. -/
theorem byteLength_eq_length_iff {cs : List Char} :
    byteLength cs = cs.length ↔ ∀ c ∈ cs, c.utf8Size = 1 := by
  induction cs with
  | nil => simp
  | cons c cs ih =>
    have hc := c.utf8Size_pos
    have hcs := length_le_byteLength cs
    simp only [List.forall_mem_cons, byteLength_cons, List.length_cons, ← ih]
    omega

section

variable {front : List Char} {c : Char}

/-- A character that belongs neither to the indentation nor to the white space at the end of its
    line is shown behind what is shown of the line in front of it. -/
theorem exists_shownText {back : List Char} (n off : Nat)
    (hindent : ∃ x ∈ front ++ [c], isIndent x = false)
    (hend : ∃ x ∈ c :: back, isBlank x = false) :
    ∃ rest, Line.shownText ⟨n, String.ofList (front ++ c :: back), off⟩ =
      front.dropWhile isIndent ++ c :: rest := by
  obtain ⟨rest, hrest⟩ := exists_trimEnd hend
  refine ⟨rest, ?_⟩
  rw [Line.shownText, String.toList_ofList, dropWhile_isIndent hindent, hrest]

/-- The bytes up to the character are those of what is shown in front of it. -/
theorem shownBytes_eq (n : Nat) (back : List Char)
    (hindent : ∃ x ∈ front ++ [c], isIndent x = false) :
    Line.shownBytes ⟨n, String.ofList (front ++ c :: back), byteLength front⟩ =
      byteLength (front.dropWhile isIndent) := by
  have hbytes : byteLength (front.takeWhile isIndent) + byteLength (front.dropWhile isIndent) =
      byteLength front := by
    rw [← byteLength_append, List.takeWhile_append_dropWhile]
  rw [Line.shownBytes, String.toList_ofList, takeWhile_isIndent hindent, ← hbytes,
    Nat.add_sub_cancel_left]

end

/-- **The arrow counts bytes.**  Let an error lie at the start of a character that is shown, that
    is, one that belongs neither to the indentation nor to the white space at the end of its line.
    The line above the arrow has this character behind the number of the line, a bar, and what is
    shown in front of it.  The arrow has a dash for each byte of what is shown in front.  So its
    head is in the column of the character exactly when each character in front is of one byte.
    The arrow is drawn unless it has 65535 dashes or more. -/
theorem report_arrow {d : Diagnostic} {source : String} {pre post : List Char} {c : Char}
    (hsource : pre ++ c :: post = source.toList) (hpos : d.position.offset = byteLength pre)
    (hindent : ∃ x ∈ lineFront pre ++ [c], isIndent x = false)
    (hend : ∃ x ∈ lineBack (c :: post), isBlank x = false) :
    ∃ bar left rest shaft,
      left = toString (1 + pre.count '\n') ++ " | " ++ String.ofList (shownFront pre) ∧
      d.report source =
        (if byteLength (shownFront pre) < 65535 then
          ⟨[d.headline, "-> " ++ d.position.file, bar, left ++ String.ofList (c :: rest),
            shaft ++ "^"], true⟩
        else
          ⟨[d.headline, "-> " ++ d.position.file, bar, left ++ String.ofList (c :: rest)],
            false⟩) ∧
      '^' ∉ shaft.toList ∧
      shaft.length = left.length + (byteLength (shownFront pre) - (shownFront pre).length) ∧
      (shaft.length = left.length ↔ ∀ x ∈ shownFront pre, x.utf8Size = 1) := by
  have hc : c ≠ '\n' := by
    rintro rfl
    obtain ⟨x, hx, -⟩ := hend
    cases hx
  obtain ⟨stop, -, hl⟩ := lineAt?_around hc hsource
  have hend' : ∃ x ∈ c :: (lineBack post ++ stop), isBlank x = false := by
    obtain ⟨x, hx, hxb⟩ := hend
    rw [lineBack, List.takeWhile_cons_of_pos (by simpa using hc)] at hx
    refine ⟨x, (List.mem_cons.mp hx).elim (fun he => he ▸ List.mem_cons_self) fun hx => ?_, hxb⟩
    exact List.mem_cons_of_mem _ (List.mem_append_left _ hx)
  rw [← hpos] at hl
  obtain ⟨rest, htext⟩ := exists_shownText (1 + pre.count '\n') (byteLength (lineFront pre))
    hindent hend'
  have hbytes := shownBytes_eq (1 + pre.count '\n') (lineBack post ++ stop) hindent
  have hshown : (lineFront pre).dropWhile isIndent = shownFront pre := rfl
  have hquote : toString (1 + pre.count '\n') ++ " | " ++
      String.ofList (shownFront pre ++ c :: rest) =
        toString (1 + pre.count '\n') ++ " | " ++ String.ofList (shownFront pre) ++
          String.ofList (c :: rest) := by
    rw [String.ofList_append]
    exact String.append_assoc.symm
  have hreport := report_of_lineAt? hl
  rw [htext, hbytes, hshown] at hreport
  dsimp only at hreport
  rw [hquote] at hreport
  have hwide := length_le_byteLength (shownFront pre)
  -- the bar and the space behind it reach as far as the number and the bar above
  have hshaft : ∀ l : Line, l.number = 1 + pre.count '\n' →
      (l.numberBar ++ " " ++
        String.ofList (List.replicate (byteLength (shownFront pre)) '-')).length =
      (toString (1 + pre.count '\n') ++ " | " ++ String.ofList (shownFront pre)).length +
        (byteLength (shownFront pre) - (shownFront pre).length) := by
    intro l hl
    simp only [String.length_append, length_numberBar, hl, String.length_ofList,
      List.length_replicate, show " ".length = 1 from rfl, show " | ".length = 3 from rfl]
    omega
  refine ⟨_, _, rest, _, rfl, hreport, ?_, hshaft _ rfl, ?_⟩
  · simp [Line.numberBar]
  · rw [hshaft _ rfl, ← byteLength_eq_length_iff]
    omega

/-- A comment with a character of two bytes, and behind it one that starts no lexeme. -/
def wideSource : String := "/%é%/#"

/-- The error of the wide source, behind six bytes. -/
def wideError : Diagnostic := ⟨.unrecognised "#", ⟨6, "stdin"⟩⟩

/-- The character is in column 9, and the head of the arrow in column 10. -/
theorem report_wideError :
    tokenize wideSource none = .error wideError ∧
    wideError.report wideSource =
      ⟨["Error: UnrecognisedToken", "-> stdin", "  |", "1 | /%é%/#", "  | ------^"], true⟩ ∧
    "1 | /%é%/#".toList.idxOf '#' = 9 ∧ "  | ------^".toList.idxOf '^' = 10 := by
  decide +kernel

/-- The character in front of the error has two bytes, and the arrow points beside it. -/
theorem report_arrow_wide :
    "/%é%/".toList ++ '#' :: [] = wideSource.toList ∧
    wideError.position.offset = byteLength "/%é%/".toList ∧
    isIndent '#' = false ∧ isBlank '#' = false ∧
    ∃ bar left rest shaft,
      left = "1 | " ++ String.ofList (shownFront "/%é%/".toList) ∧
      wideError.report wideSource = ⟨[wideError.headline, "-> stdin", bar,
        left ++ String.ofList ('#' :: rest), shaft ++ "^"], true⟩ ∧
      shaft.length = left.length + 1 := by
  have hsource : "/%é%/".toList ++ '#' :: [] = wideSource.toList := by decide
  have hpos : wideError.position.offset = byteLength "/%é%/".toList := by decide
  have hindent : isIndent '#' = false := by decide
  have hblank : isBlank '#' = false := by decide
  obtain ⟨bar, left, rest, shaft, hleft, hreport, -, hshaft, -⟩ :=
    report_arrow hsource hpos ⟨'#', List.mem_append_right _ List.mem_cons_self, hindent⟩
      ⟨'#', List.mem_cons_self, hblank⟩
  have hwide : byteLength (shownFront "/%é%/".toList) - (shownFront "/%é%/".toList).length = 1 := by
    decide
  rw [if_pos (by decide)] at hreport
  exact ⟨hsource, hpos, hindent, hblank, bar, left, rest, shaft, hleft, hreport, hwide ▸ hshaft⟩

end Diagnostic
end ProcLang
