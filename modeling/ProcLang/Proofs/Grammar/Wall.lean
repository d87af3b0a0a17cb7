/-
  The end is a wall.

  `parse` stops at the first end marker of its tokens, whatever stands behind it, and where there
  is none at the one that is put at the end.  That a run never passes an end marker, and does not
  look behind the token where it ends, is what `confined_program` says.  This leaves no run that
  takes the last end marker for a token of the program and stays there: the same run would pass it
  where more tokens follow.

  It remains to see which tokens lie in front of the stream that `parse` runs over: those before
  the first end marker, and then this one (`exists_passes_firstEnd`).  So the tokens up to the
  first end marker decide the run (`parse_eq_of_uptoEnd_eq`).
-/
import ProcLang.Proofs.Grammar.Confined

namespace ProcLang

/-! ## Where a run ends -/

namespace Parse

open ProcLang.Stream

variable {α : Type} {p : Parse α} {s s' t' : Stream} {ts : List Token}

/-- The stream at which the run of `p` at `s` ends, whether it succeeds or not. -/
def stop (p : Parse α) (s : Stream) : Stream :=
  match p s with
  | .ok _ t => t
  | .error _ t => t

/-- What the run of `p` at `s` returns. -/
def answer (p : Parse α) (s : Stream) : Except Diagnostic α :=
  match p s with
  | .ok x _ => .ok x
  | .error d _ => .error d

/-- A run that succeeds stops at the stream it returns. -/
theorem stop_of_ok {x : α} {t : Stream} (h : p s = .ok x t) : stop p s = t := by
  rw [stop, h]

/-- A confined run passes the tokens up to the one where it stops. -/
theorem Confined.exists_passes (h : Confined p s) : ∃ ts, s.Passes ts (stop p s) := by
  unfold stop
  cases hp : p s with
  | ok x t =>
    obtain ⟨ts, ht, -⟩ := h.settles hp
    exact ⟨ts, ht⟩
  | error d t =>
    obtain ⟨ts, ht, -⟩ := h.stops hp
    exact ⟨ts, ht⟩

/-- Where the tokens of a confined run lie in front, with the same token behind them, the run is
    the same. -/
theorem Confined.run_eq (h : Confined p s) (hts : s.Passes ts (stop p s))
    (hfile : s'.file = s.file) (ht' : s'.Passes ts t') (hk : t'.current = (stop p s).current) :
    answer p s' = answer p s ∧ stop p s' = t' := by
  unfold stop at hts hk
  unfold answer stop
  cases hp : p s with
  | ok x t =>
    rw [hp] at hts hk
    obtain ⟨us, hus, hread⟩ := h.settles hp
    obtain rfl := hus.tokens_unique hts
    rw [hread s' t' ht' (Or.inl hk)]
    exact ⟨rfl, rfl⟩
  | error d t =>
    rw [hp] at hts hk
    obtain ⟨us, hus, -, hrun⟩ := h.stops hp
    obtain rfl := hus.tokens_unique hts
    rw [hrun s' t' hfile ht' hk]
    exact ⟨rfl, rfl⟩

/-- A loop that succeeds stops where no item is wanted. -/
theorem wanted_eq_false_of_manyWhile {wanted : Token → Bool} {item : Parse α}
    (hp : ∀ t, Progresses item t) {xs : List α} {t : Stream}
    (h : manyWhile wanted item s = .ok xs t) : wanted t.current = false := by
  obtain ⟨n, hn⟩ : ∃ n, s.remaining = n := ⟨_, rfl⟩
  induction n using Nat.strongRecOn generalizing s xs with
  | _ n ih =>
    rw [manyWhile_eq (fun t _ => hp t)] at h
    split at h
    · obtain ⟨x, m, hx, h⟩ := bind_eq_ok.mp h
      obtain ⟨ys, m', hys, h⟩ := bind_eq_ok.mp h
      obtain ⟨-, rfl⟩ := pure_eq_ok.mp h
      exact ih m.remaining (hn ▸ ((hp s).of_ok hx).2) hys rfl
    · rename_i hw
      obtain ⟨-, rfl⟩ := pure_eq_ok.mp h
      simpa using hw

end Parse

namespace Grammar

open Parse ProcLang.Stream

/-! ## Tokens up to the end -/

/-- The tokens up to the first end marker, this one with them. -/
def uptoEnd (tokens : List Token) : List Token :=
  beforeEnd tokens ++ (tokens.find? (·.kind = .eof)).toList

/-- There is no end marker in front of the first one. -/
theorem ne_eof_of_mem_beforeEnd {tokens : List Token} : ∀ t ∈ beforeEnd tokens, t.kind ≠ .eof := by
  intro t ht
  simpa using List.mem_takeWhile_imp (p := fun t : Token => decide (t.kind ≠ .eof)) ht

/-- The first end marker is the last of the tokens up to it. -/
theorem find?_uptoEnd (tokens : List Token) :
    (uptoEnd tokens).find? (·.kind = .eof) = tokens.find? (·.kind = .eof) := by
  have hnone : (beforeEnd tokens).find? (·.kind = .eof) = none :=
    List.find?_eq_none.mpr fun t ht => by simpa using ne_eof_of_mem_beforeEnd t ht
  rw [uptoEnd, List.find?_append, hnone, Option.none_or]
  cases h : tokens.find? (·.kind = .eof) with
  | none => rfl
  | some t => simpa using List.find?_some h

/-- Without an end marker all tokens are kept. -/
theorem uptoEnd_eq_self {tokens : List Token} (h : tokens.find? (·.kind = .eof) = none) :
    uptoEnd tokens = tokens := by
  have hall : beforeEnd tokens = tokens :=
    List.takeWhile_eq_self_iff.mpr fun t ht => by simpa using List.find?_eq_none.mp h t ht
  rw [uptoEnd, hall, h]
  exact List.append_nil _

/-- Lists with the same tokens up to the first end marker have the same one. -/
theorem find?_congr {tokens tokens' : List Token} (h : uptoEnd tokens' = uptoEnd tokens) :
    tokens'.find? (·.kind = .eof) = tokens.find? (·.kind = .eof) := by
  rw [← find?_uptoEnd, h, find?_uptoEnd]

/-- The first end marker is one of the tokens up to it, or depends on all tokens. -/
theorem firstEnd_congr (file : String) {tokens tokens' : List Token}
    (h : uptoEnd tokens' = uptoEnd tokens) : firstEnd file tokens' = firstEnd file tokens := by
  have hfind := find?_congr h
  cases hnone : tokens.find? (·.kind = .eof) with
  | some t => rw [firstEnd, firstEnd, hfind, hnone, Option.getD_some, Option.getD_some]
  | none =>
    rw [uptoEnd_eq_self hnone, uptoEnd_eq_self (hfind.trans hnone)] at h
    rw [h]

/-- Lists with the same tokens up to the first end marker have the same tokens in front of it. -/
theorem beforeEnd_congr {tokens tokens' : List Token} (h : uptoEnd tokens' = uptoEnd tokens) :
    beforeEnd tokens' = beforeEnd tokens := by
  have hfind := find?_congr h
  unfold uptoEnd at h
  rw [hfind] at h
  exact List.append_cancel_right h

/-! ## The wall -/

/-- A stream knows the file, also when there are no tokens. -/
theorem file_ofTokens (file : String) (tokens : List Token) :
    (ofTokens file tokens).file = file := by
  cases tokens with
  | nil => rfl
  | cons t ts =>
    by_cases h : (ts.getLastD t).kind = .eof
    · rw [ofTokens, dif_pos h]
    · rw [ofTokens, dif_neg h]

/-- What is passed on one stream is passed on any that has the same tokens before its end. -/
theorem exists_passes_of_beforeEnd {s s' t e e' : Stream} {ts us : List Token}
    (h : s.Passes ts t) (hs : s.Passes us e) (hs' : s'.Passes us e') (he : e.current.kind = .eof)
    (hk : e'.current = e.current) : ∃ t', s'.Passes ts t' ∧ t'.current = t.current := by
  -- the tokens that are passed begin the tokens before the end
  have hus : us = ts ++ t.tokens.takeWhile (·.kind ≠ .eof) :=
    (hs.eq_takeWhile he).trans h.takeWhile_eq
  rw [hus] at hs hs'
  obtain ⟨m, hm, hme⟩ := passes_append.mp hs
  obtain ⟨m', hm', hme'⟩ := passes_append.mp hs'
  obtain rfl := hm.unique h
  exact ⟨m', hm', hme.current_eq hme' hk⟩

/-- `parse` drops the stream where the run of the program reader stops. -/
theorem answer_program (file : String) (tokens : List Token) :
    answer program (ofTokens file tokens) = parse file tokens := by
  unfold answer parse
  cases program (ofTokens file tokens) <;> rfl

/-- A program is read up to an end marker. -/
theorem current_of_program {s t : Stream} {p : Program} (h : program s = .ok p t) :
    t.current.kind = .eof := by
  rw [program_eq] at h
  obtain ⟨ps, m, hps, h⟩ := bind_eq_ok.mp h
  rw [current_bind_eq_ok] at h
  obtain ⟨-, rfl⟩ := pure_eq_ok.mp h
  simpa using wanted_eq_false_of_manyWhile progresses_topProcedure hps

/-- What stands behind the first end marker makes no difference to a run. -/
theorem parse_eq_of_uptoEnd_eq (file : String) {tokens tokens' : List Token}
    (h : uptoEnd tokens' = uptoEnd tokens) :
    parse file tokens' = parse file tokens ∧
      (stop program (ofTokens file tokens')).current =
        (stop program (ofTokens file tokens)).current := by
  have hrun := confined_program (ofTokens file tokens)
  obtain ⟨ts, hts⟩ := hrun.exists_passes
  obtain ⟨e, he, hek, hfirst⟩ := exists_passes_firstEnd file tokens
  obtain ⟨e', he', -, hfirst'⟩ := exists_passes_firstEnd file tokens'
  rw [beforeEnd_congr h] at he'
  rw [firstEnd_congr file h] at hfirst'
  -- the run from the one stream has its tokens on the other stream, too
  obtain ⟨t', ht', hk⟩ := exists_passes_of_beforeEnd hts he he' hek (hfirst'.trans hfirst.symm)
  have hfile : (ofTokens file tokens').file = (ofTokens file tokens).file := by
    rw [file_ofTokens, file_ofTokens]
  obtain ⟨hanswer, hstop⟩ := hrun.run_eq hts hfile ht' hk
  rw [answer_program, answer_program] at hanswer
  exact ⟨hanswer, by rw [hstop, hk]⟩

/-- A run that succeeds ends at the first end marker. -/
theorem passes_beforeEnd_of_parse {file : String} {tokens : List Token} {p : Program}
    (h : parse file tokens = .ok p) :
    (ofTokens file tokens).Passes (beforeEnd tokens) (stop program (ofTokens file tokens)) ∧
      (stop program (ofTokens file tokens)).current = firstEnd file tokens ∧
      (firstEnd file tokens).kind = .eof := by
  obtain ⟨t, ht⟩ := parse_eq_ok_iff.mp h
  obtain ⟨ts, hts⟩ := (confined_program (ofTokens file tokens)).exists_passes
  obtain ⟨e, he, hek, hfirst⟩ := exists_passes_firstEnd file tokens
  rw [stop_of_ok ht] at hts ⊢
  have hall : ts = beforeEnd tokens :=
    (hts.eq_takeWhile (current_of_program ht)).trans (he.eq_takeWhile hek).symm
  rw [hall] at hts
  obtain rfl := hts.unique he
  exact ⟨he, hfirst, hfirst ▸ hek⟩

/-- **The first end marker is a wall.**  A run of `parse` passes no end marker, whether it succeeds
    or not.  Its answer and the token where it ends depend only on the tokens up to the first end
    marker.  When it succeeds, it ends at this one, with all tokens before it passed.  Tokens
    without an end marker are read as if the missing one stood behind them. -/
theorem parse_wall (file : String) (tokens : List Token) :
    (∃ ts, (ofTokens file tokens).Passes ts (stop program (ofTokens file tokens))) ∧
    (∀ tokens', uptoEnd tokens' = uptoEnd tokens →
      parse file tokens' = parse file tokens ∧
      (stop program (ofTokens file tokens')).current =
        (stop program (ofTokens file tokens)).current) ∧
    (∀ p, parse file tokens = .ok p →
      (ofTokens file tokens).Passes (beforeEnd tokens) (stop program (ofTokens file tokens)) ∧
      (stop program (ofTokens file tokens)).current = firstEnd file tokens ∧
      (firstEnd file tokens).kind = .eof) ∧
    ((∀ t ∈ tokens, t.kind ≠ .eof) →
      parse file (tokens ++ [missingEnd file tokens]) = parse file tokens ∧
      stop program (ofTokens file (tokens ++ [missingEnd file tokens])) =
        stop program (ofTokens file tokens)) := by
  refine ⟨(confined_program _).exists_passes, fun tokens' h => parse_eq_of_uptoEnd_eq file h,
    fun p h => passes_beforeEnd_of_parse h, fun h => ?_⟩
  have hlast : ∀ t ∈ tokens.getLast?, t.kind ≠ .eof := fun t ht => h t (List.mem_of_getLast? ht)
  rw [← answer_program, ofTokens_append_missingEnd file hlast, answer_program]
  exact ⟨rfl, rfl⟩

/-- With its tokens twice, the sample is read up to the end in the middle. -/
theorem parse_wall_sample :
    parse "f" (sampleTokens ++ sampleTokens) = .ok sampleProgram ∧
    (stop program (ofTokens "f" (sampleTokens ++ sampleTokens))).current =
      .endMarker ⟨0, "f"⟩ 3 := by
  have hupto : uptoEnd (sampleTokens ++ sampleTokens) = uptoEnd sampleTokens := by decide
  obtain ⟨hparse, hstop⟩ := (parse_wall "f" sampleTokens).2.1 _ hupto
  have hsample : parse "f" sampleTokens = .ok sampleProgram := by rfl
  rw [hparse, hstop]
  exact ⟨hsample, ((parse_wall "f" sampleTokens).2.2.1 _ hsample).2.1⟩

end Grammar
end ProcLang
