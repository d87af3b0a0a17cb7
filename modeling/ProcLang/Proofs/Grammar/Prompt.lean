/-
  Readers that fail promptly.

  A reader is prompt when its errors point at the first token that makes success impossible: what
  was passed before can be completed, and no continuation helps once that token has come.

  To see this of a sequence, something has to be known of its parts that succeed, too.  A part
  takes the same tokens in the same way wherever they stand (`Settles`), but it may have to look
  at the token behind them; so it is told which kinds `F` of token can follow when the reader is
  completed.  A run can also be started from nothing, in front of a kind in `E`, with tokens made
  up for it.  `Prompt n p E F` puts these together for all streams with fewer than `n` tokens
  left, in such a way that it is closed under sequencing without further conditions
  (`Prompt.bind`).  The bound `n` carries the induction over the nesting of the grammar.

  * `Prompt.bind`, `promptAt_of_advance` — sequences;
  * `PromptAt.of_same`, `prompt_choice`  — branches that are chosen by the current token;
  * `prompt_manyWhile`                   — loops.
-/
import ProcLang.Proofs.Grammar.Passing

namespace ProcLang

namespace Stream

variable {s s' t t' : Stream} {ts us : List Token}

/-- Where the same tokens are passed, the same token comes first, or else what follows. -/
theorem Passes.current_eq (h : s.Passes ts t) (h' : s'.Passes ts t')
    (hend : t'.current = t.current) : s'.current = s.current := by
  cases ts with
  | nil =>
    obtain rfl := passes_nil.mp h
    obtain rfl := passes_nil.mp h'
    exact hend
  | cons x ts => exact (passes_cons.mp h').1.trans (passes_cons.mp h).1.symm

/-- Streams over the same tokens, of which there is one at least, have the same current token. -/
theorem Passes.current_eq_of_ne_nil (h : s.Passes ts t) (hne : ts ≠ [])
    (h' : s'.Passes (ts ++ us) t') : s'.current = s.current := by
  obtain ⟨x, ts, rfl⟩ := List.exists_cons_of_ne_nil hne
  rw [List.cons_append] at h'
  exact (passes_cons.mp h').1.trans (passes_cons.mp h).1.symm

/-- Passing tokens leaves no more than there were. -/
theorem Passes.remaining_le (h : s.Passes ts t) : t.remaining ≤ s.remaining :=
  h.reaches.remaining_le

/-- Only nothing is passed between a stream and itself. -/
theorem Passes.eq_nil (h : s.Passes ts s) : ts = [] := by
  cases ts with
  | nil => rfl
  | cons x ts => exact absurd (h.remaining_lt (List.cons_ne_nil x ts)) (Nat.lt_irrefl _)

end Stream

namespace Parse

open ProcLang.Stream

variable {α β : Type} {p q : Parse α} {f : α → Parse β} {E E' F G : Kind → Prop} {n : Nat}
  {s t u : Stream} {ts : List Token}

/-! ## Runs and their tokens -/

/-- Where the tokens `ts` lie in front, and then a token in `F`, they are read as `x`. -/
def Reads (p : Parse α) (ts : List Token) (x : α) (F : Kind → Prop) : Prop :=
  ∀ s t, s.Passes ts t → F t.current.kind → p s = .ok x t

/-- The tokens `ts` can be completed to tokens that are read. -/
def Completes (p : Parse α) (ts : List Token) (F : Kind → Prop) : Prop :=
  ∃ us x, (∀ y ∈ us, y.kind ≠ .eof) ∧ Reads p (ts ++ us) x F

/-- The run of `p` from `s` to `t` passes tokens that are read as `x` on any stream, with the
    token of `t` behind them or any in `F`. -/
def Settles (p : Parse α) (F : Kind → Prop) (s t : Stream) (x : α) : Prop :=
  ∃ ts, s.Passes ts t ∧
    ∀ s' t', s'.Passes ts t' → t'.current = t.current ∨ F t'.current.kind → p s' = .ok x t'

/-- The error `d` of `p` at `s` points at the first token that makes success impossible.  If it
    is the current one, nothing is said of the completion of what lies before it. -/
def Faults (p : Parse α) (F : Kind → Prop) (s : Stream) (d : Diagnostic) : Prop :=
  ∃ ts u, s.Passes ts u ∧ d.position.offset = u.current.span.start.offset ∧
    (∀ s' u' x t', s'.Passes ts u' → u'.current = u.current → p s' ≠ .ok x t') ∧
    (ts ≠ [] → Completes p ts F)

/-- The run of `p` at `s` settles, or has its fault at the first possible place. -/
def PromptAt (p : Parse α) (F : Kind → Prop) (s : Stream) : Prop :=
  match p s with
  | .ok x t => Settles p F s t x
  | .error d _ => Faults p F s d

/-- A prompt run that succeeds is settled. -/
theorem PromptAt.settles (h : PromptAt p F s) {x : α} (hp : p s = .ok x t) :
    Settles p F s t x := by
  unfold PromptAt at h
  rwa [hp] at h

/-- A prompt run that fails has its fault at the right token. -/
theorem PromptAt.faults (h : PromptAt p F s) {d : Diagnostic} (hp : p s = .error d t) :
    Faults p F s d := by
  unfold PromptAt at h
  rwa [hp] at h

/-- A run that succeeds is prompt when it is settled. -/
theorem promptAt_of_ok {x : α} (hp : p s = .ok x t) (h : Settles p F s t x) : PromptAt p F s := by
  unfold PromptAt
  rwa [hp]

/-- A run that fails is prompt when its fault is at the right token. -/
theorem promptAt_of_error {d : Diagnostic} (hp : p s = .error d t) (h : Faults p F s d) :
    PromptAt p F s := by
  unfold PromptAt
  rwa [hp]

/-- Fewer kinds may be allowed to follow. -/
theorem Reads.mono {x : α} (h : Reads p ts x F) (hFG : ∀ k, G k → F k) : Reads p ts x G :=
  fun s t ht hk => h s t ht (hFG _ hk)

/-- Fewer tokens can follow. -/
theorem PromptAt.mono (h : PromptAt p F s) (hFG : ∀ k, G k → F k) : PromptAt p G s := by
  cases hp : p s with
  | ok x t =>
    obtain ⟨ts, ht, hread⟩ := h.settles hp
    exact promptAt_of_ok hp ⟨ts, ht, fun s' t' ht' hk => hread s' t' ht' (hk.imp_right (hFG _))⟩
  | error d t =>
    obtain ⟨ts, u, hu, hpos, hno, hcomplete⟩ := h.faults hp
    refine promptAt_of_error hp ⟨ts, u, hu, hpos, hno, fun hne => ?_⟩
    obtain ⟨us, x, hus, hread⟩ := hcomplete hne
    exact ⟨us, x, hus, hread.mono hFG⟩

/-- A reader that does the same as `q` wherever the current token is the same. -/
theorem PromptAt.of_same (h : PromptAt q F s) (hsame : ∀ s', s'.current = s.current → p s' = q s')
    (hstay : ∀ x, q s = .ok x s → ∀ s', F s'.current.kind → p s' = q s') : PromptAt p F s := by
  have hs : p s = q s := hsame s rfl
  cases hq : q s with
  | ok x t =>
    obtain ⟨ts, ht, hread⟩ := h.settles hq
    refine promptAt_of_ok (hs.trans hq) ⟨ts, ht, fun s' t' ht' hk => ?_⟩
    have hp : p s' = q s' := by
      rcases hk with hk | hk
      · exact hsame s' (ht.current_eq ht' hk)
      · cases ts with
        | nil =>
          obtain rfl := passes_nil.mp ht
          obtain rfl := passes_nil.mp ht'
          exact hstay x hq _ hk
        | cons y ts => exact hsame s' ((passes_cons.mp ht').1.trans (passes_cons.mp ht).1.symm)
    rw [hp]
    exact hread s' t' ht' hk
  | error d t =>
    obtain ⟨ts, u, hu, hpos, hno, hcomplete⟩ := h.faults hq
    refine promptAt_of_error (hs.trans hq) ⟨ts, u, hu, hpos, ?_, ?_⟩
    · intro s' u' x t' hu' hk
      rw [hsame s' (hu.current_eq hu' hk)]
      exact hno s' u' x t' hu' hk
    · intro hne
      obtain ⟨us, x, hus, hread⟩ := hcomplete hne
      refine ⟨us, x, hus, fun s' t' ht' hk => ?_⟩
      rw [hsame s' (hu.current_eq_of_ne_nil hne ht')]
      exact hread s' t' ht' hk

/-- A run that progresses does not end where it starts. -/
theorem Progresses.ne_ok (h : Progresses p s) (x : α) : p s ≠ .ok x s := fun hp =>
  absurd (h.of_ok hp).2 (Nat.lt_irrefl _)

/-- Two readers that do the same at a token are prompt there together, when one of them takes it. -/
theorem PromptAt.of_progresses (h : PromptAt q F s) (hq : Progresses q s)
    (hsame : ∀ s', s'.current = s.current → p s' = q s') : PromptAt p F s :=
  h.of_same hsame fun x hx => absurd hx (hq.ne_ok x)

/-- An error at once, wherever the current token is the same. -/
theorem promptAt_of_fault {d : Diagnostic} (hp : p s = .error d t)
    (hpos : d.position.offset = s.current.span.start.offset)
    (hno : ∀ s' x t', s'.current = s.current → p s' ≠ .ok x t') : PromptAt p F s :=
  promptAt_of_error hp ⟨[], s, rfl, hpos, fun s' u' x t' hu' hk => by
    obtain rfl := passes_nil.mp hu'
    exact hno s' x t' hk, fun hne => absurd rfl hne⟩

/-- The reader that fails at the current token, whatever it is, is prompt. -/
theorem promptAt_unexpected (m : String) : PromptAt (unexpected m : Parse α) F s :=
  promptAt_of_fault rfl rfl fun _ _ _ _ => unexpected_ne_ok

/-! ## Sequences -/

/-- Tokens can be made up for `p`, to be read in front of a token in `F`.  Then a token in `E`
    comes first. -/
def MadeUp (p : Parse α) (E F : Kind → Prop) : Prop :=
  ∃ us x, (∀ y ∈ us, y.kind ≠ .eof) ∧
    ∀ s t : Stream, s.Passes us t → F t.current.kind → E s.current.kind ∧ p s = .ok x t

/-- `p` is prompt on streams with fewer than `n` tokens left.  Tokens can be made up for it; and
    if it passes no token, it does not do so in front of one that is in `F` and not in `E`. -/
structure Prompt (n : Nat) (p : Parse α) (E F : Kind → Prop) : Prop where
  run : MadeUp p E F
  stay : ∀ (s s' : Stream) x, s.remaining < n → p s = .ok x s → F s'.current.kind →
    E s'.current.kind
  promptAt : ∀ s : Stream, s.remaining < n → PromptAt p F s

/-- A fault of the first part is one of the sequence.  It is completed in the first part, and the
    tokens of the second one are made up. -/
theorem Faults.bind {d : Diagnostic} (h : Faults p F s d) (hf : ∀ x, MadeUp (f x) F G) :
    Faults (p >>= f) G s d := by
  obtain ⟨ts, u, hu, hpos, hno, hcomplete⟩ := h
  refine ⟨ts, u, hu, hpos, fun s' u' y t' hu' hk hy => ?_, fun hne => ?_⟩
  · obtain ⟨x, m, hx, -⟩ := bind_eq_ok.mp hy
    exact hno s' u' x m hu' hk hx
  · obtain ⟨us, x, hus, hread⟩ := hcomplete hne
    obtain ⟨vs, y, hvs, hrun⟩ := hf x
    refine ⟨us ++ vs, y, List.forall_mem_append.mpr ⟨hus, hvs⟩, fun s' t' ht' hk => ?_⟩
    rw [← List.append_assoc] at ht'
    obtain ⟨m, hm, ht'⟩ := passes_append.mp ht'
    obtain ⟨hF, hy⟩ := hrun m t' ht' hk
    rw [bind_apply (hread s' m hm hF), hy]

/-- Runs of both parts are a run of the sequence.  If the second part passes nothing, the first
    one has to settle with what follows the second. -/
theorem Settles.bind {x : α} {y : β} (h : Settles p F s t x) (h' : Settles (f x) G t u y)
    (hstay : t = u → ∀ m : Stream, G m.current.kind → F m.current.kind) :
    Settles (p >>= f) G s u y := by
  obtain ⟨ts, ht, hread⟩ := h
  obtain ⟨us, hu, hread'⟩ := h'
  refine ⟨ts ++ us, ht.append hu, fun s' u' hu' hk => ?_⟩
  obtain ⟨m, hm, hu'⟩ := passes_append.mp hu'
  have hmk : m.current = t.current ∨ F m.current.kind := by
    cases us with
    | cons z us => exact Or.inl ((passes_cons.mp hu').1.trans (passes_cons.mp hu).1.symm)
    | nil =>
      obtain rfl := passes_nil.mp hu
      obtain rfl := passes_nil.mp hu'
      exact hk.imp_right (hstay rfl m)
  rw [bind_apply (hread s' m hm hmk), hread' m u' hu' hk]

/-- Behind a run of the first part, a fault of the second one is one of the sequence.  If nothing
    of the second part has come, all of it is made up. -/
theorem Settles.bind_faults {x : α} {d : Diagnostic} (h : Settles p F s t x)
    (h' : Faults (f x) G t d) (hf : MadeUp (f x) F G) : Faults (p >>= f) G s d := by
  obtain ⟨ts, ht, hread⟩ := h
  obtain ⟨us, u, hu, hpos, hno, hcomplete⟩ := h'
  refine ⟨ts ++ us, u, ht.append hu, hpos, fun s' u' y t' hu' hk => ?_, fun _ => ?_⟩
  · obtain ⟨m, hm, hu'⟩ := passes_append.mp hu'
    rw [bind_apply (hread s' m hm (Or.inl (hu.current_eq hu' hk)))]
    exact hno m u' y t' hu' hk
  · cases us with
    | nil =>
      obtain ⟨vs, y, hvs, hrun⟩ := hf
      refine ⟨vs, y, hvs, fun s' t' ht' hk => ?_⟩
      rw [List.append_nil] at ht'
      obtain ⟨m, hm, ht'⟩ := passes_append.mp ht'
      obtain ⟨hF, hy⟩ := hrun m t' ht' hk
      rw [bind_apply (hread s' m hm (Or.inr hF)), hy]
    | cons z us =>
      obtain ⟨vs, y, hvs, hread'⟩ := hcomplete (List.cons_ne_nil z us)
      refine ⟨vs, y, hvs, fun s' t' ht' hk => ?_⟩
      rw [List.append_assoc] at ht'
      obtain ⟨m, hm, ht'⟩ := passes_append.mp ht'
      have hmk : m.current = t.current := hu.current_eq_of_ne_nil (List.cons_ne_nil z us) ht'
      rw [bind_apply (hread s' m hm (Or.inl hmk)), hread' m t' ht' hk]

/-- A sequence is prompt when its parts are. -/
theorem PromptAt.bind (h : PromptAt p F s) (hn : ∀ x t, p s = .ok x t → t.remaining < n)
    (hf : ∀ x, Prompt n (f x) F G) : PromptAt (p >>= f) G s := by
  cases hp : p s with
  | error d t => exact promptAt_of_error (bind_error hp) ((h.faults hp).bind fun x => (hf x).run)
  | ok x t =>
    have hlt := hn x t hp
    have hsecond := (hf x).promptAt t hlt
    cases hy : f x t with
    | error d u =>
      exact promptAt_of_error ((bind_apply hp).trans hy)
        ((h.settles hp).bind_faults (hsecond.faults hy) (hf x).run)
    | ok y u =>
      refine promptAt_of_ok ((bind_apply hp).trans hy)
        ((h.settles hp).bind (hsecond.settles hy) ?_)
      rintro rfl m hk
      exact (hf x).stay t m y hlt hy hk

/-- A sequence of prompt readers is prompt, when what follows the first is what the second begins
    with. -/
theorem Prompt.bind (h : Prompt n p E F) (hf : ∀ x, Prompt n (f x) F G) :
    Prompt n (p >>= f) E G where
  run := by
    -- the made-up tokens of the first reader, and behind them those of the second
    obtain ⟨us, x, hus, hrun⟩ := h.run
    obtain ⟨vs, y, hvs, hrun'⟩ := (hf x).run
    refine ⟨us ++ vs, y, List.forall_mem_append.mpr ⟨hus, hvs⟩, fun s t ht hk => ?_⟩
    obtain ⟨m, hm, ht⟩ := passes_append.mp ht
    obtain ⟨hF, hy⟩ := hrun' m t ht hk
    obtain ⟨hE, hx⟩ := hrun s m hm hF
    exact ⟨hE, by rw [bind_apply hx, hy]⟩
  stay := by
    intro s s' y hlt hy hk
    obtain ⟨x, m, hx, hy⟩ := bind_eq_ok.mp hy
    obtain ⟨ts, hts, -⟩ := (h.promptAt s hlt).settles hx
    have hm : m.remaining < n := Nat.lt_of_le_of_lt hts.remaining_le hlt
    obtain ⟨us, hus, -⟩ := ((hf x).promptAt m hm).settles hy
    -- no token is passed in either part
    obtain ⟨rfl, rfl⟩ := List.append_eq_nil_iff.mp (hts.append hus).eq_nil
    obtain rfl := passes_nil.mp hts
    exact h.stay s s' x hlt hx ((hf x).stay s s' y hlt hy hk)
  promptAt := by
    intro s hlt
    refine (h.promptAt s hlt).bind (fun x t hx => ?_) hf
    obtain ⟨ts, hts, -⟩ := (h.promptAt s hlt).settles hx
    exact Nat.lt_of_le_of_lt hts.remaining_le hlt

/-- Behind a part that progresses, fewer tokens are left. -/
theorem PromptAt.bind_progresses (h : PromptAt p F s) (hp : Progresses p s) (hs : s.remaining ≤ n)
    (hf : ∀ x, Prompt n (f x) F G) : PromptAt (p >>= f) G s :=
  h.bind (fun _ _ hx => Nat.lt_of_lt_of_le (hp.of_ok hx).2 hs) hf

/-- A prompt reader is prompt at every stream that is short enough. -/
theorem promptAt_of_prompt (h : Prompt n p (fun _ => True) F) (hs : s.remaining < n) :
    PromptAt p F s :=
  h.promptAt s hs

/-- A reader that progresses is prompt when all its runs are, and one of them can be made up. -/
theorem Prompt.of_progresses (hp : ∀ s, Progresses p s)
    (hrun : MadeUp p E F) (h : ∀ s : Stream, s.remaining < n → PromptAt p F s) : Prompt n p E F :=
  ⟨hrun, fun s _ x _ hx => absurd hx ((hp s).ne_ok x), h⟩

/-- Promptness of a reader for shorter streams, more first tokens and fewer tokens behind. -/
theorem Prompt.mono {m : Nat} {G : Kind → Prop} (h : Prompt n p E F) (hm : m ≤ n)
    (hE : ∀ k, E k → E' k) (hG : ∀ k, G k → F k) : Prompt m p E' G where
  run := by
    obtain ⟨us, x, hus, hrun⟩ := h.run
    refine ⟨us, x, hus, fun s t ht hk => ?_⟩
    obtain ⟨hs, hx⟩ := hrun s t ht (hG _ hk)
    exact ⟨hE _ hs, hx⟩
  stay := fun s s' x hlt hx hk => hE _ (h.stay s s' x (Nat.lt_of_lt_of_le hlt hm) hx (hG _ hk))
  promptAt := fun s hlt => (h.promptAt s (Nat.lt_of_lt_of_le hlt hm)).mono hG

/-- What is prompt is so on fewer streams. -/
theorem Prompt.of_le {m : Nat} (h : Prompt n p E F) (hm : m ≤ n) : Prompt m p E F :=
  h.mono hm (fun _ hk => hk) fun _ hk => hk

/-! ## Nothing to read -/

/-- A reader that reads nothing in front of a token in `F` can always be completed so. -/
theorem prompt_of_nothing (x : α) (h : ∀ s : Stream, F s.current.kind → p s = .ok x s)
    (hF : ∀ k, F k → E k) (hat : ∀ s : Stream, s.remaining < n → PromptAt p F s) :
    Prompt n p E F := by
  refine ⟨⟨[], x, fun _ hy => (nomatch hy), fun s t ht hk => ?_⟩, fun _ _ _ _ _ hk => hF _ hk, hat⟩
  obtain rfl := passes_nil.mp ht
  exact ⟨hF _ hk, h s hk⟩

/-- A run that takes no token is prompt when the current token, or one that may follow, makes it do
    the same. -/
theorem promptAt_of_nothing (x : α)
    (h : ∀ s' : Stream, s'.current = s.current ∨ F s'.current.kind → p s' = .ok x s') :
    PromptAt p F s := by
  refine promptAt_of_ok (h s (Or.inl rfl)) ⟨[], rfl, fun s' t' ht' hk => ?_⟩
  obtain rfl := passes_nil.mp ht'
  exact h s' hk

/-- A reader that takes nothing begins with whatever may follow. -/
theorem prompt_pure (x : α) (h : ∀ k, F k → E k) : Prompt n (pure x : Parse α) E F :=
  prompt_of_nothing x (fun _ _ => rfl) h fun _ _ => promptAt_of_nothing x fun _ _ => rfl

/-! ## One token -/

/-- What is prompt can be completed from nothing, too. -/
theorem Prompt.completes (h : Prompt n p E F) (hne : ts ≠ [] → Completes p ts F) :
    Completes p ts F := by
  cases ts with
  | nil =>
    obtain ⟨us, x, hus, hrun⟩ := h.run
    exact ⟨us, x, hus, fun s t ht hk => (hrun s t ht hk).2⟩
  | cons x ts => exact hne (List.cons_ne_nil x ts)

/-- A reader that passes the current token, and goes on with what is prompt. -/
theorem promptAt_of_advance (hk : s.current.kind ≠ .eof) (hs : s.remaining ≤ n)
    (hq : Prompt n q E F) (hsame : ∀ s', s'.current = s.current → p s' = q s'.advance) :
    PromptAt p F s := by
  have hlt : s.advance.remaining < n := Nat.lt_of_lt_of_le (remaining_advance_lt hk) hs
  cases hx : q s.advance with
  | ok x t =>
    obtain ⟨ts, ht, hread⟩ := (hq.promptAt _ hlt).settles hx
    refine promptAt_of_ok ((hsame s rfl).trans hx)
      ⟨s.current :: ts, .cons rfl hk ht, fun s' t' ht' hk' => ?_⟩
    obtain ⟨hs', -, ht'⟩ := passes_cons.mp ht'
    rw [hsame s' hs']
    exact hread _ t' ht' hk'
  | error d t =>
    obtain ⟨ts, u, hu, hpos, hno, hcomplete⟩ := (hq.promptAt _ hlt).faults hx
    refine promptAt_of_error ((hsame s rfl).trans hx)
      ⟨s.current :: ts, u, .cons rfl hk hu, hpos, ?_, fun _ => ?_⟩
    · intro s' u' x t' hu' hk'
      obtain ⟨hs', -, hu'⟩ := passes_cons.mp hu'
      rw [hsame s' hs']
      exact hno _ u' x t' hu' hk'
    · obtain ⟨us, x, hus, hread⟩ := hq.completes hcomplete
      refine ⟨us, x, hus, fun s' t' ht' hk' => ?_⟩
      obtain ⟨hs', -, ht'⟩ := passes_cons.mp ht'
      rw [hsame s' hs']
      exact hread _ t' ht' hk'

/-- A reader that takes a token without asking is prompt when what it does next is. -/
theorem promptAt_advance_bind {f : Token → Parse α} (hk : s.current.kind ≠ .eof)
    (hs : s.remaining ≤ n) (hf : Prompt n (f s.current) (fun _ => True) F) :
    PromptAt (advance >>= f) F s :=
  promptAt_of_advance hk hs hf fun s' hs' => by rw [bind_apply (advance_run hs')]

/-- A token that stands for any of its kind. -/
def sampleToken (kind : Kind) (value : String) : Token := ⟨kind, value, ⟨⟨0, ""⟩, ⟨0, ""⟩⟩, 0⟩

section Token

variable {k : Kind} {e : Stream → Diagnostic}

/-- An error of `expectOr` points at the current token. -/
def AtCurrent (e : Stream → Diagnostic) : Prop :=
  ∀ s, (e s).position.offset = s.current.span.start.offset

/-- A reader of one kind of token is prompt, if its error lies at the current token. -/
theorem prompt_expectOr (he : AtCurrent e) (hk : k ≠ .eof) (hE : E k) :
    Prompt n (expectOr k e) E fun _ => True := by
  refine .of_progresses (fun _ => progresses_expectOr hk)
    ⟨[sampleToken k ""], sampleToken k "", List.forall_mem_singleton.mpr hk, fun s t ht _ => ?_⟩
    fun s _ => ?_
  · obtain ⟨hs, -, rfl⟩ := passes_singleton.mp ht
    have hsk : s.current.kind = k := by rw [hs]; rfl
    exact ⟨hsk ▸ hE, expectOr_eq_ok.mpr ⟨hsk, hs, rfl⟩⟩
  · by_cases hsk : s.current.kind = k
    · refine promptAt_of_advance (E := fun _ => True) (hsk ▸ hk) (Nat.le_refl _)
        (prompt_pure s.current fun _ hk => hk) fun s' hs' => ?_
      exact expectOr_eq_ok.mpr ⟨hs' ▸ hsk, hs', rfl⟩
    · refine promptAt_of_fault (if_neg hsk) (he s) fun s' x t' hs' hx => ?_
      exact hsk (hs' ▸ (expectOr_eq_ok.mp hx).1)

/-- The usual error lies at the current token. -/
theorem atCurrent_unexpected (m : String) : AtCurrent fun s => s.unexpected m := fun _ => rfl

/-- A reader of one kind of token is prompt. -/
theorem prompt_expect (hk : k ≠ .eof) (hE : E k) : Prompt n (expect k) E fun _ => True :=
  prompt_expectOr (fun _ => rfl) hk hE

variable {f : Token → Parse α}

/-- A token of one kind, and a prompt reader behind it. -/
theorem prompt_expect_bind (hk : k ≠ .eof) (hE : E k)
    (hf : ∀ x, Prompt n (f x) (fun _ => True) F) : Prompt n (expect k >>= f) E F :=
  (prompt_expect hk hE).bind hf

/-- A token of one kind whose absence has a message of its own, and a prompt reader behind it. -/
theorem prompt_expectFor_bind {m : String} (hk : k ≠ .eof) (hE : E k)
    (hf : ∀ x, Prompt n (f x) (fun _ => True) F) : Prompt n (expectFor k m >>= f) E F :=
  (prompt_expectOr (atCurrent_unexpected m) hk hE).bind hf

end Token

/-- When the first reader takes a token, the second one only sees shorter streams. -/
theorem Prompt.bind_progresses (h : Prompt (n + 1) p E F) (hp : ∀ s, Progresses p s)
    (hf : ∀ x, Prompt n (f x) F G) : Prompt (n + 1) (p >>= f) E G where
  run := ((h.of_le (Nat.le_succ n)).bind hf).run
  stay := by
    intro s s' y hn hy
    obtain ⟨x, m, hx, hy⟩ := bind_eq_ok.mp hy
    have hlt := ((hp s).of_ok hx).2
    have hm : m.remaining < n := Nat.lt_of_lt_of_le hlt (Nat.le_of_lt_succ hn)
    obtain ⟨ts, hts, -⟩ := ((hf x).promptAt m hm).settles hy
    exact absurd hlt (Nat.not_lt_of_le hts.remaining_le)
  promptAt := fun s hlt =>
    (h.promptAt s hlt).bind_progresses (hp s) (Nat.le_of_lt_succ hlt) hf

/-- A token of one kind, and a reader that is prompt for shorter streams. -/
theorem prompt_expect_bind_succ {k : Kind} {f : Token → Parse α} (hk : k ≠ .eof) (hE : E k)
    (hf : ∀ x, Prompt n (f x) (fun _ => True) F) : Prompt (n + 1) (expect k >>= f) E F :=
  (prompt_expect hk hE).bind_progresses (fun _ => progresses_expect hk) hf

/-! ## Branches -/

/-- A choice by the current token, where what is chosen progresses. -/
theorem promptAt_current_bind {f : Token → Parse α} (h : PromptAt (f s.current) F s)
    (hp : Progresses (f s.current) s) : PromptAt (current >>= f) F s :=
  h.of_progresses hp fun s' hs' => by rw [bind_apply current_run, hs']

section Choice

variable {k : Kind} {r : Parse α} {items : Parse (List α)}

/-- `p` in front of a token of the kind `k`, where it progresses, and `r` in front of others. -/
theorem prompt_choice (hp : ∀ s, Progresses p s)
    (h : ∀ s : Stream, s.remaining < n → s.current.kind = k → PromptAt p F s)
    (hr : Prompt n r (fun j => E j ∧ j ≠ k) F) :
    Prompt n (do if (← current).kind = k then p else r) E F := by
  have hpos : ∀ s : Stream, s.current.kind = k →
      (do if (← current).kind = k then p else r : Parse α) s = p s := by
    intro s hs
    rw [bind_apply current_run, if_pos hs]
  have hneg : ∀ s : Stream, s.current.kind ≠ k →
      (do if (← current).kind = k then p else r : Parse α) s = r s := by
    intro s hs
    rw [bind_apply current_run, if_neg hs]
  refine ⟨?_, fun s s' x hlt hx hk => ?_, fun s hlt => ?_⟩
  · obtain ⟨us, x, hus, hrun⟩ := hr.run
    refine ⟨us, x, hus, fun s t ht hk => ?_⟩
    obtain ⟨hs, hx⟩ := hrun s t ht hk
    exact ⟨hs.1, (hneg s hs.2).trans hx⟩
  · by_cases hs : s.current.kind = k
    · rw [hpos s hs] at hx
      exact absurd hx ((hp s).ne_ok x)
    · rw [hneg s hs] at hx
      exact (hr.stay s s' x hlt hx hk).1
  · by_cases hs : s.current.kind = k
    · exact (h s hlt hs).of_progresses (hp s) fun s' hs' => hpos s' (hs' ▸ hs)
    · refine (hr.promptAt s hlt).of_same (fun s' hs' => hneg s' (hs' ▸ hs)) fun x hx s' hk => ?_
      exact hneg s' (hr.stay s s' x hlt hx hk).2

/-- A part that is there exactly when a token of the kind `k` comes. -/
theorem prompt_optional {x : α} (hp : ∀ s, Progresses p s)
    (h : ∀ s : Stream, s.remaining < n → s.current.kind = k → PromptAt p F s)
    (hF : ∀ j, F j → E j ∧ j ≠ k) :
    Prompt n (do if (← current).kind = k then p else pure x) E F :=
  prompt_choice hp h (prompt_pure x hF)

/-- A list in front of the token that closes it. -/
theorem prompt_listBefore (hp : ∀ s, Progresses items s)
    (h : ∀ s : Stream, s.remaining < n → PromptAt items (· = k) s) (hE : E k) :
    Prompt n (listBefore k items) E (· = k) := by
  have hempty : ∀ s : Stream, s.current.kind = k → listBefore k items s = .ok [] s := by
    intro s hs
    rw [listBefore, bind_apply current_run, if_pos hs]
    rfl
  refine prompt_of_nothing [] hempty (fun _ hk => hk ▸ hE) fun s hlt => ?_
  by_cases hs : s.current.kind = k
  · exact promptAt_of_nothing [] fun s' hs' => hempty s' (hs'.elim (fun h => h ▸ hs) id)
  · refine (h s hlt).of_progresses (hp s) fun s' hs' => ?_
    rw [listBefore, bind_apply current_run, if_neg (hs' ▸ hs)]

end Choice

/-! ## Loops -/

section Loops

variable {wanted : Token → Bool}

/-- A loop ends in front of any token of `G`, where no item is wanted. -/
theorem prompt_manyWhile (hp : ∀ t, Progresses p t)
    (h : ∀ s : Stream, s.remaining < n → wanted s.current = true → PromptAt p F s)
    (hG : ∀ t : Token, G t.kind → wanted t = false) (hF : ∀ k, G k → F k) (hE : ∀ k, G k → E k) :
    Prompt n (manyWhile wanted p) E G := by
  have hstop : ∀ s : Stream, wanted s.current = false → manyWhile wanted p s = .ok [] s := by
    intro s hs
    rw [manyWhile_eq (fun t _ => hp t), if_neg (by simp [hs])]
    rfl
  have hend : ∀ s : Stream, G s.current.kind → manyWhile wanted p s = .ok [] s :=
    fun s hk => hstop s (hG _ hk)
  refine prompt_of_nothing [] hend hE ?_
  induction n with
  | zero => exact fun _ hlt => absurd hlt (Nat.not_lt_zero _)
  | succ n ih =>
    intro s hlt
    by_cases hs : wanted s.current = true
    · -- an item, and then the loop on fewer tokens
      let q : Parse (List α) := do
        let x ← p
        let xs ← manyWhile wanted p
        pure (x :: xs)
      have hq : Progresses q s := (hp s).bind fun _ t _ =>
        (movesOn_manyWhile (fun t => (hp t).movesOn) t).bind fun _ _ _ => movesOn_pure _
      refine PromptAt.of_progresses (q := q) ?_ hq fun s' hs' => ?_
      · exact (h s hlt hs).bind_progresses (hp s) (Nat.le_of_lt_succ hlt) fun x =>
          (prompt_of_nothing [] hend hF (ih fun s hlt => h s (Nat.lt_succ_of_lt hlt))).bind
            fun xs => prompt_pure _ fun _ hk => hk
      · rw [manyWhile_eq (fun t _ => hp t), if_pos (hs' ▸ hs)]
    · refine promptAt_of_nothing [] fun s' hs' => hstop s' ?_
      rcases hs' with hs' | hk
      · rw [hs']
        exact Bool.eq_false_iff.mpr hs
      · exact hG _ hk

/-- A list with separators ends in front of any token of `G`, which has no separator. -/
theorem prompt_separatedBy {k : Kind} (hk : k ≠ .eof) (hp : ∀ t, Progresses p t)
    (h : Prompt n p E F) (hG : ¬ G k) (hF : ∀ j, G j → F j) :
    Prompt n (separatedBy k p) E G := by
  refine h.bind fun x => (prompt_manyWhile (F := F) (fun t => ?_) (fun s hlt hs => ?_)
    (fun t ht => ?_) hF hF).bind fun xs => prompt_pure _ fun _ hk => hk
  · exact movesOn_advance.bind_progresses fun _ u _ => hp u
  · have hs : s.current.kind = k := of_decide_eq_true hs
    exact promptAt_advance_bind (hs ▸ hk) (Nat.le_of_lt hlt)
      (h.mono (Nat.le_refl _) (fun _ _ => trivial) fun _ hk => hk)
  · exact decide_eq_false fun htk => hG (htk ▸ ht)

end Loops

end Parse
end ProcLang
