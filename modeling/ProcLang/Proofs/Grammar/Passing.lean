/-
  What a reader passes.

  `s.Passes ts t` says that the tokens `ts` lie between the streams `s` and `t`, with no end
  marker among them.  It splits along appends (`passes_append`), as the yields of derivations do,
  so a reader is compared with a derivation part by part.  The runs of the primitives that
  succeed are described by equivalences, and the two loops of the grammar lose their counters:

  * `manyWhile_of_passes`, `exists_of_manyWhile` — a loop reads the items that lie in front of it,
    and what it reads are items;
  * `operators_eq`                               — the loop over operators, one round unfolded.
-/
import ProcLang.Grammar.Progress
import ProcLang.Proofs.Text.Numeral

namespace ProcLang

open ProcLang.Text

/-- Numbers are numerals and character literals are single characters, as the scanner makes
    them. -/
structure Token.Lexical (t : Token) : Prop where
  number : t.kind = .number → ∃ n, Numeral t.value.toList n
  char : t.kind = .charLiteral → ∃ c, t.value.toList = [c]

/-! ## Passing tokens -/

namespace Stream

/-- From `s` to `t` the tokens `ts` are passed, and none of them is an end marker. -/
def Passes (s : Stream) : List Token → Stream → Prop
  | [], t => s = t
  | x :: ts, t => s.current = x ∧ x.kind ≠ .eof ∧ s.advance.Passes ts t

variable {s t u : Stream} {x : Token} {ts us : List Token}

/-- No tokens lie between a stream and itself only. -/
theorem passes_nil : s.Passes [] t ↔ s = t := Iff.rfl

/-- The first token that lies between two streams is the current one of the first stream. -/
theorem passes_cons :
    s.Passes (x :: ts) t ↔ s.current = x ∧ x.kind ≠ .eof ∧ s.advance.Passes ts t := Iff.rfl

/-- Tokens in two parts are passed one part after the other. -/
theorem passes_append : s.Passes (ts ++ us) u ↔ ∃ t, s.Passes ts t ∧ t.Passes us u := by
  induction ts generalizing s with
  | nil =>
    constructor
    · intro h
      exact ⟨s, rfl, h⟩
    · rintro ⟨t, rfl, h⟩
      exact h
  | cons x ts ih =>
    rw [List.cons_append, passes_cons, ih]
    constructor
    · rintro ⟨hx, hk, t, h, h'⟩
      exact ⟨t, ⟨hx, hk, h⟩, h'⟩
    · rintro ⟨t, ⟨hx, hk, h⟩, h'⟩
      exact ⟨hx, hk, t, h, h'⟩

/-- One token is passed by advancing. -/
theorem passes_singleton : s.Passes [x] t ↔ s.current = x ∧ x.kind ≠ .eof ∧ s.advance = t := Iff.rfl

/-- Two parts that are passed one after the other are passed together. -/
theorem Passes.append (h : s.Passes ts t) (h' : t.Passes us u) : s.Passes (ts ++ us) u :=
  passes_append.mpr ⟨t, h, h'⟩

/-- The current token is passed, then others. -/
theorem Passes.cons {k : Kind} (hk : s.current.kind = k) (hne : k ≠ .eof)
    (h : s.advance.Passes ts t) : s.Passes (s.current :: ts) t :=
  ⟨rfl, hk ▸ hne, h⟩

/-- The current token is passed when its kind is known not to be that of an end marker. -/
theorem passes_current {k : Kind} (hk : s.current.kind = k) (hne : k ≠ .eof) :
    s.Passes [s.current] s.advance := .cons hk hne rfl

/-- What lies behind tokens can be reached by advancing. -/
theorem Passes.reaches (h : s.Passes ts t) : s.Reaches t := by
  induction ts generalizing s with
  | nil =>
    obtain rfl := passes_nil.mp h
    exact .refl s
  | cons x ts ih =>
    obtain ⟨-, -, h⟩ := passes_cons.mp h
    exact s.reaches_advance.trans (ih h)

/-- Passing a token leaves fewer of them. -/
theorem Passes.remaining_lt (h : s.Passes ts t) (hne : ts ≠ []) : t.remaining < s.remaining := by
  cases ts with
  | nil => exact absurd rfl hne
  | cons x ts =>
    obtain ⟨rfl, hk, h⟩ := passes_cons.mp h
    exact Nat.lt_of_le_of_lt h.reaches.remaining_le (remaining_advance_lt hk)

/-- What is passed lies in front of what is left. -/
theorem Passes.tokens_eq (h : s.Passes ts t) : s.tokens = ts ++ t.tokens := by
  induction ts generalizing s with
  | nil =>
    obtain rfl := passes_nil.mp h
    rfl
  | cons x ts ih =>
    obtain ⟨rfl, hk, h⟩ := passes_cons.mp h
    rw [List.cons_append, ← ih h]
    obtain ⟨file, current, rest, hc⟩ := s
    cases rest with
    | nil => exact absurd hc hk
    | cons y ys => rfl

/-- No end marker is passed. -/
theorem Passes.ne_eof_of_mem (h : s.Passes ts t) : ∀ x ∈ ts, x.kind ≠ .eof := by
  induction ts generalizing s with
  | nil => simp
  | cons x ts ih =>
    obtain ⟨-, hk, h⟩ := passes_cons.mp h
    intro y hy
    rcases List.mem_cons.mp hy with rfl | hy
    · exact hk
    · exact ih h y hy

/-- What is passed lies before the first end marker. -/
theorem Passes.takeWhile_eq (h : s.Passes ts t) :
    s.tokens.takeWhile (·.kind ≠ .eof) = ts ++ t.tokens.takeWhile (·.kind ≠ .eof) := by
  rw [h.tokens_eq]
  exact List.takeWhile_append_of_pos fun x hx => decide_eq_true (h.ne_eof_of_mem x hx)

/-- What is passed up to an end marker is all that lies before the first one. -/
theorem Passes.eq_takeWhile (h : s.Passes ts t) (ht : t.current.kind = .eof) :
    ts = s.tokens.takeWhile (·.kind ≠ .eof) := by
  rw [h.takeWhile_eq, tokens, List.takeWhile_cons_of_neg (by simpa using ht), List.append_nil]

/-- The tokens that are passed determine where the stream ends. -/
theorem Passes.unique (h : s.Passes ts t) (h' : s.Passes ts u) : t = u := by
  induction ts generalizing s with
  | nil => exact (passes_nil.mp h).symm.trans (passes_nil.mp h')
  | cons x ts ih => exact ih (passes_cons.mp h).2.2 (passes_cons.mp h').2.2

/-- In front of a list of items stands the first token of one, or what stands behind them. -/
theorem current_of_flatMap {β : Type} {yield : β → List Token} {xs : List β} {P : Token → Prop}
    (hfirst : ∀ x ∈ xs, ∀ s t : Stream, s.Passes (yield x) t → P s.current)
    (h : s.Passes (xs.flatMap yield) t) (ht : P t.current) : P s.current := by
  cases xs with
  | nil =>
    obtain rfl := passes_nil.mp h
    exact ht
  | cons x xs =>
    rw [List.flatMap_cons] at h
    obtain ⟨m, hx, -⟩ := passes_append.mp h
    exact hfirst x List.mem_cons_self s m hx

/-- All tokens that can be passed are made as the scanner makes them. -/
def Lexical (s : Stream) : Prop := ∀ ts t, s.Passes ts t → ∀ x ∈ ts, x.Lexical

/-- The tokens behind those that are passed are lexical if all are. -/
theorem Lexical.of_passes (h : s.Lexical) (hp : s.Passes ts t) : t.Lexical := by
  intro us u hu x hx
  exact h _ u (hp.append hu) x (List.mem_append_right _ hx)

/-- The current token of such a stream is lexical, unless it is the end marker. -/
theorem Lexical.current (h : s.Lexical) (hk : s.current.kind ≠ .eof) : s.current.Lexical :=
  h [s.current] s.advance ⟨rfl, hk, rfl⟩ s.current List.mem_cons_self

/-- Behind its current token a stream is lexical, too. -/
theorem Lexical.advance (h : s.Lexical) (hk : s.current.kind ≠ .eof) : s.advance.Lexical :=
  h.of_passes (passes_current rfl hk)

/-- The tokens before the first end marker can be passed. -/
theorem exists_passes_takeWhile (s : Stream) :
    ∃ t, s.Passes (s.tokens.takeWhile (·.kind ≠ .eof)) t ∧ t.current.kind = .eof := by
  obtain ⟨file, current, rest, hc⟩ := s
  induction rest generalizing current with
  | nil => exact ⟨⟨file, current, [], hc⟩, by
    have hk : current.kind = .eof := hc
    simp [tokens, Passes, hk], hc⟩
  | cons y ys ih =>
    by_cases hk : current.kind = .eof
    · exact ⟨⟨file, current, y :: ys, hc⟩, by simp [tokens, Passes, hk], hk⟩
    · have hc' : (ys.getLastD y).kind = .eof := by rw [← List.getLastD_cons]; exact hc
      obtain ⟨t, ht, he⟩ := ih y hc'
      refine ⟨t, ?_, he⟩
      rw [tokens, List.takeWhile_cons_of_pos (by simpa using hk)]
      exact ⟨rfl, hk, ht⟩

end Stream

/-! ## Runs that succeed -/

namespace Parse

variable {α β : Type} {p : Parse α} {f : α → Parse β} {s t u : Stream}

/-- A sequence succeeds when both readers do, one behind the other. -/
theorem bind_eq_ok {y : β} :
    (p >>= f) s = .ok y u ↔ ∃ x t, p s = .ok x t ∧ f x t = .ok y u := by
  constructor
  · intro h
    change EStateM.bind p f s = _ at h
    unfold EStateM.bind at h
    split at h
    · rename_i x t hp
      exact ⟨x, t, hp, h⟩
    · cases h
  · rintro ⟨x, t, hp, hf⟩
    rw [bind_apply hp, hf]

/-- A result without a token stays where it is. -/
theorem pure_eq_ok {x y : α} : (pure x : Parse α) s = .ok y t ↔ x = y ∧ s = t := by
  show EStateM.Result.ok x s = .ok y t ↔ _
  rw [EStateM.Result.ok.injEq]

/-- Advancing always succeeds. -/
theorem advance_eq_ok {x : Token} : advance s = .ok x t ↔ s.current = x ∧ s.advance = t := by
  show EStateM.Result.ok s.current s.advance = .ok x t ↔ _
  rw [EStateM.Result.ok.injEq]

/-- Asking for a kind succeeds at a token of this kind only, and passes it. -/
theorem expectOr_eq_ok {k : Kind} {e : Stream → Diagnostic} {x : Token} :
    expectOr k e s = .ok x t ↔ s.current.kind = k ∧ s.current = x ∧ s.advance = t := by
  unfold expectOr
  split
  · rename_i hk
    rw [EStateM.Result.ok.injEq]
    exact ⟨fun h => ⟨hk, h⟩, fun h => h.2⟩
  · rename_i hk
    exact ⟨fun h => (nomatch h), fun h => absurd h.1 hk⟩

/-- A token of one kind is passed exactly where it is the current one. -/
theorem expect_eq_ok {k : Kind} {x : Token} :
    expect k s = .ok x t ↔ s.current.kind = k ∧ s.current = x ∧ s.advance = t := expectOr_eq_ok

/-- A message for its absence does not change where a token is passed. -/
theorem expectFor_eq_ok {k : Kind} {m : String} {x : Token} :
    expectFor k m s = .ok x t ↔ s.current.kind = k ∧ s.current = x ∧ s.advance = t :=
  expectOr_eq_ok

/-! A run that begins with a primitive goes on from the current token, or behind it. -/

/-- Looking at the current token, in front of another reader. -/
theorem current_bind_eq_ok {f : Token → Parse β} {y : β} :
    (current >>= f) s = .ok y t ↔ f s.current s = .ok y t := Iff.rfl

/-- Looking ahead, in front of another reader. -/
theorem peek_bind_eq_ok {n : Nat} {f : Kind → Parse β} {y : β} :
    (peek n >>= f) s = .ok y t ↔ f (s.peek n) s = .ok y t := Iff.rfl

/-- Advancing, in front of another reader. -/
theorem advance_bind_eq_ok {f : Token → Parse β} {y : β} :
    (advance >>= f) s = .ok y t ↔ f s.current s.advance = .ok y t := Iff.rfl

/-- Asking for a kind, in front of another reader. -/
theorem expectOr_bind_eq_ok {k : Kind} {e : Stream → Diagnostic} {f : Token → Parse β} {y : β} :
    (expectOr k e >>= f) s = .ok y t ↔
      s.current.kind = k ∧ f s.current s.advance = .ok y t := by
  rw [bind_eq_ok]
  constructor
  · rintro ⟨x, u, hx, h⟩
    obtain ⟨hk, rfl, rfl⟩ := expectOr_eq_ok.mp hx
    exact ⟨hk, h⟩
  · rintro ⟨hk, h⟩
    exact ⟨s.current, s.advance, expectOr_eq_ok.mpr ⟨hk, rfl, rfl⟩, h⟩

/-- A reader that begins with one kind of token succeeds exactly where that is the current token and
    the rest succeeds behind it. -/
theorem expect_bind_eq_ok {k : Kind} {f : Token → Parse β} {y : β} :
    (expect k >>= f) s = .ok y t ↔
      s.current.kind = k ∧ f s.current s.advance = .ok y t := expectOr_bind_eq_ok

/-- A message for the absence of the first token does not change where a reader succeeds. -/
theorem expectFor_bind_eq_ok {k : Kind} {m : String} {f : Token → Parse β} {y : β} :
    (expectFor k m >>= f) s = .ok y t ↔
      s.current.kind = k ∧ f s.current s.advance = .ok y t := expectOr_bind_eq_ok

/-- An error about the current token is no success. -/
theorem unexpected_ne_ok {m : String} {x : α} : (unexpected m : Parse α) s ≠ .ok x t := nofun

/-- An error about another token is no success. -/
theorem blame_ne_ok {y : Token} {c : String → Cause} {x : α} :
    (blame y c : Parse α) s ≠ .ok x t := nofun

/-- The run that looks at the current token. -/
theorem current_run : current s = .ok s.current s := rfl

/-- The run that advances over a token that is known. -/
theorem advance_run {x : Token} (h : s.current = x) : advance s = .ok x s.advance :=
  advance_eq_ok.mpr ⟨h, rfl⟩

/-- The run that asks for the kind of a token that is known. -/
theorem expect_run {k : Kind} (x : {x : Token // x.kind = k}) (h : s.current = x.1) :
    expect k s = .ok x.1 s.advance := expect_eq_ok.mpr ⟨h ▸ x.2, h, rfl⟩

/-- The run that asks for the kind of a token that is known, with a message for its absence. -/
theorem expectFor_run {k : Kind} {m : String} (x : {x : Token // x.kind = k})
    (h : s.current = x.1) : expectFor k m s = .ok x.1 s.advance :=
  expectFor_eq_ok.mpr ⟨h ▸ x.2, h, rfl⟩

/-! ## Loops -/

section Loops

variable {wanted : Token → Bool} {item : Parse α} {yield : β → List Token} {tree : β → α}

/-- A loop reads the items that lie in front of it.  Each item is wanted, and `follow` holds of
    what can stand behind one. -/
theorem manyWhile_of_passes (follow : Token → Prop) (hp : ∀ t, Progresses item t) {xs : List β}
    (hfirst : ∀ x ∈ xs, ∀ s t : Stream, s.Passes (yield x) t →
      wanted s.current = true ∧ follow s.current)
    (hitem : ∀ x ∈ xs, ∀ s t : Stream, s.Passes (yield x) t → follow t.current →
      item s = .ok (tree x) t)
    (hstop : wanted t.current = false) (hfollow : follow t.current)
    (h : s.Passes (xs.flatMap yield) t) : manyWhile wanted item s = .ok (xs.map tree) t := by
  induction xs generalizing s with
  | nil =>
    obtain rfl := Stream.passes_nil.mp h
    rw [manyWhile_eq (fun t _ => hp t), if_neg (by simp [hstop])]
    rfl
  | cons x xs ih =>
    rw [List.flatMap_cons] at h
    obtain ⟨m, hx, hxs⟩ := Stream.passes_append.mp h
    have hm : follow m.current := Stream.current_of_flatMap
      (fun y hy s t hst => (hfirst y (List.mem_cons_of_mem _ hy) s t hst).2) hxs hfollow
    rw [manyWhile_eq (fun t _ => hp t), if_pos (hfirst x (by simp) s m hx).1,
      bind_apply (hitem x (by simp) s m hx hm),
      bind_apply (ih (fun y hy => hfirst y (List.mem_cons_of_mem _ hy))
        (fun y hy => hitem y (List.mem_cons_of_mem _ hy)) hxs)]
    rfl

/-- What a loop reads are items, and it stops where no item is wanted. -/
theorem exists_of_manyWhile (hp : ∀ t, Progresses item t) {xs : List α}
    (hitem : ∀ m u x, m.remaining ≤ s.remaining → m.Lexical → wanted m.current = true →
      item m = .ok x u → ∃ y, tree y = x ∧ m.Passes (yield y) u)
    (hs : s.Lexical) (h : manyWhile wanted item s = .ok xs t) :
    ∃ ys : List β, ys.map tree = xs ∧ s.Passes (ys.flatMap yield) t ∧ wanted t.current = false := by
  obtain ⟨n, hn⟩ : ∃ n, s.remaining = n := ⟨_, rfl⟩
  induction n using Nat.strongRecOn generalizing s xs with
  | _ n ih =>
    rw [manyWhile_eq (fun t _ => hp t)] at h
    split at h
    · rename_i hw
      obtain ⟨x, m, hx, h⟩ := bind_eq_ok.mp h
      obtain ⟨xs', m', hxs, h⟩ := bind_eq_ok.mp h
      obtain ⟨rfl, rfl⟩ := pure_eq_ok.mp h
      obtain ⟨y, rfl, hy⟩ := hitem s m x (Nat.le_refl _) hs hw hx
      have hlt := ((hp s).of_ok hx).2
      obtain ⟨ys, rfl, hys, hstop⟩ := ih m.remaining (hn ▸ hlt)
        (fun m' u x hle => hitem m' u x (Nat.le_trans hle (Nat.le_of_lt hlt)))
        (hs.of_passes hy) hxs rfl
      exact ⟨y :: ys, rfl, by rw [List.flatMap_cons]; exact hy.append hys, hstop⟩
    · rename_i hw
      obtain ⟨rfl, rfl⟩ := pure_eq_ok.mp h
      exact ⟨[], rfl, rfl, by simpa using hw⟩

end Loops

end Parse
end ProcLang
