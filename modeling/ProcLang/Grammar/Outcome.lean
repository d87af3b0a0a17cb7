/-
  Reasoning about readers.

  `Yields p s Q R` says how a run of the reader `p` at the stream `s` ends: in `Q` when it
  succeeds, in `R` when it fails.  It follows the structure of a reader: `yields_bind` takes a
  sequence apart, and each primitive has an equation.

  Two outcomes matter for every reader of the grammar.  `MovesOn p s`: the run ends at `s` or
  ahead of it, whether it succeeds or not.  `Progresses p s`: it also passes a token when it
  succeeds.  Both are closed under sequencing, and a loop over items that progress moves on and
  unfolds without its counter (`manyWhile_eq`).
-/
import ProcLang.Grammar.Stream

namespace ProcLang

/-! ## Places in a stream -/

namespace Stream

/-- The tokens of a stream, the current one first. -/
def tokens (s : Stream) : List Token := s.current :: s.rest

/-- `t` is `s`, or lies ahead of it. -/
def Reaches (s t : Stream) : Prop := t.file = s.file ∧ t.tokens <:+ s.tokens

/-- Every stream reaches itself. -/
theorem Reaches.refl (s : Stream) : s.Reaches s := ⟨rfl, List.suffix_refl _⟩

/-- Reaching is transitive. -/
theorem Reaches.trans {s t u : Stream} (h : s.Reaches t) (h' : t.Reaches u) : s.Reaches u :=
  ⟨h'.1.trans h.1, h'.2.trans h.2⟩

/-- Further on there are no more tokens left. -/
theorem Reaches.remaining_le {s t : Stream} (h : s.Reaches t) : t.remaining ≤ s.remaining := by
  have hle := h.2.length_le
  simpa [tokens, remaining] using hle

/-- Advancing reaches further, or stays at the end. -/
theorem reaches_advance (s : Stream) : s.Reaches s.advance := by
  obtain ⟨file, current, rest, h⟩ := s
  cases rest with
  | nil => exact .refl _
  | cons t ts => exact ⟨rfl, List.suffix_cons _ _⟩

/-- Advancing does not add tokens. -/
theorem remaining_advance_le (s : Stream) : s.advance.remaining ≤ s.remaining :=
  s.reaches_advance.remaining_le

end Stream

namespace Parse

variable {α β : Type} {p p' : Parse α} {f f' : α → Parse β} {s t : Stream}

/-! ## Outcomes -/

/-- Running `p` at `s` ends in `Q` when it succeeds, and in `R` when it fails. -/
def Yields (p : Parse α) (s : Stream) (Q : α → Stream → Prop) (R : Stream → Prop) : Prop :=
  match p s with
  | .ok x t => Q x t
  | .error _ t => R t

section Yields

variable {R R' : Stream → Prop}

/-- How a sequence ends: its first part fails, or its second part ends behind it. -/
theorem yields_bind {Q : β → Stream → Prop} :
    Yields (p >>= f) s Q R ↔ Yields p s (fun x t => Yields (f x) t Q R) R := by
  show Yields (EStateM.bind p f) s Q R ↔ _
  unfold Yields EStateM.bind
  cases p s <;> rfl

/-- An outcome can be weakened, knowing what the run returned. -/
theorem Yields.imp {Q Q' : α → Stream → Prop} (h : Yields p s Q R)
    (hQ : ∀ x t, p s = .ok x t → Q x t → Q' x t) (hR : ∀ t, R t → R' t) : Yields p s Q' R' := by
  unfold Yields at *
  split
  · rename_i x t he
    rw [he] at h
    exact hQ x t he h
  · rename_i x t he
    rw [he] at h
    exact hR t h

/-- What holds of every success holds of this one. -/
theorem Yields.of_ok {Q : α → Stream → Prop} (h : Yields p s Q R) {x : α} (hp : p s = .ok x t) :
    Q x t := by
  unfold Yields at h
  rwa [hp] at h

/-- Asking for a kind ends behind the current token, or fails at it. -/
theorem yields_expectOr {k : Kind} {e : Stream → Diagnostic} {Q : Token → Stream → Prop} :
    Yields (expectOr k e) s Q R ↔
      if s.current.kind = k then Q s.current s.advance else R s := by
  by_cases hk : s.current.kind = k <;> simp [Yields, expectOr, hk]

end Yields

/-! ## Moving on -/

/-- A run of `p` at `s` ends at `s` or ahead of it. -/
def MovesOn (p : Parse α) (s : Stream) : Prop := Yields p s (fun _ t => s.Reaches t) s.Reaches

/-- A run of `p` at `s` moves on, and passes a token when it succeeds. -/
def Progresses (p : Parse α) (s : Stream) : Prop :=
  Yields p s (fun _ t => s.Reaches t ∧ t.remaining < s.remaining) s.Reaches

/-- To progress is to move on. -/
theorem Progresses.movesOn (h : Progresses p s) : MovesOn p s :=
  h.imp (fun _ _ _ h => h.1) fun _ h => h

/-- A sequence of readers that move on moves on. -/
theorem MovesOn.bind (h : MovesOn p s) (hf : ∀ x t, p s = .ok x t → MovesOn (f x) t) :
    MovesOn (p >>= f) s := by
  unfold MovesOn
  rw [yields_bind]
  refine h.imp (fun x t hx ht => ?_) fun _ h => h
  exact (hf x t hx).imp (fun _ _ _ h => ht.trans h) fun _ h => ht.trans h

/-- A sequence progresses when its first part does. -/
theorem Progresses.bind (h : Progresses p s) (hf : ∀ x t, p s = .ok x t → MovesOn (f x) t) :
    Progresses (p >>= f) s := by
  unfold Progresses
  rw [yields_bind]
  refine h.imp (fun x t hx ht => ?_) fun _ h => h
  exact (hf x t hx).imp
    (fun _ _ _ h => ⟨ht.1.trans h, Nat.lt_of_le_of_lt h.remaining_le ht.2⟩)
    fun _ h => ht.1.trans h

/-- A sequence progresses when its second part does. -/
theorem MovesOn.bind_progresses (h : MovesOn p s)
    (hf : ∀ x t, p s = .ok x t → Progresses (f x) t) : Progresses (p >>= f) s := by
  unfold Progresses
  rw [yields_bind]
  refine h.imp (fun x t hx ht => ?_) fun _ h => h
  exact (hf x t hx).imp
    (fun _ _ _ h => ⟨ht.trans h.1, Nat.lt_of_lt_of_le h.2 ht.remaining_le⟩)
    fun _ h => ht.trans h

/-- Looking at the current token leaves the stream alone. -/
theorem eq_of_current {x : Token} (h : current s = .ok x t) : s.current = x ∧ s = t := by
  injection h with h1 h2
  exact ⟨h1, h2⟩

/-- A result without a token stays where it is. -/
theorem movesOn_pure (x : α) : MovesOn (pure x : Parse α) s := Stream.Reaches.refl s

/-- Looking at the current token stays where it is. -/
theorem movesOn_current : MovesOn current s := Stream.Reaches.refl s

/-- Looking ahead stays where it is. -/
theorem movesOn_peek (n : Nat) : MovesOn (peek n) s := Stream.Reaches.refl s

/-- Advancing moves on. -/
theorem movesOn_advance : MovesOn advance s := s.reaches_advance

/-- Stepping over a token that is no end marker is progress. -/
theorem progresses_advance (h : s.current.kind ≠ .eof) : Progresses advance s :=
  ⟨s.reaches_advance, Stream.remaining_advance_lt h⟩

/-- A failure that leaves the stream alone is all that can be asked of a reader. -/
theorem progresses_unexpected (m : String) : Progresses (unexpected m : Parse α) s :=
  Stream.Reaches.refl s

/-- An error about another token takes nothing, so it progresses. -/
theorem progresses_blame (t : Token) (c : String → Cause) :
    Progresses (blame t c : Parse α) s := Stream.Reaches.refl s

/-- Asking for a kind other than that of the end marker passes a token or fails. -/
theorem progresses_expectOr {k : Kind} {e : Stream → Diagnostic} (hk : k ≠ .eof) :
    Progresses (expectOr k e) s := by
  unfold Progresses
  rw [yields_expectOr]
  split
  · rename_i h
    exact progresses_advance (by rw [h]; exact hk)
  · exact .refl s

/-- A reader of one kind of token progresses, unless that is the end marker. -/
theorem progresses_expect {k : Kind} (hk : k ≠ .eof) : Progresses (expect k) s :=
  progresses_expectOr hk

/-- A reader of one kind of token progresses with a message of its own, too. -/
theorem progresses_expectFor {k : Kind} {m : String} (hk : k ≠ .eof) :
    Progresses (expectFor k m) s := progresses_expectOr hk

/-! ## Readers that do the same -/

/-- Sequences do the same at a stream when their parts do, each where it is run. -/
theorem bind_congr (hp : p s = p' s) (hf : ∀ x t, p s = .ok x t → f x t = f' x t) :
    (p >>= f) s = (p' >>= f') s := by
  show EStateM.bind p f s = EStateM.bind p' f' s
  unfold EStateM.bind
  rw [← hp]
  cases h : p s with
  | ok x t => exact hf x t h
  | error e t => rfl

/-- A sequence whose first part succeeds goes on behind it. -/
theorem bind_apply {x : α} (h : p s = .ok x t) : (p >>= f) s = f x t := by
  show EStateM.bind p f s = _
  unfold EStateM.bind
  rw [h]

/-- A sequence whose first part fails fails in the same way. -/
theorem bind_error {d : Diagnostic} (h : p s = .error d t) : (p >>= f) s = .error d t := by
  show EStateM.bind p f s = _
  unfold EStateM.bind
  rw [h]

/-! ## Loops -/

section Loops

variable {wanted : Token → Bool} {item item' : Parse α}

/-- A bounded loop over items that move on moves on. -/
theorem movesOn_manyUpTo (h : ∀ t, MovesOn item t) (n : Nat) (s : Stream) :
    MovesOn (manyUpTo wanted item n) s := by
  induction n generalizing s with
  | zero => exact movesOn_pure _
  | succ n ih =>
    unfold manyUpTo
    refine movesOn_current.bind fun x t _ => ?_
    split
    · exact (h t).bind fun x u _ => (ih u).bind fun xs v _ => movesOn_pure _
    · exact movesOn_pure _

/-- A loop moves on if its items do. -/
theorem movesOn_manyWhile (h : ∀ t, MovesOn item t) (s : Stream) :
    MovesOn (manyWhile wanted item) s := movesOn_manyUpTo h _ s

/-- Two loops do the same where their items do the same. -/
theorem manyUpTo_congr (hm : ∀ t, MovesOn item t) (n : Nat) {s : Stream}
    (h : ∀ t, t.remaining ≤ s.remaining → item t = item' t) :
    manyUpTo wanted item n s = manyUpTo wanted item' n s := by
  induction n generalizing s with
  | zero => rfl
  | succ n ih =>
    unfold manyUpTo
    refine bind_congr rfl fun x t hx => ?_
    obtain ⟨-, rfl⟩ := eq_of_current hx
    split
    · refine bind_congr (h s (Nat.le_refl _)) fun y u hu => ?_
      have hle := ((hm s).of_ok hu).remaining_le
      exact bind_congr (ih fun v hv => h v (Nat.le_trans hv hle)) fun _ _ _ => rfl
    · rfl

/-- Loops over items that agree on the tokens left agree. -/
theorem manyWhile_congr (hm : ∀ t, MovesOn item t)
    (h : ∀ t, t.remaining ≤ s.remaining → item t = item' t) :
    manyWhile wanted item s = manyWhile wanted item' s := manyUpTo_congr hm _ h

/-- When items progress, a loop does not depend on its counter, provided there is enough of it. -/
theorem manyUpTo_eq_of_lt (hp : ∀ t, wanted t.current = true → Progresses item t) {n m : Nat}
    {s : Stream} (hn : s.remaining < n) (hm : s.remaining < m) :
    manyUpTo wanted item n s = manyUpTo wanted item m s := by
  induction n generalizing m s with
  | zero => omega
  | succ n ih =>
    obtain ⟨m, rfl⟩ : ∃ k, m = k + 1 := ⟨m - 1, by omega⟩
    unfold manyUpTo
    refine bind_congr rfl fun x t hx => ?_
    obtain ⟨rfl, rfl⟩ := eq_of_current hx
    split
    · rename_i hw
      refine bind_congr rfl fun y u hu => ?_
      have hlt := ((hp s hw).of_ok hu).2
      exact bind_congr (ih (by omega) (by omega)) fun _ _ _ => rfl
    · rfl

/-- A loop without its counter. -/
theorem manyWhile_eq (hp : ∀ t, wanted t.current = true → Progresses item t) (s : Stream) :
    manyWhile wanted item s =
      (if wanted s.current then do
        let x ← item
        let xs ← manyWhile wanted item
        pure (x :: xs)
      else pure [] : Parse (List α)) s := by
  rw [show manyWhile wanted item s = manyUpTo wanted item (s.remaining + 1) s from rfl, manyUpTo,
    bind_apply (show current s = .ok s.current s from rfl)]
  split
  · rename_i hw
    refine bind_congr rfl fun x t hx => ?_
    have hlt := ((hp s hw).of_ok hx).2
    exact bind_congr (manyUpTo_eq_of_lt hp (by omega) (by omega)) fun _ _ _ => rfl
  · rfl

end Loops

/-- A list with separators has one item at least. -/
theorem progresses_separatedBy {k : Kind} {item : Parse α} (h : ∀ t, Progresses item t)
    (s : Stream) : Progresses (separatedBy k item) s := by
  refine (h s).bind fun x t _ => MovesOn.bind (movesOn_manyWhile (fun u => ?_) t) fun _ _ _ =>
    movesOn_pure _
  exact movesOn_advance.bind fun _ v _ => (h v).movesOn

/-- A list that may be empty moves on. -/
theorem movesOn_listBefore {k : Kind} {items : Parse (List α)} (h : ∀ t, MovesOn items t)
    (s : Stream) : MovesOn (listBefore k items) s := by
  refine movesOn_current.bind fun _ t _ => ?_
  split
  · exact movesOn_pure _
  · exact h t

end Parse
end ProcLang
