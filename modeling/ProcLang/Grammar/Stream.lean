/-
  Token streams, and readers that consume them.

  A stream is a current token and the tokens after it.  Its last token is an end marker, which
  `ofTokens` adds where it is missing and `advance` never passes.  A reader takes what it can
  read off the front of a stream; when it fails, it leaves the stream where it stopped.

  `manyWhile` is the only loop of the grammar: items are read as long as the current token
  calls for one.  It is counted by the tokens that are left, which is enough whenever an item
  takes at least one of them.
-/
import ProcLang.Diagnostic
import ProcLang.Token

namespace ProcLang

/-! ## Streams -/

/-- A stream of tokens of the source `file`, at `current`. -/
structure Stream where
  file : String
  current : Token
  rest : List Token
  /-- The last token is an end marker. -/
  closed : (rest.getLastD current).kind = .eof

namespace Stream

/-- The stream over `tokens`.  A missing end marker is put at the end of the last token, or at
    the beginning when there are no tokens. -/
def ofTokens (file : String) : List Token → Stream
  | [] => ⟨file, .endMarker ⟨0, file⟩ 1, [], rfl⟩
  | t :: ts =>
    let last := ts.getLastD t
    if h : last.kind = .eof then ⟨file, t, ts, h⟩
    else
      ⟨file, t, ts ++ [.endMarker ⟨last.span.stop.offset, file⟩ last.line], by
        rw [List.getLastD_concat]; rfl⟩

/-- The stream behind the current token; at the last token it stays. -/
def advance : Stream → Stream
  | ⟨file, current, [], h⟩ => ⟨file, current, [], h⟩
  | ⟨file, _, t :: ts, h⟩ => ⟨file, t, ts, by rw [List.getLastD_cons] at h; exact h⟩

/-- The number of tokens behind the current one. -/
def remaining (s : Stream) : Nat := s.rest.length

/-- The kind of the token `n` places behind the current one, or of the last token. -/
def peek (s : Stream) (n : Nat) : Kind :=
  (((s.current :: s.rest)[n]?).getD (s.rest.getLastD s.current)).kind

/-- The error that blames the current token of a stream, and says what is missing. -/
def unexpected (s : Stream) (message : String) : Diagnostic :=
  ⟨.unexpectedFor s.current.value message, ⟨s.current.span.start.offset, s.file⟩⟩

theorem remaining_advance (s : Stream) : s.advance.remaining = s.remaining - 1 := by
  obtain ⟨file, current, rest, h⟩ := s
  cases rest <;> rfl

/-- Only the last token can be without a successor, and it is an end marker. -/
theorem remaining_pos {s : Stream} (h : s.current.kind ≠ .eof) : 0 < s.remaining := by
  obtain ⟨file, current, rest, hc⟩ := s
  cases rest with
  | nil => exact absurd hc h
  | cons t ts => simp [remaining]

/-- Any token but an end marker is passed. -/
theorem remaining_advance_lt {s : Stream} (h : s.current.kind ≠ .eof) :
    s.advance.remaining < s.remaining := by
  have := remaining_pos h
  rw [remaining_advance]
  omega

end Stream

/-! ## Readers -/

/-- Readers of an `α` from the front of a stream. -/
abbrev Parse (α : Type) := EStateM Diagnostic Stream α

namespace Parse

variable {α : Type}

/-- The current token. -/
def current : Parse Token := fun s => .ok s.current s

/-- Passes the current token and returns it. -/
def advance : Parse Token := fun s => .ok s.current s.advance

/-- The kind of the token `n` places behind the current one. -/
def peek (n : Nat) : Parse Kind := fun s => .ok (s.peek n) s

/-- Fails at the current token, saying what is missing. -/
def unexpected (message : String) : Parse α := fun s => .error (s.unexpected message) s

/-- Fails with `cause` at the start of the token `t`. -/
def blame (t : Token) (cause : String → Cause) : Parse α := fun s =>
  .error ⟨cause t.value, t.span.start⟩ s

/-- Passes a token of the kind `kind`, and fails with `error` at any other. -/
def expectOr (kind : Kind) (error : Stream → Diagnostic) : Parse Token := fun s =>
  if s.current.kind = kind then .ok s.current s.advance else .error (error s) s

/-- Passes a token of the kind `kind`. -/
def expect (kind : Kind) : Parse Token :=
  expectOr kind fun s => ⟨.unexpected s.current.value, s.current.span.start⟩

/-- Passes a token of the kind `kind`, or says what is missing. -/
def expectFor (kind : Kind) (message : String) : Parse Token :=
  expectOr kind fun s => s.unexpected message

/-- Reads at most `n` items, each one where the current token calls for it. -/
def manyUpTo (wanted : Token → Bool) (item : Parse α) : Nat → Parse (List α)
  | 0 => pure []
  | n + 1 => do
    if wanted (← current) then
      let x ← item
      let xs ← manyUpTo wanted item n
      pure (x :: xs)
    else pure []

/-- Reads items as long as the current token calls for one. -/
def manyWhile (wanted : Token → Bool) (item : Parse α) : Parse (List α) := fun s =>
  manyUpTo wanted item (s.remaining + 1) s

/-- Reads `item`, and then another one behind each token of the kind `separator`. -/
def separatedBy (separator : Kind) (item : Parse α) : Parse (List α) := do
  let x ← item
  let xs ← manyWhile (fun t => t.kind = separator) (do let _ ← advance; item)
  pure (x :: xs)

/-- Reads a list, which is empty when a token of the kind `closing` comes at once. -/
def listBefore (closing : Kind) (items : Parse (List α)) : Parse (List α) := do
  if (← current).kind = closing then pure [] else items

end Parse
end ProcLang
