/-
  The order of characters is the order of bytes.

  UTF-8 writes the number of a character in digits of six bits, the first of them in a byte that
  grows with the number of digits.  So of two characters the greater one has the greater bytes
  (`encode_lt`), and texts are in the same order by their characters and by their bytes
  (`bytes_lt_bytes`).
-/
import Mathlib.Data.String.Basic
import Mathlib.Tactic.SplitIfs

namespace ProcLang.Text

/-- The bytes of a text. -/
def bytes (s : String) : List UInt8 := s.toUTF8.data.toList

/-- The bytes of a text are those of its characters, one after the other. -/
theorem bytes_eq_flatMap (s : String) : bytes s = s.toList.flatMap String.utf8EncodeChar := by
  have hencode : s.toUTF8 = (s.toList.flatMap String.utf8EncodeChar).toByteArray :=
    String.utf8Encode_toList.symm
  rw [bytes, hencode, List.data_toByteArray]

/-- Of two numbers the smaller one has the smaller front digits, or the same and the smaller last
    digit. -/
theorem div_lt_or_mod_lt {m n : Nat} (h : m < n) :
    m / 64 < n / 64 ∨ m / 64 = n / 64 ∧ m % 64 < n % 64 := by
  omega

/-- The greater character has the greater bytes, whatever stands behind. -/
theorem encode_lt {c d : Char} (h : c < d) (bs bs' : List UInt8) :
    String.utf8EncodeChar c ++ bs < String.utf8EncodeChar d ++ bs' := by
  have hlt : c.val.toNat < d.val.toNat := h
  have hmax : d.val.toNat < 1114112 := by
    rcases d.valid with hd | ⟨-, hd⟩
    · exact Nat.lt_trans hd (by decide)
    · exact hd
  rw [String.utf8EncodeChar, String.utf8EncodeChar]
  generalize c.val.toNat = m at *
  generalize d.val.toNat = n at *
  split_ifs
  all_goals
    simp only [List.cons_append, List.nil_append, List.cons_lt_cons_iff, UInt8.lt_iff_toNat_lt,
      ← UInt8.toNat_inj, UInt8.toNat_ofNat']
  -- up to three bytes, or of different numbers of them
  any_goals omega
  -- four bytes each: no digit is cut short, and the first that differs decides
  have hfront : ∀ k < 1114112, (k / 262144 % 8 + 240) % 2 ^ 8 = k / 262144 + 240 :=
    fun k hk => by omega
  have hdigit : ∀ k, (k % 64 + 128) % 2 ^ 8 = k % 64 + 128 := fun k => by omega
  have h₂ : ∀ k, k / 64 / 64 = k / 4096 := fun k => by omega
  have h₃ : ∀ k, k / 4096 / 64 = k / 262144 := fun k => by omega
  have hlast := div_lt_or_mod_lt hlt
  have hthird := fun h => div_lt_or_mod_lt (m := m / 64) (n := n / 64) h
  have hsecond := fun h => div_lt_or_mod_lt (m := m / 4096) (n := n / 4096) h
  rw [h₂, h₂] at hthird
  rw [h₃, h₃] at hsecond
  rw [hfront m (by omega), hfront n hmax]
  simp only [hdigit]
  omega

/-- Of two lists of characters the smaller one has the smaller bytes. -/
theorem flatMap_encode_lt {cs ds : List Char} (h : cs < ds) :
    cs.flatMap String.utf8EncodeChar < ds.flatMap String.utf8EncodeChar := by
  induction cs generalizing ds with
  | nil =>
    cases ds with
    | nil => exact absurd h (List.not_lt_nil _)
    | cons d ds =>
      obtain ⟨b, bs, hbs⟩ := List.exists_cons_of_ne_nil (String.utf8EncodeChar_ne_nil (c := d))
      rw [List.flatMap_cons, hbs]
      exact List.nil_lt_cons _ _
  | cons c cs ih =>
    cases ds with
    | nil => exact absurd h (List.not_lt_nil _)
    | cons d ds =>
      rw [List.flatMap_cons, List.flatMap_cons]
      rcases List.cons_lt_cons_iff.mp h with hlt | ⟨rfl, hlt⟩
      · exact encode_lt hlt _ _
      · exact List.append_left_lt (ih hlt)

/-- Texts that follow one another by their characters do so by their bytes. -/
theorem bytes_lt_bytes {s t : String} (h : s < t) : bytes s < bytes t := by
  rw [bytes_eq_flatMap, bytes_eq_flatMap]
  exact flatMap_encode_lt (String.lt_iff_toList_lt.mp h)

end ProcLang.Text
