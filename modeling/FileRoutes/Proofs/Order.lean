import FileRoutes.FileSystem.Basic
import Mathlib.Data.List.Lex
import Mathlib.Data.String.Basic

/-!
# The order of names and locations

Names are put in the order of their bytes, and locations in the order of their names: the first
name that differs decides. A name is compared here as a text, character by character. The two
orders of names agree, since a character with a greater number has greater bytes.

## The model

* `Text.bytes` — the bytes of a text.
* `Location.Before` — the order of locations, name by name and byte by byte.

## What is proved

* `bytes_lt_iff` — the order of texts is that of their bytes.
-/

namespace FileRoutes

namespace Text

/-- The bytes of a text. -/
def bytes (s : String) : List UInt8 := s.toUTF8.data.toList

theorem bytes_eq (s : String) : bytes s = s.toList.flatMap String.utf8EncodeChar := by
  rw [bytes, String.toUTF8, ← String.utf8Encode_toList, List.utf8Encode, List.data_toByteArray]

/-! ### Characters -/

theorem ofNat_lt_iff {m n : Nat} (hm : m < 256) (hn : n < 256) :
    UInt8.ofNat m < UInt8.ofNat n ↔ m < n := by
  rw [UInt8.lt_iff_toNat_lt, UInt8.toNat_ofNat', UInt8.toNat_ofNat']
  omega

theorem ofNat_eq_iff {m n : Nat} (hm : m < 256) (hn : n < 256) :
    UInt8.ofNat m = UInt8.ofNat n ↔ m = n := by
  rw [← UInt8.toNat_inj, UInt8.toNat_ofNat', UInt8.toNat_ofNat']
  omega

/-- The digits of a number to the base 64, the last three apart. -/
theorem exists_digits (n : Nat) : ∃ a b c d, n = 262144 * a + 4096 * b + 64 * c + d ∧
    n / 262144 = a ∧ n / 4096 = 64 * a + b ∧ n / 64 = 4096 * a + 64 * b + c ∧ n % 64 = d ∧
    (64 * a + b) % 64 = b ∧ (4096 * a + 64 * b + c) % 64 = c ∧ b < 64 ∧ c < 64 ∧ d < 64 :=
  ⟨n / 262144, n / 4096 % 64, n / 64 % 64, n % 64, by omega, by omega, by omega, by omega,
    by omega, by omega, by omega, by omega, by omega, by omega⟩

/-- A character with a greater number has greater bytes, whatever comes behind them. -/
theorem encodeChar_lt {c d : Char} (h : c < d) (as bs : List UInt8) :
    List.Lex (· < ·) (String.utf8EncodeChar c ++ as) (String.utf8EncodeChar d ++ bs) := by
  have hlt : c.val.toNat < d.val.toNat := UInt32.lt_iff_toNat_lt.1 (Char.lt_def.1 h)
  have hd : d.val.toNat < 0x110000 := by
    rcases d.valid with hv | hv
    · have : d.val.toNat < 0xd800 := hv
      omega
    · exact hv.2
  unfold String.utf8EncodeChar
  generalize c.val.toNat = m at hlt ⊢
  generalize d.val.toNat = n at hlt hd ⊢
  -- In its digits a number is linear, and so is the comparison of bytes.
  obtain ⟨m₃, m₂, m₁, m₀, hm, hm₃, hm₂, hm₁, hm₀, hm₅, hm₆, hm₇⟩ := exists_digits m
  obtain ⟨n₃, n₂, n₁, n₀, hn, hn₃, hn₂, hn₁, hn₀, hn₅, hn₆, hn₇⟩ := exists_digits n
  dsimp only
  rw [hm₃, hm₂, hm₁, hm₀, hn₃, hn₂, hn₁, hn₀, hm₅, hm₆, hn₅, hn₆]
  clear hm₃ hm₂ hm₁ hm₀ hn₃ hn₂ hn₁ hn₀ hm₅ hm₆ hn₅ hn₆
  split_ifs <;>
  · simp only [List.cons_append, List.nil_append, List.cons_lex_cons_iff]
    simp (disch := omega) only [ofNat_lt_iff, ofNat_eq_iff]
    omega

/-! ### Texts -/

theorem bytes_lt_of_lt {s t : String} (h : s < t) : bytes s < bytes t := by
  have hlex : List.Lex (· < ·) s.toList t.toList := h
  rw [bytes_eq, bytes_eq]
  show List.Lex _ _ _
  generalize s.toList = as at hlex
  generalize t.toList = bs at hlex
  induction hlex with
  | @nil b bs =>
    obtain ⟨x, xs, hx⟩ := List.exists_cons_of_ne_nil (String.utf8EncodeChar_ne_nil (c := b))
    rw [List.flatMap_cons, hx]
    exact .nil
  | @cons a as bs h ih =>
    rw [List.flatMap_cons, List.flatMap_cons]
    exact List.Lex.append_left _ ih _
  | rel h => exact encodeChar_lt h _ _

/-- The order of texts is that of their bytes. -/
theorem bytes_lt_iff {s t : String} : bytes s < bytes t ↔ s < t := by
  refine ⟨fun h => ?_, bytes_lt_of_lt⟩
  rcases lt_trichotomy s t with hlt | rfl | hgt
  · exact hlt
  · exact absurd h (List.lt_irrefl _)
  · exact absurd (bytes_lt_of_lt hgt) (List.lt_asymm h)

end Text

namespace Location

/-- The first name that differs has smaller bytes, or there is no further name. -/
def Before (l m : Location) : Prop := List.Lex (fun s t => Text.bytes s < Text.bytes t) l m

theorem Before.append_left {l m : Location} (h : Before l m) (start : Location) :
    Before (start ++ l) (start ++ m) := List.Lex.append_left _ h start

theorem Before.asymm {l m : Location} (h : Before l m) : ¬ Before m l := by
  have : Std.Asymm fun s t : String => Text.bytes s < Text.bytes t :=
    ⟨fun _ _ => List.lt_asymm⟩
  exact (List.Lex.asymm fun s t : String => Text.bytes s < Text.bytes t).asymm l m h

theorem before_of_lt {s t : String} (h : s < t) (l m : Location) :
    Before (s :: l) (t :: m) := .rel (Text.bytes_lt_of_lt h)

end Location

end FileRoutes
