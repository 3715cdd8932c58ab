import SettingsCompiler.Schema.Definition
import Mathlib.Data.List.Basic
import Mathlib.Tactic.SplitIfs

/-!
# The order of encoded texts

Overrides are kept in the order of their names, which compares characters. The bytes that
UTF-8 has for a character are in front of those for any later character, whatever follows both
(`utf8EncodeChar_append_lt`), so the order of names is the order of their bytes
(`lt_iff_utf8_lt`).
-/

namespace SettingsCompiler.Text

/-- The bytes of a text in UTF-8. -/
def utf8 (s : String) : List UInt8 :=
  s.toUTF8.data.toList

/-- The bytes of a text are those of its characters, one after another. -/
theorem utf8_eq (s : String) : utf8 s = s.toList.flatMap String.utf8EncodeChar := by
  have h : s.toUTF8 = s.toList.utf8Encode := by
    rw [String.toUTF8_eq_toByteArray, ← String.toByteArray_ofList, String.ofList_toList]
  rw [utf8, h, List.utf8Encode, List.toList_data_toByteArray]

/-- Digits to the base 64 are in the order of the numbers that they write. -/
theorem digits_lt {m n : Nat} (h : m < n) : m / 262144 < n / 262144 ∨ m / 262144 = n / 262144 ∧
    (m / 4096 % 64 < n / 4096 % 64 ∨ m / 4096 % 64 = n / 4096 % 64 ∧
      (m / 64 % 64 < n / 64 % 64 ∨ m / 64 % 64 = n / 64 % 64 ∧ m % 64 < n % 64)) := by
  have digit (a b : Nat) (h : a < b) : a / 64 < b / 64 ∨ a / 64 = b / 64 ∧ a % 64 < b % 64 := by
    omega
  have second (a : Nat) : a / 4096 = a / 64 / 64 := by omega
  have third (a : Nat) : a / 262144 = a / 64 / 64 / 64 := by omega
  rw [third, third, second, second]
  obtain h | ⟨h₀, hm⟩ := digit m n h
  · obtain h | ⟨h₁, hm⟩ := digit _ _ h
    · obtain h | ⟨h₂, hm⟩ := digit _ _ h
      · exact .inl h
      · exact .inr ⟨h₂, .inl hm⟩
    · exact .inr ⟨by rw [h₁], .inr ⟨by rw [h₁], .inl hm⟩⟩
  · exact .inr ⟨by rw [h₀], .inr ⟨by rw [h₀], .inr ⟨by rw [h₀], hm⟩⟩⟩

theorem byte_lt_iff {a b : Nat} (ha : a < 256) (hb : b < 256) :
    UInt8.ofNat a < UInt8.ofNat b ↔ a < b := by
  rw [UInt8.lt_iff_toNat_lt, UInt8.toNat_ofNat_of_lt' ha, UInt8.toNat_ofNat_of_lt' hb]

theorem byte_inj {a b : Nat} (ha : a < 256) (hb : b < 256) :
    UInt8.ofNat a = UInt8.ofNat b ↔ a = b := by
  rw [← UInt8.toNat_inj, UInt8.toNat_ofNat_of_lt' ha, UInt8.toNat_ofNat_of_lt' hb]

/-- The bytes of the earlier character are in front, whatever follows both. -/
theorem utf8EncodeChar_append_lt {c d : Char} (h : c < d) (u v : List UInt8) :
    String.utf8EncodeChar c ++ u < String.utf8EncodeChar d ++ v := by
  have hcd : c.val.toNat < d.val.toNat := h
  have hd : d.val.toNat < 1114112 := by
    rcases d.valid with h | h
    · exact Nat.lt_trans h (by decide)
    · exact h.2
  have hdigits := digits_lt hcd
  unfold String.utf8EncodeChar
  generalize c.val.toNat = m at *
  generalize d.val.toNat = n at *
  have hm : m / 262144 % 8 = m / 262144 := by omega
  have hn : n / 262144 % 8 = n / 262144 := by omega
  -- If the two have different numbers of bytes, their first bytes decide ; else the digits do.
  dsimp only
  split_ifs
  all_goals
    simp (disch := omega) only [List.cons_append, List.nil_append, List.cons_lt_cons_iff,
      byte_lt_iff, byte_inj, hm, hn]
    omega

/-- At the first character that differs, the order of the characters is that of their bytes. -/
theorem flatMap_utf8EncodeChar_lt : ∀ {cs ds : List Char}, cs < ds →
    cs.flatMap String.utf8EncodeChar < ds.flatMap String.utf8EncodeChar
  | [], d :: ds, _ => by
    obtain ⟨b, bs, hb⟩ := List.exists_cons_of_ne_nil (String.utf8EncodeChar_ne_nil (c := d))
    rw [List.flatMap_cons, hb]
    exact List.nil_lt_cons b _
  | c :: cs, d :: ds, h => by
    rw [List.flatMap_cons, List.flatMap_cons]
    obtain hcd | ⟨rfl, hrest⟩ := List.cons_lt_cons_iff.mp h
    · exact utf8EncodeChar_append_lt hcd _ _
    · exact List.append_left_lt (flatMap_utf8EncodeChar_lt hrest)

theorem utf8_lt_utf8 {s t : String} (h : s < t) : utf8 s < utf8 t := by
  rw [utf8_eq, utf8_eq]
  exact flatMap_utf8EncodeChar_lt (String.lt_iff.mp h)

/-- Texts are in the order of their bytes. -/
theorem lt_iff_utf8_lt {s t : String} : s < t ↔ utf8 s < utf8 t := by
  refine ⟨utf8_lt_utf8, fun h => ?_⟩
  by_contra hst
  by_cases heq : s = t
  · rw [heq] at h
    exact List.lt_irrefl _ h
  · exact List.lt_asymm h (utf8_lt_utf8 (Overrides.lt_of_not_lt_of_ne hst heq))

end SettingsCompiler.Text
