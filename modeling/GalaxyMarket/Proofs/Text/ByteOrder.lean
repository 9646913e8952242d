import Mathlib

/-!
# Texts by their characters and by their bytes

Texts are compared character by character. Their bytes in UTF-8 are in the same order
(`Text.bytes_lt_bytes_iff`). Two different characters may take one byte or several, but of the two
the greater one has the greater byte where their bytes first differ, and whatever follows them is of
no account (`Text.utf8EncodeChar_append_lt`).
-/

namespace GalaxyMarket.Text

/-- The bytes of a text. -/
def bytes (text : String) : List UInt8 := text.toByteArray.data.toList

/-- The bytes of a text are those of its characters, one after the other. -/
theorem bytes_eq (text : String) : bytes text = text.toList.flatMap String.utf8EncodeChar := by
  have hbytes : text.toByteArray = text.toList.utf8Encode := by
    conv_lhs => rw [← String.ofList_toList (s := text)]
    exact String.toByteArray_ofList
  rw [bytes, hbytes, List.utf8Encode, List.data_toByteArray]

/-- **The greater character has the greater bytes**, whatever follows. -/
theorem utf8EncodeChar_append_lt {c d : Char} (h : c < d) (l m : List UInt8) :
    String.utf8EncodeChar c ++ l < String.utf8EncodeChar d ++ m := by
  have hlt : c.val.toNat < d.val.toNat := h
  have hmax : d.val.toNat < 0x110000 := by
    rcases d.valid with hlow | ⟨-, hhigh⟩
    · exact Nat.lt_trans hlow (by decide)
    · exact hhigh
  unfold String.utf8EncodeChar
  generalize c.val.toNat = v at hlt ⊢
  generalize d.val.toNat = w at hlt hmax ⊢
  -- Four bytes are too many to be compared at once.
  have hlead : v / 4096 < w / 4096 ∨ v / 4096 = w / 4096 := by omega
  dsimp only
  -- More bytes begin with a greater one, and equally many are digits in base 64.
  split_ifs
  all_goals
    simp only [List.cons_append, List.nil_append, List.cons_lt_cons_iff, UInt8.lt_iff_toNat_lt,
      ← UInt8.toNat_inj, UInt8.toNat_ofNat', Nat.reducePow]
    rcases hlead with hlead | hlead
    all_goals omega

/-- The greater text has the greater bytes. -/
theorem flatMap_utf8EncodeChar_lt {l m : List Char} (h : l < m) :
    l.flatMap String.utf8EncodeChar < m.flatMap String.utf8EncodeChar := by
  -- Texts compare by a first character in which they differ, or the lesser one ends before the
  -- other.
  induction h with
  | @nil d m =>
    -- No character is without bytes.
    have hpos : 0 < ((d :: m).flatMap String.utf8EncodeChar).length := by
      rw [List.flatMap_cons, List.length_append, String.length_utf8EncodeChar]
      exact Nat.add_pos_left (Char.utf8Size_pos d) _
    obtain ⟨byte, rest, heq⟩ := List.exists_cons_of_length_pos hpos
    rw [heq]
    exact List.nil_lt_cons byte rest
  | rel hcd =>
    rw [List.flatMap_cons, List.flatMap_cons]
    exact utf8EncodeChar_append_lt hcd _ _
  | cons _ ih =>
    rw [List.flatMap_cons, List.flatMap_cons]
    exact List.append_left_lt ih

/-- **Bytes are in the order of characters.** -/
theorem bytes_lt_bytes_iff {a b : String} : bytes a < bytes b ↔ a < b := by
  rw [bytes_eq, bytes_eq]
  constructor
  · intro hbytes
    by_contra hle
    rcases Std.le_iff_lt_or_eq.mp (String.not_lt.mp hle) with hlt | heq
    · exact List.lt_asymm (flatMap_utf8EncodeChar_lt hlt) hbytes
    · exact List.lt_irrefl _ (heq ▸ hbytes)
  · exact flatMap_utf8EncodeChar_lt

end GalaxyMarket.Text
