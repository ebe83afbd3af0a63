import Mathlib.Data.List.Basic
import ClusterRegistry.Text.Utf8

/-!
# Reading back UTF-8

The bytes of a text are read as its characters, and none of them is left over.

* `Text.firstChar?_one`, …: a character of one, two, three or four bytes;
* **`Text.firstChar?_utf8EncodeChar`**: the bytes of a character, with anything behind them;
* **`Text.symbolsOfBytes_toUTF8`**: the bytes of a text.
-/

namespace ClusterRegistry.Text

variable {x y z w : UInt8} {rest : List UInt8}

/-! ## Characters by the number of their bytes -/

theorem not_lt_byte (h : y.toNat ≤ x.toNat) : ¬ x < y :=
  UInt8.not_lt.mpr (UInt8.le_iff_toNat_le.mpr h)

theorem isTail_iff : IsTail x ↔ 0x80 ≤ x.toNat ∧ x.toNat < 0xC0 := by
  rw [IsTail, UInt8.le_iff_toNat_le, UInt8.lt_iff_toNat_lt]
  rfl

theorem firstChar?_one (hx : x.toNat < 0x80) :
    firstChar? (x :: rest) = some (Char.ofNat x.toNat, 1) := by
  have hlt : x < 0x80 := UInt8.lt_iff_toNat_lt.mpr hx
  simp [firstChar?, hlt]

theorem firstChar?_two (hx : 0xC2 ≤ x.toNat ∧ x.toNat < 0xE0) (hy : IsTail y) :
    firstChar? (x :: y :: rest) = some (Char.ofNat (x.toNat % 32 * 64 + y.toNat % 64), 2) := by
  have hone : ¬ x < 0x80 := not_lt_byte (Nat.le_trans (by decide) hx.1)
  have htwo : 0xC2 ≤ x ∧ x < 0xE0 :=
    ⟨UInt8.le_iff_toNat_le.mpr hx.1, UInt8.lt_iff_toNat_lt.mpr hx.2⟩
  simp only [firstChar?, if_neg hone, if_pos htwo, if_pos hy]

/-- The second byte tells the shortest form from longer ones, and characters from halves of
surrogate pairs. -/
theorem firstChar?_three (hx : 0xE0 ≤ x.toNat ∧ x.toNat < 0xF0) (hy : IsTail y) (hz : IsTail z)
    (hshort : x.toNat = 0xE0 → 0xA0 ≤ y.toNat) (hpair : x.toNat = 0xED → y.toNat < 0xA0) :
    firstChar? (x :: y :: z :: rest) =
      some (Char.ofNat ((x.toNat % 16 * 64 + y.toNat % 64) * 64 + z.toNat % 64), 3) := by
  have hone : ¬ x < 0x80 := not_lt_byte (Nat.le_trans (by decide) hx.1)
  have htwo : ¬ (0xC2 ≤ x ∧ x < 0xE0) := fun h =>
    not_lt_byte (Nat.le_trans (by decide) hx.1) h.2
  have hthree : 0xE0 ≤ x ∧ x < 0xF0 :=
    ⟨UInt8.le_iff_toNat_le.mpr hx.1, UInt8.lt_iff_toNat_lt.mpr hx.2⟩
  have hform : IsTail y ∧ IsTail z ∧ (x = 0xE0 → 0xA0 ≤ y) ∧ (x = 0xED → y < 0xA0) :=
    ⟨hy, hz, fun h => UInt8.le_iff_toNat_le.mpr (hshort (congrArg UInt8.toNat h)),
      fun h => UInt8.lt_iff_toNat_lt.mpr (hpair (congrArg UInt8.toNat h))⟩
  simp only [firstChar?, if_neg hone, if_neg htwo, if_pos hthree, if_pos hform]

theorem firstChar?_four (hx : 0xF0 ≤ x.toNat ∧ x.toNat < 0xF5) (hy : IsTail y) (hz : IsTail z)
    (hw : IsTail w) (hshort : x.toNat = 0xF0 → 0x90 ≤ y.toNat)
    (hlast : x.toNat = 0xF4 → y.toNat < 0x90) :
    firstChar? (x :: y :: z :: w :: rest) = some (Char.ofNat
      (((x.toNat % 8 * 64 + y.toNat % 64) * 64 + z.toNat % 64) * 64 + w.toNat % 64), 4) := by
  have hone : ¬ x < 0x80 := not_lt_byte (Nat.le_trans (by decide) hx.1)
  have htwo : ¬ (0xC2 ≤ x ∧ x < 0xE0) := fun h =>
    not_lt_byte (Nat.le_trans (by decide) hx.1) h.2
  have hthree : ¬ (0xE0 ≤ x ∧ x < 0xF0) := fun h =>
    not_lt_byte (Nat.le_trans (by decide) hx.1) h.2
  have hfour : 0xF0 ≤ x ∧ x < 0xF5 :=
    ⟨UInt8.le_iff_toNat_le.mpr hx.1, UInt8.lt_iff_toNat_lt.mpr hx.2⟩
  have hform : IsTail y ∧ IsTail z ∧ IsTail w ∧ (x = 0xF0 → 0x90 ≤ y) ∧ (x = 0xF4 → y < 0x90) :=
    ⟨hy, hz, hw, fun h => UInt8.le_iff_toNat_le.mpr (hshort (congrArg UInt8.toNat h)),
      fun h => UInt8.lt_iff_toNat_lt.mpr (hlast (congrArg UInt8.toNat h))⟩
  simp only [firstChar?, if_neg hone, if_neg htwo, if_neg hthree, if_pos hfour, if_pos hform]

/-! ## Characters and texts -/

/-- **A character is read from its bytes, whatever stands behind them.** -/
theorem firstChar?_utf8EncodeChar (c : Char) (rest : List UInt8) :
    firstChar? (String.utf8EncodeChar c ++ rest) = some (c, (String.utf8EncodeChar c).length) := by
  have hvalid : c.toNat < 0xD800 ∨ 0xDFFF < c.toNat ∧ c.toNat < 0x110000 := c.valid
  have hchar : ∀ {n : Nat}, n = c.toNat → Char.ofNat n = c := by
    rintro n rfl
    exact Char.ofNat_toNat c
  have hbyte : ∀ {n : Nat}, n < 256 → (UInt8.ofNat n).toNat = n := fun h => by
    rw [UInt8.toNat_ofNat', Nat.mod_eq_of_lt h]
  have htail : ∀ n : Nat, (UInt8.ofNat (n % 64 + 128)).toNat = n % 64 + 128 := fun n =>
    hbyte (by omega)
  have hisTail : ∀ n : Nat, IsTail (UInt8.ofNat (n % 64 + 128)) := fun n => by
    rw [isTail_iff, htail]
    omega
  rw [String.utf8EncodeChar, show c.val.toNat = c.toNat from rfl]
  split_ifs with h1 h2 h3
  · have hx : (UInt8.ofNat c.toNat).toNat = c.toNat := hbyte (by omega)
    rw [List.singleton_append, firstChar?_one (by omega), hx, hchar rfl]
    rfl
  · have hx : (UInt8.ofNat (c.toNat / 64 % 32 + 192)).toNat = c.toNat / 64 % 32 + 192 :=
      hbyte (by omega)
    rw [List.cons_append, List.singleton_append, firstChar?_two (by omega) (hisTail _), hx, htail,
      hchar (by omega)]
    rfl
  · have hx : (UInt8.ofNat (c.toNat / 4096 % 16 + 224)).toNat = c.toNat / 4096 % 16 + 224 :=
      hbyte (by omega)
    have hy := htail (c.toNat / 64)
    rw [List.cons_append, List.cons_append, List.singleton_append,
      firstChar?_three (by omega) (hisTail _) (hisTail _) (by omega) (by omega), hx, hy, htail,
      hchar (by omega)]
    rfl
  · have hx : (UInt8.ofNat (c.toNat / 262144 % 8 + 240)).toNat = c.toNat / 262144 % 8 + 240 :=
      hbyte (by omega)
    have hy := htail (c.toNat / 4096)
    rw [List.cons_append, List.cons_append, List.cons_append, List.singleton_append,
      firstChar?_four (by omega) (hisTail _) (hisTail _) (hisTail _) (by omega) (by omega), hx, hy,
      htail, htail, hchar (by omega)]
    rfl

theorem symbolsAfter_append (bytes rest : List UInt8) :
    symbolsAfter bytes.length (bytes ++ rest) = symbolsAfter 0 rest := by
  induction bytes with
  | nil => rfl
  | cons b bytes ih => exact ih

theorem symbolsOfBytes_flatMap (cs : List Char) :
    symbolsOfBytes (cs.flatMap String.utf8EncodeChar) = cs.map some := by
  induction cs with
  | nil => rfl
  | cons c rest ih =>
    have hfirst := firstChar?_utf8EncodeChar c (rest.flatMap String.utf8EncodeChar)
    rw [List.flatMap_cons, List.map_cons, ← ih]
    cases hbytes : String.utf8EncodeChar c with
    | nil => exact absurd hbytes String.utf8EncodeChar_ne_nil
    | cons b bytes =>
      rw [hbytes, List.cons_append, List.length_cons] at hfirst
      rw [List.cons_append, symbolsOfBytes, symbolsAfter, hfirst]
      exact congrArg (some c :: ·) (symbolsAfter_append bytes _)

/-- **The bytes of a text are read as its characters.** -/
theorem symbolsOfBytes_toUTF8 (text : String) :
    symbolsOfBytes text.toUTF8.data.toList = text.toList.map some := by
  have hbytes : text.toUTF8 = (text.toList.flatMap String.utf8EncodeChar).toByteArray := by
    rw [String.toUTF8_eq_toByteArray, ← List.utf8Encode, ← String.toByteArray_ofList,
      String.ofList_toList]
  rw [hbytes, List.toList_data_toByteArray, symbolsOfBytes_flatMap]

end ClusterRegistry.Text
