import Mathlib.Data.List.TakeWhile
import ClusterRegistry.Json.Record
import ClusterRegistry.Proofs.Json.Doc

/-!
# Reading back integers

An integer is written with its decimal digits and, if need be, a minus sign in front. It is read as
that integer by every reader that has room for it.

* `Text.decimal_toDigits`, `Text.head?_toDigits`: digits;
* **`Numeral.ofChars?_ofInt`**, `Numeral.legible_ofInt`: the characters of an integer;
* **`Numeral.int?_ofInt`**, `Doc.int64?_int`, `Doc.nat64?_int`: its value.
-/

namespace ClusterRegistry

namespace Text

/-! ## Digits -/

theorem decimal_toDigits (n : Nat) : decimal (Nat.toDigits 10 n) = n :=
  Nat.ofDigitChars_ten_toDigits

theorem head?_toDigits {n : Nat} (h : 0 < n) : (Nat.toDigits 10 n).head? ≠ some '0' := by
  induction n using Nat.strongRecOn with
  | ind n ih =>
    rw [Nat.toDigits_eq_if (by decide)]
    split_ifs with hn
    · have hdigit : ∀ n < 10, 0 < n → n.digitChar ≠ '0' := by decide
      simpa using hdigit n hn h
    · rw [List.head?_append_of_ne_nil _ Nat.toDigits_ne_nil]
      exact ih (n / 10) (by omega) (by omega)

theorem toDigits_eq_cons (n : Nat) :
    ∃ c rest, Nat.toDigits 10 n = c :: rest ∧ c.isDigit = true := by
  obtain ⟨c, rest, h⟩ := List.exists_cons_of_ne_nil (Nat.toDigits_ne_nil (b := 10) (n := n))
  exact ⟨c, rest, h, Nat.isDigit_of_mem_toDigits (by decide) (by decide) (h ▸ List.mem_cons_self)⟩

end Text

namespace Json

namespace Numeral

/-! ## Characters -/

theorem chars_ofInt (i : Int) :
    (ofInt i).chars = (if i < 0 then ['-'] else []) ++ Nat.toDigits 10 i.natAbs := by
  simp [chars, ofInt]

theorem unsignedOf?_toDigits (negative : Bool) (n : Nat) :
    unsignedOf? negative (Nat.toDigits 10 n) = some ⟨negative, n, [], none⟩ := by
  have hdigit : ∀ c ∈ Nat.toDigits 10 n, c.isDigit = true := fun c hc =>
    Nat.isDigit_of_mem_toDigits (by decide) (by decide) hc
  have htake : (Nat.toDigits 10 n).takeWhile Char.isDigit = Nat.toDigits 10 n :=
    List.takeWhile_eq_self_iff.mpr hdigit
  have hdrop : (Nat.toDigits 10 n).dropWhile Char.isDigit = [] :=
    List.dropWhile_eq_nil_iff.mpr hdigit
  have hzero : ¬ ((Nat.toDigits 10 n).head? = some '0' ∧ (Nat.toDigits 10 n).length ≠ 1) := by
    rintro ⟨hhead, hlength⟩
    obtain rfl | hpos := Nat.eq_zero_or_pos n
    · exact hlength (by decide)
    · exact Text.head?_toDigits hpos hhead
  simp [unsignedOf?, htake, hdrop, hzero, Nat.toDigits_ne_nil, fractionOf?, exponentOf?,
    Text.decimal_toDigits]

/-- **The characters of an integer are read as that integer.** -/
theorem ofChars?_ofInt (i : Int) : ofChars? (ofInt i).chars = some (ofInt i) := by
  rw [chars_ofInt]
  by_cases hi : i < 0
  · rw [if_pos hi, List.singleton_append, ofChars?, unsignedOf?_toDigits]
    simp [ofInt, hi]
  · rw [if_neg hi, List.nil_append]
    obtain ⟨c, rest, hchars, hc⟩ := Text.toDigits_eq_cons i.natAbs
    have hsign : ofChars? (Nat.toDigits 10 i.natAbs) =
        unsignedOf? false (Nat.toDigits 10 i.natAbs) := by
      rw [hchars]
      unfold ofChars?
      split
      · rename_i heq
        obtain ⟨rfl, -⟩ := List.cons.inj heq
        exact absurd hc (by decide)
      · rfl
    rw [hsign, unsignedOf?_toDigits]
    simp [ofInt, hi]

theorem legible_ofInt (i : Int) : (ofInt i).Legible := by
  refine ⟨fun c hc => ?_, ?_, ofChars?_ofInt i⟩
  · rw [chars_ofInt, List.mem_append] at hc
    rcases hc with hc | hc
    · split_ifs at hc with hi
      · exact .inr (.inl (List.mem_singleton.mp hc))
      · cases hc
    · exact .inl (Nat.isDigit_of_mem_toDigits (by decide) (by decide) hc)
  · rw [chars_ofInt]
    by_cases hi : i < 0
    · exact ⟨'-', _, by rw [if_pos hi, List.singleton_append], .inr rfl⟩
    · obtain ⟨c, rest, hchars, hc⟩ := Text.toDigits_eq_cons i.natAbs
      exact ⟨c, rest, by rw [if_neg hi, List.nil_append, hchars], .inl hc⟩

/-! ## Values -/

/-- **An integer of 64 bits keeps its value.** -/
theorem int?_ofInt {i : Int} (h : i ∈ Bounds.int64 ∨ i ∈ Bounds.nat64) :
    (ofInt i).int? = some i := by
  simp only [Bounds.mem_iff, Bounds.int64, Bounds.nat64] at h
  by_cases hi : i < 0
  · have habs : -(i.natAbs : Int) = i := by omega
    have hne : i.natAbs ≠ 0 := by omega
    have hmem : i ∈ Bounds.int64 := by
      simp only [Bounds.mem_iff, Bounds.int64]
      omega
    simp only [int?, ofInt, and_self, if_true, decide_eq_true hi]
    rw [habs, if_pos ⟨hne, hmem⟩]
  · have habs : (i.natAbs : Int) = i := by omega
    have hmem : i ∈ Bounds.nat64 := by
      simp only [Bounds.mem_iff, Bounds.nat64]
      omega
    simp only [int?, ofInt, and_self, if_true, decide_eq_false hi, Bool.false_eq_true, if_false]
    rw [habs, if_pos hmem]

end Numeral

namespace Doc

theorem int_legible (i : Int) : (int i).Legible := Numeral.legible_ofInt i

theorem int64?_int {i : Int} (h : i ∈ Bounds.int64) : int64? (int i) = some i := by
  simp [int64?, integer?, int, Numeral.int?_ofInt (.inl h), h]

theorem nat64?_int {n : Nat} (h : (n : Int) ∈ Bounds.nat64) : nat64? (int n) = some n := by
  simp [nat64?, integer?, int, Numeral.int?_ofInt (.inr h), h]

end Doc

end Json

end ClusterRegistry
