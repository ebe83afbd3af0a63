import ClusterRegistry.Proofs.Text.Utf8

/-!
# The bytes of a text

A text is told by its bytes, and texts are in the order of their bytes.

* `Text.octets`, `Text.octets_injective`: the bytes of a text;
* `Text.utf8EncodeChar_lt`, **`Text.octets_lt_iff`**: the order of characters and texts.
-/

namespace ClusterRegistry.Text

variable {c d : Char} {cs ds : List Char}

/-- The bytes of a text. -/
def octets (cs : List Char) : List UInt8 := cs.flatMap String.utf8EncodeChar

theorem octets_cons (c : Char) (cs : List Char) :
    octets (c :: cs) = String.utf8EncodeChar c ++ octets cs := List.flatMap_cons

theorem octets_append (cs ds : List Char) : octets (cs ++ ds) = octets cs ++ octets ds :=
  List.flatMap_append

theorem octets_injective (h : octets cs = octets ds) : cs = ds := by
  have hsymbols := congrArg symbolsOfBytes h
  rw [octets, octets, symbolsOfBytes_flatMap, symbolsOfBytes_flatMap] at hsymbols
  exact List.map_injective_iff.mpr (fun _ _ => Option.some.inj) hsymbols

theorem length_utf8EncodeChar_pos (c : Char) : 0 < (String.utf8EncodeChar c).length :=
  List.length_pos_of_ne_nil String.utf8EncodeChar_ne_nil

/-! ## Order -/

theorem append_lt_append {u v : List UInt8} (h : u < v) (hlength : u.length = v.length)
    (x y : List UInt8) : u ++ x < v ++ y := by
  induction u generalizing v with
  | nil =>
    rw [List.eq_nil_of_length_eq_zero hlength.symm] at h
    exact absurd h (List.not_lt_nil _)
  | cons a u ih =>
    cases v with
    | nil => exact absurd h (List.not_lt_nil _)
    | cons b v =>
      rw [List.cons_append, List.cons_append, List.cons_lt_cons_iff]
      rcases List.cons_lt_cons_iff.mp h with hlt | ⟨heq, hrest⟩
      · exact .inl hlt
      · exact .inr ⟨heq, ih hrest (Nat.succ.inj hlength)⟩

theorem ofNat_lt_ofNat {m n : Nat} (h : m < n) (hn : n < 256) : UInt8.ofNat m < UInt8.ofNat n := by
  rw [UInt8.lt_iff_toNat_lt, UInt8.toNat_ofNat', UInt8.toNat_ofNat', Nat.mod_eq_of_lt hn,
    Nat.mod_eq_of_lt (Nat.lt_trans h hn)]
  exact h

theorem digits_lt {m n : Nat} (h : m < n) :
    m / 64 < n / 64 ∨ m / 64 = n / 64 ∧ m % 64 < n % 64 := by omega

/-- **The bytes of a character tell its order**, whatever stands behind them. -/
theorem utf8EncodeChar_lt (h : c < d) (x y : List UInt8) :
    String.utf8EncodeChar c ++ x < String.utf8EncodeChar d ++ y := by
  have hlt : c.toNat < d.toNat := h
  have hvalid : d.toNat < 0xD800 ∨ 0xDFFF < d.toNat ∧ d.toNat < 0x110000 := d.valid
  rw [String.utf8EncodeChar, String.utf8EncodeChar, show c.val.toNat = c.toNat from rfl,
    show d.val.toNat = d.toNat from rfl]
  have hone := digits_lt hlt
  have htwo : c.toNat / 64 < d.toNat / 64 → _ := digits_lt
  have hthree : c.toNat / 64 / 64 < d.toNat / 64 / 64 → _ := digits_lt
  simp only [Nat.div_div_eq_div_mul] at htwo hthree
  split_ifs
  -- with fewer bytes the first one is smaller; with as many they are digits of base 64
  all_goals first
    | exact absurd hlt (by omega)
    | exact List.cons_lt_cons_iff.mpr (.inl (ofNat_lt_ofNat (by omega) (by omega)))
    | apply append_lt_append
      · simp only [List.cons_lt_cons_iff, UInt8.lt_iff_toNat_lt, ← UInt8.toNat_inj,
          UInt8.toNat_ofNat', List.not_lt_nil, and_false, or_false]
        simp (disch := omega) only [Nat.mod_eq_of_lt]
        omega
      · rfl

theorem octets_lt (h : cs < ds) : octets cs < octets ds := by
  induction cs generalizing ds with
  | nil =>
    cases ds with
    | nil => exact absurd h (List.not_lt_nil _)
    | cons d ds =>
      obtain ⟨b, bytes, hbytes⟩ := List.exists_cons_of_ne_nil
        (List.length_pos_iff.mp (length_utf8EncodeChar_pos d))
      rw [octets_cons, hbytes]
      exact List.nil_lt_cons b _
  | cons c cs ih =>
    cases ds with
    | nil => exact absurd h (List.not_lt_nil _)
    | cons d ds =>
      rw [octets_cons, octets_cons]
      rcases List.cons_lt_cons_iff.mp h with hlt | ⟨rfl, hrest⟩
      · exact utf8EncodeChar_lt hlt _ _
      · exact List.append_left_lt (ih hrest)

/-- **Texts are in the order of their bytes.** -/
theorem octets_lt_iff : octets cs < octets ds ↔ cs < ds := by
  refine ⟨fun h => by_contra fun hnot => ?_, octets_lt⟩
  rcases List.le_iff_lt_or_eq.mp (List.not_lt.mp hnot) with hgt | rfl
  · exact List.lt_asymm h (octets_lt hgt)
  · exact List.lt_irrefl _ h

end ClusterRegistry.Text
