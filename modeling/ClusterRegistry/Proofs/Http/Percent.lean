import Mathlib.Data.List.Basic
import Mathlib.Tactic.SplitIfs
import ClusterRegistry.Http.Address
import ClusterRegistry.Proofs.Text.Octets

/-!
# Reading what is sent

Bytes that an address cannot hold as they are, are sent as percent signs with two digits each. What
is sent is read as bytes again.

* `Http.percentDecode`, **`Http.percentDecode_encodeUnless`**: encoding changes nothing in what is
  read;
* `Http.hasEscape`, `Http.percentDecode_eq_octets`, `Http.length_percentDecode_lt`: texts that stand
  for themselves;
* `Http.formPairs`, **`Http.formPairs_formText`**: a form is read as the parameters it was made of.
-/

namespace ClusterRegistry.Http

open Text

variable {c x y : Char} {cs rest : List Char} {b : UInt8}

/-! ## Percent signs -/

/-- The byte that two hexadecimal digits write. -/
def byteOf? (x y : Char) : Option UInt8 :=
  (Text.hexValue? x).bind fun m => (Text.hexValue? y).map fun n => UInt8.ofNat (16 * m + n)

/-- The byte that the first two characters write. -/
def leadByte? : List Char → Option UInt8
  | x :: y :: _ => byteOf? x y
  | _ => none

/-- The bytes of a text, where a percent sign and two digits stand for a byte. -/
def percentDecode : List Char → List UInt8
  | [] => []
  | '%' :: x :: y :: rest =>
    match byteOf? x y with
    | some b => b :: percentDecode rest
    | none => String.utf8EncodeChar '%' ++ percentDecode (x :: y :: rest)
  | c :: rest => String.utf8EncodeChar c ++ percentDecode rest

/-- Somewhere in the text, a percent sign and two digits stand for a byte. -/
def hasEscape : List Char → Bool
  | [] => false
  | c :: rest => (c = '%' && (leadByte? rest).isSome) || hasEscape rest

theorem isSome_hexValue?_of_byteOf? (h : byteOf? x y = some b) :
    (Text.hexValue? x).isSome ∧ (Text.hexValue? y).isSome := by
  cases hx : Text.hexValue? x with
  | none => simp [byteOf?, hx] at h
  | some m =>
    cases hy : Text.hexValue? y with
    | none => simp [byteOf?, hx, hy] at h
    | some n => exact ⟨rfl, rfl⟩

theorem leadByte?_cons (x : Char) (rest : List Char) :
    leadByte? (x :: rest) = (Text.hexValue? x).bind fun m =>
      (rest.head?.bind Text.hexValue?).map fun n => UInt8.ofNat (16 * m + n) := by
  cases rest with
  | nil => cases h : Text.hexValue? x <;> simp [leadByte?]
  | cons y rest => rfl

theorem percentDecode_escape (h : byteOf? x y = some b) :
    percentDecode ('%' :: x :: y :: rest) = b :: percentDecode rest := by
  rw [percentDecode, h]

theorem percentDecode_cons (h : c = '%' → leadByte? rest = none) :
    percentDecode (c :: rest) = String.utf8EncodeChar c ++ percentDecode rest := by
  by_cases hc : c = '%'
  · subst hc
    cases rest with
    | nil => rfl
    | cons x rest =>
      cases rest with
      | nil => rfl
      | cons y rest =>
        have hnone : byteOf? x y = none := h rfl
        rw [percentDecode, hnone]
  · rw [percentDecode]
    rintro x y rest rfl
    exact absurd rfl hc

/-- A text is read from its start: it is empty, or starts with an escape, or with a character that
stands for itself. -/
theorem escape_induction {motive : List Char → Prop} (nil : motive [])
    (escape : ∀ x y b rest, byteOf? x y = some b → motive rest → motive ('%' :: x :: y :: rest))
    (cons : ∀ c rest, (c = '%' → leadByte? rest = none) → motive rest → motive (c :: rest))
    (cs : List Char) : motive cs := by
  induction cs using percentDecode.induct with
  | case1 => exact nil
  | case2 x y rest b hb ih => exact escape x y b rest hb ih
  | case3 x y rest hnone ih => exact cons '%' _ (fun _ => hnone) ih
  | case4 c rest hne ih =>
    refine cons c rest (fun hc => ?_) ih
    cases rest with
    | nil => rfl
    | cons x rest =>
      cases rest with
      | nil => rfl
      | cons y rest => exact absurd rfl (hne x y rest hc)

theorem length_percentDecode_le (cs : List Char) :
    (percentDecode cs).length ≤ (octets cs).length := by
  induction cs using escape_induction with
  | nil => exact Nat.le_refl _
  | escape x y b rest hb ih =>
    rw [percentDecode_escape hb, octets_cons, octets_cons, octets_cons]
    have hx := length_utf8EncodeChar_pos x
    simp only [List.length_append, List.length_cons]
    omega
  | cons c rest hc ih =>
    rw [percentDecode_cons hc, octets_cons, List.length_append, List.length_append]
    omega

theorem percentDecode_eq_octets (h : hasEscape cs = false) : percentDecode cs = octets cs := by
  induction cs using escape_induction with
  | nil => rfl
  | escape x y b rest hb ih => simp [hasEscape, leadByte?, hb] at h
  | cons c rest hc ih =>
    rw [hasEscape, Bool.or_eq_false_iff] at h
    rw [percentDecode_cons hc, octets_cons, ih h.2]

theorem length_percentDecode_lt (h : hasEscape cs = true) :
    (percentDecode cs).length < (octets cs).length := by
  induction cs using escape_induction with
  | nil => exact absurd h Bool.false_ne_true
  | escape x y b rest hb ih =>
    have hle := length_percentDecode_le rest
    have hx := length_utf8EncodeChar_pos x
    have hpercent := length_utf8EncodeChar_pos '%'
    rw [percentDecode_escape hb, octets_cons, octets_cons, octets_cons]
    simp only [List.length_append, List.length_cons]
    omega
  | cons c rest hc ih =>
    have hrest : hasEscape rest = true := by
      rw [hasEscape, Bool.or_eq_true, Bool.and_eq_true, decide_eq_true_eq] at h
      refine h.resolve_left fun hlead => ?_
      rw [hc hlead.1] at hlead
      exact absurd hlead.2 Bool.false_ne_true
    rw [percentDecode_cons hc, octets_cons, List.length_append, List.length_append]
    exact Nat.add_lt_add_left (ih hrest) _

/-! ## Encoding and decoding -/

theorem hexValue?_toUpper_hexDigit :
    ∀ n < 16, Text.hexValue? (Text.hexDigit n).toUpper = some n := by decide

theorem percentDecode_percentByte (b : UInt8) (rest : List Char) :
    percentDecode (percentByte b ++ rest) = b :: percentDecode rest := by
  have hbyte : b.toNat < 256 := b.toNat_lt
  refine percentDecode_escape ?_
  rw [byteOf?, hexValue?_toUpper_hexDigit _ (by omega), hexValue?_toUpper_hexDigit _ (by omega),
    Option.bind_some, Option.map_some, Nat.div_add_mod, UInt8.ofNat_toNat]

theorem percentDecode_flatMap_percentByte (bytes : List UInt8) (rest : List Char) :
    percentDecode (bytes.flatMap percentByte ++ rest) = bytes ++ percentDecode rest := by
  induction bytes with
  | nil => rfl
  | cons b bytes ih =>
    rw [List.flatMap_cons, List.append_assoc, percentDecode_percentByte, ih, List.cons_append]

theorem percentDecode_percentChar (c : Char) (rest : List Char) :
    percentDecode (percentChar c ++ rest) = String.utf8EncodeChar c ++ percentDecode rest :=
  percentDecode_flatMap_percentByte _ rest

theorem percentChar_eq_cons (c : Char) : ∃ tail, percentChar c = '%' :: tail := by
  cases hbytes : String.utf8EncodeChar c with
  | nil => exact absurd hbytes String.utf8EncodeChar_ne_nil
  | cons b bytes => exact ⟨_, by rw [percentChar, hbytes, List.flatMap_cons]; rfl⟩

theorem not_mem_percentChar (hpercent : x ≠ '%') (hdigit : Text.hexValue? x = none) :
    x ∉ percentChar c := by
  intro hmem
  obtain ⟨b, -, hb⟩ := List.mem_flatMap.mp hmem
  have hbyte : b.toNat < 256 := b.toNat_lt
  simp only [percentByte, List.mem_cons, List.not_mem_nil, or_false] at hb
  rcases hb with rfl | rfl | rfl
  · exact hpercent rfl
  · rw [hexValue?_toUpper_hexDigit _ (by omega)] at hdigit
    exact Option.some_ne_none _ hdigit
  · rw [hexValue?_toUpper_hexDigit _ (by omega)] at hdigit
    exact Option.some_ne_none _ hdigit

theorem encodeUnless_cons (keep : Char → Bool) (c : Char) (cs : List Char) :
    encodeUnless keep (c :: cs) =
      (if keep c then [c] else percentChar c) ++ encodeUnless keep cs := List.flatMap_cons

theorem not_mem_encodeUnless {keep : Char → Bool} (hpercent : x ≠ '%')
    (hdigit : Text.hexValue? x = none) (hkept : keep x = false) : x ∉ encodeUnless keep cs := by
  intro hmem
  obtain ⟨c, -, hc⟩ := List.mem_flatMap.mp hmem
  split_ifs at hc with hkeep
  · rw [← List.mem_singleton.mp hc, hkept] at hkeep
    exact Bool.false_ne_true hkeep
  · exact not_mem_percentChar hpercent hdigit hc

/-- Percent signs and digits stay as they are. -/
def KeepsEscapes (keep : Char → Bool) : Prop :=
  ∀ c, c = '%' ∨ (Text.hexValue? c).isSome → keep c = true

namespace KeepsEscapes

variable {keep : Char → Bool} (hkeep : KeepsEscapes keep)
include hkeep

theorem hexValue?_eq_none (hc : keep c = false) : Text.hexValue? c = none := by
  cases hvalue : Text.hexValue? c with
  | none => rfl
  | some n =>
    rw [hkeep c (Or.inr (by rw [hvalue]; rfl))] at hc
    exact absurd hc.symm Bool.false_ne_true

theorem hexValue?_head (cs : List Char) :
    (encodeUnless keep cs).head?.bind Text.hexValue? = cs.head?.bind Text.hexValue? := by
  cases cs with
  | nil => rfl
  | cons c rest =>
    rw [encodeUnless_cons]
    cases hc : keep c with
    | true => rfl
    | false =>
      obtain ⟨tail, htail⟩ := percentChar_eq_cons c
      rw [if_neg Bool.false_ne_true, htail]
      exact (hkeep.hexValue?_eq_none hc).symm

theorem leadByte?_encodeUnless (cs : List Char) :
    leadByte? (encodeUnless keep cs) = leadByte? cs := by
  cases cs with
  | nil => rfl
  | cons x rest =>
    rw [encodeUnless_cons]
    cases hx : keep x with
    | true =>
      rw [if_pos rfl, List.singleton_append, leadByte?_cons, leadByte?_cons, hkeep.hexValue?_head]
    | false =>
      obtain ⟨tail, htail⟩ := percentChar_eq_cons x
      rw [if_neg Bool.false_ne_true, htail, List.cons_append, leadByte?_cons, leadByte?_cons,
        hkeep.hexValue?_eq_none hx]
      rfl

/-- **What is read does not depend on what was encoded.** -/
theorem percentDecode_encodeUnless (cs : List Char) :
    percentDecode (encodeUnless keep cs) = percentDecode cs := by
  induction cs using escape_induction with
  | nil => rfl
  | escape x y b rest hb ih =>
    -- both digits are kept, so the escape is still there
    obtain ⟨hdigit, hdigit'⟩ := isSome_hexValue?_of_byteOf? hb
    have hx : keep x = true := hkeep x (Or.inr hdigit)
    have hy : keep y = true := hkeep y (Or.inr hdigit')
    rw [encodeUnless_cons, encodeUnless_cons, encodeUnless_cons, hkeep '%' (Or.inl rfl), hx, hy]
    calc percentDecode ('%' :: x :: y :: encodeUnless keep rest)
        = b :: percentDecode (encodeUnless keep rest) := percentDecode_escape hb
      _ = percentDecode ('%' :: x :: y :: rest) := by rw [ih, percentDecode_escape hb]
  | cons c rest hc ih =>
    rw [encodeUnless_cons, percentDecode_cons hc, ← ih]
    cases hkept : keep c with
    | true =>
      refine percentDecode_cons fun hpercent => ?_
      exact (hkeep.leadByte?_encodeUnless rest).trans (hc hpercent)
    | false => exact percentDecode_percentChar c _

end KeepsEscapes

theorem isVisible_of_hexValue? (h : (Text.hexValue? c).isSome) : isVisible c = true := by
  have hvisible : 0x20 < c.toNat ∧ c.toNat < 0x7F := by
    rw [Text.hexValue?] at h
    split_ifs at h with hdigit hlower hupper
    · simp only [Char.isDigit, Bool.and_eq_true, decide_eq_true_eq, ge_iff_le,
        UInt32.le_iff_toNat_le] at hdigit
      change 48 ≤ c.toNat ∧ c.toNat ≤ 57 at hdigit
      omega
    · change 97 ≤ c.toNat ∧ c.toNat ≤ 102 at hlower
      omega
    · change 65 ≤ c.toNat ∧ c.toNat ≤ 70 at hupper
      omega
    · exact absurd h Bool.false_ne_true
  simp [isVisible, hvisible]

theorem keepsEscapes_keptInPath : KeepsEscapes keptInPath := by
  have hnot : notInPath.all (fun c => (Text.hexValue? c).isNone) = true := by decide
  rintro c (rfl | hdigit)
  · rfl
  · have hmem : c ∉ notInPath := fun hmem => by
      have hnone := List.all_eq_true.mp hnot c hmem
      rw [Option.isNone_iff_eq_none.mp hnone] at hdigit
      exact Bool.false_ne_true hdigit
    simp [keptInPath, isVisible_of_hexValue? hdigit, hmem]

/-! ## Pieces -/

/-- The byte of a slash. -/
def slashByte : UInt8 := 0x2F

theorem percentDecode_append_slash (cs rest : List Char) :
    percentDecode (cs ++ '/' :: rest) = percentDecode cs ++ slashByte :: percentDecode rest := by
  induction cs using escape_induction with
  | nil => exact percentDecode_cons fun h => absurd h (by decide)
  | escape x y b cs hb ih =>
    calc percentDecode ('%' :: x :: y :: (cs ++ '/' :: rest))
        = b :: percentDecode (cs ++ '/' :: rest) := percentDecode_escape hb
      _ = b :: percentDecode cs ++ slashByte :: percentDecode rest := by
        rw [ih, List.cons_append]
      _ = _ := by rw [percentDecode_escape hb]
  | cons c cs hc ih =>
    rw [percentDecode_cons hc, List.append_assoc, ← ih]
    refine percentDecode_cons fun hpercent => ?_
    cases cs with
    | nil => exact leadByte?_cons '/' rest
    | cons x cs =>
      rw [← hc hpercent, leadByte?_cons]
      refine (leadByte?_cons x _).trans ?_
      cases cs with
      | nil => rfl
      | cons y cs => rfl

theorem read_intercalate {f : List Char → List UInt8} (hnil : f [] = [])
    (hslash : ∀ cs rest, f (cs ++ '/' :: rest) = f cs ++ slashByte :: f rest)
    (ps : List (List Char)) : f (['/'].intercalate ps) = [slashByte].intercalate (ps.map f) := by
  induction ps with
  | nil => exact hnil
  | cons p ps ih =>
    cases ps with
    | nil => simp
    | cons q ps =>
      rw [List.intercalate_cons_cons, List.append_assoc, List.singleton_append, hslash, ih,
        List.map_cons, List.map_cons, List.map_cons, List.intercalate_cons_cons, List.append_assoc,
        List.singleton_append]

theorem percentDecode_intercalate (ps : List (List Char)) :
    percentDecode (['/'].intercalate ps) = [slashByte].intercalate (ps.map percentDecode) :=
  read_intercalate rfl percentDecode_append_slash ps

theorem octets_intercalate (ps : List (List Char)) :
    octets (['/'].intercalate ps) = [slashByte].intercalate (ps.map octets) :=
  read_intercalate rfl (fun cs rest => octets_append cs ('/' :: rest)) ps

/-! ## Forms -/

/-- In a form, a plus sign stands for a space. -/
def spaced (c : Char) : Char := if c = '+' then ' ' else c

/-- A name or value as it is read from a form. -/
def formField (cs : List Char) : List UInt8 := percentDecode (cs.map spaced)

/-- The names and values in a form. Each name ends at the first equals sign. -/
def formPairs (cs : List Char) : List (List UInt8 × List UInt8) :=
  ((cs.splitOn '&').filter (· ≠ [])).map fun piece =>
    (formField (piece.takeWhile (· ≠ '=')), formField ((piece.dropWhile (· ≠ '=')).drop 1))

theorem formEncode_cons (c : Char) (cs : List Char) :
    formEncode (String.ofList (c :: cs)) =
      (if c = ' ' then ['+'] else if keptInForm c then [c] else percentChar c) ++
        formEncode (String.ofList cs) := by
  rw [formEncode, formEncode, String.toList_ofList, String.toList_ofList, List.flatMap_cons]

theorem not_mem_formEncode (hplus : x ≠ '+') (hpercent : x ≠ '%')
    (hdigit : Text.hexValue? x = none) (hkept : keptInForm x = false) (s : String) :
    x ∉ formEncode s := by
  intro hmem
  obtain ⟨c, -, hc⟩ := List.mem_flatMap.mp hmem
  split_ifs at hc with hspace hkeep
  · exact hplus (List.mem_singleton.mp hc)
  · rw [← List.mem_singleton.mp hc, hkept] at hkeep
    exact Bool.false_ne_true hkeep
  · exact not_mem_percentChar hpercent hdigit hc

theorem formField_formEncode (s : String) : formField (formEncode s) = octets s.toList := by
  rw [← String.ofList_toList (s := s), String.toList_ofList]
  induction s.toList with
  | nil => rfl
  | cons c cs ih =>
    rw [formEncode_cons, octets_cons, ← ih, formField, List.map_append]
    split_ifs with hspace hkeep
    · subst hspace
      exact percentDecode_cons fun h => absurd h (by decide)
    · have hplain : spaced c = c := if_neg fun hplus => by
        rw [hplus] at hkeep
        exact absurd hkeep (by decide)
      rw [List.map_singleton, hplain]
      refine percentDecode_cons fun hpercent => ?_
      rw [hpercent] at hkeep
      exact absurd hkeep (by decide)
    · have hplain : ∀ d ∈ percentChar c, spaced d = d := fun d hd =>
        if_neg fun hplus => not_mem_percentChar (by decide) (by decide) (hplus ▸ hd)
      have hmap : (percentChar c).map spaced = percentChar c :=
        (List.map_congr_left hplain).trans (List.map_id' _)
      rw [hmap]
      exact percentDecode_percentChar c _

/-- A name and a value as they are sent. -/
def formPiece (param : String × String) : List Char :=
  formEncode param.1 ++ '=' :: formEncode param.2

theorem takeWhile_append_cons (h : x ∉ cs) : (cs ++ x :: rest).takeWhile (· ≠ x) = cs := by
  have hpos : ∀ c ∈ cs, decide (c ≠ x) = true := fun c hc =>
    decide_eq_true fun e => h (e ▸ hc)
  rw [List.takeWhile_append_of_pos hpos, List.takeWhile_cons_of_neg (by simp), List.append_nil]

theorem dropWhile_append_cons (h : x ∉ cs) :
    (cs ++ x :: rest).dropWhile (· ≠ x) = x :: rest := by
  have hpos : ∀ c ∈ cs, decide (c ≠ x) = true := fun c hc =>
    decide_eq_true fun e => h (e ▸ hc)
  rw [List.dropWhile_append_of_pos hpos, List.dropWhile_cons_of_neg (by simp)]

/-- **A form is read as the names and values that it was made of.** -/
theorem formPairs_formText (params : List (String × String)) :
    formPairs (formText params) = params.map fun p => (octets p.1.toList, octets p.2.toList) := by
  have hand : ∀ s, '&' ∉ formEncode s :=
    not_mem_formEncode (by decide) (by decide) (by decide) (by decide)
  have hequals : ∀ s, '=' ∉ formEncode s :=
    not_mem_formEncode (by decide) (by decide) (by decide) (by decide)
  have hpieces : ((formText params).splitOn '&').filter (· ≠ []) = params.map formPiece := by
    by_cases hnil : params = []
    · subst hnil
      simp [formText]
    · have hsplit : (formText params).splitOn '&' = params.map formPiece := by
        refine List.splitOn_intercalate '&' (fun piece hpiece => ?_) (by simpa using hnil)
        obtain ⟨p, -, rfl⟩ := List.mem_map.mp hpiece
        simp [hand]
      rw [hsplit, List.filter_eq_self]
      intro piece hpiece
      obtain ⟨p, -, rfl⟩ := List.mem_map.mp hpiece
      simp [formPiece]
  rw [formPairs, hpieces, List.map_map]
  refine List.map_congr_left fun p _ => ?_
  rw [Function.comp_apply, formPiece, takeWhile_append_cons (hequals p.1),
    dropWhile_append_cons (hequals p.1), List.drop_one, List.tail_cons, formField_formEncode,
    formField_formEncode]

end ClusterRegistry.Http
