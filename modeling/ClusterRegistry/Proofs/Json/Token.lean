import Mathlib.Data.List.Basic
import ClusterRegistry.Json.Token

/-!
# Reading back tokens

A reader that stands between tokens reads the written form of a token as that token. Behind a number
it has to see the next symbol first, so there it only *holds* the number.

* `Scan.read`: a reader goes over a list of characters;
* `Scan.read_escape`, `Scan.read_string`: strings, character by character;
* `Numeral.Legible`, `Scan.Holds`: numbers, and readers that have seen all of some tokens;
* **`Scan.Holds.read_token`**: one more token, wherever no number follows a number.
-/

namespace ClusterRegistry.Json

/-- A number that is read as it is written. -/
structure Numeral.Legible (n : Numeral) : Prop where
  numeric : ∀ c ∈ n.chars, IsNumeric c
  start : ∃ c rest, n.chars = c :: rest ∧ (c.isDigit ∨ c = '-')
  reads : Numeral.ofChars? n.chars = some n

namespace Scan

variable {s s' : Scan} {back : List Token}

/-- The reader goes over a list of characters. -/
def read (s : Scan) (cs : List Char) : Option Scan := (cs.map some).foldlM step s

@[simp] theorem read_nil : s.read [] = some s := rfl

theorem read_cons (c : Char) (cs : List Char) :
    s.read (c :: cs) = (s.step (some c)).bind (·.read cs) := rfl

theorem read_append (cs ds : List Char) : s.read (cs ++ ds) = (s.read cs).bind (·.read ds) := by
  rw [read, List.map_append, List.foldlM_append]
  rfl

theorem read_append_of_eq {cs : List Char} (h : s.read cs = some s') (ds : List Char) :
    s.read (cs ++ ds) = s'.read ds := by
  rw [read_append, h, Option.bind_some]

/-! ## Strings -/

theorem read_escape (chars : List (Option Nat)) (c : Char) :
    read ⟨back, .string chars⟩ (escape c) = some ⟨back, .string (some c.toNat :: chars)⟩ := by
  unfold escape
  split_ifs with h1 h2 h3 h4 h5 h6 h7 h8
  · subst h1; rfl
  · subst h2; rfl
  · subst h3; rfl
  · subst h4; rfl
  · subst h5; rfl
  · subst h6; rfl
  · subst h7; rfl
  · -- a control character is written as a code unit
    have hhigh := Text.hexValue?_hexDigit (c.toNat / 16) (by omega)
    have hlow := Text.hexValue?_hexDigit (c.toNat % 16) (by omega)
    have hzero : Text.hexValue? '0' = some 0 := by decide
    have hcode : 16 * (c.toNat / 16) + c.toNat % 16 = c.toNat := by omega
    simp [read_cons, step, hhigh, hlow, hzero, hcode]
  · simp [read_cons, step, h1, h2, h8]

theorem read_escapes (chars : List (Option Nat)) (cs : List Char) :
    read ⟨back, .string chars⟩ (cs.flatMap escape) =
      some ⟨back, .string ((cs.map fun c => some c.toNat).reverse ++ chars)⟩ := by
  induction cs generalizing chars with
  | nil => rfl
  | cons c rest ih =>
    rw [List.flatMap_cons, read_append_of_eq (read_escape chars c), ih]
    simp

end Scan

theorem textOfUnits?_map (cs : List Char) :
    textOfUnits? (cs.map fun c => some c.toNat) = some cs := by
  induction cs with
  | nil => rfl
  | cons c rest ih =>
    have hvalid : c.toNat < 0xD800 ∨ 0xDFFF < c.toNat ∧ c.toNat < 0x110000 := c.valid
    have hhigh : ¬ IsHigh c.toNat := by
      unfold IsHigh
      omega
    have hlow : ¬ IsLow c.toNat := by
      unfold IsLow
      omega
    rw [List.map_cons]
    unfold textOfUnits?
    simp [hhigh, hlow, ih, Char.ofNat_toNat]

namespace Scan

variable {s s' : Scan} {back : List Token}

/-- **A string is read back, also one without a text.** -/
theorem read_string (text : Option String) :
    read ⟨back, .between⟩ (Token.string text).chars = some ⟨.string text :: back, .between⟩ := by
  cases text with
  | none => rfl
  | some t =>
    have hstart : step ⟨back, .between⟩ (some '"') = some ⟨back, .string []⟩ := rfl
    rw [Token.chars, List.cons_append, read_cons, hstart, Option.bind_some,
      read_append_of_eq (read_escapes [] t.toList), List.append_nil]
    simp [read_cons, step, textOfUnits?_map]

/-! ## Numbers and all other tokens -/

theorem read_digits {cs : List Char} (h : ∀ c ∈ cs, IsNumeric c) (chars : List Char) :
    read ⟨back, .number chars⟩ cs = some ⟨back, .number (cs.reverse ++ chars)⟩ := by
  induction cs generalizing chars with
  | nil => rfl
  | cons c rest ih =>
    have hc : step ⟨back, .number chars⟩ (some c) = some ⟨back, .number (c :: chars)⟩ :=
      if_pos (h c List.mem_cons_self)
    rw [read_cons, hc, Option.bind_some, ih fun d hd => h d (List.mem_cons_of_mem _ hd)]
    simp

theorem start_of_digit {c : Char} (h : c.isDigit ∨ c = '-') :
    start back c = some ⟨back, .number [c]⟩ := by
  have hne : ∀ d : Char, ¬ (d.isDigit ∨ d = '-') → c ≠ d := by
    rintro d hd rfl
    exact hd h
  have hblank : ¬ IsBlank c := by
    rintro (rfl | rfl | rfl | rfl) <;> exact absurd h (by decide)
  unfold start
  split
  case h_11 => rw [if_neg hblank, if_pos h]
  all_goals exact absurd rfl (hne _ (by decide))

theorem read_number {n : Numeral} (h : n.Legible) :
    read ⟨back, .between⟩ n.chars = some ⟨back, .number n.chars.reverse⟩ := by
  obtain ⟨c, rest, hchars, hc⟩ := h.start
  have hstep : step ⟨back, .between⟩ (some c) = some ⟨back, .number [c]⟩ := start_of_digit hc
  have hrest : ∀ d ∈ rest, IsNumeric d := fun d hd =>
    h.numeric d (hchars ▸ List.mem_cons_of_mem c hd)
  rw [hchars, read_cons, hstep, Option.bind_some, read_digits hrest, List.reverse_cons]

/-- The reader has seen all of the tokens `back`, the last one first. It may still be inside a
number that could go on. -/
inductive Holds : Scan → List Token → Prop
  | between (back : List Token) : Holds ⟨back, .between⟩ back
  | number {n : Numeral} (legible : n.Legible) (back : List Token) :
      Holds ⟨back, .number n.chars.reverse⟩ (.number n :: back)

theorem Holds.read_cons_eq (h : Holds s back) {c : Char} (hc : ¬ IsNumeric c) (cs : List Char) :
    s.read (c :: cs) = read ⟨back, .between⟩ (c :: cs) := by
  cases h with
  | between => rfl
  | @number n legible back =>
    have hstep : step ⟨back, .number n.chars.reverse⟩ (some c) =
        step ⟨.number n :: back, .between⟩ (some c) := by
      simp only [step, if_neg hc, List.reverse_reverse, legible.reads]
      rfl
    rw [read_cons, read_cons, hstep]

/-- **A token that is no number is read back wherever it stands.** -/
theorem Holds.read_token (h : Holds s back) {t : Token} (ht : ∀ n, t ≠ .number n) :
    s.read t.chars = some ⟨t :: back, .between⟩ := by
  cases t with
  | number n => exact absurd rfl (ht n)
  | string text =>
    have hquote : ∃ rest, (Token.string text).chars = '"' :: rest := by
      cases text <;> exact ⟨_, rfl⟩
    obtain ⟨rest, hrest⟩ := hquote
    rw [hrest, h.read_cons_eq (by decide), ← hrest, read_string]
  | bool b => cases b <;> exact (h.read_cons_eq (by decide) _).trans rfl
  | _ => exact (h.read_cons_eq (by decide) _).trans rfl

theorem Holds.finish (h : Holds s back) : s.finish = some back.reverse := by
  cases h with
  | between => rfl
  | @number n legible back =>
    simp only [Scan.finish, List.reverse_reverse, legible.reads]
    rfl

end Scan

end ClusterRegistry.Json
