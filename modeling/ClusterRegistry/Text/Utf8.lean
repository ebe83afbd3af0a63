/-!
# UTF-8

* `Text.firstChar?`: the character that bytes start with, and the number of its bytes;
* `Text.symbolsOfBytes`: the characters of a body; a byte that belongs to none is a symbol without a
  character, and reading goes on behind it.
-/

namespace ClusterRegistry.Text

/-- A byte that continues a character. -/
def IsTail (b : UInt8) : Prop := 0x80 ≤ b ∧ b < 0xC0

instance (b : UInt8) : Decidable (IsTail b) := by unfold IsTail; infer_instance

/-- The character that bytes start with, in its shortest form, and the number of its bytes. -/
def firstChar? : List UInt8 → Option (Char × Nat)
  | [] => none
  | a :: r =>
    let bits (b : UInt8) : Nat := b.toNat % 64
    if a < 0x80 then some (Char.ofNat a.toNat, 1)
    else if 0xC2 ≤ a ∧ a < 0xE0 then
      match r with
      | b :: _ =>
        if IsTail b then some (Char.ofNat (a.toNat % 32 * 64 + bits b), 2) else none
      | _ => none
    else if 0xE0 ≤ a ∧ a < 0xF0 then
      match r with
      | b :: c :: _ =>
        if IsTail b ∧ IsTail c ∧ (a = 0xE0 → 0xA0 ≤ b) ∧ (a = 0xED → b < 0xA0) then
          some (Char.ofNat ((a.toNat % 16 * 64 + bits b) * 64 + bits c), 3)
        else none
      | _ => none
    else if 0xF0 ≤ a ∧ a < 0xF5 then
      match r with
      | b :: c :: d :: _ =>
        if IsTail b ∧ IsTail c ∧ IsTail d ∧ (a = 0xF0 → 0x90 ≤ b) ∧ (a = 0xF4 → b < 0x90) then
          some (Char.ofNat (((a.toNat % 8 * 64 + bits b) * 64 + bits c) * 64 + bits d), 4)
        else none
      | _ => none
    else none

/-- The characters of a body behind the next `skip` bytes. -/
def symbolsAfter : Nat → List UInt8 → List (Option Char)
  | _, [] => []
  | skip + 1, _ :: r => symbolsAfter skip r
  | 0, a :: r =>
    match firstChar? (a :: r) with
    | some (c, n) => some c :: symbolsAfter (n - 1) r
    | none => none :: symbolsAfter 0 r

/-- The characters of a body. -/
def symbolsOfBytes (bytes : List UInt8) : List (Option Char) := symbolsAfter 0 bytes

end ClusterRegistry.Text
