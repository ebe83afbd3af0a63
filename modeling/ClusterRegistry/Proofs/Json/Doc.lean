import ClusterRegistry.Json.Doc
import ClusterRegistry.Proofs.Json.Token

/-!
# Reading back documents

The compact text of a document is read as that document, with every field in its place.

* `Doc.Legible`: a document whose numbers are read as they are written;
* `Scan.Takes`, `Doc.takes_tokens`: from characters to tokens;
* `Doc.assemble_tokens`: from tokens to documents;
* **`Doc.ofText?_text`**: what is written is read back.
-/

namespace ClusterRegistry.Json

mutual

/-- All numbers in the document are read as they are written. -/
def Doc.Legible : Doc → Prop
  | .number n => n.Legible
  | .array items => Doc.ItemsLegible items
  | .object fields => Doc.FieldsLegible fields
  | .null | .bool _ | .string _ => True

def Doc.ItemsLegible : List Doc → Prop
  | [] => True
  | d :: r => d.Legible ∧ Doc.ItemsLegible r

def Doc.FieldsLegible : List (Option String × Doc) → Prop
  | [] => True
  | (_, d) :: r => d.Legible ∧ Doc.FieldsLegible r

end

/-! ## From characters to tokens -/

namespace Scan

/-- A reader between tokens reads the written form of these tokens as the tokens. -/
def Takes (ts : List Token) : Prop :=
  ∀ back, ∃ s, read ⟨back, .between⟩ (ts.flatMap Token.chars) = some s ∧ s.Holds (ts.reverse ++ back)

theorem Takes.nil : Takes [] := fun back => ⟨_, rfl, .between back⟩

theorem Takes.number {n : Numeral} (h : n.Legible) : Takes [.number n] := by
  intro back
  have hchars : [Token.number n].flatMap Token.chars = n.chars := by simp [Token.chars]
  exact ⟨_, by rw [hchars, read_number h], .number h back⟩

theorem Takes.append_cons {ts us : List Token} (h : Takes ts) {t : Token}
    (ht : ∀ n, t ≠ .number n) (h' : Takes us) : Takes (ts ++ t :: us) := by
  intro back
  obtain ⟨s, hs, hheld⟩ := h back
  obtain ⟨s', hs', hheld'⟩ := h' (t :: (ts.reverse ++ back))
  refine ⟨s', ?_, ?_⟩
  · rw [List.flatMap_append, List.flatMap_cons, read_append_of_eq hs,
      read_append_of_eq (hheld.read_token ht), hs']
  · simpa using hheld'

theorem Takes.cons {ts : List Token} {t : Token} (ht : ∀ n, t ≠ .number n) (h : Takes ts) :
    Takes (t :: ts) := Takes.nil.append_cons ht h

theorem Takes.tokens? {ts : List Token} (h : Takes ts) :
    tokens? ((ts.flatMap Token.chars).map some) = some ts := by
  obtain ⟨s, hs, hheld⟩ := h []
  have hfold : ((ts.flatMap Token.chars).map some).foldlM step ⟨[], .between⟩ = some s := hs
  rw [Json.tokens?, hfold]
  simpa using hheld.finish

end Scan

namespace Doc

open Scan

mutual

theorem takes_tokens : ∀ d : Doc, d.Legible → Takes d.tokens
  | .null, _ => .cons (by simp) .nil
  | .bool _, _ => .cons (by simp) .nil
  | .string _, _ => .cons (by simp) .nil
  | .number _, h => .number h
  | .array items, h => .cons (by simp) ((takes_itemTokens items h).append_cons (by simp) .nil)
  | .object fields, h => .cons (by simp) ((takes_fieldTokens fields h).append_cons (by simp) .nil)

theorem takes_itemTokens : ∀ items : List Doc, ItemsLegible items → Takes (itemTokens items)
  | [], _ => .nil
  | [d], h => takes_tokens d h.1
  | d :: d' :: r, h => (takes_tokens d h.1).append_cons (by simp) (takes_itemTokens (d' :: r) h.2)

theorem takes_fieldTokens : ∀ fields : List (Option String × Doc), FieldsLegible fields →
    Takes (fieldTokens fields)
  | [], _ => .nil
  | [(_, d)], h => .cons (by simp) (.cons (by simp) (takes_tokens d h.1))
  | (_, d) :: f :: r, h => .cons (by simp) (.cons (by simp)
      ((takes_tokens d h.1).append_cons (by simp) (takes_fieldTokens (f :: r) h.2)))

end

/-! ## From tokens to documents -/

/-- The parts that tokens make, from some state of the assembly on. -/
def assemble (a : Assembly) (ts : List Token) : Option Assembly := ts.foldlM Assembly.step a

theorem assemble_append_of_eq {a a' : Assembly} {ts : List Token} (h : assemble a ts = some a')
    (us : List Token) : assemble a (ts ++ us) = assemble a' us := by
  rw [assemble, List.foldlM_append]
  exact congrArg (Option.bind · _) h

theorem assemble_firstItem (d : Doc) (r : List Doc) (stack : List Frame) (ts : List Token) :
    assemble (.firstItem stack) (itemTokens (d :: r) ++ ts) =
      assemble (.value (.array [] :: stack)) (itemTokens (d :: r) ++ ts) := by
  cases r <;> cases d <;> rfl

theorem assemble_firstName (f : Option String × Doc) (r : List (Option String × Doc))
    (stack : List Frame) (ts : List Token) :
    assemble (.firstName stack) (fieldTokens (f :: r) ++ ts) =
      assemble (.nextName [] stack) (fieldTokens (f :: r) ++ ts) := by
  cases r <;> rfl

mutual

theorem assemble_tokens : ∀ (d : Doc) (stack : List Frame),
    assemble (.value stack) d.tokens = some (.complete d stack)
  | .null, _ => rfl
  | .bool _, _ => rfl
  | .number _, _ => rfl
  | .string _, _ => rfl
  | .array [], _ => rfl
  | .array (d :: r), stack =>
    (assemble_firstItem d r stack _).trans (assemble_items (d :: r) (by simp) [] stack)
  | .object [], _ => rfl
  | .object (f :: r), stack =>
    (assemble_firstName f r stack _).trans (assemble_fields (f :: r) (by simp) [] stack)

theorem assemble_items : ∀ items : List Doc, items ≠ [] → ∀ (back : List Doc) (stack : List Frame),
    assemble (.value (.array back :: stack)) (itemTokens items ++ [.closeArray]) =
      some (.complete (.array (back.reverse ++ items)) stack)
  | [], h, _, _ => absurd rfl h
  | [d], _, back, stack => by
    rw [itemTokens, assemble_append_of_eq (assemble_tokens d (.array back :: stack))]
    simp [assemble, Assembly.step]
  | d :: d' :: r, _, back, stack => by
    have h := assemble_items (d' :: r) (by simp) (d :: back) stack
    rw [List.reverse_cons, List.append_assoc, List.singleton_append] at h
    rw [itemTokens, List.append_assoc, assemble_append_of_eq (assemble_tokens d _)]
    exact h

theorem assemble_fields : ∀ fields : List (Option String × Doc), fields ≠ [] →
    ∀ (back : List (Option String × Doc)) (stack : List Frame),
    assemble (.nextName back stack) (fieldTokens fields ++ [.closeObject]) =
      some (.complete (.object (back.reverse ++ fields)) stack)
  | [], h, _, _ => absurd rfl h
  | [(name, d)], _, back, stack => by
    rw [fieldTokens, List.cons_append, List.cons_append]
    change assemble (.value (.object back name :: stack)) (d.tokens ++ [.closeObject]) = _
    rw [assemble_append_of_eq (assemble_tokens d _)]
    simp [assemble, Assembly.step]
  | (name, d) :: f :: r, _, back, stack => by
    have h := assemble_fields (f :: r) (by simp) ((name, d) :: back) stack
    rw [List.reverse_cons, List.append_assoc, List.singleton_append] at h
    rw [fieldTokens, List.cons_append, List.cons_append, List.append_assoc]
    change assemble (.value (.object back name :: stack)) (d.tokens ++ _) = _
    rw [assemble_append_of_eq (assemble_tokens d _)]
    exact h

end

/-- **What is written is read back.** -/
theorem ofText?_text {d : Doc} (h : d.Legible) : ofText? d.text = some d := by
  have hbuild := assemble_tokens d []
  rw [assemble] at hbuild
  rw [ofText?, text, String.toList_ofList, ofSymbols?, (takes_tokens d h).tokens?]
  simp only [Option.bind_eq_bind, Option.bind_some, ofTokens?, hbuild]
  rfl

end Doc

end ClusterRegistry.Json
