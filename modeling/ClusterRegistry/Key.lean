import ClusterRegistry.Path

/-!
# Keys

A key is a place in the store: the list of segments that lead to it from the root. Keys are listed
in the order of their texts, so `/a-b` comes before `/a/b`, and every key before those below it.

* `Key.ofPath`, `Key.text`: from any spelling of a path, and to the canonical one;
* `Key.ancestors`, `Key.IsBelow`, `Key.IsChildOf`: the hierarchy;
* **`Key.ofPath_text`**: the text tells keys apart, hence the order is a linear one.
-/

namespace ClusterRegistry

/-- A place in the store, as the segments that lead to it. -/
structure Key where
  segments : List Segment
deriving DecidableEq

namespace Key

/-- The place that holds all others. -/
def root : Key := ⟨[]⟩

/-- The key that a path names. -/
def ofPath (path : String) : Key := ⟨Path.segments path⟩

/-- The canonical path of a key. -/
def text (k : Key) : String := Path.render k.segments

theorem ofPath_text (k : Key) : ofPath k.text = k := by
  simp [ofPath, text, Path.segments_render]

theorem text_injective {k l : Key} (h : k.text = l.text) : k = l := by
  rw [← ofPath_text k, h, ofPath_text]

/-! ## Order -/

instance : Ord Key := ⟨compareOn text⟩

instance : Std.TransOrd Key := inferInstanceAs (Std.TransCmp (compareOn text))

instance : Std.LawfulEqOrd Key where
  eq_of_compare h := text_injective (Std.LawfulEqOrd.eq_of_compare (α := String) h)

/-! ## Hierarchy -/

/-- The keys between the root and `k`, both left out, from the top down. -/
def ancestors (k : Key) : List Key :=
  (List.range (k.segments.length - 1)).map fun i => ⟨k.segments.take (i + 1)⟩

/-- `k` lies somewhere below `l`. -/
def IsBelow (k l : Key) : Prop := l.segments <+: k.segments ∧ k ≠ l

instance (k l : Key) : Decidable (k.IsBelow l) := by unfold IsBelow; infer_instance

/-- `k` is `l` or lies below it. -/
def IsWithin (k l : Key) : Prop := l.segments <+: k.segments

instance (k l : Key) : Decidable (k.IsWithin l) := by unfold IsWithin; infer_instance

/-- `k` lies directly below `l`. -/
def IsChildOf (k l : Key) : Prop := k ≠ root ∧ k.segments.dropLast = l.segments

instance (k l : Key) : Decidable (k.IsChildOf l) := by unfold IsChildOf; infer_instance

end Key

end ClusterRegistry
