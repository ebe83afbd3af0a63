import Mathlib.Data.List.Induction
import ClusterRegistry.Key

/-!
# Joined paths

However two paths are spelled, joining them puts the segments of the one behind those of the other.

* `Path.pieces`: the segments in a list of characters;
* `Path.pieces_trimStart`, `Path.pieces_trimEnd`: slashes at the ends make no segments;
* **`Path.segments_join`**, `Key.segments_ofPath_join`: the segments of a joined path;
* `Path.segments_eq_singleton`, `Path.segments_empty`: a text without slashes;
* `Path.lastSegment_render`: the last segment of a canonical path.
-/

namespace ClusterRegistry

theorem Segment.ext_text {s t : Segment} (h : s.text = t.text) : s = t := by
  cases s
  cases t
  cases h
  rfl

namespace Path

/-- The segments in a list of characters. -/
def pieces (cs : List Char) : List Segment := (cs.splitOn '/').filterMap Segment.ofChars?

theorem segments_eq_pieces (path : String) : segments path = pieces path.toList := rfl

theorem pieces_nil : pieces [] = [] := by simp [pieces, Segment.ofChars?_nil]

theorem pieces_append_slash (a b : List Char) : pieces (a ++ '/' :: b) = pieces a ++ pieces b := by
  rw [pieces, List.splitOn_append_cons_self, List.filterMap_append]
  rfl

theorem pieces_slash (cs : List Char) : pieces ('/' :: cs) = pieces cs := by
  have h := pieces_append_slash [] cs
  rwa [pieces_nil, List.nil_append, List.nil_append] at h

theorem pieces_trimStart (cs : List Char) : pieces (trimStart cs) = pieces cs := by
  induction cs with
  | nil => rfl
  | cons c rest ih =>
    by_cases hc : c = '/'
    · subst hc
      rw [pieces_slash, ← ih]
      simp [trimStart]
    · simp [trimStart, hc]

theorem pieces_trimEnd (cs : List Char) : pieces (trimEnd cs) = pieces cs := by
  induction cs using List.reverseRecOn with
  | nil => rfl
  | append_singleton rest c ih =>
    by_cases hc : c = '/'
    · subst hc
      rw [pieces_append_slash, pieces_nil, List.append_nil, ← ih]
      simp [trimEnd]
    · simp [trimEnd, hc]

/-- **A joined path has the segments of both paths, in order.** -/
theorem segments_join (parent key : String) :
    segments (join parent key) = segments parent ++ segments key := by
  have habove := pieces_trimEnd parent.toList
  have hbelow : pieces (trimEnd (trimStart key.toList)) = pieces key.toList := by
    rw [pieces_trimEnd, pieces_trimStart]
  simp only [segments_eq_pieces, ← habove, ← hbelow]
  unfold join
  dsimp only
  split_ifs with h h'
  · rw [h, h', pieces_nil]
    decide
  · rw [h, pieces_nil, List.append_nil, String.toList_ofList]
  · rw [String.toList_ofList, pieces_append_slash]

/-! ## Texts without slashes -/

theorem segments_eq_singleton (s : Segment) : segments s.text = [s] := by
  rw [segments, List.splitOn_eq_singleton s.slashless]
  simp [Segment.ofChars?_toList]

theorem segments_empty : segments "" = [] := pieces_nil

/-! ## Last segments -/

theorem renderChars_append_singleton (segs : List Segment) (s : Segment) :
    ∃ above, renderChars (segs ++ [s]) = above ++ '/' :: s.text.toList := by
  induction segs with
  | nil => exact ⟨[], by simp [renderChars]⟩
  | cons first rest ih =>
    obtain ⟨above, habove⟩ := ih
    refine ⟨'/' :: first.text.toList ++ above, ?_⟩
    have hstep : renderChars (first :: (rest ++ [s])) =
        '/' :: first.text.toList ++ renderChars (rest ++ [s]) := by
      cases h : rest ++ [s] with
      | nil => simp at h
      | cons next more => simp [renderChars]
    rw [List.cons_append, hstep, habove, List.append_assoc]

theorem lastSegment_render (segs : List Segment) (s : Segment) :
    lastSegment (render (segs ++ [s])) = s.text := by
  obtain ⟨above, habove⟩ := renderChars_append_singleton segs s
  obtain ⟨c, rest, hchars⟩ := List.exists_cons_of_ne_nil
    (mt List.reverse_eq_nil_iff.mp s.nonempty)
  have hslashless : ∀ c ∈ s.text.toList.reverse, c ≠ '/' := fun c hc e =>
    s.slashless (e ▸ List.mem_reverse.mp hc)
  have hdrop : (s.text.toList.reverse ++ '/' :: above.reverse).dropWhile (· = '/') =
      s.text.toList.reverse ++ '/' :: above.reverse := by
    rw [hchars, List.cons_append, List.dropWhile_cons_of_neg]
    have hc := hslashless c (hchars ▸ List.mem_cons_self)
    simpa using hc
  have htake : (s.text.toList.reverse ++ '/' :: above.reverse).takeWhile (· ≠ '/') =
      s.text.toList.reverse := by
    rw [List.takeWhile_append_of_pos (by simpa using hslashless), List.takeWhile_cons_of_neg (by simp),
      List.append_nil]
  rw [lastSegment, render, String.toList_ofList, habove, List.reverse_append, List.reverse_cons,
    List.append_assoc, List.singleton_append, hdrop, htake, List.reverse_reverse,
    String.ofList_toList]

end Path

namespace Key

theorem segments_ofPath_join (parent key : String) :
    (ofPath (Path.join parent key)).segments = Path.segments parent ++ Path.segments key :=
  Path.segments_join parent key

end Key

end ClusterRegistry
