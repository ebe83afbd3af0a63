import Mathlib.Data.List.DropRight
import ClusterRegistry.Proofs.Relative

/-!
# Paths told from their segments

A path may be spelled in many ways. Whatever is done with it can be told from its segments.

* `Path.canonical_eq_iff`: the canonical spelling stands for the segments;
* **`Path.lastSegment_eq`**: what stands behind the last slash is the last segment;
* `Path.relativeTo_canonical_join`, `Path.slash_relativeTo_of_outside`: a path seen from above, and
  one seen from elsewhere;
* **`Path.consistent`**: joining, normalising, taking the last segment and seeing a path from another
  one fit together.
-/

namespace ClusterRegistry.Path

/-! ## Canonical spellings -/

theorem segments_canonical (path : String) : segments (canonical path) = segments path :=
  segments_render (segments path)

theorem canonical_eq_iff {path other : String} :
    canonical path = canonical other ↔ segments path = segments other := by
  constructor
  · intro h
    rw [← segments_canonical path, h, segments_canonical]
  · intro h
    rw [canonical, h, canonical]

theorem spell_eq_intercalate (segs : List Segment) :
    spell segs = "/".intercalate (segs.map (·.text)) := by
  apply String.toList_injective
  rw [spell, String.toList_ofList, String.toList_intercalate, spellChars, List.map_map]
  rfl

/-! ## Last segments -/

theorem pieces_slashless {cs : List Char} (hne : cs ≠ []) (h : '/' ∉ cs) :
    pieces cs = [⟨String.ofList cs, by simpa using hne, by simpa using h⟩] := by
  have hchars : pieces cs = pieces (String.ofList cs).toList := by rw [String.toList_ofList]
  exact hchars.trans (segments_eq_singleton ⟨String.ofList cs, by simpa using hne, by simpa using h⟩)

theorem exists_pieces_above (cs : List Char) :
    ∃ above, pieces cs = above ++ pieces (cs.rtakeWhile (· ≠ '/')) := by
  have hsplit := List.rdropWhile_append_rtakeWhile (p := (· ≠ '/')) (l := cs)
  by_cases hfront : cs.rdropWhile (· ≠ '/') = []
  · refine ⟨[], ?_⟩
    rw [hfront, List.nil_append] at hsplit
    rw [hsplit, List.nil_append]
  · -- the front ends with a slash, which belongs to no segment
    have hslash : (cs.rdropWhile (· ≠ '/')).getLast hfront = '/' := by
      simpa using List.rdropWhile_last_not _ _ hfront
    have hend := List.dropLast_append_getLast hfront
    rw [hslash] at hend
    refine ⟨pieces (cs.rdropWhile (· ≠ '/')).dropLast, ?_⟩
    rw [← pieces_append_slash, List.append_cons, hend, hsplit]

/-- **What stands behind the last slash, slashes at the end aside, is the last segment.** -/
theorem lastSegment_eq (path : String) :
    lastSegment path = ((segments path).getLast?.map (·.text)).getD "" := by
  have htake : lastSegment path =
      String.ofList ((trimEnd path.toList).rtakeWhile (· ≠ '/')) := by
    rw [lastSegment, List.rtakeWhile, trimEnd, List.reverse_reverse]
  rw [htake, segments_eq_pieces, ← pieces_trimEnd]
  by_cases hnil : trimEnd path.toList = []
  · rw [hnil, pieces_nil]
    rfl
  · have hend : (trimEnd path.toList).getLast hnil ≠ '/' := fun h =>
      List.rdropWhile_last_not (· = '/') path.toList hnil (decide_eq_true h)
    have hne : (trimEnd path.toList).rtakeWhile (· ≠ '/') ≠ [] := by
      rw [Ne, List.rtakeWhile_eq_nil_iff]
      intro h
      exact h hnil (by simpa using hend)
    have hslashless : '/' ∉ (trimEnd path.toList).rtakeWhile (· ≠ '/') := fun h => by
      simpa using List.mem_rtakeWhile_imp h
    obtain ⟨above, habove⟩ := exists_pieces_above (trimEnd path.toList)
    rw [habove, pieces_slashless hne hslashless, List.getLast?_concat]
    rfl

/-! ## Paths seen from other paths -/

theorem relativeTo_render_self (segs : List Segment) : relativeTo (render segs) (render segs) = "" := by
  by_cases h : segs = []
  · subst h
    exact relativeTo_of_slashes (by decide) []
  · unfold relativeTo
    dsimp only
    rw [render, String.toList_ofList, trimEnd_renderChars h, List.drop_length, if_pos]
    · rfl
    · exact ⟨by simp, .inl rfl⟩

/-- A joined path, seen from where it starts, is the path that was put behind. -/
theorem relativeTo_canonical_join (path key : String) :
    relativeTo (canonical path) (canonical (join path key)) = spell (segments key) := by
  rw [canonical, canonical, segments_join]
  by_cases h : segments key = []
  · rw [h, List.append_nil, relativeTo_render_self]
    rfl
  · exact relativeTo_render (segments path) h

/-- A path that does not lie below another one keeps all of its segments when it is seen from
there. -/
theorem slash_relativeTo_of_outside {root full : String} (hroot : canonical root = root)
    (hfull : canonical full = full) (hne : full ≠ root) (hout : ∀ rest, full ≠ root ++ "/" ++ rest) :
    "/" ++ relativeTo root full = full := by
  suffices h : relativeTo root full = spell (segments full) by
    rw [h, ← render_eq]
    exact hfull
  by_cases hsegs : segments root = []
  · have hslash : root = "/" := by
      rw [← hroot, canonical, hsegs]
      decide
    rw [hslash, ← hfull, canonical, relativeTo_of_slashes (by decide), segments_render]
  · have htrim : trimEnd root.toList = root.toList := by
      rw [← hroot, canonical, render, String.toList_ofList, trimEnd_renderChars hsegs]
    -- the text of the root may still be the start of a longer name
    have hnot : ¬(root.toList.isPrefixOf full.toList ∧
        (full.toList.drop root.toList.length = [] ∨
          (full.toList.drop root.toList.length).head? = some '/')) := by
      rintro ⟨hstart, hrest⟩
      obtain ⟨rest, happend⟩ := List.isPrefixOf_iff_prefix.mp hstart
      rw [← happend, List.drop_left] at hrest
      rcases hrest with rfl | hslash
      · apply hne
        rw [← String.toList_inj, ← happend, List.append_nil]
      · obtain ⟨rest, rfl⟩ := List.head?_eq_some_iff.mp hslash
        apply hout (String.ofList rest)
        rw [← String.toList_inj, ← happend]
        simp
    unfold relativeTo
    dsimp only
    rw [htrim, if_neg hnot]
    rw [← hfull, canonical, segments_render, render, String.toList_ofList, trimStart_renderChars,
      spell]

/-- **The operations on paths fit together.** Joining puts segments one behind the other.
Normalising can be repeated without effect and tells apart just the paths with different segments.
The last segment is the last of the segments. Seen from where it was joined, a path is the one that
was put behind; seen from a path that it neither is nor goes on from, a canonical path only loses the
slash in front. -/
theorem consistent (path key : String) :
    segments (join path key) = segments path ++ segments key ∧
      canonical (canonical path) = canonical path ∧
      (canonical path = canonical key ↔ segments path = segments key) ∧
      lastSegment path = ((segments path).getLast?.map (·.text)).getD "" ∧
      relativeTo (canonical path) (canonical (join path key)) =
        "/".intercalate ((segments key).map (·.text)) ∧
      ∀ root full, canonical root = root → canonical full = full → full ≠ root →
        (∀ rest, full ≠ root ++ "/" ++ rest) → "/" ++ relativeTo root full = full := by
  refine ⟨segments_join path key, canonical_canonical path, canonical_eq_iff, lastSegment_eq path,
    ?_, fun root full => slash_relativeTo_of_outside⟩
  rw [relativeTo_canonical_join, spell_eq_intercalate]

/-- A name that goes on behind the last one of the root does not lie below it. -/
theorem consistent_common_start :
    lastSegment "//config/_global//" = "_global" ∧
      relativeTo "/config" (canonical (join "config//" "/nginx/port/")) = "nginx/port" ∧
      "/" ++ relativeTo "/config" "/configuration/x" = "/configuration/x" := by
  have hroot : canonical "/config" = "/config" := by decide
  obtain ⟨-, -, -, hlast, -, -⟩ := consistent "//config/_global//" ""
  obtain ⟨-, -, -, -, hbelow, hout⟩ := consistent "config//" "/nginx/port/"
  refine ⟨hlast.trans (by decide), ?_, ?_⟩
  · rw [show canonical "config//" = "/config" by decide] at hbelow
    exact hbelow.trans (by decide)
  · refine hout "/config" "/configuration/x" hroot (by decide) (by decide) fun rest h => ?_
    have hchars := congrArg (fun s => s.toList.take 8) h
    simp at hchars

end ClusterRegistry.Path
