import ClusterRegistry.Proofs.Path

/-!
# Relative paths

Below a key, paths are written relative to it: the remaining segments with slashes between, and no
slash in front.

* `Path.spell`: segments with slashes between;
* **`Path.relativeTo_render`**: the part of a canonical path below another one;
* `Path.relativeTo_of_slashes`: a canonical path below the root;
* `Path.lastSegment_spell`: the last segment of a relative path.
-/

namespace ClusterRegistry.Path

/-- The characters of segments with slashes between. -/
def spellChars (segs : List Segment) : List Char := ['/'].intercalate (segs.map (·.text.toList))

/-- Segments with slashes between. -/
def spell (segs : List Segment) : String := String.ofList (spellChars segs)

theorem renderChars_eq (segs : List Segment) : renderChars segs = '/' :: spellChars segs := rfl

theorem render_eq (segs : List Segment) : render segs = "/" ++ spell segs := by
  rw [render, renderChars_eq, spell, String.ofList_cons]
  rfl

/-! ## Characters -/

theorem renderChars_cons (s : Segment) {segs : List Segment} (h : segs ≠ []) :
    renderChars (s :: segs) = '/' :: s.text.toList ++ renderChars segs := by
  obtain ⟨t, rest, rfl⟩ := List.exists_cons_of_ne_nil h
  simp [renderChars]

theorem renderChars_append {base rest : List Segment} (hbase : base ≠ []) (hrest : rest ≠ []) :
    renderChars (base ++ rest) = renderChars base ++ renderChars rest := by
  induction base with
  | nil => exact absurd rfl hbase
  | cons s base ih =>
    by_cases h : base = []
    · subst h
      rw [List.singleton_append, renderChars_cons s hrest]
      simp [renderChars]
    · rw [List.cons_append, renderChars_cons s (by simp [hrest]), renderChars_cons s h, ih h,
        List.append_assoc]

theorem trimStart_renderChars (segs : List Segment) :
    trimStart (renderChars segs) = spellChars segs := by
  rw [renderChars_eq, trimStart, List.dropWhile_cons_of_pos (by simp)]
  cases segs with
  | nil => rfl
  | cons s rest =>
    obtain ⟨c, cs, hchars⟩ := List.exists_cons_of_ne_nil s.nonempty
    have hc : c ≠ '/' := fun e => s.slashless (hchars ▸ e ▸ List.mem_cons_self)
    have hhead : ∃ more, spellChars (s :: rest) = c :: more := by
      cases rest with
      | nil => exact ⟨cs, by simp [spellChars, hchars]⟩
      | cons t rest => exact ⟨_, by simp [spellChars, hchars]; rfl⟩
    obtain ⟨more, hmore⟩ := hhead
    rw [hmore, List.dropWhile_cons_of_neg (by simpa using hc)]

theorem trimEnd_renderChars {segs : List Segment} (h : segs ≠ []) :
    trimEnd (renderChars segs) = renderChars segs := by
  obtain ⟨above, s, rfl⟩ := (List.eq_nil_or_concat segs).resolve_left h
  rw [List.concat_eq_append]
  obtain ⟨front, hfront⟩ := renderChars_append_singleton above s
  obtain ⟨c, cs, hchars⟩ := List.exists_cons_of_ne_nil (mt List.reverse_eq_nil_iff.mp s.nonempty)
  have hc : c ≠ '/' := fun e =>
    s.slashless (List.mem_reverse.mp (hchars ▸ e ▸ List.mem_cons_self))
  rw [hfront, trimEnd, List.reverse_append, List.reverse_cons, hchars, List.append_assoc,
    List.cons_append, List.dropWhile_cons_of_neg (by simpa using hc), ← List.cons_append, ← hchars,
    ← List.append_assoc, ← List.reverse_cons, ← List.reverse_append, List.reverse_reverse]

/-! ## Relative paths -/

theorem relativeTo_of_slashes {root : String} (h : trimEnd root.toList = []) (segs : List Segment) :
    relativeTo root (render segs) = spell segs := by
  have hstart : String.ofList (trimStart (render segs).toList) = spell segs := by
    rw [render, String.toList_ofList, trimStart_renderChars, spell]
  unfold relativeTo
  dsimp only
  rw [h]
  split_ifs <;> exact hstart

/-- **Below a canonical path, the rest of a canonical path is written without a slash in front.** -/
theorem relativeTo_render (base : List Segment) {rest : List Segment} (h : rest ≠ []) :
    relativeTo (render base) (render (base ++ rest)) = spell rest := by
  by_cases hbase : base = []
  · subst hbase
    exact relativeTo_of_slashes (by decide) rest
  · have hchars := renderChars_append hbase h
    unfold relativeTo
    dsimp only
    rw [render, render, String.toList_ofList, String.toList_ofList, trimEnd_renderChars hbase,
      hchars, List.drop_left, if_pos, trimStart_renderChars, spell]
    exact ⟨by simp, .inr rfl⟩

/-! ## Last segments -/

theorem lastSegment_slash (cs : List Char) :
    lastSegment (String.ofList ('/' :: cs)) = lastSegment (String.ofList cs) := by
  have hend : ∀ l : List Char, ((l ++ ['/']).dropWhile (· = '/')).takeWhile (· ≠ '/') =
      (l.dropWhile (· = '/')).takeWhile (· ≠ '/') := by
    intro l
    induction l with
    | nil => rfl
    | cons c rest ih =>
      by_cases hc : c = '/'
      · simpa [hc] using ih
      · have hcons : ((c :: rest) ++ ['/']).dropWhile (· = '/') = (c :: rest) ++ ['/'] :=
          List.dropWhile_cons_of_neg (by simpa using hc)
        rw [hcons, List.dropWhile_cons_of_neg (by simpa using hc), List.takeWhile_append]
        split_ifs with hall
        · rw [(List.takeWhile_prefix _).eq_of_length hall]
          exact List.append_nil _
        · rfl
  rw [lastSegment, lastSegment, String.toList_ofList, String.toList_ofList, List.reverse_cons, hend]

theorem lastSegment_spell (segs : List Segment) (s : Segment) :
    lastSegment (spell (segs ++ [s])) = s.text := by
  rw [spell, ← lastSegment_slash, ← renderChars_eq]
  exact lastSegment_render segs s

end ClusterRegistry.Path
