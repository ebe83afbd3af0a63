import Mathlib.Data.String.Basic
import ClusterRegistry.Proofs.Relative
import ClusterRegistry.Proofs.Store.Walk

/-!
# Scans

The texts of all keys below a key begin with the text of the key and a slash. In the order of the
texts these keys stand together, so that a scan which begins there and stops at the first other text
finds them all. A neighbour such as `/a-b` of `/a` stands outside.

* `Key.lead`, `Key.text_append`: what the texts of the keys below a key begin with;
* `Key.isBelow_iff_lead`, `Key.isChildOf_iff_lead`: the hierarchy, read off the texts;
* `Contents.scan`, **`Contents.scan_eq_filter`**: a scan finds all texts that begin alike;
* **`Store.InOrder.scan_below`**, **`Store.InOrder.scan_children`**: what lies below a key, and its
  children, found by a scan.
-/

namespace ClusterRegistry

/-! ## Texts of keys -/

theorem Path.slash_notMem_spellChars {segs : List Segment} :
    '/' ∉ spellChars segs ↔ segs.length ≤ 1 := by
  cases segs with
  | nil => simp [spellChars]
  | cons s rest =>
    cases rest with
    | nil => simpa [spellChars] using s.slashless
    | cons t rest => simp [spellChars]

namespace Key

variable {k key : Key}

/-- What the texts of the keys below a key begin with. -/
def lead (key : Key) : String := if key = root then "/" else key.text ++ "/"

theorem text_append (key : Key) {rest : List Segment} (h : rest ≠ []) :
    text ⟨key.segments ++ rest⟩ = key.lead ++ Path.spell rest := by
  by_cases hroot : key = root
  · subst hroot
    exact Path.render_eq rest
  · have hne : key.segments ≠ [] := fun hnil => hroot (ext_segments hnil)
    rw [lead, if_neg hroot, text, text, Path.render, Path.renderChars_append hne h,
      String.ofList_append, ← Path.render, ← Path.render, Path.render_eq rest, String.append_assoc]

theorem isBelow_iff_lead (notRoot : k ≠ root) :
    k.IsBelow key ↔ key.lead.toList <+: k.text.toList := by
  constructor
  · intro h
    obtain ⟨rest, hrest, rfl⟩ := h.exists_rest
    rw [text_append key hrest, String.toList_append]
    exact List.prefix_append _ _
  · rintro ⟨cs, hcs⟩
    have hsegments : k.segments = Path.pieces k.text.toList := (Path.segments_render _).symm
    by_cases hroot : key = root
    · subst hroot
      exact ⟨List.nil_prefix, notRoot⟩
    · rw [lead, if_neg hroot, String.toList_append, List.append_assoc] at hcs
      have hslash : key.text.toList ++ '/' :: cs = k.text.toList := hcs
      rw [← hslash, Path.pieces_append_slash] at hsegments
      have hbase : Path.pieces key.text.toList = key.segments := Path.segments_render _
      refine ⟨⟨Path.pieces cs, by rw [hsegments, hbase]⟩, ?_⟩
      rintro rfl
      have hlength := congrArg List.length hslash
      rw [List.length_append, List.length_cons] at hlength
      omega

theorem isChildOf_iff_lead (notRoot : k ≠ root) : k.IsChildOf key ↔
    key.lead.toList <+: k.text.toList ∧ '/' ∉ k.text.toList.drop key.lead.toList.length := by
  rw [← isBelow_iff_lead notRoot, isChildOf_iff]
  refine and_congr_right fun h => ?_
  obtain ⟨rest, hrest, rfl⟩ := h.exists_rest
  rw [text_append key hrest, String.toList_append, List.drop_left, Path.spell,
    String.toList_ofList, Path.slash_notMem_spellChars, List.length_append]
  omega

end Key

/-! ## Scans -/

section Monotone

variable {α : Type} {p : α → Bool} {l : List α}

theorem List.takeWhile_eq_filter (h : l.Pairwise fun a b => p b → p a) :
    l.takeWhile p = l.filter p := by
  induction h with
  | nil => rfl
  | @cons a l hall _ ih =>
    by_cases ha : p a
    · rw [List.takeWhile_cons_of_pos ha, List.filter_cons_of_pos ha, ih]
    · have hnil : l.filter p = [] := List.filter_eq_nil_iff.mpr fun b hb hpb => ha (hall b hb hpb)
      rw [List.takeWhile_cons_of_neg ha, List.filter_cons_of_neg ha, hnil]

theorem List.dropWhile_eq_filter (h : l.Pairwise fun a b => p b → p a) :
    l.dropWhile p = l.filter fun a => !p a := by
  induction h with
  | nil => rfl
  | @cons a l hall _ ih =>
    by_cases ha : p a
    · rw [List.dropWhile_cons_of_pos ha, List.filter_cons_of_neg (by simpa using ha), ih]
    · rw [List.dropWhile_cons_of_neg ha, List.filter_cons_of_pos (by simpa using ha)]
      have hself : l.filter (fun b => !p b) = l :=
        List.filter_eq_self.mpr fun b hb => by simpa using mt (hall b hb) ha
      rw [hself]

end Monotone

theorem List.isPrefix_of_between {lead l l' : List Char} (hl : ¬ List.Lex (· < ·) l lead)
    (hl' : ¬ List.Lex (· < ·) l' l) (h : lead <+: l') : lead <+: l := by
  induction lead generalizing l l' with
  | nil => exact List.nil_prefix
  | cons c lead ih =>
    obtain ⟨rest, rfl⟩ := h
    cases l with
    | nil => exact absurd List.nil_lex_cons' hl
    | cons d l =>
      rw [List.cons_append] at hl'
      rw [List.cons_lex_cons_iff, not_or] at hl hl'
      obtain rfl : c = d := le_antisymm (not_lt.mp hl.1) (not_lt.mp hl'.1)
      have htail : ¬ List.Lex (· < ·) l lead := fun hlt => hl.2 ⟨rfl, hlt⟩
      have htail' : ¬ List.Lex (· < ·) (lead ++ rest) l := fun hlt => hl'.2 ⟨rfl, hlt⟩
      exact List.prefix_cons_inj c |>.mpr (ih htail htail' (List.prefix_append lead rest))

namespace Contents

/-- The entries from a text on, as long as their texts begin with it. -/
def scan (m : Contents) (lead : String) : List (Key × Entry) :=
  (m.toList.dropWhile fun p => p.1.text < lead).takeWhile fun p => lead.toList <+: p.1.text.toList

/-- **A scan finds all texts that begin alike.** -/
theorem scan_eq_filter (m : Contents) (lead : String) :
    m.scan lead = m.toList.filter fun p => lead.toList <+: p.1.text.toList := by
  have hbefore : m.toList.Pairwise fun p q =>
      decide (q.1.text < lead) → decide (p.1.text < lead) := by
    refine m.sorted.imp fun {p q} hlt hq => decide_eq_true ?_
    exact hlt.trans (of_decide_eq_true hq)
  have halike : (m.toList.filter fun p => !decide (p.1.text < lead)).Pairwise fun p q =>
      decide (lead.toList <+: q.1.text.toList) → decide (lead.toList <+: p.1.text.toList) := by
    refine (m.sorted.filter _).imp_of_mem fun {p q} hp _ hlt hlead => decide_eq_true ?_
    have hge : ¬ p.1.text < lead := by simpa using (List.mem_filter.mp hp).2
    exact List.isPrefix_of_between (mt String.lt_iff_toList_lt.mpr hge)
      (mt String.lt_iff_toList_lt.mpr hlt.asymm) (of_decide_eq_true hlead)
  rw [scan, List.dropWhile_eq_filter hbefore, List.takeWhile_eq_filter halike, List.filter_filter]
  refine List.filter_congr fun p _ => ?_
  rw [Bool.and_eq_left_iff_imp]
  intro hlead
  have hge := List.IsPrefix.le (of_decide_eq_true hlead)
  rw [Bool.not_eq_true', decide_eq_false_iff_not]
  exact fun hlt => hge (String.lt_iff_toList_lt.mp hlt)

end Contents

namespace Store

variable {s : Store}

/-- **What lies below a key is found by a scan.** -/
theorem InOrder.scan_below (h : s.InOrder) (key : Key) :
    s.contents.scan key.lead = s.contents.toList.filter fun p => p.1.IsBelow key := by
  rw [Contents.scan_eq_filter]
  refine List.filter_congr fun p hp => decide_eq_decide.mpr ?_
  exact (Key.isBelow_iff_lead (h.notRoot p.1 p.2 (Contents.mem_toList.mp hp))).symm

/-- **The children of a key are found by a scan,** without the keys that are deeper. -/
theorem InOrder.scan_children (h : s.InOrder) (key : Key) :
    (s.contents.scan key.lead).filter
      (fun p => '/' ∉ p.1.text.toList.drop key.lead.toList.length) = s.contents.children key := by
  rw [Contents.scan_eq_filter, List.filter_filter]
  refine List.filter_congr fun p hp => ?_
  rw [← Bool.decide_and]
  refine decide_eq_decide.mpr ?_
  rw [Key.isChildOf_iff_lead (h.notRoot p.1 p.2 (Contents.mem_toList.mp hp)), and_comm]

end Store

end ClusterRegistry
