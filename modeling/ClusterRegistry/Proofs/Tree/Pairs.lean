import Mathlib.Data.List.Sort
import ClusterRegistry.Proofs.Tree.Planting
import ClusterRegistry.Proofs.Views

/-!
# Trees of pairs

A tree may be built from paths and values, or the values may be written to a store and the store be
read. Both trees hold the same, but their children are not always in the same order.

* `Flat`: paths that can stand side by side in a store, with their values;
* `Contents.Houses`, `Flat.houses`: what a store holds after the values have been written;
* `Contents.mark`, `Flat.mark_lt`: the order of children, with a slash behind directories;
* `Flat.pairwise_onWays`, `Flat.alike`: the keys on the ways to the paths, and what stands there;
* **`Flat.draws_ofPairs`**: the tree of the pairs, and the order of the children in it.
-/

namespace ClusterRegistry

open ClusterRegistry.Tree

/-- Paths with values that can stand side by side: each path is spelled in the one canonical way,
and none is the root, comes twice or leads on below another one. -/
structure Flat (pairs : List (String × String)) : Prop where
  canonical : ∀ p ∈ pairs, Path.canonical p.1 = p.1
  notRoot : ∀ p ∈ pairs, p.1 ≠ "/"
  distinct : (pairs.map (·.1)).Nodup
  apart : ∀ p ∈ pairs, ∀ q ∈ pairs, ¬ (Key.ofPath p.1).IsBelow (.ofPath q.1)

/-- The store to which the values have been written, one after the other. -/
def Store.ofPairs (pairs : List (String × String)) : Store :=
  (Course.run (pairs.map fun p => .request (.set p.1 p.2 {}))).store

namespace Flat

variable {pairs : List (String × String)} {p q : String × String}

theorem text_ofPath (h : Flat pairs) (hp : p ∈ pairs) : (Key.ofPath p.1).text = p.1 :=
  h.canonical p hp

theorem ofPath_ne_root (h : Flat pairs) (hp : p ∈ pairs) : Key.ofPath p.1 ≠ .root := by
  intro hroot
  refine h.notRoot p hp ?_
  rw [← h.text_ofPath hp, hroot]
  rfl

theorem eq_of_ofPath (h : Flat pairs) (hp : p ∈ pairs) (hq : q ∈ pairs)
    (heq : Key.ofPath p.1 = .ofPath q.1) : p = q := by
  refine List.inj_on_of_nodup_map h.distinct hp hq ?_
  rw [← h.text_ofPath hp, ← h.text_ofPath hq, heq]

theorem eq_of_within (h : Flat pairs) (hp : p ∈ pairs) (hq : q ∈ pairs)
    (hin : (Key.ofPath p.1).IsWithin (.ofPath q.1)) : p = q :=
  h.eq_of_ofPath hp hq ((Key.isWithin_iff.mp hin).resolve_right (h.apart p hp q hq))

theorem perm (h : Flat pairs) {pairs' : List (String × String)} (hperm : pairs'.Perm pairs) :
    Flat pairs' where
  canonical p hp := h.canonical p (hperm.subset hp)
  notRoot p hp := h.notRoot p (hperm.subset hp)
  distinct := (hperm.map _).nodup_iff.mpr h.distinct
  apart p hp q hq := h.apart p (hperm.subset hp) q (hperm.subset hq)

theorem of_append {more : List (String × String)} (h : Flat (pairs ++ more)) : Flat pairs where
  canonical p hp := h.canonical p (List.mem_append_left _ hp)
  notRoot p hp := h.notRoot p (List.mem_append_left _ hp)
  distinct := (List.nodup_append.mp (List.map_append ▸ h.distinct)).1
  apart p hp q hq := h.apart p (List.mem_append_left _ hp) q (List.mem_append_left _ hq)

end Flat

/-! ## The store -/

/-- The contents are the values of the pairs, and directories above them. -/
structure Contents.Houses (m : Contents) (pairs : List (String × String)) : Prop where
  file : ∀ p ∈ pairs, m.slots[Key.ofPath p.1]? = some ⟨false, p.2, none⟩
  dir : ∀ p ∈ pairs, ∀ a ∈ (Key.ofPath p.1).ancestors, m.slots[a]? = some ⟨true, "", none⟩
  only : ∀ k, m.slots[k]? ≠ none → k ≠ .root ∧ ∃ p ∈ pairs, (Key.ofPath p.1).IsWithin k

theorem Contents.Houses.of_perm {m : Contents} {pairs pairs' : List (String × String)}
    (h : m.Houses pairs') (hperm : pairs'.Perm pairs) : m.Houses pairs where
  file p hp := h.file p (hperm.mem_iff.mpr hp)
  dir p hp := h.dir p (hperm.mem_iff.mpr hp)
  only k hk := (h.only k hk).imp_right fun ⟨p, hp, hin⟩ => ⟨p, hperm.mem_iff.mp hp, hin⟩

namespace Flat

variable {pairs : List (String × String)} {p : String × String} {s : Store}

theorem admits (h : Flat (pairs ++ [p])) (hs : s.contents.Houses pairs) :
    s.contents.slots[Key.ofPath p.1]? = none ∧
      ∀ a ∈ (Key.ofPath p.1).ancestors, ∀ x, s.contents.slots[a]? = some x →
        x = ⟨true, "", none⟩ := by
  have hp : p ∈ pairs ++ [p] := List.mem_append_right _ (List.mem_singleton_self p)
  constructor
  · by_contra hne
    obtain ⟨-, q, hq, hin⟩ := hs.only _ hne
    obtain rfl := h.eq_of_within (List.mem_append_left _ hq) hp hin
    have hnodup := h.distinct
    rw [List.map_append, List.nodup_append] at hnodup
    exact hnodup.2.2 _ (List.mem_map_of_mem hq) _ (List.mem_map_of_mem (List.mem_singleton_self q))
      rfl
  · intro a ha x hx
    obtain ⟨hroot, q, hq, hin⟩ := hs.only a (hx ▸ Option.some_ne_none x)
    rcases Key.isWithin_iff.mp hin with rfl | hbelow
    · exact absurd (Key.mem_ancestors.mp ha).1 (h.apart p hp q (List.mem_append_left _ hq))
    · have hdir := hs.dir q hq a (Key.mem_ancestors.mpr ⟨hbelow, hroot⟩)
      exact Option.some.inj (hx.symm.trans hdir)

theorem houses_append (h : Flat (pairs ++ [p])) (hs : s.contents.Houses pairs) {s' : Store}
    (hput : ∀ k, s'.contents.slots[k]? = if k = .ofPath p.1 then some ⟨false, p.2, none⟩
      else if k ∈ (Key.ofPath p.1).ancestors then some (s.contents.slots[k]?.getD ⟨true, "", none⟩)
      else s.contents.slots[k]?) : s'.contents.Houses (pairs ++ [p]) := by
  have hp : p ∈ pairs ++ [p] := List.mem_append_right _ (List.mem_singleton_self p)
  obtain ⟨hfree, hdirs⟩ := h.admits hs
  constructor
  · intro q hq
    rw [hput]
    rcases List.mem_append.mp hq with hold | hnew
    · have hfile := hs.file q hold
      rw [if_neg, if_neg, hfile]
      · exact fun ha => h.apart p hp q hq (Key.mem_ancestors.mp ha).1
      · rintro heq
        rw [heq, hfree] at hfile
        cases hfile
    · obtain rfl := List.mem_singleton.mp hnew
      rw [if_pos rfl]
  · intro q hq a ha
    have hne : a ≠ .ofPath p.1 := fun heq =>
      h.apart q hq p hp (heq ▸ (Key.mem_ancestors.mp ha).1)
    rw [hput, if_neg hne]
    rcases List.mem_append.mp hq with hold | hnew
    · rw [hs.dir q hold a ha, Option.getD_some, ite_self]
    · obtain rfl := List.mem_singleton.mp hnew
      rw [if_pos ha]
      cases hx : s.contents.slots[a]? with
      | none => rfl
      | some x => rw [hdirs a ha x hx, Option.getD_some]
  · intro k hk
    rw [hput] at hk
    split_ifs at hk with heq hanc
    · exact ⟨heq ▸ h.ofPath_ne_root hp, p, hp, heq ▸ .refl _⟩
    · obtain ⟨hbelow, hroot⟩ := Key.mem_ancestors.mp hanc
      exact ⟨hroot, p, hp, hbelow.isWithin⟩
    · obtain ⟨hroot, q, hq, hin⟩ := hs.only k hk
      exact ⟨hroot, q, List.mem_append_left _ hq, hin⟩

/-- **After its values have been written, a store holds them.** -/
theorem houses (h : Flat pairs) :
    (Store.ofPairs pairs).Lasting ∧ (Store.ofPairs pairs).contents.Houses pairs := by
  induction pairs using List.reverseRecOn with
  | nil =>
    refine ⟨Store.Lasting.empty, ⟨fun p hp => ?_, fun p hp => ?_, fun k hk => ?_⟩⟩
    · cases hp
    · cases hp
    · exact absurd (Store.lookup_slots_empty k) hk
  | append_singleton pairs p ih =>
    obtain ⟨hlasting, hhouses⟩ := ih h.of_append
    obtain ⟨hfree, hdirs⟩ := h.admits hhouses
    -- nothing keeps the store from accepting the value
    have hadmits : (Store.ofPairs pairs).contents.slots.Admits (.ofPath p.1) := by
      refine ⟨h.ofPath_ne_root (List.mem_append_right _ (List.mem_singleton_self p)), ?_, ?_⟩
      · rw [hfree]
        rintro x ⟨⟩
      · intro a ha x hx
        rw [hdirs a ha x hx]
    have hstep : Store.ofPairs (pairs ++ [p]) = ((Store.ofPairs pairs).serve
        (Course.run (pairs.map fun p => .request (.set p.1 p.2 {}))).now (.set p.1 p.2 {})).1 := by
      rw [Store.ofPairs, List.map_append, List.map_singleton, Course.run_append]
      rfl
    obtain ⟨⟨s', response⟩, hok⟩ := Store.perform_set_ok_iff.mpr hadmits
    rw [hstep, Store.serve_of_ok ((hlasting.expire _).symm ▸ hok)]
    have hplain : Request.IsLasting (.set p.1 p.2 {}) := rfl
    exact ⟨hlasting.perform hplain hok, h.houses_append hhouses (Store.lookup_slots_of_set hok)⟩

end Flat

namespace Tree

variable {m : Contents}

theorem exists_entry {k : Key} {x : Slot} (h : m.slots[k]? = some x) :
    ∃ e, m[k]? = some e ∧ e.dir = x.dir ∧ e.value = x.value := by
  rw [Contents.lookup_slots, Option.map_eq_some_iff] at h
  obtain ⟨e, he, rfl⟩ := h
  exact ⟨e, he, rfl, rfl⟩

end Tree

/-! ## Children in order -/

/-- The text of a key, with a slash behind it if there is a directory. -/
def Contents.mark (m : Contents) (k : Key) : String :=
  k.text ++ if m[k]?.any (·.dir) then "/" else ""

theorem Contents.mark_eq {m : Contents} {k : Key} {x : Slot} (h : m.slots[k]? = some x) :
    m.mark k = k.text ++ if x.dir then "/" else "" := by
  obtain ⟨e, he, hdir, -⟩ := Tree.exists_entry h
  rw [Contents.mark, he, Option.any_some, hdir]

theorem Key.pairwise_trail (above segs : List Segment) :
    (trail above segs).Pairwise fun k l => ¬ k.IsSibling l := by
  induction segs generalizing above with
  | nil => exact .nil
  | cons s rest ih =>
    rw [trail, List.pairwise_cons]
    refine ⟨fun k hk hsib => ?_, ih _⟩
    obtain ⟨first, hne, -, rfl⟩ := mem_trail.mp hk
    obtain ⟨l, hl, hl'⟩ := hsib
    have hlength := hl.length.trans hl'.length.symm
    have hpos := List.length_pos_iff.mpr hne
    simp only [List.length_append, List.length_singleton] at hlength
    omega

namespace Flat

variable {pairs sorted : List (String × String)} {m : Contents} {p q : String × String} {x y : Key}

/-- A path begins with the mark of every key on the way to it. -/
theorem mark_prefix (h : Flat pairs) (hm : m.Houses pairs) (hp : p ∈ pairs) (hx : x ≠ .root)
    (hin : (Key.ofPath p.1).IsWithin x) : (m.mark x).toList <+: p.1.toList := by
  have htext := h.text_ofPath hp
  rcases Key.isWithin_iff.mp hin with rfl | hbelow
  · rw [Contents.mark_eq (hm.file p hp), htext]
    simp
  · rw [Contents.mark_eq (hm.dir p hp x (Key.mem_ancestors.mpr ⟨hbelow, hx⟩)), if_pos rfl]
    have hlead := (Key.isBelow_iff_lead (h.ofPath_ne_root hp)).mp hbelow
    rwa [Key.lead, if_neg hx, htext] at hlead

/-- **A key that comes with a later path has a later mark than its siblings before.** -/
theorem mark_lt (h : Flat pairs) (hm : m.Houses pairs) (hp : p ∈ pairs) (hq : q ∈ pairs)
    (hlt : q.1 < p.1) (hsib : x.IsSibling y) (hqx : (Key.ofPath q.1).IsWithin x)
    (hpy : (Key.ofPath p.1).IsWithin y) (hqy : ¬ (Key.ofPath q.1).IsWithin y) :
    m.mark x < m.mark y := by
  obtain ⟨above, hx, hy⟩ := hsib
  have hxq := h.mark_prefix hm hq hx.1 hqx
  have hyp := h.mark_prefix hm hp hy.1 hpy
  rw [String.lt_iff_toList_lt] at hlt ⊢
  refine List.lt_of_prefixes hlt hxq hyp fun hyx => ?_
  have hyq := hyx.trans hxq
  rcases Key.isWithin_iff.mp hpy with heq | hbelow
  · -- a file would end where the earlier path begins
    have hmark : m.mark y = p.1 := by
      rw [← heq, Contents.mark_eq (hm.file p hp), h.text_ofPath hp]
      exact String.append_empty
    rw [hmark] at hyq
    exact List.not_lt_of_prefix hyq hlt
  · -- a directory would hold the earlier path
    rw [Contents.mark_eq (hm.dir p hp y (Key.mem_ancestors.mpr ⟨hbelow, hy.1⟩)), if_pos rfl] at hyq
    refine hqy (Key.IsBelow.isWithin ((Key.isBelow_iff_lead (h.ofPath_ne_root hq)).mpr ?_))
    rwa [Key.lead, if_neg hy.1, h.text_ofPath hq]

/-- The keys on the ways to some paths, and the root. -/
def Visits (keys : List Key) (pairs : List (String × String)) : Prop :=
  ∀ k, k ∈ keys ↔ k = .root ∨ k ≠ .root ∧ ∃ p ∈ pairs, (Key.ofPath p.1).IsWithin k

theorem pairwise_onWays (h : Flat pairs) (hm : m.Houses pairs) (hsub : sorted ⊆ pairs)
    (horder : sorted.Pairwise fun p q => p.1 < q.1) :
    (Key.onWays sorted).Pairwise fun x y => x.IsSibling y → m.mark x < m.mark y := by
  induction sorted using List.reverseRecOn with
  | nil => exact List.pairwise_singleton _ _
  | append_singleton sorted p ih =>
    rw [List.pairwise_append] at horder
    have hp : p ∈ pairs := hsub (List.mem_append_right _ (List.mem_singleton_self p))
    have hpairwise := ih (fun q hq => hsub (List.mem_append_left _ hq)) horder.1
    rw [Key.onWays_concat]
    refine List.pairwise_noted hpairwise ?_ fun x hx y hy hnew hsib => ?_
    · exact (Key.pairwise_trail _ _).imp fun hno hsib => absurd hsib hno
    · obtain ⟨hyroot, hpy⟩ := (Key.mem_trail_root (l := .ofPath p.1)).mp hy
      have hxroot : x ≠ .root := fun e => hsib.choose_spec.1.1 e
      obtain ⟨-, q, hq, hqx⟩ := (Key.mem_onWays.mp hx).resolve_left hxroot
      refine h.mark_lt hm hp (hsub (List.mem_append_left _ hq))
        (horder.2.2 q hq p (List.mem_singleton_self p)) hsib hqx hpy fun hqy => ?_
      exact hnew (Key.mem_onWays.mpr (.inr ⟨hyroot, q, hq, hqy⟩))

theorem alike (hm : m.Houses pairs) (hsub : sorted ⊆ pairs) (hx : x ≠ .root) {e : Entry}
    (he : (Contents.planted sorted)[x]? = some e) : ∃ e', m[x]? = some e' ∧ e'.dir = e.dir ∧
      (e.dir = false → e'.value = e.value) := by
  obtain ⟨hdir, hvalue⟩ := Contents.planted_entry hx he
  cases hfile : e.dir with
  | true =>
    obtain ⟨p, hp, hbelow⟩ := hdir.mp hfile
    obtain ⟨e', he', hdir', -⟩ := Tree.exists_entry
      (hm.dir p (hsub hp) x (Key.mem_ancestors.mpr ⟨hbelow, hx⟩))
    exact ⟨e', he', hdir', fun h => absurd h.symm Bool.false_ne_true⟩
  | false =>
    obtain ⟨p, hp, rfl, hlast, -⟩ := hvalue hfile
    obtain ⟨e', he', hdir', hvalue'⟩ := Tree.exists_entry (hm.file p (hsub hp))
    exact ⟨e', he', hdir', fun _ => hvalue'.trans hlast.symm⟩

/-- **The tree of the pairs**, with its children in the order of their marks. -/
theorem draws_ofPairs (h : Flat pairs) (hm : m.Houses pairs) : ∃ keys,
    (Tree.ofPairs pairs).Draws m keys ∧ Visits keys pairs ∧
      keys.Pairwise fun x y => x.IsSibling y → m.mark x < m.mark y := by
  have hperm := List.mergeSort_perm pairs fun a b => decide (a.1 ≤ b.1)
  have hle : (pairs.mergeSort fun a b => decide (a.1 ≤ b.1)).Pairwise
      fun a b => decide (a.1 ≤ b.1) = true := by
    apply List.pairwise_mergeSort
    · intro a b c hab hbc
      exact decide_eq_true (le_trans (of_decide_eq_true hab) (of_decide_eq_true hbc))
    · intro a b
      simpa using le_total a.1 b.1
  have hne : (pairs.mergeSort fun a b => decide (a.1 ≤ b.1)).Pairwise fun p q => p.1 ≠ q.1 :=
    List.pairwise_map.mp (h.perm hperm).distinct
  have horder : (pairs.mergeSort fun a b => decide (a.1 ≤ b.1)).Pairwise fun p q => p.1 < q.1 :=
    hle.imp₂ (fun p q hle hne => lt_of_le_of_ne (of_decide_eq_true hle) hne) hne
  have hdraws := Tree.draws_planted (pairs.mergeSort fun a b => decide (a.1 ≤ b.1))
  refine ⟨_, hdraws.alike fun k _ hroot e he => alike hm hperm.subset hroot he,
    fun k => Key.mem_onWays.trans ?_, h.pairwise_onWays hm hperm.subset horder⟩
  simp only [hperm.mem_iff]

end Flat

end ClusterRegistry
