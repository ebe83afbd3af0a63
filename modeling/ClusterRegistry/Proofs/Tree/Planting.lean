import ClusterRegistry.Proofs.Relative
import ClusterRegistry.Proofs.Tree.Siblings

/-!
# Trees of any pairs

Pairs may name one place twice, spell its path in several ways and lead on below it. Each pair in
turn puts its value in its place, unless there is a directory, and makes the places above it
directories, whatever was there.

* `Key.trail`, `List.noted`, `Key.onWays`: the keys on the way to a path, and to all paths;
* `Contents.plant`, **`Contents.lookup_plant`**: what one pair makes of the contents;
* `Contents.planted`, **`Contents.lookup_planted`**: what a list of pairs makes;
* `Tree.Draws.alike`, `Tree.Draws.amend`, `Tree.Draws.grow`: an entry changes, and an entry more;
* **`Tree.Draws.insertBelow_plant`**, **`Tree.draws_planted`**: the tree follows the contents.
-/

namespace ClusterRegistry

/-! ## Ways -/

theorem Path.spell_ne_empty {segs : List Segment} (h : segs ≠ []) : spell segs ≠ "" := by
  obtain ⟨s, rest, rfl⟩ := List.exists_cons_of_ne_nil h
  obtain ⟨c, cs, hchars⟩ := List.exists_cons_of_ne_nil s.nonempty
  intro hempty
  have hnil := congrArg String.toList hempty
  cases rest <;> simp [spell, spellChars, hchars] at hnil

theorem Path.spell_concat (above : List Segment) (s : Segment) : spell (above ++ [s]) =
    if spell above = "" then s.text else spell above ++ "/" ++ s.text := by
  by_cases h : above = []
  · subst h
    simp [spell, spellChars]
  · have hchars := renderChars_append h (List.cons_ne_nil s [])
    simp only [renderChars_eq, List.cons_append, List.cons.injEq, true_and] at hchars
    rw [if_neg (spell_ne_empty h), spell, hchars, spell, String.ofList_append]
    simp [spellChars, String.append_assoc]

namespace Key

/-- The keys on the way along some segments, from the top down. -/
def trail (above : List Segment) : List Segment → List Key
  | [] => []
  | s :: rest => ⟨above ++ [s]⟩ :: trail (above ++ [s]) rest

theorem mem_trail {above segs : List Segment} {k : Key} :
    k ∈ trail above segs ↔ ∃ first ≠ [], first <+: segs ∧ k = ⟨above ++ first⟩ := by
  induction segs generalizing above with
  | nil =>
    refine iff_of_false List.not_mem_nil ?_
    rintro ⟨first, hne, hpre, -⟩
    exact hne (List.prefix_nil.mp hpre)
  | cons s rest ih =>
    rw [trail, List.mem_cons, ih]
    constructor
    · rintro (rfl | ⟨first, hne, hpre, rfl⟩)
      · exact ⟨[s], List.cons_ne_nil _ _, (List.prefix_append [s] rest), rfl⟩
      · exact ⟨s :: first, List.cons_ne_nil _ _, (List.prefix_cons_inj s).mpr hpre, by simp⟩
    · rintro ⟨first, hne, hpre, rfl⟩
      obtain ⟨x, first, rfl⟩ := List.exists_cons_of_ne_nil hne
      obtain ⟨rfl, hrest⟩ := List.cons_prefix_cons.mp hpre
      by_cases hfirst : first = []
      · exact .inl (by rw [hfirst])
      · exact .inr ⟨first, hfirst, hrest, by simp⟩

theorem mem_trail_root {k l : Key} : k ∈ trail [] l.segments ↔ k ≠ root ∧ l.IsWithin k := by
  rw [mem_trail]
  constructor
  · rintro ⟨first, hne, hpre, rfl⟩
    exact ⟨fun h => hne (congrArg segments h), hpre⟩
  · rintro ⟨hroot, hin⟩
    exact ⟨k.segments, fun h => hroot (ext_segments h), hin, rfl⟩

end Key

section Noted

variable {α : Type} [DecidableEq α] {l more : List α} {a : α}

/-- A list with the members of another one behind it that it lacks. -/
def List.noted (l more : List α) : List α :=
  more.foldl (fun l a => if a ∈ l then l else l ++ [a]) l

theorem List.mem_noted : a ∈ List.noted l more ↔ a ∈ l ∨ a ∈ more := by
  induction more generalizing l with
  | nil => simp [List.noted]
  | cons b more ih =>
    have hcons : List.noted l (b :: more) = List.noted (if b ∈ l then l else l ++ [b]) more := rfl
    rw [hcons, ih]
    by_cases hb : b ∈ l
    · rw [if_pos hb, List.mem_cons]
      refine ⟨fun h => h.imp_right .inr, ?_⟩
      rintro (h | rfl | h)
      · exact .inl h
      · exact .inl hb
      · exact .inr h
    · rw [if_neg hb, List.mem_append, List.mem_singleton, List.mem_cons, or_assoc]

theorem List.pairwise_noted {R : α → α → Prop} (hl : l.Pairwise R) (hmore : more.Pairwise R)
    (h : ∀ a ∈ l, ∀ b ∈ more, b ∉ l → R a b) : (List.noted l more).Pairwise R := by
  induction more generalizing l with
  | nil => exact hl
  | cons b more ih =>
    have hcons : List.noted l (b :: more) = List.noted (if b ∈ l then l else l ++ [b]) more := rfl
    rw [List.pairwise_cons] at hmore
    rw [hcons]
    by_cases hb : b ∈ l
    · rw [if_pos hb]
      exact ih hl hmore.2 fun a ha c hc hcl => h a ha c (List.mem_cons_of_mem b hc) hcl
    · rw [if_neg hb]
      refine ih ?_ hmore.2 fun a ha c hc hcl => ?_
      · refine List.pairwise_append.mpr ⟨hl, List.pairwise_singleton _ _, fun a ha c hc => ?_⟩
        obtain rfl := List.mem_singleton.mp hc
        exact h a ha c List.mem_cons_self hb
      · rcases List.mem_append.mp ha with ha | ha
        · exact h a ha c (List.mem_cons_of_mem b hc) fun hc' => hcl (List.mem_append_left _ hc')
        · obtain rfl := List.mem_singleton.mp ha
          exact hmore.1 c hc

end Noted

namespace Key

/-- The root and the keys on the ways to the paths of pairs, in the order in which they come up. -/
def onWays (pairs : List (String × String)) : List Key :=
  pairs.foldl (fun keys p => List.noted keys (trail [] (Path.segments p.1))) [root]

theorem onWays_concat (pairs : List (String × String)) (p : String × String) :
    onWays (pairs ++ [p]) = List.noted (onWays pairs) (trail [] (Path.segments p.1)) := by
  rw [onWays, List.foldl_append]
  rfl

theorem mem_onWays {pairs : List (String × String)} {k : Key} :
    k ∈ onWays pairs ↔ k = root ∨ k ≠ root ∧ ∃ p ∈ pairs, (ofPath p.1).IsWithin k := by
  induction pairs using List.reverseRecOn with
  | nil => simp [onWays]
  | append_singleton pairs p ih =>
    have htrail : k ∈ trail [] (Path.segments p.1) ↔ k ≠ root ∧ (ofPath p.1).IsWithin k :=
      mem_trail_root (l := .ofPath p.1)
    rw [onWays_concat, List.mem_noted, ih, htrail]
    simp only [List.mem_append, List.mem_singleton, or_and_right, exists_or, exists_eq_left,
      and_or_left, or_assoc]

end Key

/-! ## Contents -/

/-- A value that stays. -/
def Entry.file (value : String) : Entry := ⟨false, value, none, 0, 0⟩

namespace Contents

variable {m : Contents} {k l : Key} {value : String} {above segs first rest : List Segment}

/-- Puts a value at the end of some segments, unless a directory is there, with directories above
it. -/
def plant (m : Contents) (value : String) (above : List Segment) : List Segment → Contents
  | [] => m
  | s :: rest =>
    if rest = [] then
      if m[(⟨above ++ [s]⟩ : Key)]?.any (·.dir) then m else m.insert ⟨above ++ [s]⟩ (.file value)
    else plant (m.insert ⟨above ++ [s]⟩ (.parent 0)) value (above ++ [s]) rest

theorem plant_singleton (m : Contents) (value : String) (above : List Segment) (s : Segment) :
    m.plant value above [s] = if m[(⟨above ++ [s]⟩ : Key)]?.any (·.dir) then m
      else m.insert ⟨above ++ [s]⟩ (.file value) := rfl

theorem plant_cons (s : Segment) (h : rest ≠ []) : m.plant value above (s :: rest) =
    plant (m.insert ⟨above ++ [s]⟩ (.parent 0)) value (above ++ [s]) rest := by
  rw [plant, if_neg h]

theorem lookup_plant_apart (h : k ∉ Key.trail above segs) :
    (m.plant value above segs)[k]? = m[k]? := by
  induction segs generalizing m above with
  | nil => rfl
  | cons s rest ih =>
    rw [Key.trail, List.mem_cons, not_or] at h
    by_cases hrest : rest = []
    · subst hrest
      rw [plant_singleton]
      split_ifs
      · rfl
      · rw [Key.lookup_insert, if_neg h.1]
    · rw [plant_cons s hrest, ih h.2, Key.lookup_insert, if_neg h.1]

theorem notMem_trail_self (above segs : List Segment) : (⟨above⟩ : Key) ∉ Key.trail above segs := by
  intro hmem
  obtain ⟨first, hne, -, heq⟩ := Key.mem_trail.mp hmem
  exact hne (List.self_eq_append_right.mp (congrArg Key.segments heq))

theorem lookup_plant_way (hfirst : first ≠ []) (hrest : rest ≠ []) :
    (m.plant value above (first ++ rest))[(⟨above ++ first⟩ : Key)]? = some (.parent 0) := by
  induction first generalizing m above with
  | nil => exact absurd rfl hfirst
  | cons s first ih =>
    rw [List.cons_append, plant_cons s (List.append_ne_nil_of_right_ne_nil first hrest)]
    by_cases hnil : first = []
    · subst hnil
      rw [List.nil_append, lookup_plant_apart (notMem_trail_self _ _), Key.lookup_insert,
        if_pos rfl]
    · rw [show above ++ s :: first = above ++ [s] ++ first by simp]
      exact ih hnil

theorem lookup_plant_last (hsegs : segs ≠ []) :
    (m.plant value above segs)[(⟨above ++ segs⟩ : Key)]? =
      if m[(⟨above ++ segs⟩ : Key)]?.any (·.dir) then m[(⟨above ++ segs⟩ : Key)]?
      else some (.file value) := by
  induction segs generalizing m above with
  | nil => exact absurd rfl hsegs
  | cons s rest ih =>
    by_cases hrest : rest = []
    · subst hrest
      rw [plant_singleton]
      split_ifs
      · rfl
      · rw [Key.lookup_insert, if_pos rfl]
    · have hne : (⟨above ++ [s] ++ rest⟩ : Key) ≠ ⟨above ++ [s]⟩ := fun heq =>
        hrest (List.append_right_eq_self.mp (congrArg Key.segments heq))
      rw [plant_cons s hrest, show above ++ s :: rest = above ++ [s] ++ rest by simp, ih hrest,
        Key.lookup_insert, if_neg hne]

/-- **What one pair makes of the contents.** -/
theorem lookup_plant (hk : k ≠ .root) : (m.plant value [] l.segments)[k]? =
    if l.IsBelow k then some (.parent 0)
    else if l = k then if m[k]?.any (·.dir) then m[k]? else some (.file value)
    else m[k]? := by
  by_cases hbelow : l.IsBelow k
  · rw [if_pos hbelow]
    obtain ⟨rest, hrest, rfl⟩ := hbelow.exists_rest
    exact lookup_plant_way (fun h => hk (Key.ext_segments h)) hrest
  · rw [if_neg hbelow]
    by_cases heq : l = k
    · subst heq
      rw [if_pos rfl]
      exact lookup_plant_last fun h => hk (Key.ext_segments h)
    · rw [if_neg heq]
      refine lookup_plant_apart fun hmem => ?_
      obtain ⟨-, hin⟩ := Key.mem_trail_root.mp hmem
      exact (Key.isWithin_iff.mp hin).elim heq hbelow

/-- The contents that pairs make, one after the other. -/
def planted (pairs : List (String × String)) : Contents :=
  pairs.foldl (fun m p => m.plant p.2 [] (Path.segments p.1)) ∅

theorem planted_concat (pairs : List (String × String)) (p : String × String) :
    planted (pairs ++ [p]) = (planted pairs).plant p.2 [] (Path.segments p.1) := by
  rw [planted, List.foldl_append]
  rfl

/-- **What pairs make of a place.** It is a directory if a path leads on below it; otherwise the
last pair counts whose path it is. -/
theorem lookup_planted (pairs : List (String × String)) (hk : k ≠ .root) :
    (planted pairs)[k]? =
      if ∃ p ∈ pairs, (Key.ofPath p.1).IsBelow k then some (.parent 0)
      else (pairs.reverse.find? fun p => Key.ofPath p.1 = k).map fun p => .file p.2 := by
  induction pairs using List.reverseRecOn with
  | nil => simp [planted]
  | append_singleton pairs p ih =>
    have hplant : ((planted pairs).plant p.2 [] (Path.segments p.1))[k]? = _ :=
      lookup_plant (l := .ofPath p.1) hk
    rw [planted_concat, List.reverse_concat, List.find?_cons]
    refine hplant.trans ?_
    by_cases hbelow : (Key.ofPath p.1).IsBelow k
    · rw [if_pos hbelow, if_pos ⟨p, List.mem_append_right _ (List.mem_singleton_self p), hbelow⟩]
    · have hiff : (∃ q ∈ pairs ++ [p], (Key.ofPath q.1).IsBelow k) ↔
          ∃ q ∈ pairs, (Key.ofPath q.1).IsBelow k := by
        simp [or_and_right, exists_or, hbelow]
      rw [if_neg hbelow, ih, if_congr hiff rfl rfl]
      by_cases heq : Key.ofPath p.1 = k
      · rw [if_pos heq, decide_eq_true heq]
        split_ifs with hold hdir hdir
        · rfl
        · exact absurd rfl hdir
        · -- what is there already is a value, not a directory
          have hfile : ∀ last : Option (String × String),
              (last.map fun q => Entry.file q.2).any (·.dir) = false := fun last => by
            cases last <;> rfl
          rw [hfile] at hdir
          exact absurd hdir Bool.false_ne_true
        · rfl
      · rw [if_neg heq, decide_eq_false heq]

/-- A place is a directory just if a path leads on below it, otherwise it has the last value. -/
theorem planted_entry {pairs : List (String × String)} {e : Entry} (hk : k ≠ .root)
    (h : (planted pairs)[k]? = some e) :
    (e.dir = true ↔ ∃ p ∈ pairs, (Key.ofPath p.1).IsBelow k) ∧
      (e.dir = false → ∃ p ∈ pairs, Key.ofPath p.1 = k ∧ e.value = p.2 ∧
        (pairs.reverse.find? fun p => Key.ofPath p.1 = k) = some p) := by
  rw [lookup_planted pairs hk] at h
  split_ifs at h with hbelow
  · obtain rfl := Option.some.inj h
    exact ⟨iff_of_true rfl hbelow, fun hdir => absurd hdir.symm Bool.false_ne_true⟩
  · obtain ⟨p, hfind, rfl⟩ := Option.map_eq_some_iff.mp h
    have hp := List.mem_reverse.mp (List.mem_of_find?_eq_some hfind)
    have hkey := List.find?_some hfind
    exact ⟨iff_of_false Bool.false_ne_true hbelow,
      fun _ => ⟨p, hp, of_decide_eq_true hkey, rfl, hfind⟩⟩

theorem exists_of_planted {pairs : List (String × String)} (hk : k ≠ .root)
    (h : (planted pairs)[k]? ≠ none) : ∃ p ∈ pairs, (Key.ofPath p.1).IsWithin k := by
  obtain ⟨e, he⟩ := Option.ne_none_iff_exists'.mp h
  obtain ⟨hdir, hvalue⟩ := planted_entry hk he
  cases hfile : e.dir with
  | true =>
    obtain ⟨p, hp, hbelow⟩ := hdir.mp hfile
    exact ⟨p, hp, hbelow.isWithin⟩
  | false =>
    obtain ⟨p, hp, rfl, -⟩ := hvalue hfile
    exact ⟨p, hp, .refl _⟩

end Contents

namespace Tree

variable {t : Tree} {m : Contents} {keys : List Key} {k above : Key} {e : Entry} {c id : Nat}

/-! ## Trees -/

/-- A tree depends on the entries that it has items for, and on what these show. -/
theorem Draws.alike (h : t.Draws m keys) {m' : Contents}
    (same : ∀ k ∈ keys, k ≠ .root → ∀ e, m[k]? = some e → ∃ e', m'[k]? = some e' ∧
      e'.dir = e.dir ∧ (e.dir = false → e'.value = e.value)) : t.Draws m' keys where
  length := h.length
  nodup := h.nodup
  first := h.first
  root := h.root
  item i k hk hroot := by
    obtain ⟨e, j, he, hj, hitem⟩ := h.item i k hk hroot
    obtain ⟨e', he', hdir, hvalue⟩ := same k (List.mem_of_getElem? hk) hroot e he
    refine ⟨e', j, he', hj, hitem.trans (congrArg some ?_)⟩
    rw [itemOf, itemOf, hdir]
    cases hfile : e.dir with
    | true => rfl
    | false => rw [hvalue hfile]

theorem Draws.amend (h : t.Draws m keys) (hc : keys[c]? = some k) (hroot : k ≠ .root)
    {f : Item → Item} (hf : ∀ e' j, m[k]? = some e' → f (itemOf k e' j) = itemOf k e j) :
    (Tree.mk (t.items.modify c f)).Draws (m.insert k e) keys where
  length := (List.length_modify ..).trans h.length
  nodup := h.nodup
  first := h.first
  root := by
    have hne : c ≠ 0 := fun hzero => hroot (Option.some.inj (hc.symm.trans (hzero ▸ h.first)))
    show (t.items.modify c f)[0]? = _
    rw [List.getElem?_modify_ne _ _ hne, h.root]
  item i l hl hroot' := by
    obtain ⟨e', j, he', hj, hitem⟩ := h.item i l hl hroot'
    by_cases hlk : l = k
    · subst hlk
      obtain rfl := h.eq_of_getElem? hl hc
      refine ⟨e, j, ?_, hj, ?_⟩
      · rw [Key.lookup_insert, if_pos rfl]
      · show (t.items.modify i f)[i]? = _
        rw [List.getElem?_modify_eq, hitem]
        exact congrArg some (hf e' j he')
    · have hci : c ≠ i := fun heq => hlk (Option.some.inj (hl.symm.trans (heq ▸ hc)))
      refine ⟨e', j, ?_, hj, ?_⟩
      · rw [Key.lookup_insert, if_neg hlk, he']
      · show (t.items.modify c f)[i]? = _
        rw [List.getElem?_modify_ne _ _ hci, hitem]

theorem Draws.grow (h : t.Draws m keys) (hid : keys[id]? = some above)
    (hchild : k.IsChildOf above) (new : k ∉ keys) (e : Entry) :
    (t.push id (Path.spell k.segments) (if e.dir then "" else e.value) e.dir).Draws
      (m.insert k e) (keys ++ [k]) := by
  have hkept : t.Draws (m.insert k e) keys := h.alike fun l hl _ e' he' => by
    refine ⟨e', ?_, rfl, fun _ => rfl⟩
    rw [Key.lookup_insert, if_neg fun (heq : l = k) => new (heq ▸ hl), he']
  have he : (m.insert k e)[k]? = some e := by rw [Key.lookup_insert, if_pos rfl]
  refine hkept.push hid he hchild (List.nodup_append.mpr ⟨h.nodup, List.nodup_singleton k, ?_⟩)
  intro a ha b hb heq
  rw [List.mem_singleton.mp hb] at heq
  exact new (heq ▸ ha)

theorem List.modify_eq_self {α : Type} {l : List α} {i : Nat} {f : α → α}
    (h : ∀ a, l[i]? = some a → f a = a) : l.modify i f = l := by
  refine List.ext_getElem? fun j => ?_
  rw [List.getElem?_modify]
  by_cases hij : i = j
  · subst hij
    cases ha : l[i]? with
    | none => rfl
    | some a => simp [h a ha]
  · simp [hij]

theorem Draws.assign_plant {above : List Segment} {s : Segment} (h : t.Draws m keys)
    (hc : keys[c]? = some ⟨above ++ [s]⟩) (value : String) :
    (t.assign c value).Draws (m.plant value above [s]) keys := by
  have hroot := (Key.isChildOf_concat above s).1
  obtain ⟨e, j, he, -, hitem⟩ := h.item c _ hc hroot
  rw [Contents.plant_singleton, he, Option.any_some]
  cases hdir : e.dir with
  | true =>
    have hsame : t.assign c value = t := by
      refine congrArg Tree.mk (List.modify_eq_self fun i hi => ?_)
      obtain rfl := Option.some.inj (hi.symm.trans hitem)
      exact if_pos hdir
    rw [if_pos rfl, hsame]
    exact h
  | false =>
    rw [if_neg Bool.false_ne_true]
    refine h.amend hc hroot fun e' j' he' => ?_
    obtain rfl := Option.some.inj (he.symm.trans he')
    simp [itemOf, Entry.file, hdir]

/-- **One pair more in the tree and in the contents.** Nothing is there but what there are items
for. -/
theorem Draws.insertBelow_plant {above segs : List Segment} (h : t.Draws m keys)
    (hid : keys[id]? = some ⟨above⟩) (hin : ∀ k, m[k]? ≠ none → k ∈ keys) (value : String) :
    (t.insertBelow value id (Path.spell above) segs).Draws (m.plant value above segs)
      (List.noted keys (Key.trail above segs)) := by
  -- on the way down, the tree, the contents and the list of keys change together
  induction segs generalizing t m keys id above with
  | nil => exact h
  | cons s rest ih =>
    have hnoted : List.noted keys (Key.trail above (s :: rest)) = List.noted
        (if (⟨above ++ [s]⟩ : Key) ∈ keys then keys else keys ++ [⟨above ++ [s]⟩])
        (Key.trail (above ++ [s]) rest) := rfl
    have hchildOf := Key.isChildOf_concat above s
    rw [Tree.insertBelow, ← Path.spell_concat, hnoted]
    cases hchild : t.child? id s.text with
    | some c =>
      have hc := (h.child?_eq_some_iff hid).mp hchild
      have hmem := List.mem_of_getElem? hc
      rw [if_pos hmem]
      dsimp only
      by_cases hrest : rest = []
      · subst hrest
        rw [if_pos rfl]
        exact h.assign_plant hc value
      · rw [if_neg hrest, Contents.plant_cons s hrest]
        refine ih (h.amend hc hchildOf.1 fun _ _ _ => rfl) hc fun k hk => ?_
        rw [Key.lookup_insert] at hk
        split_ifs at hk with heq
        · exact heq ▸ hmem
        · exact hin k hk
    | none =>
      have hnew : (⟨above ++ [s]⟩ : Key) ∉ keys := by
        intro hmem
        obtain ⟨j, hj⟩ := List.mem_iff_getElem?.mp hmem
        rw [(h.child?_eq_some_iff hid).mpr hj] at hchild
        cases hchild
      have hnone : m[(⟨above ++ [s]⟩ : Key)]? = none := not_not.mp (mt (hin _) hnew)
      rw [if_neg hnew]
      dsimp only
      by_cases hrest : rest = []
      · subst hrest
        rw [if_pos rfl, Contents.plant_singleton, hnone]
        exact h.grow hid hchildOf hnew (.file value)
      · rw [if_neg hrest, Contents.plant_cons s hrest]
        refine ih (h.grow hid hchildOf hnew (.parent 0)) ?_ fun k hk => ?_
        · rw [size, h.length, List.getElem?_concat_length]
        · rw [Key.lookup_insert] at hk
          split_ifs at hk with heq
          · exact heq ▸ List.mem_append_right _ (List.mem_singleton_self _)
          · exact List.mem_append_left _ (hin k hk)

/-- **Pairs make a tree with an item for each place on the way to a path.** -/
theorem draws_planted (pairs : List (String × String)) :
    (pairs.foldl (fun t p => t.insertBelow p.2 Tree.root "" (Path.segments p.1))
      Tree.empty).Draws (.planted pairs) (Key.onWays pairs) := by
  induction pairs using List.reverseRecOn with
  | nil => exact Draws.empty _
  | append_singleton pairs p ih =>
    rw [List.foldl_append, Contents.planted_concat, Key.onWays_concat]
    refine ih.insertBelow_plant ih.first (fun k hk => Key.mem_onWays.mpr ?_) p.2
    by_cases hroot : k = .root
    · exact .inl hroot
    · exact .inr ⟨hroot, Contents.exists_of_planted hroot hk⟩

end Tree

end ClusterRegistry
