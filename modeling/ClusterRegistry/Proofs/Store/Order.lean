import ClusterRegistry.Proofs.Store.Course

/-!
# A store in good order

The entries of a store form a tree whose inner nodes are directories, and their indices never run
ahead of the store's.

* `Store.InOrder`: what holds of the entries;
* `Store.InOrder.refresh`, `Store.InOrder.drop`, `Store.InOrder.put`, **`Store.Edit.inOrder`**: every
  edit keeps it;
* `Store.InOrder.begun`: and so does a write that has just begun;
* `Store.InOrder.lookup_of_isBelow`, `Store.InOrder.children_of_not_dir`: nothing is below a file;
* `Course.run_inOrder`: a store is in good order whatever happens.
-/

namespace ClusterRegistry

namespace Store

/-- The entries form a tree with directories above the leaves, numbered up to the index. -/
structure InOrder (s : Store) : Prop where
  notRoot : ∀ (k : Key) (e : Entry), s.contents[k]? = some e → k ≠ .root
  parents : ∀ (k : Key) (e : Entry), s.contents[k]? = some e →
    ∀ a ∈ k.ancestors, ∃ d, s.contents[a]? = some d ∧ d.dir = true
  emptyDirs : ∀ (k : Key) (e : Entry), s.contents[k]? = some e → e.dir = true → e.value = ""
  indices : ∀ (k : Key) (e : Entry), s.contents[k]? = some e →
    1 ≤ e.createdIndex ∧ e.createdIndex ≤ e.modifiedIndex ∧ e.modifiedIndex ≤ s.index

variable {now : Nat} {s s' : Store} {c : Option Change}

/-! ## What a write leaves -/

/-- The entry that a write leaves at its key. -/
def written (s : Store) (now : Nat) (prev : Option Entry) (value : String)
    (options : SetOptions) : Entry where
  dir := options.dir
  value := if options.dir then "" else value
  deadline := options.lifetime.map (now + ·)
  createdIndex := (prev.map (·.createdIndex)).getD (s.index + 1)
  modifiedIndex := s.index + 1

theorem put_contents (key : Key) (prev : Option Entry) (value : String) (options : SetOptions) :
    (s.put now key prev value options).1.contents =
      (s.contents.addParents (s.index + 1) key.ancestors).insert key
        (s.written now prev value options) := record_contents _ _

theorem lookup_put_begun (key : Key) (prev : Option Entry) (value : String) (options : SetOptions)
    (k : Key) : (s.put now key prev value options).1.contents[k]? =
      if k = key then some (s.written now prev value options)
      else (s.begun key).contents[k]? := by
  rw [put_contents, Key.lookup_insert]
  rfl

theorem lookup_put (key : Key) (prev : Option Entry) (value : String) (options : SetOptions)
    (k : Key) : (s.put now key prev value options).1.contents[k]? =
      if k = key then some (s.written now prev value options)
      else if k ∈ key.ancestors then some (s.contents[k]?.getD (.parent (s.index + 1)))
      else s.contents[k]? := by
  rw [lookup_put_begun, lookup_begun]

/-! ## Edits -/

theorem InOrder.empty : Store.empty.InOrder := by
  have hnone : ∀ k : Key, Store.empty.contents[k]? = none := fun _ => Std.ExtTreeMap.getElem?_empty
  constructor <;>
  · intro k e h
    rw [hnone] at h
    cases h

theorem InOrder.refresh (h : s.InOrder) {key : Key} {e : Entry}
    (present : s.contents[key]? = some e) (lifetime : Option Nat) :
    (s.refresh now key e lifetime).1.InOrder := by
  -- but for its lifetime every entry is one of those before
  have hlook : ∀ (k : Key) (x : Entry), (s.refresh now key e lifetime).1.contents[k]? = some x →
      ∃ y, s.contents[k]? = some y ∧ x.dir = y.dir ∧ x.value = y.value ∧
        x.createdIndex = y.createdIndex ∧ x.modifiedIndex = y.modifiedIndex := by
    intro k x hx
    change (s.contents.insert key _)[k]? = some x at hx
    rw [Key.lookup_insert] at hx
    split_ifs at hx with hk
    · subst hk
      obtain rfl := Option.some.inj hx
      exact ⟨e, present, rfl, rfl, rfl, rfl⟩
    · exact ⟨x, hx, rfl, rfl, rfl, rfl⟩
  refine ⟨fun k x hx => ?_, fun k x hx a ha => ?_, fun k x hx hdir => ?_, fun k x hx => ?_⟩
  · obtain ⟨y, hy, -⟩ := hlook k x hx
    exact h.notRoot k y hy
  · obtain ⟨y, hy, -⟩ := hlook k x hx
    obtain ⟨d, hd, hdir⟩ := h.parents k y hy a ha
    change ∃ d, (s.contents.insert key _)[a]? = some d ∧ _
    rw [Key.lookup_insert]
    split_ifs with hk
    · subst hk
      rw [present] at hd
      obtain rfl := Option.some.inj hd
      exact ⟨_, rfl, hdir⟩
    · exact ⟨d, hd, hdir⟩
  · obtain ⟨y, hy, hdir', hvalue, -⟩ := hlook k x hx
    rw [hvalue]
    exact h.emptyDirs k y hy (hdir'.symm.trans hdir)
  · obtain ⟨y, hy, -, -, hcreated, hmodified⟩ := hlook k x hx
    rw [hcreated, hmodified]
    exact h.indices k y hy

theorem InOrder.drop (h : s.InOrder) (action : Action) (key : Key) (e : Entry) :
    (s.drop now action key e).1.InOrder := by
  have hlook : ∀ (k : Key) (x : Entry), (s.drop now action key e).1.contents[k]? = some x →
      s.contents[k]? = some x ∧ ¬ k.IsWithin key := by
    intro k x hx
    rw [drop_contents, Contents.lookup_prune] at hx
    split_ifs at hx with hin
    exact ⟨hx, hin⟩
  refine ⟨fun k x hx => h.notRoot k x (hlook k x hx).1, fun k x hx a ha => ?_,
    fun k x hx => h.emptyDirs k x (hlook k x hx).1, fun k x hx => ?_⟩
  · obtain ⟨hmem, hout⟩ := hlook k x hx
    obtain ⟨d, hd, hdir⟩ := h.parents k x hmem a ha
    refine ⟨d, ?_, hdir⟩
    rw [drop_contents, Contents.lookup_prune, if_neg, hd]
    exact fun hin => hout ((Key.mem_ancestors.mp ha).1.isWithin.trans hin)
  · have := h.indices k x (hlook k x hx).1
    rw [drop_index]
    omega

theorem exists_dir_begun {key a : Key} (ha : a ∈ key.ancestors)
    (noFile : ∀ a ∈ key.ancestors, ∀ e, s.contents[a]? = some e → e.dir = true) :
    ∃ d, (s.begun key).contents[a]? = some d ∧ d.dir = true := by
  rw [lookup_begun, if_pos ha]
  refine ⟨_, rfl, ?_⟩
  cases hd : s.contents[a]? with
  | none => rfl
  | some d => exact noFile a ha d hd

theorem InOrder.begun (h : s.InOrder) {key : Key}
    (noFile : ∀ a ∈ key.ancestors, ∀ e, s.contents[a]? = some e → e.dir = true) :
    (s.begun key).InOrder := by
  -- every entry is an old one or a new directory above the key
  have hlook : ∀ (k : Key) (x : Entry), (s.begun key).contents[k]? = some x →
      s.contents[k]? = some x ∨ x = .parent (s.index + 1) ∧ k ∈ key.ancestors := by
    intro k x hx
    exact (Contents.lookup_addParents_cases hx).imp_right And.right
  refine ⟨fun k x hx => ?_, fun k x hx a ha => ?_, fun k x hx hdir => ?_, fun k x hx => ?_⟩
  · rcases hlook k x hx with hx | ⟨-, hk⟩
    · exact h.notRoot k x hx
    · exact (Key.mem_ancestors.mp hk).2
  · by_cases hmem : a ∈ key.ancestors
    · exact exists_dir_begun hmem noFile
    rcases hlook k x hx with hx | ⟨-, hk⟩
    · rw [lookup_begun, if_neg hmem]
      exact h.parents k x hx a ha
    · -- what is above one of them is above the key
      have ha := Key.mem_ancestors.mp ha
      have hbelow := (Key.mem_ancestors.mp hk).1.trans_isWithin ha.1.isWithin
      exact absurd (Key.mem_ancestors.mpr ⟨hbelow, ha.2⟩) hmem
  · rcases hlook k x hx with hx | ⟨rfl, -⟩
    · exact h.emptyDirs k x hx hdir
    · rfl
  · change _ ∧ _ ∧ x.modifiedIndex ≤ s.index + 1
    rcases hlook k x hx with hx | ⟨rfl, -⟩
    · have := h.indices k x hx
      omega
    · exact ⟨Nat.succ_le_succ (Nat.zero_le _), Nat.le_refl _, Nat.le_refl _⟩

theorem InOrder.put (h : s.InOrder) {key : Key} (notRoot : key ≠ .root)
    (noDir : ∀ e, s.contents[key]? = some e → e.dir = false)
    (noFile : ∀ a ∈ key.ancestors, ∀ e, s.contents[a]? = some e → e.dir = true)
    (value : String) (options : SetOptions) :
    (s.put now key s.contents[key]? value options).1.InOrder := by
  have hbegun := h.begun noFile
  have hself : key ∉ key.ancestors := fun hmem => (Key.mem_ancestors.mp hmem).1.2 rfl
  refine ⟨fun k x hx => ?_, fun k x hx a ha => ?_, fun k x hx => ?_, fun k x hx => ?_⟩
  · rw [lookup_put_begun] at hx
    split_ifs at hx with hk
    · exact hk ▸ notRoot
    · exact hbegun.notRoot k x hx
  · -- the directory above was there when the write had begun, and is not the key
    obtain ⟨d, hd, hdir⟩ : ∃ d, (s.begun key).contents[a]? = some d ∧ d.dir = true := by
      rw [lookup_put_begun] at hx
      split_ifs at hx with hk
      · exact exists_dir_begun (hk ▸ ha) noFile
      · exact hbegun.parents k x hx a ha
    have hne : a ≠ key := by
      rintro rfl
      rw [lookup_begun, if_neg hself] at hd
      rw [noDir d hd] at hdir
      cases hdir
    rw [lookup_put_begun, if_neg hne]
    exact ⟨d, hd, hdir⟩
  · rw [lookup_put_begun] at hx
    split_ifs at hx with hk
    · obtain rfl := Option.some.inj hx
      exact fun hdir => if_pos hdir
    · exact hbegun.emptyDirs k x hx
  · rw [lookup_put_begun] at hx
    rw [put_index]
    split_ifs at hx with hk
    · obtain rfl := Option.some.inj hx
      refine ⟨?_, ?_, Nat.le_refl _⟩
      · cases hp : s.contents[key]? with
        | none => exact Nat.succ_le_succ (Nat.zero_le _)
        | some p => exact (h.indices key p hp).1
      · cases hp : s.contents[key]? with
        | none => exact Nat.le_refl _
        | some p =>
          have := h.indices key p hp
          change p.createdIndex ≤ s.index + 1
          omega
    · exact hbegun.indices k x hx

/-- **Every edit keeps the entries in order.** -/
theorem Edit.inOrder (edit : Edit now s c s') (h : s.InOrder) : s'.InOrder := by
  cases edit with
  | signal => exact ⟨h.notRoot, h.parents, h.emptyDirs, h.indices⟩
  | refresh present lifetime => exact h.refresh present lifetime
  | drop => exact h.drop _ _ _
  | put notRoot noDir noFile value options => exact h.put notRoot noDir noFile value options

theorem Edits.inOrder {new : List Change} (edits : Edits now s new s') (h : s.InOrder) :
    s'.InOrder :=
  edits.keep (P := fun s _ => s.InOrder) (fun _ _ _ _ edit h => edit.inOrder h) [] h

theorem InOrder.expire (h : s.InOrder) (now : Nat) : (s.expire now).InOrder :=
  (expire_edits s now).inOrder h

theorem InOrder.serve (h : s.InOrder) (now : Nat) (r : Request) : (s.serve now r).1.InOrder :=
  (serve_edits s now r).inOrder h

/-! ## Above and below -/

theorem InOrder.children_eq_nil (h : s.InOrder) (key : Key) : s.contents.children key = [] ↔
    ∀ (k : Key) (e : Entry), s.contents[k]? = some e → ¬ k.IsBelow key := by
  rw [List.eq_nil_iff_forall_not_mem]
  constructor
  · intro hnone k e he hbelow
    obtain ⟨c, hchild, hin⟩ := hbelow.exists_child
    rcases Key.isWithin_iff.mp hin with rfl | hin
    · exact hnone (k, e) (Contents.mem_children.mpr ⟨he, hchild⟩)
    · obtain ⟨d, hd, -⟩ := h.parents k e he c (Key.mem_ancestors.mpr ⟨hin, hchild.1⟩)
      exact hnone (c, d) (Contents.mem_children.mpr ⟨hd, hchild⟩)
  · rintro hnone ⟨k, e⟩ hmem
    obtain ⟨he, hchild⟩ := Contents.mem_children.mp hmem
    exact hnone k e he hchild.isBelow

theorem InOrder.lookup_of_isBelow (h : s.InOrder) {key k : Key} (notRoot : key ≠ .root)
    (noDir : ∀ e, s.contents[key]? = some e → e.dir = false) (below : k.IsBelow key) :
    s.contents[k]? = none := by
  cases hlook : s.contents[k]? with
  | none => rfl
  | some e =>
    obtain ⟨d, hd, hdir⟩ := h.parents k e hlook key (Key.mem_ancestors.mpr ⟨below, notRoot⟩)
    rw [noDir d hd] at hdir
    cases hdir

theorem InOrder.children_of_not_dir (h : s.InOrder) {key : Key} (notRoot : key ≠ .root)
    (noDir : ∀ d, s.contents[key]? = some d → d.dir = false) : s.contents.children key = [] := by
  refine (h.children_eq_nil key).mpr fun k e he hbelow => ?_
  rw [h.lookup_of_isBelow notRoot noDir hbelow] at he
  cases he

end Store

theorem Course.run_inOrder (steps : List Step) : (run steps).store.InOrder :=
  run_keep (P := fun s _ => s.InOrder) .empty (fun _ _ _ _ _ edit h => edit.inOrder h) steps

end ClusterRegistry
