import ClusterRegistry.Proofs.Store.Refinement

/-!
# Stores without lifetimes

As long as nobody sets a lifetime, it does not matter when a request reaches the store. Plain writes
and removals are then described by what is kept before and after.

* `Store.Lasting`, `Request.IsLasting`, `Store.perform_at`: no lifetimes, and so no time;
* `Slots.Admits`, `Slots.HasFile`: where a plain write or removal is accepted;
* **`Store.lookup_slots_of_set`**, **`Store.Lasting.lookup_slots_of_delete`**: what both leave behind;
* `Store.perform_delete_of_none`: the removal of what is not there.
-/

namespace ClusterRegistry

/-- A request that gives no lifetime. -/
def Request.IsLasting : Request → Prop
  | .set _ _ options => options.lifetime = none
  | .get _ _ | .delete _ _ => True

/-- A store in order in which nothing has a lifetime. -/
structure Store.Lasting (s : Store) : Prop where
  inOrder : s.InOrder
  endless : ∀ (k : Key) (e : Entry), s.contents[k]? = some e → e.deadline = none

/-! ## Time does not matter -/

namespace Store

variable {s s' : Store} {r : Request} {response : Response}

theorem Lasting.empty : Store.empty.Lasting where
  inOrder := .empty
  endless k e h := by
    have hnone : Store.empty.contents[k]? = none := Std.ExtTreeMap.getElem?_empty
    rw [hnone] at h
    cases h

theorem lookup_slots_empty (k : Key) : Store.empty.contents.slots[k]? = none :=
  Contents.lookup_slots_eq_none.mpr Std.ExtTreeMap.getElem?_empty

theorem Lasting.expire (h : s.Lasting) (now : Nat) : s.expire now = s := by
  refine expire_eq_self fun k e he hdue => ?_
  obtain ⟨d, hd, -⟩ := hdue
  rw [h.endless k e he] at hd
  cases hd

theorem snapshot_at {e : Entry} (h : e.deadline = none) (now now' : Nat) :
    e.snapshot now = e.snapshot now' := by
  simp [Entry.snapshot, h]

theorem Lasting.childNodes_at (h : s.Lasting) (now now' depth : Nat) (key : Key) :
    s.contents.childNodes now depth key = s.contents.childNodes now' depth key := by
  induction depth generalizing key with
  | zero =>
    refine List.map_congr_left fun p hp => ?_
    have hlook := (Contents.mem_children.mp hp).1
    exact congrArg (fun x => x.node p.1 []) (snapshot_at (h.endless _ _ hlook) now now')
  | succ depth ih =>
    refine List.map_congr_left fun p hp => ?_
    have hlook := (Contents.mem_children.mp hp).1
    have hsnap := snapshot_at (h.endless _ _ hlook) now now'
    dsimp only
    rw [ih, hsnap]

theorem Lasting.read_at (h : s.Lasting) (now now' : Nat) (path : String) (options : GetOptions) :
    s.read now path options = s.read now' path options := by
  unfold read
  dsimp only
  rw [h.childNodes_at now now']
  split
  · rfl
  · cases hlook : s.contents[Key.ofPath path]? with
    | none => rfl
    | some e =>
      dsimp only
      rw [snapshot_at (h.endless _ _ hlook) now now']

theorem Lasting.write_at (h : s.Lasting) {options : SetOptions} (lasting : options.lifetime = none)
    (now now' : Nat) (path value : String) :
    s.write now path value options = s.write now' path value options := by
  have hput : s.put now (.ofPath path) s.contents[Key.ofPath path]? value options =
      s.put now' (.ofPath path) s.contents[Key.ofPath path]? value options := by
    unfold put
    cases hlook : s.contents[Key.ofPath path]? with
    | none => simp [lasting, Entry.snapshot]
    | some e => simp [lasting, Entry.snapshot, h.endless _ e hlook]
  have hrefresh : ∀ e, s.contents[Key.ofPath path]? = some e →
      s.refresh now (.ofPath path) e options.lifetime =
        s.refresh now' (.ofPath path) e options.lifetime := by
    intro e he
    simp [refresh, lasting, Entry.snapshot, h.endless _ e he]
  unfold write
  dsimp only
  rw [hput]
  cases hlook : s.contents[Key.ofPath path]? with
  | none => rfl
  | some e =>
    dsimp only
    rw [hrefresh e hlook]

theorem Lasting.remove_at (h : s.Lasting) (now now' : Nat) (path : String)
    (options : DeleteOptions) : s.remove now path options = s.remove now' path options := by
  unfold remove
  dsimp only
  cases hlook : s.contents[Key.ofPath path]? with
  | none => rfl
  | some e =>
    have hdrop : s.drop now .delete (.ofPath path) e = s.drop now' .delete (.ofPath path) e := by
      simp [drop, snapshot_at (h.endless _ e hlook) now now']
    dsimp only
    rw [hdrop]

/-- **Without lifetimes, the answer is the same at any time.** -/
theorem Lasting.perform_at (h : s.Lasting) (lasting : r.IsLasting) (now now' : Nat) :
    s.perform now r = s.perform now' r := by
  cases r with
  | get path options =>
    exact congrArg (Except.map (s, ·)) (h.read_at now now' path options)
  | set path value options => exact h.write_at lasting now now' path value
  | delete path options => exact h.remove_at now now' path options

theorem Lasting.perform (h : s.Lasting) (lasting : r.IsLasting) {now : Nat}
    (hok : s.perform now r = .ok (s', response)) : s'.Lasting := by
  have hout := perform_outcome s now r
  rw [hok] at hout
  refine ⟨hout.edits.inOrder h.inOrder, fun k e he => ?_⟩
  cases hout with
  | shown => exact h.endless k e he
  | @refreshed path value options x present =>
    replace he : (s.contents.insert (.ofPath path) _)[k]? = some e := he
    rw [Key.lookup_insert] at he
    split_ifs at he
    · obtain rfl := Option.some.inj he
      exact congrArg (Option.map _) lasting
    · exact h.endless k e he
  | @put path value options =>
    rw [lookup_put] at he
    split_ifs at he
    · obtain rfl := Option.some.inj he
      exact congrArg (Option.map _) lasting
    · obtain rfl := Option.some.inj he
      cases hk : s.contents[k]? with
      | none => rfl
      | some x => exact h.endless k x hk
    · exact h.endless k e he
  | @dropped path options x =>
    replace he : ((s.drop now .delete (.ofPath path) x).1.contents)[k]? = some e := he
    rw [drop_contents, Contents.lookup_prune] at he
    split_ifs at he
    exact h.endless k e he

end Store

/-! ## Plain writes and removals -/

/-- A plain write is accepted: it is not for the root, a directory or anything below a file. -/
def Slots.Admits (slots : Slots) (key : Key) : Prop :=
  key ≠ .root ∧ (∀ x, slots[key]? = some x → x.dir = false) ∧
    ∀ a ∈ key.ancestors, ∀ x, slots[a]? = some x → x.dir = true

/-- A plain removal is accepted: there is a file. -/
def Slots.HasFile (slots : Slots) (key : Key) : Prop := ∃ x, slots[key]? = some x ∧ x.dir = false

namespace Store

variable {s s' : Store} {now : Nat} {path value : String} {response : Response}

theorem forall_slot_dir (s : Store) (k : Key) (b : Bool) :
    (∀ x, s.contents.slots[k]? = some x → x.dir = b) ↔
      ∀ e, s.contents[k]? = some e → e.dir = b := by
  rw [Contents.lookup_slots]
  cases s.contents[k]? <;> simp [Entry.slot]

theorem perform_set_ok_iff : (∃ answer, s.perform now (.set path value {}) = .ok answer) ↔
    s.contents.slots.Admits (.ofPath path) := by
  have hwrite : (∃ answer, s.write now path value {} = .ok answer) ↔ _ := write_ok_iff
  refine hwrite.trans ?_
  simp [Slots.Admits, forall_slot_dir]

theorem Lasting.perform_delete_ok_iff (h : s.Lasting) :
    (∃ answer, s.perform now (.delete path {}) = .ok answer) ↔
      s.contents.slots.HasFile (.ofPath path) := by
  have hremove : (∃ answer, s.remove now path {} = .ok answer) ↔ _ := remove_ok_iff
  refine hremove.trans ?_
  rw [Slots.HasFile, Contents.lookup_slots]
  cases he : s.contents[Key.ofPath path]? with
  | none => simp
  | some e =>
    have := h.inOrder.notRoot _ e he
    simp [Entry.slot, this]

theorem perform_delete_of_none (now : Nat) (notRoot : Key.ofPath path ≠ .root)
    (h : s.contents.slots[Key.ofPath path]? = none) : s.perform now (.delete path {}) =
      .error (.ofCode Refusal.keyNotFound (Key.ofPath path).text s.index) := by
  change s.remove now path {} = _
  unfold remove
  dsimp only
  rw [if_neg notRoot, Contents.lookup_slots_eq_none.mp h]
  rfl

/-- **A plain write leaves its value at the key and directories above it.** -/
theorem lookup_slots_of_set (h : s.perform now (.set path value {}) = .ok (s', response))
    (k : Key) : s'.contents.slots[k]? = if k = .ofPath path then some ⟨false, value, none⟩
      else if k ∈ (Key.ofPath path).ancestors then some (s.contents.slots[k]?.getD ⟨true, "", none⟩)
      else s.contents.slots[k]? := by
  have hout := perform_outcome s now (.set path value {})
  rw [h] at hout
  cases hout with
  | refreshed present asked => cases asked
  | put =>
    rw [Contents.lookup_slots, Contents.lookup_slots, lookup_put]
    split_ifs
    · rfl
    · cases s.contents[k]? <;> rfl
    · rfl

/-- **A plain removal leaves everything but the key.** -/
theorem Lasting.lookup_slots_of_delete (hs : s.Lasting)
    (h : s.perform now (.delete path {}) = .ok (s', response)) (k : Key) :
    s'.contents.slots[k]? = if k = .ofPath path then none else s.contents.slots[k]? := by
  obtain ⟨x, hx, hfile⟩ := hs.perform_delete_ok_iff.mp ⟨_, h⟩
  have hout := perform_outcome s now (.delete path {})
  rw [h] at hout
  cases hout with
  | @dropped _ _ e present =>
    have hlook : (s.drop now .delete (.ofPath path) e).1.signal.contents[k]? =
        if k.IsWithin (.ofPath path) then none else s.contents[k]? := by
      change (s.drop now .delete (.ofPath path) e).1.contents[k]? = _
      rw [drop_contents, Contents.lookup_prune]
    rw [Contents.lookup_slots, Contents.lookup_slots, hlook]
    by_cases hk : k = .ofPath path
    · rw [if_pos hk, if_pos (hk ▸ .refl _)]
      rfl
    · rw [if_neg hk]
      -- nothing stands below a file
      by_cases hin : k.IsWithin (.ofPath path)
      · rw [if_pos hin]
        have hbelow := (Key.isWithin_iff.mp hin).resolve_left hk
        cases hek : s.contents[k]? with
        | none => rfl
        | some y =>
          have hanc := Key.mem_ancestors.mpr ⟨hbelow, hs.inOrder.notRoot _ e present⟩
          obtain ⟨d, hd, hdir⟩ := hs.inOrder.parents k y hek _ hanc
          rw [Contents.lookup_slots, hd] at hx
          obtain rfl := Option.some.inj hx
          rw [show d.slot.dir = d.dir from rfl, hdir] at hfile
          cases hfile
      · rw [if_neg hin]

end Store

end ClusterRegistry
