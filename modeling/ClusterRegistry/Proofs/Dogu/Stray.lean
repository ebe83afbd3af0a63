import ClusterRegistry.Proofs.Dogu.Reading

/-!
# Stray pointers

A call to unregister a dogu takes its pointer away from the older catalog first. If the request to
the newer catalog gets lost, the pointer stays there. The dogu is still found, but whether it is
enabled is a question for the older catalog.

* `Store.KeepsAt`, `Store.HasDirAt`: what catalogs keep at their places, and what requests change;
* `Store.Nested`, `Store.IsStray`: directories of both catalogs, and what only the newer one keeps;
* `Registry.Changes`, `Registry.changes_of_does`: what a call changes;
* `Registry.Changes.isStray`, `Registry.Changes.isStray_of`: how strays come and stay;
* `CatalogPair.LeavesBehind`, **`Registry.run_stray`**: the runs that leave pointers behind.
-/

namespace ClusterRegistry

namespace Store

/-! ## Places in a store -/

/-- A catalog keeps something at a place. -/
def KeepsAt (s : Store) (schema : Schema) (place : List Segment) : Prop :=
  s.contents.slots[schema.keyAt place]? ≠ none

/-- A catalog keeps a directory at a place. -/
def HasDirAt (s : Store) (schema : Schema) (place : List Segment) : Prop :=
  ∃ x, s.contents.slots[schema.keyAt place]? = some x ∧ x.dir = true

variable {s s' : Store} {schema other : Schema} {place q : List Segment}

theorem keyAt_mem_ancestors : other.keyAt q ∈ (schema.keyAt place).ancestors ↔
    other = schema ∧ q <+: place ∧ q ≠ place := by
  rw [Schema.mem_ancestors_keyAt]
  constructor
  · rintro ⟨above, heq, habove, hne⟩
    obtain ⟨hschema, rfl⟩ := Schema.keyAt_inj.mp heq
    exact ⟨hschema, habove, hne⟩
  · rintro ⟨rfl, habove, hne⟩
    exact ⟨q, rfl, habove, hne⟩

section Requests

variable {path : String} {response : Response}

theorem hasDirAt_of_delete (hs : s.Lasting)
    (h : s.perform 0 (.delete path {}) = .ok (s', response)) :
    s'.HasDirAt other q ↔ s.HasDirAt other q := by
  obtain ⟨x, hx, hfile⟩ := hs.perform_delete_ok_iff.mp ⟨_, h⟩
  rw [HasDirAt, HasDirAt, hs.lookup_slots_of_delete h]
  split_ifs with hkey
  · rw [hkey, hx]
    simp [hfile]
  · rfl

variable (hpath : Key.ofPath path = schema.keyAt place)

include hpath

theorem keepsAt_of_set {value : String}
    (h : s.perform 0 (.set path value {}) = .ok (s', response)) :
    s'.KeepsAt other q ↔ s.KeepsAt other q ∨ other = schema ∧ q <+: place := by
  rw [KeepsAt, KeepsAt, lookup_slots_of_set h, hpath]
  split_ifs with hkey hanc
  · obtain ⟨hschema, rfl⟩ := Schema.keyAt_inj.mp hkey
    exact iff_of_true (Option.some_ne_none _) (.inr ⟨hschema, List.prefix_rfl⟩)
  · obtain ⟨hschema, habove, -⟩ := keyAt_mem_ancestors.mp hanc
    exact iff_of_true (Option.some_ne_none _) (.inr ⟨hschema, habove⟩)
  · refine (or_iff_left ?_).symm
    rintro ⟨hschema, habove⟩
    have hne : q ≠ place := fun hq => hkey (Schema.keyAt_inj.mpr ⟨hschema, hq⟩)
    exact hanc (keyAt_mem_ancestors.mpr ⟨hschema, habove, hne⟩)

theorem hasDirAt_of_set {value : String}
    (h : s.perform 0 (.set path value {}) = .ok (s', response)) :
    s'.HasDirAt other q ↔ s.HasDirAt other q ∨ other = schema ∧ q <+: place ∧ q ≠ place := by
  obtain ⟨-, hfile, hdirs⟩ := perform_set_ok_iff.mp ⟨_, h⟩
  rw [hpath] at hfile hdirs
  rw [HasDirAt, HasDirAt, lookup_slots_of_set h, hpath, ← keyAt_mem_ancestors]
  split_ifs with hkey hanc
  · have hnot : other.keyAt q ∉ (schema.keyAt place).ancestors := fun hmem =>
      (keyAt_mem_ancestors.mp hmem).2.2 (Schema.keyAt_inj.mp hkey).2
    refine iff_of_false (fun ⟨x, hx, hdir⟩ => ?_) (not_or.mpr ⟨fun ⟨x, hx, hdir⟩ => ?_, hnot⟩)
    · obtain rfl := Option.some.inj hx
      cases hdir
    · rw [hfile x (hkey ▸ hx)] at hdir
      cases hdir
  · refine iff_of_true ⟨_, rfl, ?_⟩ (.inr hanc)
    cases hslot : s.contents.slots[other.keyAt q]? with
    | none => rfl
    | some x => exact hdirs _ hanc x hslot
  · exact (or_iff_left hanc).symm

theorem keepsAt_of_delete (hs : s.Lasting)
    (h : s.perform 0 (.delete path {}) = .ok (s', response)) :
    s'.KeepsAt other q ↔ s.KeepsAt other q ∧ ¬ (other = schema ∧ q = place) := by
  rw [← Schema.keyAt_inj, KeepsAt, KeepsAt, hs.lookup_slots_of_delete h, hpath]
  split_ifs with hkey
  · simp [hkey]
  · simp [hkey]

end Requests

/-- Every directory of the newer catalog is one of the older catalog. -/
def Nested (s : Store) : Prop := ∀ place, s.HasDirAt .v2 place → s.HasDirAt .v1 place

/-- The newer catalog keeps something at a place, and the older one keeps nothing there. -/
def IsStray (s : Store) (place : List Segment) : Prop :=
  s.KeepsAt .v2 place ∧ ¬ s.KeepsAt .v1 place

theorem Nested.empty : Store.empty.Nested := by
  rintro place ⟨x, hx, -⟩
  rw [lookup_slots_empty] at hx
  cases hx

end Store

/-! ## Requests of calls -/

namespace Registry

variable (r : Registry) {s s' : Store} {schema other : Schema} {q : List Segment}
  {call : CatalogCall} {name : String} {response : Response}

section Requests

variable {r}

theorem keepsAt_of_writes (writes : call.Writes)
    (h : s.perform 0 ((r.catalogOf schema).request call) = .ok (s', response)) :
    s'.KeepsAt other q ↔ s.KeepsAt other q ∨ other = schema ∧ q <+: call.place := by
  obtain ⟨value, hrequest⟩ := (r.catalogOf schema).request_of_writes writes
  rw [hrequest] at h
  exact Store.keepsAt_of_set (r.ofPath_target schema call) h

theorem hasDirAt_of_writes (writes : call.Writes)
    (h : s.perform 0 ((r.catalogOf schema).request call) = .ok (s', response)) :
    s'.HasDirAt other q ↔
      s.HasDirAt other q ∨ other = schema ∧ q <+: call.place ∧ q ≠ call.place := by
  obtain ⟨value, hrequest⟩ := (r.catalogOf schema).request_of_writes writes
  rw [hrequest] at h
  exact Store.hasDirAt_of_set (r.ofPath_target schema call) h

variable (hs : s.Lasting)

include hs

theorem unregister_ok_iff :
    (∃ answer, s.perform 0 ((r.catalogOf schema).request (.unregister name)) = .ok answer) ↔
      s.KeepsAt schema (Catalog.pointerPlace name) ∧
        ¬ s.HasDirAt schema (Catalog.pointerPlace name) := by
  refine hs.perform_delete_ok_iff.trans ?_
  rw [ofPath_currentPath, Slots.HasFile, Store.KeepsAt, Store.HasDirAt]
  cases s.contents.slots[schema.keyAt (Catalog.pointerPlace name)]? <;> simp

theorem hasDirAt_of_refused {refusal : Refusal}
    (h : s.perform 0 ((r.catalogOf schema).request (.unregister name)) = .error refusal)
    (kept : s.KeepsAt schema (Catalog.pointerPlace name)) :
    s.HasDirAt schema (Catalog.pointerPlace name) := by
  by_contra hfile
  have hok : ∃ answer, s.perform 0 ((r.catalogOf schema).request (.unregister name)) = .ok answer :=
    (unregister_ok_iff hs).mpr ⟨kept, hfile⟩
  obtain ⟨answer, hanswer⟩ := hok
  rw [h] at hanswer
  cases hanswer

variable (h : s.perform 0 ((r.catalogOf schema).request (.unregister name)) = .ok (s', response))

include h

theorem keepsAt_of_unregister : s'.KeepsAt other q ↔
    s.KeepsAt other q ∧ ¬ (other = schema ∧ q = Catalog.pointerPlace name) :=
  Store.keepsAt_of_delete (r.ofPath_target schema (.unregister name)) hs h

theorem hasDirAt_of_unregister : s'.HasDirAt other q ↔ s.HasDirAt other q :=
  Store.hasDirAt_of_delete hs h

end Requests

/-! ## Calls -/

variable {l l' : Link}

/-- What a call changes at the places of both catalogs. -/
inductive Changes (call : CatalogCall) (l l' : Link) : Prop
  | nothing (kept : l'.store = l.store)
  | written (both : Prop)
      (older : ∀ q, l'.store.KeepsAt .v1 q ↔ l.store.KeepsAt .v1 q ∨ q <+: call.place)
      (newer : ∀ q, l'.store.KeepsAt .v2 q ↔ l.store.KeepsAt .v2 q ∨ both ∧ q <+: call.place)
      (dirs : ∀ q, l'.store.HasDirAt .v1 q ↔
        l.store.HasDirAt .v1 q ∨ q <+: call.place ∧ q ≠ call.place)
      (dirs' : ∀ q, l'.store.HasDirAt .v2 q ↔
        l.store.HasDirAt .v2 q ∨ both ∧ q <+: call.place ∧ q ≠ call.place)
  | removed {name : String} (both : Prop) (unregisters : call = .unregister name)
      (found : l.store.KeepsAt .v1 call.place ∧ ¬ l.store.HasDirAt .v1 call.place)
      (older : ∀ q, l'.store.KeepsAt .v1 q ↔ l.store.KeepsAt .v1 q ∧ q ≠ call.place)
      (newer : ∀ q, l'.store.KeepsAt .v2 q ↔ l.store.KeepsAt .v2 q ∧ ¬ (both ∧ q = call.place))
      (dirs : ∀ schema q, l'.store.HasDirAt schema q ↔ l.store.HasDirAt schema q)
      (why : both ∨ l.Loses l' ∨
        (l.store.KeepsAt .v2 call.place → l.store.HasDirAt .v2 call.place))

theorem changes_of_does {res : Except Failure Unit × Link} (h : r.catalogs.Does call l res)
    (hl : l.store.Lasting) : Changes call l res.2 := by
  cases h with
  | neither kept => exact .nothing kept
  | @half l' f response usable older why =>
    have holder : l.store.perform 0 ((r.catalogOf .v1).request call) = .ok (l'.store, response) :=
      older
    rcases call.writes_or with writes | ⟨name, rfl⟩
    · refine .written False (fun q => ?_) (fun q => ?_) (fun q => ?_) fun q => ?_
      · simp [keepsAt_of_writes writes holder]
      · simp [keepsAt_of_writes writes holder]
      · simp [hasDirAt_of_writes writes holder]
      · simp [hasDirAt_of_writes writes holder]
    · refine .removed False rfl ((unregister_ok_iff hl).mp ⟨_, holder⟩) (fun q => ?_) (fun q => ?_)
        (fun schema q => hasDirAt_of_unregister hl holder) (.inr ?_)
      · simp [keepsAt_of_unregister hl holder, CatalogCall.place]
      · simp [keepsAt_of_unregister hl holder]
      · rcases why with hfault | hloses | ⟨refusal, hrefused⟩
        · exact absurd usable hfault
        · exact .inl hloses
        · have hl' : l'.store.Lasting := hl.perform (r.catalogs.older.request_isLasting _) older
          refine .inr fun hkept => (hasDirAt_of_unregister hl holder).mp ?_
          have hrefused' : l'.store.perform 0 ((r.catalogOf .v2).request (.unregister name)) =
              .error refusal := hrefused
          refine hasDirAt_of_refused hl' hrefused' ?_
          exact (keepsAt_of_unregister hl holder).mpr ⟨hkept, by simp⟩
  | @both s l' response response' older newer =>
    have holder : l.store.perform 0 ((r.catalogOf .v1).request call) = .ok (s, response) := older
    have hnewer : s.perform 0 ((r.catalogOf .v2).request call) = .ok (l'.store, response') := newer
    rcases call.writes_or with writes | ⟨name, rfl⟩
    · refine .written True (fun q => ?_) (fun q => ?_) (fun q => ?_) fun q => ?_
      · simp [keepsAt_of_writes writes hnewer, keepsAt_of_writes writes holder]
      · simp [keepsAt_of_writes writes hnewer, keepsAt_of_writes writes holder]
      · simp [hasDirAt_of_writes writes hnewer, hasDirAt_of_writes writes holder]
      · simp [hasDirAt_of_writes writes hnewer, hasDirAt_of_writes writes holder]
    · have hs : s.Lasting := hl.perform (r.catalogs.older.request_isLasting _) older
      refine .removed True rfl ((unregister_ok_iff hl).mp ⟨_, holder⟩) (fun q => ?_) (fun q => ?_)
        (fun schema q => ?_) (.inl trivial)
      · simp [keepsAt_of_unregister hs hnewer, keepsAt_of_unregister hl holder, CatalogCall.place]
      · simp [keepsAt_of_unregister hs hnewer, keepsAt_of_unregister hl holder, CatalogCall.place]
      · rw [hasDirAt_of_unregister hs hnewer, hasDirAt_of_unregister hl holder]

/-- **A call keeps the directories of the newer catalog among those of the older one.** -/
theorem Changes.nested (h : Changes call l l') (nested : l.store.Nested) : l'.store.Nested := by
  intro q hdir
  cases h with
  | nothing kept =>
    rw [kept] at hdir ⊢
    exact nested q hdir
  | written both _ _ dirs dirs' =>
    rw [dirs]
    exact ((dirs' q).mp hdir).imp (nested q) And.right
  | removed both _ _ _ _ dirs =>
    rw [dirs] at hdir ⊢
    exact nested q hdir

/-- **Only a call to unregister a dogu that loses its request to the newer catalog makes a stray.** -/
theorem Changes.isStray (h : Changes call l l') (nested : l.store.Nested)
    (stray : l'.store.IsStray q) : l.store.IsStray q ∨ (∃ name, call = .unregister name) ∧
      call.place = q ∧ l.store.KeepsAt .v1 q ∧ l.Loses l' := by
  obtain ⟨hkept, hnot⟩ := stray
  cases h with
  | nothing kept =>
    rw [kept] at hkept hnot
    exact .inl ⟨hkept, hnot⟩
  | written both older newer =>
    rw [older, not_or] at hnot
    rw [newer] at hkept
    exact .inl ⟨hkept.resolve_right fun h => hnot.2 h.2, hnot.1⟩
  | @removed name both unregisters found older newer _ why =>
    rw [older] at hnot
    obtain ⟨hkept, hplace⟩ := (newer q).mp hkept
    by_cases hq : q = call.place
    · subst hq
      refine .inr ⟨⟨name, unregisters⟩, rfl, found.1, ?_⟩
      -- the newer catalog has a file there as well, and would not have refused
      rcases why with hboth | hloses | hdir
      · exact absurd ⟨hboth, rfl⟩ hplace
      · exact hloses
      · exact absurd (nested _ (hdir hkept)) found.2
    · exact .inl ⟨hkept, fun h => hnot ⟨h, hq⟩⟩

/-- **A stray stays as long as the older catalog does not get anything at its place.** -/
theorem Changes.isStray_of (h : Changes call l l') (stray : l.store.IsStray q)
    (hnot : ¬ l'.store.KeepsAt .v1 q) : l'.store.IsStray q := by
  obtain ⟨hkept, hnone⟩ := stray
  refine ⟨?_, hnot⟩
  cases h with
  | nothing kept => exact kept ▸ hkept
  | written both _ newer => exact (newer q).mpr (.inl hkept)
  | removed both _ found _ newer =>
    refine (newer q).mpr ⟨hkept, fun ⟨_, hplace⟩ => hnone ?_⟩
    exact hplace ▸ found.1

end Registry

/-! ## Runs -/

/-- A call to unregister a dogu took its pointer away from the older catalog and lost a request, so
that the newer catalog has kept one. Since then the older catalog has had none. -/
def CatalogPair.LeavesBehind (p : CatalogPair) (calls : List CatalogCall) (l : Link)
    (name : String) : Prop :=
  ∃ before other after, calls = before ++ .unregister other :: after ∧
    Dogu.simpleNameOf other = Dogu.simpleNameOf name ∧
    p.older.HasPointer name (p.run before l).store ∧
    (p.run before l).Loses (p.run (before ++ [.unregister other]) l) ∧
    p.newer.HasPointer name (p.run (before ++ [.unregister other]) l).store ∧
    ∀ rest, rest <+: after →
      ¬ p.older.HasPointer name (p.run (before ++ .unregister other :: rest) l).store

namespace Registry

variable (r : Registry) {l : Link} {name : String}

theorem hasPointer_iff (schema : Schema) {s : Store} : (r.catalogOf schema).HasPointer name s ↔
    s.KeepsAt schema (Catalog.pointerPlace name) := by
  rw [Catalog.HasPointer, ofPath_currentPath]
  rfl

theorem run_nested (calls : List CatalogCall) (h : l.store.Lasting) (nested : l.store.Nested) :
    (r.catalogs.run calls l).store.Nested := by
  induction calls generalizing l with
  | nil => exact nested
  | cons call rest ih =>
    have hdoes := r.catalogs.operate_does call h
    exact ih (hdoes.lasting h) ((r.changes_of_does hdoes h).nested nested)

theorem run_changes (calls : List CatalogCall) (call : CatalogCall) (h : l.store.Lasting) :
    Changes call (r.catalogs.run calls l) (r.catalogs.run (calls ++ [call]) l) := by
  have hlasting := r.catalogs.run_lasting calls h
  rw [CatalogPair.run_append]
  exact r.changes_of_does (r.catalogs.operate_does call hlasting) hlasting

theorem leavesBehind_of_isStray (calls : List CatalogCall) (passages : List Passage)
    (stray : (r.catalogs.run calls { passages := passages }).store.IsStray
      (Catalog.pointerPlace name)) :
    r.catalogs.LeavesBehind calls { passages := passages } name := by
  induction calls using List.reverseRecOn with
  | nil => exact absurd (Store.lookup_slots_empty _) stray.1
  | append_singleton calls call ih =>
    have hchanges := r.run_changes calls call (l := { passages := passages }) .empty
    have hnested := r.run_nested calls (l := { passages := passages }) .empty .empty
    rcases hchanges.isStray hnested stray with hstray | ⟨⟨other, rfl⟩, hplace, hkept, hloses⟩
    · obtain ⟨before, other, after, rfl, hname, holder, hloses, hnewer, hnone⟩ := ih hstray
      refine ⟨before, other, after ++ [call], by simp, hname, holder, hloses, hnewer,
        fun rest hrest => ?_⟩
      rcases List.prefix_concat_iff.mp hrest with rfl | hrest
      · rw [List.append_assoc, List.cons_append] at stray
        exact (r.hasPointer_iff .v1).not.mpr stray.2
      · exact hnone rest hrest
    · have hname : Dogu.simpleNameOf other = Dogu.simpleNameOf name :=
        Dogu.simpleNameOf_eq_of_segments (List.append_cancel_right hplace)
      refine ⟨calls, other, [], rfl, hname, (r.hasPointer_iff .v1).mpr hkept, hloses,
        (r.hasPointer_iff .v2).mpr stray.1, fun rest hrest => ?_⟩
      obtain rfl := List.prefix_nil.mp hrest
      exact (r.hasPointer_iff .v1).not.mpr stray.2

theorem isStray_of_leavesBehind (calls : List CatalogCall) (h : l.store.Lasting)
    (behind : r.catalogs.LeavesBehind calls l name) :
    (r.catalogs.run calls l).store.IsStray (Catalog.pointerPlace name) := by
  obtain ⟨before, other, after, rfl, -, -, -, hnewer, hnone⟩ := behind
  have hstray : ∀ rest, rest <+: after → (r.catalogs.run (before ++ .unregister other :: rest)
      l).store.IsStray (Catalog.pointerPlace name) := by
    intro rest hrest
    have hgone := (r.hasPointer_iff .v1).not.mp (hnone rest hrest)
    induction rest using List.reverseRecOn with
    | nil => exact ⟨(r.hasPointer_iff .v2).mp hnewer, hgone⟩
    | append_singleton rest call ih =>
      have hshorter : rest <+: after := (List.prefix_append rest [call]).trans hrest
      have hbefore := ih hshorter ((r.hasPointer_iff .v1).not.mp (hnone rest hshorter))
      have hchanges := r.run_changes (before ++ .unregister other :: rest) call h
      rw [List.append_assoc, List.cons_append] at hchanges
      exact hchanges.isStray_of hbefore hgone
  exact hstray after List.prefix_rfl

/-- Whether a dogu is enabled hangs on the pointer in the older catalog. -/
theorem isEnabled_iff (h : l.store.Lasting) (calm : l.IsCalm) (b : Bool) :
    (l.perform (r.catalogs.isEnabled name)).1 = .ok b ↔ r.client.retry.fault? = none ∧
      (r.catalogs.older.HasPointer name l.store ↔ b = true) := by
  have hclient : r.catalogs.older.client = r.client := rfl
  have hroot : Key.ofPath (r.catalogs.older.currentPath name) ≠ .root :=
    r.currentPath_ne_root .v1 name
  rw [CatalogPair.isEnabled, r.catalogs.older.isEnabled_calm name h calm hroot, hclient,
    Catalog.HasPointer]
  cases r.client.retry.fault? with
  | some reason => simp
  | none => cases l.store.contents.slots[Key.ofPath (r.catalogs.older.currentPath name)]? <;>
      cases b <;> simp

/-- What is found in one of the catalogs is enabled, or only the newer one has a pointer. -/
theorem isEnabled_of_findIn (h : l.store.Lasting) (calm : l.IsCalm) {d : Dogu}
    (found : r.catalogs.newer.findIn name l.store = .ok d ∨
      r.catalogs.older.findIn name l.store = .ok d) :
    (l.perform (r.catalogs.isEnabled name)).1 = .ok true ∨
      (l.perform (r.catalogs.isEnabled name)).1 = .ok false ∧
        r.catalogs.newer.HasPointer name l.store ∧ ¬ r.catalogs.older.HasPointer name l.store := by
  rw [r.isEnabled_iff h calm, r.isEnabled_iff h calm]
  rcases found with hd | hd
  · obtain ⟨usable, hnewer⟩ :=
      Catalog.hasPointer_of_findIn (c := r.catalogs.newer) (r.currentPath_ne_root .v2 name) hd
    by_cases holder : r.catalogs.older.HasPointer name l.store
    · exact .inl ⟨usable, by simp [holder]⟩
    · exact .inr ⟨⟨usable, by simp [holder]⟩, hnewer, holder⟩
  · obtain ⟨usable, holder⟩ :=
      Catalog.hasPointer_of_findIn (c := r.catalogs.older) (r.currentPath_ne_root .v1 name) hd
    exact .inl ⟨usable, by simp [holder]⟩

theorem hasPointer_iff_leavesBehind (calls : List CatalogCall) (passages : List Passage) :
    let start : Link := { passages := passages }
    r.catalogs.newer.HasPointer name (r.catalogs.run calls start).store ∧
      ¬ r.catalogs.older.HasPointer name (r.catalogs.run calls start).store ↔
        r.catalogs.LeavesBehind calls start name := by
  intro start
  constructor
  · rintro ⟨hnewer, holder⟩
    exact r.leavesBehind_of_isStray calls passages
      ⟨(r.hasPointer_iff .v2).mp hnewer, (r.hasPointer_iff .v1).not.mp holder⟩
  · intro h
    obtain ⟨hnewer, holder⟩ := r.isStray_of_leavesBehind calls .empty h
    exact ⟨(r.hasPointer_iff .v2).mpr hnewer, (r.hasPointer_iff .v1).not.mpr holder⟩

/-- **The newer catalog has a pointer that the older one does not have, just when a call to
unregister the dogu has left it behind.** Only then is a dogu found that is not enabled, and all
dogus that are listed are enabled or were left behind. -/
theorem run_stray (passages : List Passage) (calls : List CatalogCall) (pauses : List Nat) :
    let start : Link := { passages := passages }
    let l := (r.catalogs.run calls start).undisturbed pauses
    (∀ name, r.catalogs.newer.HasPointer name l.store ∧ ¬ r.catalogs.older.HasPointer name l.store ↔
      r.catalogs.LeavesBehind calls start name) ∧
    (∀ name d, (l.perform (r.catalogs.find name)).1 = .ok d →
      (l.perform (r.catalogs.isEnabled name)).1 = .ok true ∨
        (l.perform (r.catalogs.isEnabled name)).1 = .ok false ∧
          r.catalogs.LeavesBehind calls start name) ∧
    ∀ ds, (l.perform r.catalogs.findAll).1 = .ok ds → ∀ d ∈ ds, ∃ name,
      ((l.perform (r.catalogs.newer.find name)).1 = .ok d ∨
        (l.perform (r.catalogs.older.find name)).1 = .ok d) ∧
      ((l.perform (r.catalogs.isEnabled name)).1 = .ok true ∨
        (l.perform (r.catalogs.isEnabled name)).1 = .ok false ∧
          r.catalogs.LeavesBehind calls start name) := by
  intro start l
  have hlasting : l.store.Lasting := r.catalogs.run_lasting calls .empty
  have hcalm : l.IsCalm := (r.catalogs.run calls start).undisturbed_isCalm pauses
  have hbehind : ∀ name, r.catalogs.newer.HasPointer name l.store ∧
      ¬ r.catalogs.older.HasPointer name l.store ↔ r.catalogs.LeavesBehind calls start name :=
    fun name => r.hasPointer_iff_leavesBehind calls passages
  refine ⟨hbehind, fun name d hd => ?_, fun ds hds d hd => ?_⟩
  · rw [← hbehind]
    refine r.isEnabled_of_findIn hlasting hcalm (d := d) ?_
    rw [r.catalogs.find_calm name hlasting hcalm, CatalogPair.findIn] at hd
    split at hd
    · rename_i hnewer
      exact .inl (hd ▸ hnewer)
    · split_ifs at hd
      exact .inr hd
  · obtain ⟨name, hname⟩ := r.catalogs.findAll_calm hlasting hcalm ds hds d hd
    refine ⟨name, ?_, ?_⟩
    · rw [(Catalog.find_calm _ name hlasting hcalm).1, (Catalog.find_calm _ name hlasting hcalm).1]
      exact hname
    · rw [← hbehind]
      exact r.isEnabled_of_findIn hlasting hcalm hname

/-- After a lost request, a dogu is found and listed, but not enabled. -/
theorem found_not_enabled :
    let r : Registry := ⟨⟨.constant 0 0, 1000, 1⟩⟩
    let d : Dogu := { name := "official/nginx", version := "1.0" }
    let lost : Passage := { failure := some (.timedOut 0) }
    let l := r.catalogs.run [.register d, .enable d, .unregister "nginx"]
      { passages := [{}, {}, {}, {}, {}, lost] }
    r.catalogs.newer.HasPointer "nginx" l.store ∧ ¬ r.catalogs.older.HasPointer "nginx" l.store ∧
      (l.perform (r.catalogs.isEnabled "nginx")).1 = .ok false ∧
      (l.perform (r.catalogs.find "nginx")).1 = .ok d ∧
      (l.perform r.catalogs.findAll).1 = .ok [d] := by
  unfold Catalog.HasPointer
  decide +kernel

end Registry

end ClusterRegistry
