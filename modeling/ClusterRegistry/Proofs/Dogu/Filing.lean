import ClusterRegistry.Proofs.Client.Wire
import ClusterRegistry.Proofs.Dogu.Listing
import ClusterRegistry.Proofs.Dogu.Roster

/-!
# Where descriptions are filed

Whatever becomes of the requests of calls, descriptions stay below the simple names of their dogus
and pointers name versions. So a listing and a search see the same dogus.

* `CatalogCall.Files`, `CatalogPair.runOn`: calls of which any request may fail;
* `Store.Filed`, **`Registry.request_filed`**, **`Registry.runOn_filed`**: what calls keep;
* `Registry.findIn_filed`: a search finds a dogu of that name, or nothing is there;
* `Catalog.findAll_calm_eq`, `CatalogPair.findAll_calm_eq`: an undisturbed listing;
* **`Registry.run_findAll`**: it shows what searches find, each dogu once.
-/

namespace ClusterRegistry

/-- A call for a plain dogu, or one that removes a pointer. -/
def CatalogCall.Files : CatalogCall → Prop
  | .register d | .enable d => d.IsPlain
  | .unregister _ => True

/-! ## Calls whose requests may fail -/

theorem Catalog.operate_asks (c : Catalog) (call : CatalogCall) {R : Request → Prop}
    (hr : R (c.request call)) : (c.operate call).Asks R := by
  have hset : ∀ path value, R (.set path value {}) → (c.client.set path value).Asks R := by
    intro path value hr
    unfold Client.set
    exact (c.client.request_asks "set" path hr).bind fun _ => .pure _
  have hdelete : ∀ path, R (.delete path {}) → (c.client.delete path).Asks R := by
    intro path hr
    unfold Client.delete
    exact (c.client.request_asks "delete" path hr).bind fun _ => .pure _
  cases call with
  | register d => exact .during (.bind (hset _ _ hr) fun _ => .pure _) _
  | enable d => exact .during (.bind (hset _ _ hr) fun _ => .pure _) _
  | unregister name => exact .during (hdelete _ hr) _

namespace CatalogPair

variable (p : CatalogPair)

/-- The wire after some calls. -/
def runOn (calls : List CatalogCall) (w : Wire) : Wire :=
  calls.foldl (fun w call => (w.exec (p.operate call).run).2) w

theorem operate_asks (call : CatalogCall) :
    (p.operate call).Asks fun q => q = p.older.request call ∨ q = p.newer.request call := by
  have hboth : ∀ next : Except Failure Unit → Operation Unit,
      (∀ o, (next o).Asks fun q => q = p.older.request call ∨ q = p.newer.request call) →
        (p.older.operate call >>= fun _ => (p.newer.operate call).outcome >>= next).Asks
          fun q => q = p.older.request call ∨ q = p.newer.request call := by
    intro next hnext
    refine (p.older.operate_asks call (.inl rfl)).bind fun _ => ?_
    exact (p.newer.operate_asks call (.inr rfl)).outcome.bind hnext
  cases call with
  | register d => exact hboth _ fun o => by cases o <;> exact trivial
  | enable d => exact hboth _ fun o => by cases o <;> exact trivial
  | unregister name =>
    refine hboth _ fun o => ?_
    cases o with
    | ok u => exact trivial
    | error f =>
      dsimp only
      split <;> exact trivial

end CatalogPair

/-! ## What calls keep -/

/-- Pointers are versions, and descriptions are below the simple names of their dogus. -/
structure Sound (values : Schema → List Segment → Option String) : Prop where
  pointers : ∀ (schema : Schema) (name : Segment) (value : String),
    values schema [name, Catalog.pointer] = some value → Catalog.IsVersion value
  bodies : ∀ (schema : Schema) (name leaf : Segment) (value : String), leaf ≠ Catalog.pointer →
    values schema [name, leaf] = some value →
      ∃ d : Dogu, d.simpleName = name.text ∧ value = d.write schema

/-- The catalogs in a store are filed soundly. -/
def Store.Filed (s : Store) : Prop := ∃ values, s.Shows values ∧ Sound values

theorem Store.Filed.lasting {s : Store} (h : s.Filed) : s.Lasting := by
  obtain ⟨values, hshows, -⟩ := h
  exact hshows.lasting

theorem Store.Filed.empty : Store.empty.Filed :=
  ⟨_, .empty, fun _ _ _ h => (nomatch h), fun _ _ _ _ _ h => (nomatch h)⟩

theorem Sound.assign {values : Schema → List Segment → Option String} (h : Sound values)
    {call : CatalogCall} (files : call.Files) (schema : Schema) :
    Sound (Store.assign values schema call.place (call.leaves schema)) := by
  refine ⟨fun schema' name value hvalue => ?_, fun schema' name leaf value hleaf hvalue => ?_⟩
  · rw [Store.assign] at hvalue
    split_ifs at hvalue with hplace
    · cases call with
      | register d =>
        have hplain : (CatalogCall.register d).IsPlain := files
        obtain ⟨_, leaf, hd, -, -, hne⟩ := hplain.place_eq
        obtain ⟨-, hleaf⟩ := List.cons.inj (hplace.2.trans hd)
        exact absurd (List.cons.inj hleaf).1.symm hne
      | enable d => exact Option.some.inj hvalue ▸ files.version
      | unregister name => cases hvalue
    · exact h.pointers schema' name value hvalue
  · rw [Store.assign] at hvalue
    split_ifs at hvalue with hplace
    · cases call with
      | register d =>
        have hplain : (CatalogCall.register d).IsPlain := files
        obtain ⟨_, _, hd, hname, -, -⟩ := hplain.place_eq
        obtain ⟨rfl, -⟩ := List.cons.inj (hplace.2.trans hd)
        exact ⟨d, hname.symm, hplace.1 ▸ (Option.some.inj hvalue).symm⟩
      | enable d =>
        have hplain : (CatalogCall.enable d).IsPlain := files
        obtain ⟨_, _, hd, -, rfl⟩ := hplain.place_eq
        obtain ⟨-, hpointer⟩ := List.cons.inj (hplace.2.trans hd)
        exact absurd (List.cons.inj hpointer).1 hleaf
      | unregister name => cases hvalue
    · exact h.bodies schema' name leaf value hleaf hvalue

namespace Registry

variable (r : Registry) {s : Store} {call : CatalogCall}

/-- **A request of a call keeps the catalogs sound.** -/
theorem request_filed (schema : Schema) (h : s.Filed) (files : call.Files) (now : Nat) :
    (s.serve now ((r.catalogOf schema).request call)).1.Filed := by
  obtain ⟨values, hshows, hsound⟩ := h
  have htime : (s.expire now).perform now ((r.catalogOf schema).request call) =
      s.perform 0 ((r.catalogOf schema).request call) := by
    rw [hshows.lasting.expire, hshows.lasting.perform_at (Catalog.request_isLasting _ call) now 0]
  by_cases hplace : call.place.length = 2 ∧
      ((∃ name, call = .unregister name) → values schema call.place ≠ none)
  · obtain ⟨s', response, hperform, hshows'⟩ :=
      r.perform_request schema hshows hplace.1 hplace.2
    rw [Store.serve_of_ok (htime.trans hperform)]
    exact ⟨_, hshows', hsound.assign files schema⟩
  · -- there is nothing to remove
    have hunregister : ∃ name, call = .unregister name ∧ values schema call.place = none := by
      cases call with
      | register d =>
        have hplain : (CatalogCall.register d).IsPlain := files
        exact absurd ⟨hplain.length_place, fun ⟨_, h⟩ => nomatch h⟩ hplace
      | enable d =>
        have hplain : (CatalogCall.enable d).IsPlain := files
        exact absurd ⟨hplain.length_place, fun ⟨_, h⟩ => nomatch h⟩ hplace
      | unregister name =>
        refine ⟨name, rfl, ?_⟩
        by_contra hne
        exact hplace ⟨hshows.deep _ _ hne, fun _ => hne⟩
    obtain ⟨name, rfl, hnone⟩ := hunregister
    have hnofile : ¬ s.contents.slots.HasFile
        (.ofPath ((r.catalogOf schema).currentPath name)) := by
      rintro ⟨x, hx, hdir⟩
      have htext := hshows.files schema (Catalog.pointerPlace name)
      rw [← r.ofPath_currentPath, Slots.text, hx, Option.bind_some, hdir] at htext
      cases htext.trans hnone
    cases hperform : s.perform 0 ((r.catalogOf schema).request (.unregister name)) with
    | ok answer =>
      exact absurd (hshows.lasting.perform_delete_ok_iff.mp ⟨answer, hperform⟩) hnofile
    | error refusal =>
      rw [Store.serve_of_error (htime.trans hperform), hshows.lasting.expire]
      exact ⟨values, hshows, hsound⟩

/-- **Whatever becomes of their requests, calls keep the catalogs sound.** -/
theorem runOn_filed (calls : List CatalogCall) (files : ∀ call ∈ calls, call.Files) {w : Wire}
    (h : w.store.Filed) : (r.catalogs.runOn calls w).store.Filed := by
  induction calls generalizing w with
  | nil => exact h
  | cons call rest ih =>
    refine ih (fun c hc => files c (List.mem_cons_of_mem _ hc)) ?_
    refine Wire.exec_keep (fun s now q hq hs => ?_) (r.catalogs.operate_asks call) h
    rcases hq with rfl | rfl
    · exact r.request_filed .v1 hs (files call List.mem_cons_self) now
    · exact r.request_filed .v2 hs (files call List.mem_cons_self) now

/-! ## What is read -/

/-- **A search finds a dogu of that name, or nothing is there.** -/
theorem findIn_filed {name : String} (h : s.Filed) (hname : Dogu.simpleNameOf name ≠ "")
    (schema : Schema) (usable : r.client.retry.fault? = none) :
    match (r.catalogOf schema).findIn name s with
    | .ok d => d.simpleName = Dogu.simpleNameOf name
    | .error f => f.IsNotFound := by
  obtain ⟨values, hshows, hsound⟩ := h
  have hsegments := Dogu.segments_simpleNameOf hname
  have hpointer : ∀ version,
      s.contents.slots.text (.ofPath ((r.catalogOf schema).currentPath name)) = some version →
        Catalog.IsVersion version := by
    intro version hversion
    rw [r.ofPath_currentPath, hshows.files, Catalog.pointerPlace, hsegments] at hversion
    exact hsound.pointers _ _ _ hversion
  have hfind := r.findIn_shows hshows hname schema usable hpointer
  split at hfind
  · rename_i raw hraw
    obtain ⟨version, hversion, hbody⟩ := Option.bind_eq_some_iff.mp hraw
    have hplain := hpointer version hversion
    have hsegment : Path.segments version = _ :=
      Path.segments_eq_singleton (.ofText version hplain.nonempty hplain.slashless)
    rw [r.ofPath_versionPath, hshows.files, hsegments, hsegment] at hbody
    obtain ⟨d, hd, rfl⟩ := hsound.bodies _ _ _ _
      (fun heq => hplain.noPointer (congrArg Segment.text heq)) hbody
    rw [hfind, Dogu.readFirst_write]
    cases schema <;> exact hd
  · obtain ⟨f, hf, hkind⟩ := hfind
    rw [hf]
    exact hkind

end Registry

/-! ## Undisturbed listings -/

namespace Catalog

variable (c : Catalog) {l : Link}

theorem findAll_calm_eq (usable : c.client.retry.fault? = none) (h : l.store.Lasting)
    (calm : l.IsCalm) : (l.perform c.findAll).1 =
      .ok ((c.names l.store).filterMap fun name => (c.findIn name l.store).toOption) := by
  have still : l.IsStill := by
    intro k e he hdue
    obtain ⟨d, hd, -⟩ := hdue
    rw [h.endless k e he] at hd
    cases hd
  obtain ⟨hkept, -, hchildren⟩ := c.client.children_finds c.root still
  have hlisted := hchildren.resolve_right fun hlost => calm.not_loses hlost.1
  rw [c.client.childrenIn_eq c.root usable h.inOrder] at hlisted
  have hcalm := calm.perform (c.client.children c.root)
  rw [findAll, Link.perform_bind, Link.perform_during]
  generalize l.perform (c.client.children c.root) = first at hkept hlisted hcalm ⊢
  obtain ⟨paths, l'⟩ := first
  dsimp only at hkept hlisted hcalm ⊢
  rw [hlisted]
  dsimp only [Except.mapError]
  rw [(c.findEach_calm _ (hkept ▸ h) hcalm).1, hkept]
  rfl

theorem toOption_findIn (name : String) (s : Store) :
    (c.findIn name s).toOption = (c.findIn (Dogu.simpleNameOf name) s).toOption := by
  have hpath : c.doguPath (Dogu.simpleNameOf name) = c.doguPath name := by
    rw [doguPath, doguPath, Dogu.simpleNameOf_simpleNameOf]
  unfold findIn currentPath versionPath
  rw [hpath]
  cases c.client.getIn (Path.join (c.doguPath name) currentKey) s with
  | error f => rfl
  | ok version =>
    dsimp only
    cases c.client.getIn (Path.join (c.doguPath name) version) s <;> rfl

end Catalog

theorem filter_harvest {names : List String} (nodup : names.Nodup) {find : String → Option Dogu}
    (named : ∀ name ∈ names, ∀ d, find name = some d → d.simpleName = name) (name : String) :
    (names.filterMap find).filter (·.simpleName = name) =
      if name ∈ names then (find name).toList else [] := by
  induction names with
  | nil => rfl
  | cons first rest ih =>
    obtain ⟨hfirst, hrest⟩ := List.nodup_cons.mp nodup
    have ih := ih hrest fun n hn => named n (List.mem_cons_of_mem _ hn)
    cases hfind : find first with
    | none =>
      rw [List.filterMap_cons_none hfind, ih]
      by_cases heq : name = first
      · subst heq
        rw [if_neg hfirst, if_pos List.mem_cons_self, hfind]
        rfl
      · simp [heq]
    | some d =>
      have hd := named first List.mem_cons_self d hfind
      rw [List.filterMap_cons_some hfind, List.filter_cons, hd, ih]
      by_cases heq : name = first
      · subst heq
        rw [if_neg hfirst, if_pos List.mem_cons_self, if_pos (decide_eq_true rfl), hfind]
        rfl
      · simp [heq, Ne.symm heq]

/-- What a listing shows under a name is from the older catalog only if the newer one has nothing. -/
theorem filter_legacy (newer older : List Dogu) (name : String) :
    (newer ++ older.filter fun d => d.simpleName ∉ newer.map Dogu.simpleName).filter
      (·.simpleName = name) =
        if newer.filter (·.simpleName = name) = [] then older.filter (·.simpleName = name)
        else newer.filter (·.simpleName = name) := by
  have hmem : name ∈ newer.map Dogu.simpleName ↔ newer.filter (·.simpleName = name) ≠ [] := by
    rw [Ne, List.filter_eq_nil_iff, List.mem_map]
    simp only [decide_eq_true_eq, not_forall, not_not, exists_prop]
  rw [List.filter_append, List.filter_filter]
  by_cases hnone : newer.filter (·.simpleName = name) = []
  · have hout : name ∉ newer.map Dogu.simpleName := fun hin => hmem.mp hin hnone
    rw [if_pos hnone, hnone, List.nil_append]
    refine List.filter_congr fun d _ => ?_
    by_cases hd : d.simpleName = name <;> simp only [hd, hout, decide_true, decide_false,
      not_false_eq_true, Bool.and_true, Bool.false_and]
  · have hin := hmem.mpr hnone
    have hlegacy : older.filter (fun d => decide (d.simpleName = name) &&
        decide (d.simpleName ∉ newer.map Dogu.simpleName)) = [] := by
      refine List.filter_eq_nil_iff.mpr fun d _ hd => ?_
      obtain ⟨hname, hout⟩ := Bool.and_eq_true_iff.mp hd
      exact of_decide_eq_true hout (of_decide_eq_true hname ▸ hin)
    rw [if_neg hnone, hlegacy, List.append_nil]

namespace Registry

variable (r : Registry) {s : Store} {name : String}

section Filed

variable (h : s.Filed) (usable : r.client.retry.fault? = none)

include h usable

theorem simpleName_of_names (schema : Schema) {n : String} (hn : n ∈ (r.catalogOf schema).names s)
    {d : Dogu} (hd : ((r.catalogOf schema).findIn n s).toOption = some d) :
    d.simpleName = n ∧ n ≠ "" := by
  obtain ⟨segment, rfl⟩ := (r.catalogOf schema).exists_segment_of_mem_names hn
  have hsimple := Dogu.simpleNameOf_of_notMem segment.slashless
  have hnonempty : segment.text ≠ "" := fun heq =>
    segment.nonempty (String.toList_eq_nil_iff.mpr heq)
  have hfound := r.findIn_filed h (hsimple.symm ▸ hnonempty) schema usable
  cases hfind : (r.catalogOf schema).findIn segment.text s with
  | error f =>
    rw [hfind] at hd
    cases hd
  | ok d' =>
    rw [hfind] at hd hfound
    exact ⟨Option.some.inj hd ▸ hfound.trans hsimple, hnonempty⟩

theorem filter_names (hname : Dogu.simpleNameOf name ≠ "") (schema : Schema) :
    (((r.catalogOf schema).names s).filterMap fun name =>
        ((r.catalogOf schema).findIn name s).toOption).filter
      (·.simpleName = Dogu.simpleNameOf name) =
        ((r.catalogOf schema).findIn name s).toOption.toList := by
  rw [filter_harvest ((r.catalogOf schema).nodup_names s) fun n hn d hd =>
    (r.simpleName_of_names h usable schema hn hd).1, Catalog.toOption_findIn _ name]
  split_ifs with hmem
  · rfl
  · -- what has no name below the root is not found
    cases hfind : (r.catalogOf schema).findIn (Dogu.simpleNameOf name) s with
    | error f => rfl
    | ok d =>
      have hpointer := (Catalog.hasPointer_of_findIn (r.currentPath_ne_root schema _) hfind).2
      exact absurd ((r.catalogOf schema).mem_names h.lasting.inOrder hname
        (Dogu.simpleNameOf_simpleNameOf name) hpointer) hmem

theorem toOption_findIn_catalogs (hname : Dogu.simpleNameOf name ≠ "") :
    (r.catalogs.findIn name s).toOption =
      (r.catalogs.newer.findIn name s).toOption.or (r.catalogs.older.findIn name s).toOption := by
  have hnewer : match r.catalogs.newer.findIn name s with
    | .ok d => d.simpleName = Dogu.simpleNameOf name
    | .error f => f.IsNotFound := r.findIn_filed h hname .v2 usable
  rw [CatalogPair.findIn]
  cases hfind : r.catalogs.newer.findIn name s with
  | ok d => rfl
  | error f =>
    rw [hfind] at hnewer
    dsimp only at hnewer ⊢
    rw [if_pos hnewer]
    rfl

/-- **An undisturbed listing of both catalogs shows what searches find, each dogu once.** -/
theorem findAll_filed {l : Link} (hstore : l.store = s) (calm : l.IsCalm) :
    ∃ ds, (l.perform r.catalogs.findAll).1 = .ok ds ∧ (∀ d ∈ ds, d.simpleName ≠ "") ∧
      ∀ name, Dogu.simpleNameOf name ≠ "" → ds.filter (·.simpleName = Dogu.simpleNameOf name) =
        (r.catalogs.findIn name s).toOption.toList := by
  subst hstore
  have hlisted : ∀ (schema : Schema) (l' : Link), l'.store = l.store → l'.IsCalm →
      (l'.perform (r.catalogOf schema).findAll).1 = .ok
        (((r.catalogOf schema).names l.store).filterMap fun name =>
          ((r.catalogOf schema).findIn name l.store).toOption) := by
    intro schema l' kept calm'
    rw [Catalog.findAll_calm_eq _ (r.catalogOf_usable schema usable) (kept ▸ h.lasting) calm', kept]
  have hkept := (r.catalogs.newer.findAll_calm h.lasting calm).1
  have hnewer : (l.perform r.catalogs.newer.findAll).1 = _ := hlisted .v2 l rfl calm
  have holder : ((l.perform r.catalogs.newer.findAll).2.perform r.catalogs.older.findAll).1 = _ :=
    hlisted .v1 _ hkept (calm.perform r.catalogs.newer.findAll)
  have hperform := l.perform_bind r.catalogs.newer.findAll fun newer => do
    let older ← r.catalogs.older.findAll
    return newer ++ older.filter fun d => d.simpleName ∉ newer.map Dogu.simpleName
  rw [hnewer] at hperform
  dsimp only at hperform
  rw [Link.perform_bind_pure, holder] at hperform
  refine ⟨_, congrArg Prod.fst hperform, ?_, ?_⟩
  · intro d hd
    have hany : ∀ schema, d ∈ ((r.catalogOf schema).names l.store).filterMap (fun name =>
        ((r.catalogOf schema).findIn name l.store).toOption) → d.simpleName ≠ "" := by
      intro schema hd
      obtain ⟨n, hn, hfound⟩ := List.mem_filterMap.mp hd
      obtain ⟨hname, hnonempty⟩ := r.simpleName_of_names h usable schema hn hfound
      exact hname ▸ hnonempty
    rcases List.mem_append.mp hd with hd | hd
    · exact hany .v2 hd
    · exact hany .v1 (List.mem_filter.mp hd).1
  · intro name hname
    rw [filter_legacy, r.filter_names h usable hname .v2, r.filter_names h usable hname .v1,
      r.toOption_findIn_catalogs h usable hname]
    change (if (r.catalogs.newer.findIn name l.store).toOption.toList = [] then
        (r.catalogs.older.findIn name l.store).toOption.toList
      else (r.catalogs.newer.findIn name l.store).toOption.toList) = _
    cases (r.catalogs.newer.findIn name l.store).toOption <;> rfl

end Filed

/-- **After any calls, of which any request may have failed, an undisturbed listing shows, under
each simple name, what a search finds, once, and nothing else.** -/
theorem run_findAll (usable : r.client.retry.fault? = none) (calls : List CatalogCall)
    (files : ∀ call ∈ calls, call.Files) (handlings : List (Nat × Handling)) (pauses : List Nat) :
    let w := r.catalogs.runOn calls { handlings := handlings }
    let l := Link.undisturbed ⟨w.store, w.now, []⟩ pauses
    ∃ ds, (l.perform r.catalogs.findAll).1 = .ok ds ∧ (∀ d ∈ ds, d.simpleName ≠ "") ∧
      ∀ name, Dogu.simpleNameOf name ≠ "" → ds.filter (·.simpleName = Dogu.simpleNameOf name) =
        (l.perform (r.catalogs.find name)).1.toOption.toList := by
  intro w l
  have hfiled : w.store.Filed := r.runOn_filed calls files .empty
  have hcalm : l.IsCalm := Link.undisturbed_isCalm _ pauses
  obtain ⟨ds, hds, hnames, hfind⟩ := r.findAll_filed hfiled usable (l := l) rfl hcalm
  refine ⟨ds, hds, hnames, fun name hname => ?_⟩
  rw [hfind name hname, r.catalogs.find_calm name hfiled.lasting hcalm]
  rfl

/-- A dogu is upgraded, and the last request gets lost: listing and search agree on the version. -/
theorem run_findAll_interrupted :
    let r : Registry := ⟨⟨.constant 0 0, 1000, 1⟩⟩
    let d : Dogu := { name := "official/nginx", version := "1.0" }
    let d' : Dogu := { d with version := "2.0" }
    let calls : List CatalogCall := [.register d, .enable d, .register d', .enable d']
    let handlings : List (Nat × Handling) := List.replicate 5 (1, .answered) ++
      [(0, .unanswered (.timedOut 0)), (0, .answered), (9, .lost (.timedOut 0))]
    let w := r.catalogs.runOn calls { handlings := handlings }
    let l := Link.undisturbed ⟨w.store, w.now, []⟩ [3]
    ∃ ds, (l.perform r.catalogs.findAll).1 = .ok ds ∧
      ds.filter (·.simpleName = Dogu.simpleNameOf "nginx") =
        (l.perform (r.catalogs.find "nginx")).1.toOption.toList := by
  intro r d d' calls handlings w l
  have hplain : d.IsPlain := ⟨by decide +kernel, by decide, by decide, by decide⟩
  have hplain' : d'.IsPlain := ⟨by decide +kernel, by decide, by decide, by decide⟩
  have hfiles : ∀ call ∈ calls, call.Files := by
    intro call hcall
    rcases List.mem_cons.mp hcall with rfl | hcall
    · exact hplain
    rcases List.mem_cons.mp hcall with rfl | hcall
    · exact hplain
    rcases List.mem_cons.mp hcall with rfl | hcall
    · exact hplain'
    · exact List.mem_singleton.mp hcall ▸ hplain'
  obtain ⟨ds, hds, -, hfind⟩ := run_findAll r rfl calls hfiles handlings [3]
  exact ⟨ds, hds, hfind "nginx" (by decide +kernel)⟩

end Registry

end ClusterRegistry
