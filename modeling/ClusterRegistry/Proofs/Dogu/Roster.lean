import ClusterRegistry.Proofs.Dogu.Document
import ClusterRegistry.Proofs.Dogu.Reading

/-!
# What catalogs are for

Seen from outside, the catalogs of a registry keep a description for each name and version and one
enabled version for each name. Nothing else matters for what they answer.

* `Roster`, `Roster.step`, `Roster.run`: names, versions and descriptions, without a store;
* `CatalogCall.IsPlain`: dogus with a simple name and a version that make one segment each;
* `Store.Shows`, `Store.Shows.set`, `Store.Shows.delete`: files in a store, and what a request does
  to them;
* `Registry.settle_shows`, `Registry.run_shows`: calls keep store and roster together;
* **`Registry.run_roster`**: what catalogs answer and keep after any calls.
-/

namespace ClusterRegistry

/-! ## Rosters -/

/-- Descriptions by name and version, and the enabled version of each name. -/
structure Roster where
  bodies : String → String → Option Dogu := fun _ _ => none
  current : String → Option String := fun _ => none

namespace Roster

/-- The roster after a call. -/
def step (x : Roster) : CatalogCall → Roster
  | .register d =>
    { x with bodies := fun name version =>
        if name = d.simpleName ∧ version = d.version then some d else x.bodies name version }
  | .enable d =>
    { x with current := fun name => if name = d.simpleName then some d.version else x.current name }
  | .unregister name =>
    { x with current := fun other =>
        if other = Dogu.simpleNameOf name then none else x.current other }

/-- The roster after some calls. -/
def run (calls : List CatalogCall) : Roster := calls.foldl step {}

/-- Everything is accepted but unregistering a dogu that is not enabled. -/
def Accepts (x : Roster) : CatalogCall → Prop
  | .register _ | .enable _ => True
  | .unregister name => x.current (Dogu.simpleNameOf name) ≠ none

/-- The description of the enabled version. -/
def find (x : Roster) (name : String) : Option Dogu := (x.current name).bind (x.bodies name)

end Roster

/-- A text that is one segment, and not the name of the pointer. -/
structure Catalog.IsVersion (version : String) : Prop where
  nonempty : version ≠ ""
  slashless : '/' ∉ version.toList
  noPointer : version ≠ currentKey

/-- The simple name and the version make one segment each. -/
structure Dogu.IsPlain (d : Dogu) : Prop where
  name : d.simpleName ≠ ""
  version : Catalog.IsVersion d.version

/-- A call for a plain dogu, or for a name that is not empty. -/
def CatalogCall.IsPlain : CatalogCall → Prop
  | .register d | .enable d => d.IsPlain
  | .unregister name => Dogu.simpleNameOf name ≠ ""

/-! ## Files in a store -/

namespace Store

/-- The files of a store are values at places of depth two in the catalogs, and no directory stands
where a file may be. -/
structure Shows (s : Store) (values : Schema → List Segment → Option String) : Prop where
  lasting : s.Lasting
  files : ∀ schema place, s.contents.slots.text (schema.keyAt place) = values schema place
  others : ∀ k, s.contents.slots.text k ≠ none → ∃ (schema : Schema) (place : List Segment),
    k = schema.keyAt place
  deep : ∀ schema place, values schema place ≠ none → place.length = 2
  dirs : ∀ (k : Key) (x : Slot), s.contents.slots[k]? = some x → x.dir = true →
    k.segments.length < 3

/-- The values with another one at a place, or with none. -/
def assign (values : Schema → List Segment → Option String) (schema : Schema)
    (place : List Segment) (value : Option String) : Schema → List Segment → Option String :=
  fun schema' place' => if schema' = schema ∧ place' = place then value else values schema' place'

variable {s s' : Store} {values : Schema → List Segment → Option String} {schema : Schema}
  {place : List Segment} {path : String}

theorem Shows.slot_eq_none (h : s.Shows values) (deep : place.length = 2)
    (hnone : values schema place = none) : s.contents.slots[schema.keyAt place]? = none := by
  cases hslot : s.contents.slots[schema.keyAt place]? with
  | none => rfl
  | some x =>
    have htext := h.files schema place
    rw [Slots.text, hslot, hnone, Option.bind_some] at htext
    split_ifs at htext with hdir
    have hlt := h.dirs _ x hslot hdir
    have hlen : (schema.keyAt place).segments.length = place.length + 1 := rfl
    omega

theorem Shows.isSome_slot (h : s.Shows values) (deep : place.length = 2) :
    s.contents.slots[schema.keyAt place]?.isSome = (values schema place).isSome := by
  cases hvalue : values schema place with
  | none =>
    rw [h.slot_eq_none deep hvalue]
    rfl
  | some value =>
    rw [← h.files, Slots.text] at hvalue
    obtain ⟨x, hx, -⟩ := Option.bind_eq_some_iff.mp hvalue
    rw [hx]
    rfl

theorem Shows.getIn_of_none (h : s.Shows values) {c : Client} (usable : c.retry.fault? = none)
    (hpath : Key.ofPath path = schema.keyAt place) (deep : place.length = 2)
    (hnone : s.contents.slots.text (.ofPath path) = none) :
    ∃ f, c.getIn path s = .error f ∧ f.IsNotFound := by
  rw [hpath, h.files] at hnone
  exact Client.getIn_of_none usable (hpath ▸ Schema.keyAt_ne_root)
    (hpath ▸ h.slot_eq_none deep hnone)

theorem text_of_set {response : Response} {value : String}
    (h : s.perform 0 (.set path value {}) = .ok (s', response)) (k : Key) :
    s'.contents.slots.text k =
      if k = .ofPath path then some value else s.contents.slots.text k := by
  obtain ⟨-, -, hdirs⟩ := perform_set_ok_iff.mp ⟨_, h⟩
  rw [Slots.text, lookup_slots_of_set h]
  split_ifs with hk hanc
  · rfl
  · rw [Slots.text]
    cases hslot : s.contents.slots[k]? with
    | none => rfl
    | some x => rfl
  · rfl

theorem text_of_delete (hs : s.Lasting) {response : Response}
    (h : s.perform 0 (.delete path {}) = .ok (s', response)) (k : Key) :
    s'.contents.slots.text k = if k = .ofPath path then none else s.contents.slots.text k := by
  rw [Slots.text, hs.lookup_slots_of_delete h]
  split_ifs <;> rfl

section Requests

variable (h : s.Shows values) (hpath : Key.ofPath path = schema.keyAt place)
  (deep : place.length = 2)

include h hpath deep

theorem Shows.assign (value : Option String) (lasting : s'.Lasting)
    (files : ∀ k, s'.contents.slots.text k =
      if k = .ofPath path then value else s.contents.slots.text k)
    (dirs : ∀ (k : Key) (x : Slot), s'.contents.slots[k]? = some x → x.dir = true →
      k.segments.length < 3) : s'.Shows (assign values schema place value) := by
  refine ⟨lasting, fun schema' place' => ?_, fun k hk => ?_, fun schema' place' hne => ?_, dirs⟩
  · rw [files, hpath, h.files, Store.assign]
    exact if_congr Schema.keyAt_inj rfl rfl
  · rw [files] at hk
    split_ifs at hk with hkey
    · exact ⟨schema, place, hkey.trans hpath⟩
    · exact h.others k hk
  · rw [Store.assign] at hne
    split_ifs at hne with heq
    · exact heq.2 ▸ deep
    · exact h.deep schema' place' hne

/-- **A plain write at a place of depth two is accepted.** -/
theorem Shows.set (value : String) : ∃ s' response,
    s.perform 0 (.set path value {}) = .ok (s', response) ∧
      s'.Shows (Store.assign values schema place (some value)) := by
  have hlen : (Key.ofPath path).segments.length = 3 := by
    rw [hpath, Schema.segments_keyAt, List.singleton_append, List.length_cons, deep]
  have hadmits : s.contents.slots.Admits (.ofPath path) := by
    refine ⟨hpath ▸ Schema.keyAt_ne_root, fun x hx => ?_, fun a ha x hx => ?_⟩
    · by_contra hdir
      have := h.dirs _ x hx (by simpa using hdir)
      omega
    · -- a file above the place would not be deep enough
      by_contra hfile
      have htext : s.contents.slots.text a ≠ none := by
        rw [Slots.text, hx, Option.bind_some, if_neg hfile]
        exact Option.some_ne_none _
      obtain ⟨schema', place', rfl⟩ := h.others a htext
      have hdeep := h.deep schema' place' (h.files schema' place' ▸ htext)
      have hlt := (Key.mem_ancestors.mp ha).1.length_lt
      rw [Schema.segments_keyAt, List.singleton_append, List.length_cons] at hlt
      omega
  have hok : ∃ answer, s.perform 0 (.set path value {}) = .ok answer :=
    perform_set_ok_iff.mpr hadmits
  obtain ⟨⟨s', response⟩, hperform⟩ := hok
  have hlasting : s'.Lasting := h.lasting.perform (r := .set path value {}) rfl hperform
  refine ⟨s', response, hperform, h.assign hpath deep _ hlasting (text_of_set hperform)
    fun k x hx hdir => ?_⟩
  rw [lookup_slots_of_set hperform] at hx
  split_ifs at hx with hk hanc
  · obtain rfl := Option.some.inj hx
    cases hdir
  · have := (Key.mem_ancestors.mp hanc).1.length_lt
    omega
  · exact h.dirs k x hx hdir

/-- **A plain removal of a value is accepted.** -/
theorem Shows.delete (hvalue : values schema place ≠ none) : ∃ s' response,
    s.perform 0 (.delete path {}) = .ok (s', response) ∧
      s'.Shows (Store.assign values schema place none) := by
  have hfile : s.contents.slots.HasFile (.ofPath path) := by
    obtain ⟨value, hvalue⟩ := Option.ne_none_iff_exists'.mp hvalue
    rw [← h.files, ← hpath, Slots.text] at hvalue
    obtain ⟨x, hx, hvalue⟩ := Option.bind_eq_some_iff.mp hvalue
    split_ifs at hvalue with hdir
    exact ⟨x, hx, by simpa using hdir⟩
  have hok : ∃ answer, s.perform 0 (.delete path {}) = .ok answer :=
    h.lasting.perform_delete_ok_iff.mpr hfile
  obtain ⟨⟨s', response⟩, hperform⟩ := hok
  have hlasting : s'.Lasting := h.lasting.perform (r := .delete path {}) trivial hperform
  refine ⟨s', response, hperform, h.assign hpath deep _ hlasting
    (text_of_delete h.lasting hperform) fun k x hx hdir => ?_⟩
  rw [h.lasting.lookup_slots_of_delete hperform] at hx
  split_ifs at hx
  exact h.dirs k x hx hdir

end Requests

theorem Shows.empty : Store.empty.Shows fun _ _ => none := by
  refine ⟨.empty, fun schema place => ?_, fun k hk => ?_, fun _ _ h => absurd rfl h,
    fun k x hx => ?_⟩
  · rw [Slots.text, lookup_slots_empty]
    rfl
  · rw [Slots.text, lookup_slots_empty] at hk
    exact absurd rfl hk
  · rw [lookup_slots_empty] at hx
    cases hx

end Store

/-! ## Calls -/

namespace Roster

variable (x : Roster)

/-- The value that a catalog keeps at a place. -/
def value (x : Roster) (schema : Schema) : List Segment → Option String
  | [name, leaf] =>
    if leaf = Catalog.pointer then x.current name.text
    else (x.bodies name.text leaf.text).map (·.write schema)
  | _ => none

theorem run_append (calls : List CatalogCall) (call : CatalogCall) :
    run (calls ++ [call]) = (run calls).step call := by
  rw [run, List.foldl_append]
  rfl

end Roster

/-- The value that a call leaves at its place. -/
def CatalogCall.leaves (schema : Schema) : CatalogCall → Option String
  | .register d => some (d.write schema)
  | .enable d => some d.version
  | .unregister _ => none

theorem CatalogCall.IsPlain.place_eq {call : CatalogCall} (h : call.IsPlain) : ∃ name leaf,
    call.place = [name, leaf] ∧ match call with
      | .register d => name.text = d.simpleName ∧ leaf.text = d.version ∧ leaf ≠ Catalog.pointer
      | .enable d => name.text = d.simpleName ∧ leaf = Catalog.pointer
      | .unregister n => name.text = Dogu.simpleNameOf n ∧ leaf = Catalog.pointer := by
  cases call with
  | register d =>
    refine ⟨.ofText _ h.name (Dogu.slash_notMem_simpleNameOf d.name),
      .ofText _ h.version.nonempty h.version.slashless, ?_, rfl, rfl, ?_⟩
    · have hname : Path.segments d.simpleName = _ := Dogu.segments_simpleNameOf h.name
      have hversion : Path.segments d.version = _ :=
        Path.segments_eq_singleton (.ofText _ h.version.nonempty h.version.slashless)
      rw [CatalogCall.place, hname, hversion]
      rfl
    · exact fun heq => h.version.noPointer (congrArg Segment.text heq)
  | enable d =>
    refine ⟨.ofText _ h.name (Dogu.slash_notMem_simpleNameOf d.name), _, ?_, rfl, rfl⟩
    rw [CatalogCall.place, Catalog.pointerPlace, Dogu.segments_simpleNameOf h.name]
    rfl
  | unregister name =>
    refine ⟨.ofText _ h (Dogu.slash_notMem_simpleNameOf name), _, ?_, rfl, rfl⟩
    rw [CatalogCall.place, Catalog.pointerPlace, Dogu.segments_simpleNameOf h]
    rfl

theorem CatalogCall.IsPlain.length_place {call : CatalogCall} (h : call.IsPlain) :
    call.place.length = 2 := by
  obtain ⟨name, leaf, hplace, -⟩ := h.place_eq
  rw [hplace]
  rfl

/-- **A call changes what a catalog keeps at its place, and nothing else.** -/
theorem Roster.value_step (x : Roster) {call : CatalogCall} (plain : call.IsPlain) (schema : Schema)
    (place : List Segment) : (x.step call).value schema place =
      if place = call.place then call.leaves schema else x.value schema place := by
  obtain ⟨name, leaf, hplace, hcall⟩ := plain.place_eq
  rw [hplace]
  have hother : ∀ y : Roster, (∀ n l, place ≠ [n, l]) → y.value schema place = none := by
    intro y hne
    match place, hne with
    | [], _ => rfl
    | [_], _ => rfl
    | [n, l], hne => exact absurd rfl (hne n l)
    | _ :: _ :: _ :: _, _ => rfl
  by_cases hpair : ∃ n l, place = [n, l]
  · obtain ⟨n, l, rfl⟩ := hpair
    have heq : [n, l] = [name, leaf] ↔ n.text = name.text ∧ l = leaf := by
      constructor
      · intro h
        obtain ⟨rfl, hl⟩ := List.cons.inj h
        exact ⟨rfl, (List.cons.inj hl).1⟩
      · rintro ⟨hn, rfl⟩
        rw [Segment.ext_text hn]
    simp only [heq]
    cases call with
    | register d =>
      obtain ⟨hname, hleaf, hpointer⟩ := hcall
      have hbody : n.text = name.text ∧ l = leaf ↔ n.text = d.simpleName ∧ l.text = d.version := by
        rw [hname, ← hleaf]
        exact and_congr_right' ⟨congrArg Segment.text, Segment.ext_text⟩
      simp only [value, step, hbody, CatalogCall.leaves]
      by_cases hl : l = Catalog.pointer
      · have hne : ¬ (n.text = d.simpleName ∧ l.text = d.version) := fun h =>
          hpointer ((hbody.mpr h).2.symm.trans hl)
        rw [if_pos hl, if_neg hne, if_pos hl]
      · rw [if_neg hl]
        split_ifs <;> rfl
    | enable d =>
      obtain ⟨hname, rfl⟩ := hcall
      simp only [value, step, hname, CatalogCall.leaves]
      split_ifs <;> simp_all
    | unregister m =>
      obtain ⟨hname, rfl⟩ := hcall
      simp only [value, step, hname, CatalogCall.leaves]
      split_ifs <;> simp_all
  · have hne : ∀ n l, place ≠ [n, l] := fun n l h => hpair ⟨n, l, h⟩
    rw [hother _ hne, hother _ hne, if_neg (hne name leaf)]

namespace Registry

variable (r : Registry) {s : Store} {call : CatalogCall}
  {values : Schema → List Segment → Option String}

theorem perform_request (schema : Schema) (h : s.Shows values) (deep : call.place.length = 2)
    (found : (∃ name, call = .unregister name) → values schema call.place ≠ none) :
    ∃ s' response, s.perform 0 ((r.catalogOf schema).request call) = .ok (s', response) ∧
      s'.Shows (Store.assign values schema call.place (call.leaves schema)) := by
  have hpath := r.ofPath_target schema call
  cases call with
  | register d =>
    rw [Catalog.request, catalogOf_schema]
    exact h.set hpath deep _
  | enable d => exact h.set hpath deep _
  | unregister name => exact h.delete hpath deep (found ⟨name, rfl⟩)

section Settle

variable (usable : r.client.retry.fault? = none) (plain : call.IsPlain)

include usable plain

theorem settle_catalogOf (schema : Schema) (h : s.Shows values)
    (found : (∃ name, call = .unregister name) → values schema call.place ≠ none) :
    ∃ s', (r.catalogOf schema).settle call s = (.ok (), s') ∧
      s'.Shows (Store.assign values schema call.place (call.leaves schema)) := by
  obtain ⟨s', response, hperform, hshows⟩ := r.perform_request schema h plain.length_place found
  exact ⟨s', Catalog.settle_of_ok (r.catalogOf_usable schema usable) hperform, hshows⟩

theorem settle_catalogOf_refused (schema : Schema) (h : s.Shows values) {name : String}
    (hcall : call = .unregister name) (hnone : values schema call.place = none) :
    ∃ f, (r.catalogOf schema).settle call s = (.error f, s) ∧ f.IsNotFound := by
  have husable := r.catalogOf_usable schema usable
  have hdeep := plain.length_place
  subst hcall
  have hpath := r.ofPath_currentPath schema name
  exact Catalog.settle_unregister husable (hpath ▸ Schema.keyAt_ne_root)
    (hpath ▸ h.slot_eq_none hdeep hnone)

variable {x : Roster}

/-- **An undisturbed call keeps store and roster together, and is accepted as the roster says.** -/
theorem settle_shows (h : s.Shows x.value) :
    (r.catalogs.settle call s).2.Shows (x.step call).value ∧
      (x.Accepts call → (r.catalogs.settle call s).1 = .ok ()) ∧
      (¬ x.Accepts call → ∃ f, (r.catalogs.settle call s).1 = .error f ∧ f.IsNotFound) := by
  have hstep : Store.assign (Store.assign x.value .v1 call.place (call.leaves .v1)) .v2 call.place
      (call.leaves .v2) = (x.step call).value := by
    funext schema place
    rw [Roster.value_step x plain, Store.assign, Store.assign]
    cases schema <;> simp
  have hvalue : ∀ schema, (∃ name, call = .unregister name) →
      (x.Accepts call ↔ x.value schema call.place ≠ none) := by
    rintro schema ⟨name, rfl⟩
    obtain ⟨_, _, hplace, hname, rfl⟩ := plain.place_eq
    rw [hplace, Roster.value, if_pos rfl, hname]
    rfl
  by_cases haccepts : x.Accepts call
  · obtain ⟨s', holder, hshows⟩ := r.settle_catalogOf usable plain .v1 h fun hcall =>
      (hvalue .v1 hcall).mp haccepts
    obtain ⟨s'', hnewer, hshows'⟩ := r.settle_catalogOf usable plain .v2 hshows fun hcall => by
      rw [Store.assign, if_neg (by simp)]
      exact (hvalue .v2 hcall).mp haccepts
    have hsettle : r.catalogs.settle call s = (.ok (), s'') := by
      have hpair : r.catalogs.settle call s = _ := CatalogPair.settle_of_ok holder
      rw [hpair]
      change (CatalogPair.judged call ((r.catalogOf .v2).settle call s').1,
        ((r.catalogOf .v2).settle call s').2) = _
      rw [hnewer]
      rfl
    rw [hsettle]
    exact ⟨hstep ▸ hshows', fun _ => rfl, fun h => absurd haccepts h⟩
  · have hcall : ∃ name, call = .unregister name := by
      cases call with
      | register d => exact absurd trivial haccepts
      | enable d => exact absurd trivial haccepts
      | unregister name => exact ⟨name, rfl⟩
    obtain ⟨name, hname⟩ := hcall
    have hnone : ∀ schema, x.value schema call.place = none := fun schema =>
      of_not_not fun hne => haccepts ((hvalue schema ⟨name, hname⟩).mpr hne)
    obtain ⟨f, holder, hf⟩ := r.settle_catalogOf_refused usable plain .v1 h hname (hnone .v1)
    have hsettle : r.catalogs.settle call s = (.error f, s) := CatalogPair.settle_of_error holder
    rw [hsettle]
    refine ⟨?_, fun h => absurd h haccepts, fun _ => ⟨f, rfl, hf⟩⟩
    -- what the call would remove is not there
    have hsame : (x.step call).value = x.value := by
      funext schema place
      rw [Roster.value_step x plain]
      split_ifs with hplace
      · rw [hplace, hnone, hname]
        rfl
      · rfl
    exact hsame ▸ h

end Settle

/-! ## Runs -/

theorem run_shows (usable : r.client.retry.fault? = none) {l : Link} (calm : l.IsCalm)
    (empty : l.store = .empty) (calls : List CatalogCall) (plain : ∀ call ∈ calls, call.IsPlain) :
    (r.catalogs.run calls l).store.Shows (Roster.run calls).value := by
  induction calls using List.reverseRecOn with
  | nil =>
    have hvalue : (Roster.run []).value = fun _ _ => none := by
      funext schema place
      unfold Roster.value
      split
      · exact ite_self none
      · rfl
    rw [hvalue]
    exact empty ▸ Store.Shows.empty
  | append_singleton calls call ih =>
    have hshows := ih fun c hc => plain c (List.mem_append_left _ hc)
    have hcalm := calm.of_leadsTo (r.catalogs.run_leadsTo calls l)
    have hplain := plain call (List.mem_append_right _ List.mem_cons_self)
    rw [CatalogPair.run_append, Roster.run_append]
    change ((r.catalogs.run calls l).perform (r.catalogs.operate call)).2.store.Shows _
    rw [(r.catalogs.operate_calm call hshows.lasting hcalm).2]
    exact (r.settle_shows usable hplain hshows).1

end Registry

/-! ## Reads -/

theorem Roster.run_isVersion (calls : List CatalogCall) (plain : ∀ call ∈ calls, call.IsPlain)
    {name version : String} (h : (run calls).current name = some version) :
    Catalog.IsVersion version := by
  induction calls using List.reverseRecOn with
  | nil => cases h
  | append_singleton calls call ih =>
    have hih := ih fun c hc => plain c (List.mem_append_left _ hc)
    have hplain := plain call (List.mem_append_right _ List.mem_cons_self)
    rw [run_append] at h
    cases call with
    | register d => exact hih h
    | enable d =>
      replace h : (if name = d.simpleName then some d.version else _) = some version := h
      split_ifs at h
      · exact Option.some.inj h ▸ hplain.version
      · exact hih h
    | unregister n =>
      replace h : (if name = Dogu.simpleNameOf n then none else _) = some version := h
      split_ifs at h
      exact hih h

namespace Registry

variable (r : Registry) {s : Store} {x : Roster} {name : String}

/-- **A search in a catalog follows the pointer and reads the description.** -/
theorem findIn_shows {values : Schema → List Segment → Option String} (h : s.Shows values)
    (hname : Dogu.simpleNameOf name ≠ "") (schema : Schema) (usable : r.client.retry.fault? = none)
    (hversion : ∀ version,
      s.contents.slots.text (.ofPath ((r.catalogOf schema).currentPath name)) = some version →
        Catalog.IsVersion version) :
    match (s.contents.slots.text (.ofPath ((r.catalogOf schema).currentPath name))).bind
        fun version => s.contents.slots.text (.ofPath ((r.catalogOf schema).versionPath name version))
      with
    | some raw => (r.catalogOf schema).findIn name s =
        (Dogu.readFirst Dogu.defaultSchemas raw).mapError .format
    | none => ∃ f, (r.catalogOf schema).findIn name s = .error f ∧ f.IsNotFound := by
  have husable := r.catalogOf_usable schema usable
  have hreaders : (r.catalogOf schema).readers = Dogu.defaultSchemas := by
    cases schema <;> rfl
  have hpointer := Catalog.length_pointerPlace hname
  rw [Catalog.findIn]
  cases hcurrent : s.contents.slots.text (.ofPath ((r.catalogOf schema).currentPath name)) with
  | none =>
    obtain ⟨f, hget, hf⟩ :=
      h.getIn_of_none husable (r.ofPath_currentPath schema name) hpointer hcurrent
    rw [hget]
    exact ⟨_, rfl, hf⟩
  | some version =>
    have hplain := hversion version hcurrent
    have hdeep : (Path.segments (Dogu.simpleNameOf name) ++ Path.segments version).length = 2 := by
      have hsegment : Path.segments version = _ :=
        Path.segments_eq_singleton (.ofText version hplain.nonempty hplain.slashless)
      rw [Dogu.segments_simpleNameOf hname, hsegment]
      rfl
    rw [Client.getIn_of_text husable (r.currentPath_ne_root schema name) hcurrent]
    dsimp only [Option.bind_some]
    cases hbody : s.contents.slots.text
        (.ofPath ((r.catalogOf schema).versionPath name version)) with
    | none =>
      obtain ⟨f, hget, hf⟩ :=
        h.getIn_of_none husable (r.ofPath_versionPath schema name version) hdeep hbody
      rw [hget]
      exact ⟨_, rfl, hf⟩
    | some raw =>
      rw [Client.getIn_of_text husable
        (r.ofPath_versionPath schema name version ▸ Schema.keyAt_ne_root) hbody]
      dsimp only
      rw [hreaders]

section Find

variable (h : s.Shows x.value) (hname : Dogu.simpleNameOf name ≠ "") (schema : Schema)

include h hname

theorem text_currentPath :
    s.contents.slots.text (.ofPath ((r.catalogOf schema).currentPath name)) =
      x.current (Dogu.simpleNameOf name) := by
  rw [ofPath_currentPath, h.files, Catalog.pointerPlace, Dogu.segments_simpleNameOf hname,
    List.singleton_append, Roster.value, if_pos rfl]
  rfl

theorem text_versionPath {version : String} (hversion : Catalog.IsVersion version) :
    s.contents.slots.text (.ofPath ((r.catalogOf schema).versionPath name version)) =
      (x.bodies (Dogu.simpleNameOf name) version).map (·.write schema) := by
  have hsegment : Path.segments version = _ :=
    Path.segments_eq_singleton (.ofText version hversion.nonempty hversion.slashless)
  rw [ofPath_versionPath, h.files, Dogu.segments_simpleNameOf hname, hsegment]
  exact if_neg fun heq => hversion.noPointer (congrArg Segment.text heq)

theorem slot_currentPath :
    s.contents.slots[Key.ofPath ((r.catalogOf schema).currentPath name)]?.isSome =
      (x.current (Dogu.simpleNameOf name)).isSome := by
  have htext := r.text_currentPath h hname schema
  have hdeep := Catalog.length_pointerPlace hname
  rw [ofPath_currentPath, h.isSome_slot hdeep, ← h.files, ← r.ofPath_currentPath, htext]

variable (usable : r.client.retry.fault? = none)
  (hversion : ∀ version, x.current (Dogu.simpleNameOf name) = some version →
    Catalog.IsVersion version)

include usable hversion

/-- **A search in one catalog finds what the schema keeps of the enabled version.** -/
theorem findIn_catalogOf : match x.find (Dogu.simpleNameOf name) with
    | some d => (r.catalogOf schema).findIn name s = .ok (d.kept schema)
    | none => ∃ f, (r.catalogOf schema).findIn name s = .error f ∧ f.IsNotFound := by
  have htext := r.text_currentPath h hname schema
  have hfind := r.findIn_shows h hname schema usable fun version hversion' =>
    hversion version (htext ▸ hversion')
  rw [htext] at hfind
  rw [Roster.find]
  cases hcurrent : x.current (Dogu.simpleNameOf name) with
  | none =>
    rw [hcurrent] at hfind
    exact hfind
  | some version =>
    have hbody := r.text_versionPath h hname schema (hversion version hcurrent)
    rw [hcurrent, Option.bind_some, hbody] at hfind
    dsimp only [Option.bind_some]
    cases hd : x.bodies (Dogu.simpleNameOf name) version with
    | none =>
      rw [hd] at hfind
      exact hfind
    | some d =>
      rw [hd] at hfind
      dsimp only [Option.map_some] at hfind ⊢
      rw [hfind, Dogu.readFirst_write]
      rfl

/-- **A search in both catalogs finds the enabled version as it was registered.** -/
theorem findIn_catalogs : match x.find (Dogu.simpleNameOf name) with
    | some d => r.catalogs.findIn name s = .ok d
    | none => ∃ f, r.catalogs.findIn name s = .error f ∧ f.IsNotFound := by
  have hnewer := r.findIn_catalogOf h hname .v2 usable hversion
  have holder := r.findIn_catalogOf h hname .v1 usable hversion
  cases hfind : x.find (Dogu.simpleNameOf name) with
  | some d =>
    rw [hfind] at hnewer
    change r.catalogs.newer.findIn name s = .ok d at hnewer
    rw [CatalogPair.findIn, hnewer]
  | none =>
    rw [hfind] at hnewer holder
    obtain ⟨f, hnewer, hf⟩ := hnewer
    change r.catalogs.newer.findIn name s = .error f at hnewer
    rw [CatalogPair.findIn, hnewer]
    dsimp only
    rw [if_pos hf]
    exact holder

end Find

/-! ## The main result -/

/-- Nothing but pointers and descriptions of versions is kept. -/
theorem exists_path (h : s.Shows x.value) {k : Key} (hk : s.contents.slots.text k ≠ none) :
    ∃ schema name, Dogu.simpleNameOf name ≠ "" ∧
      (k = Key.ofPath ((r.catalogOf schema).currentPath name) ∨ ∃ version,
        Catalog.IsVersion version ∧ k = Key.ofPath ((r.catalogOf schema).versionPath name version)) := by
  obtain ⟨schema, place, rfl⟩ := h.others k hk
  have hdeep := h.deep schema place (h.files schema place ▸ hk)
  obtain ⟨n, leaf, rfl⟩ := List.length_eq_two.mp hdeep
  have hsimple : Dogu.simpleNameOf n.text = n.text := Dogu.simpleNameOf_of_notMem n.slashless
  have hname : n.text ≠ "" := fun e => n.nonempty (String.toList_eq_nil_iff.mpr e)
  have hsegments : Path.segments (Dogu.simpleNameOf n.text) = [n] := by
    rw [hsimple, Path.segments_eq_singleton]
  refine ⟨schema, n.text, hsimple.symm ▸ hname, ?_⟩
  by_cases hleaf : leaf = Catalog.pointer
  · left
    rw [ofPath_currentPath, Catalog.pointerPlace, hsegments, hleaf]
    rfl
  · right
    refine ⟨leaf.text, ⟨fun e => leaf.nonempty (String.toList_eq_nil_iff.mpr e), leaf.slashless,
      fun e => hleaf (Segment.ext_text e)⟩, ?_⟩
    rw [ofPath_versionPath, hsegments, Path.segments_eq_singleton]
    rfl

/-- **Without lost requests, the catalogs of a registry behave like a roster.** A call is accepted
as the roster says. A search finds the enabled version as it was registered, and a dogu is enabled
if there is one. Both catalogs keep the pointers and versions of the roster and nothing else, and
what they keep of a version is read as their schema keeps it. A client with an unusable policy
makes no request at all. -/
theorem run_roster (usable : r.client.retry.fault? = none) (pauses : List Nat)
    (calls : List CatalogCall) (plain : ∀ call ∈ calls, call.IsPlain) :
    let l := r.catalogs.run calls (Link.undisturbed {} pauses)
    let x := Roster.run calls
    (∀ call : CatalogCall, call.IsPlain →
      (x.Accepts call → (l.perform (r.catalogs.operate call)).1 = .ok ()) ∧
      (¬ x.Accepts call →
        ∃ f, (l.perform (r.catalogs.operate call)).1 = .error f ∧ f.IsNotFound)) ∧
    (∀ name, Dogu.simpleNameOf name ≠ "" →
      (match x.find (Dogu.simpleNameOf name) with
        | some d => (l.perform (r.catalogs.find name)).1 = .ok d
        | none => ∃ f, (l.perform (r.catalogs.find name)).1 = .error f ∧ f.IsNotFound) ∧
      (l.perform (r.catalogs.isEnabled name)).1 = .ok (x.current (Dogu.simpleNameOf name)).isSome) ∧
    (∀ schema name, Dogu.simpleNameOf name ≠ "" →
      l.store.contents.slots.text (.ofPath ((r.catalogOf schema).currentPath name)) =
        x.current (Dogu.simpleNameOf name) ∧
      ∀ version, Catalog.IsVersion version →
        l.store.contents.slots.text (.ofPath ((r.catalogOf schema).versionPath name version)) =
          (x.bodies (Dogu.simpleNameOf name) version).map (·.write schema)) ∧
    (∀ k, l.store.contents.slots.text k ≠ none → ∃ schema name, Dogu.simpleNameOf name ≠ "" ∧
      (k = Key.ofPath ((r.catalogOf schema).currentPath name) ∨ ∃ version,
        Catalog.IsVersion version ∧
          k = Key.ofPath ((r.catalogOf schema).versionPath name version))) ∧
    ∀ (schema : Schema) (d : Dogu),
      Dogu.readFirst (r.catalogOf schema).readers (d.write schema) = .ok (d.kept schema) := by
  intro l x
  have hstart := Link.undisturbed_isCalm {} pauses
  have hshows : l.store.Shows x.value := r.run_shows usable hstart rfl calls plain
  have hcalm : l.IsCalm := hstart.of_leadsTo (r.catalogs.run_leadsTo calls _)
  refine ⟨fun call hcall => ?_, fun name hname => ⟨?_, ?_⟩, fun schema name hname => ⟨?_, ?_⟩,
    fun k hk => r.exists_path hshows hk, fun schema d => ?_⟩
  · obtain ⟨-, haccepted, hrefused⟩ := r.settle_shows usable hcall hshows
    rw [(r.catalogs.operate_calm call hshows.lasting hcalm).1]
    exact ⟨haccepted, hrefused⟩
  · rw [r.catalogs.find_calm name hshows.lasting hcalm]
    exact r.findIn_catalogs hshows hname usable fun _ => Roster.run_isVersion calls plain
  · have hroot : Key.ofPath (r.catalogs.older.currentPath name) ≠ .root :=
      r.currentPath_ne_root .v1 name
    have husable : r.catalogs.older.client.retry.fault? = none := usable
    rw [CatalogPair.isEnabled, Catalog.isEnabled_calm _ name hshows.lasting hcalm hroot, husable]
    exact congrArg Except.ok (r.slot_currentPath hshows hname .v1)
  · exact r.text_currentPath hshows hname schema
  · exact fun version => r.text_versionPath hshows hname schema
  · have hreaders : (r.catalogOf schema).readers = Dogu.defaultSchemas := by
      cases schema <;> rfl
    rw [hreaders, Dogu.readFirst_write]

/-- A dogu is registered and enabled in two versions, one after the other. -/
theorem run_roster_upgrade :
    let r : Registry := ⟨⟨.constant 10 2, 1000, 1⟩⟩
    let d : Dogu :=
      { name := "official/nginx", version := "1.0", dependencies := [⟨"package", "etcd", ">=2"⟩] }
    let d' : Dogu := { d with version := "2.0" }
    let calls : List CatalogCall := [.register d, .enable d, .register d', .enable d']
    let l := r.catalogs.run calls (Link.undisturbed {} [5, 7])
    (l.perform (r.catalogs.find "nginx")).1 = .ok d' ∧
      (l.perform (r.catalogs.isEnabled "redis")).1 = .ok false ∧
      (l.perform (r.catalogs.operate (.unregister "nginx"))).1 = .ok () := by
  intro r d d' calls l
  have hnginx : Dogu.simpleNameOf "nginx" ≠ "" := by decide +kernel
  have hredis : Dogu.simpleNameOf "redis" ≠ "" := by decide +kernel
  have hplain : d.IsPlain := ⟨by decide +kernel, by decide, by decide, by decide⟩
  have hplain' : d'.IsPlain := ⟨by decide +kernel, by decide, by decide, by decide⟩
  have hcalls : ∀ call ∈ calls, call.IsPlain := by
    intro call hcall
    rcases List.mem_cons.mp hcall with rfl | hcall
    · exact hplain
    rcases List.mem_cons.mp hcall with rfl | hcall
    · exact hplain
    rcases List.mem_cons.mp hcall with rfl | hcall
    · exact hplain'
    · exact List.mem_singleton.mp hcall ▸ hplain'
  obtain ⟨hcall, hread, -⟩ := run_roster r rfl [5, 7] calls hcalls
  have hfind : (Roster.run calls).find (Dogu.simpleNameOf "nginx") = some d' := by decide +kernel
  have hcurrent : (Roster.run calls).current (Dogu.simpleNameOf "nginx") ≠ none := by
    decide +kernel
  have hnone : (Roster.run calls).current (Dogu.simpleNameOf "redis") = none := by decide +kernel
  have hfound := (hread "nginx" hnginx).1
  have hdisabled := (hread "redis" hredis).2
  rw [hfind] at hfound
  rw [hnone] at hdisabled
  exact ⟨hfound, hdisabled, (hcall (.unregister "nginx") hnginx).1 hcurrent⟩

end Registry

end ClusterRegistry
