import Mathlib.Data.List.Nodup
import ClusterRegistry.Proofs.Dogu.Look
import ClusterRegistry.Proofs.Store.Walk

/-!
# What catalogs list

A listing goes through the names below the root of a catalog and leaves out whatever it cannot read.
The older catalog fills the gaps, also where the newer one has something.

* `Catalog.visits`, `Catalog.searches`, `Catalog.perform_findAll`: the searches of a listing;
* `Catalog.names`, `Catalog.mem_names`: what is found under a name stands below the root;
* `Catalog.Misses`, **`Catalog.findAll_finds`**: what a listing shows, and what it misses;
* **`CatalogPair.findAll_legacy`**: when a listing shows something of the older catalog;
* `CatalogPair.lossy_masked`: it does so although the newer catalog has something.
-/

namespace ClusterRegistry

namespace Catalog

variable (c : Catalog) {l : Link}

/-! ## The searches of a listing -/

/-- The searches for some names one after the other, each with the link at which it starts. -/
def visits : List String → Link → List (String × Link)
  | [], _ => []
  | name :: rest, l => (name, l) :: visits rest (l.perform (c.find name)).2

/-- The searches of a listing. -/
def searches (l : Link) : List (String × Link) :=
  match l.perform (c.client.children c.root) with
  | (.ok paths, l') => c.visits (paths.map Path.lastSegment) l'
  | (.error _, _) => []

/-- What some searches find. -/
def harvest (visits : List (String × Link)) : List Dogu :=
  visits.filterMap fun v => (v.2.perform (c.find v.1)).1.toOption

theorem map_fst_visits (names : List String) (l : Link) : (c.visits names l).map (·.1) = names := by
  induction names generalizing l with
  | nil => rfl
  | cons name rest ih => exact congrArg (name :: ·) (ih _)

theorem harvest_cons (name : String) (l : Link) (rest : List (String × Link)) :
    c.harvest ((name, l) :: rest) = match (l.perform (c.find name)).1 with
      | .ok d => d :: c.harvest rest
      | .error _ => c.harvest rest := by
  unfold harvest
  rw [List.filterMap_cons]
  cases (l.perform (c.find name)).1 <;> rfl

theorem mem_harvest {visits : List (String × Link)} {d : Dogu} :
    d ∈ c.harvest visits ↔ ∃ v ∈ visits, (v.2.perform (c.find v.1)).1 = .ok d := by
  have hok : ∀ x : Except Failure Dogu, x.toOption = some d ↔ x = .ok d := by
    intro x
    cases x <;> simp [Except.toOption]
  simp only [harvest, List.mem_filterMap, hok]

theorem perform_findEach (names : List String) (l : Link) :
    (l.perform (c.findEach names)).1 = .ok (c.harvest (c.visits names l)) := by
  induction names generalizing l with
  | nil => rfl
  | cons name rest ih =>
    rw [findEach, Link.perform_bind, Link.perform_outcome]
    dsimp only
    rw [Link.perform_bind, ih, visits, harvest_cons]
    cases (l.perform (c.find name)).1 <;> rfl

theorem perform_findAll (l : Link) : (l.perform c.findAll).1 =
    match (l.perform (c.client.children c.root)).1 with
    | .ok _ => .ok (c.harvest (c.searches l))
    | .error f => .error (.context s!"failed to list dogus below {c.root}" f) := by
  rw [findAll, Link.perform_bind, Link.perform_during, searches]
  generalize l.perform (c.client.children c.root) = first
  obtain ⟨paths, l'⟩ := first
  cases paths with
  | error f => rfl
  | ok paths => exact c.perform_findEach _ l'

/-! ## In a store that stands still -/

theorem findEach_keeps (names : List String) (still : l.IsStill) :
    (l.perform (c.findEach names)).2.store = l.store ∧ (l.perform (c.findEach names)).2.IsStill := by
  induction names generalizing l with
  | nil => exact ⟨rfl, still⟩
  | cons name rest ih =>
    have hfind := c.find_finds name still
    obtain ⟨hkept, hstill⟩ := ih hfind.still
    rw [findEach, Link.perform_bind, Link.perform_outcome]
    dsimp only
    rw [Link.perform_bind, perform_findEach]
    dsimp only
    cases (l.perform (c.find name)).1 <;> exact ⟨hkept.trans hfind.kept, hstill⟩

theorem findAll_keeps (still : l.IsStill) :
    (l.perform c.findAll).2.store = l.store ∧ (l.perform c.findAll).2.IsStill := by
  obtain ⟨hkept, hstill, -⟩ := c.client.children_finds c.root still
  rw [findAll, Link.perform_bind, Link.perform_during]
  generalize l.perform (c.client.children c.root) = first at hkept hstill ⊢
  obtain ⟨paths, l'⟩ := first
  cases paths with
  | error f => exact ⟨hkept, hstill⟩
  | ok paths =>
    obtain ⟨hkept', hstill'⟩ := c.findEach_keeps (paths.map Path.lastSegment) hstill
    exact ⟨hkept'.trans hkept, hstill'⟩

theorem visits_keep {names : List String} (still : l.IsStill) :
    ∀ v ∈ c.visits names l, v.2.store = l.store ∧ v.2.IsStill := by
  induction names generalizing l with
  | nil => exact fun v hv => nomatch hv
  | cons name rest ih =>
    have hfind := c.find_finds name still
    intro v hv
    rcases List.mem_cons.mp hv with rfl | hv
    · exact ⟨rfl, still⟩
    · obtain ⟨hkept, hstill⟩ := ih hfind.still v hv
      exact ⟨hkept.trans hfind.kept, hstill⟩

theorem searches_keep (still : l.IsStill) :
    ∀ v ∈ c.searches l, v.2.store = l.store ∧ v.2.IsStill := by
  obtain ⟨hkept, hstill, -⟩ := c.client.children_finds c.root still
  unfold searches
  generalize l.perform (c.client.children c.root) = first at hkept hstill
  obtain ⟨paths, l'⟩ := first
  cases paths with
  | error f => exact fun v hv => nomatch hv
  | ok paths =>
    intro v hv
    obtain ⟨hkept', hstill'⟩ := c.visits_keep hstill v hv
    exact ⟨hkept'.trans hkept, hstill'⟩

/-- The names below the root of a catalog. -/
def names (s : Store) : List String :=
  ((s.contents.children (.ofPath c.root)).map (·.1.text)).map Path.lastSegment

theorem mem_names {name : String} {s : Store} (order : s.InOrder) (nonempty : name ≠ "")
    (simple : Dogu.simpleNameOf name = name) (h : c.HasPointer name s) : name ∈ c.names s := by
  have hslash : '/' ∉ name.toList := simple ▸ Dogu.slash_notMem_simpleNameOf name
  have hsegments : (Key.ofPath (c.currentPath name)).segments =
      Path.segments c.root ++ [Segment.ofText name nonempty hslash, pointer] := by
    have hname : Path.segments name = [.ofText name nonempty hslash] :=
      Path.segments_eq_singleton (.ofText name nonempty hslash)
    rw [segments_currentPath, pointerPlace, simple, hname]
    rfl
  obtain ⟨x, hx⟩ := Option.ne_none_iff_exists'.mp h
  obtain ⟨e, he, -⟩ := Option.map_eq_some_iff.mp (Contents.lookup_slots.symm.trans hx)
  have habove : (⟨Path.segments c.root ++ [.ofText name nonempty hslash]⟩ : Key) ∈
      (Key.ofPath (c.currentPath name)).ancestors := by
    refine Key.mem_ancestors.mpr ⟨⟨?_, fun heq => ?_⟩, fun heq => ?_⟩
    · rw [hsegments]
      exact List.prefix_append_right_inj _ |>.mpr (List.prefix_append [_] [_])
    · have := congrArg (·.segments.length) heq
      simp [hsegments] at this
    · have := congrArg (·.segments.length) heq
      simp [Key.root] at this
  obtain ⟨d, hd, -⟩ := order.parents _ e he _ habove
  have hchild : (⟨Path.segments c.root ++ [.ofText name nonempty hslash]⟩ : Key).IsChildOf
      (.ofPath c.root) := by
    refine ⟨fun heq => ?_, List.dropLast_concat⟩
    have := congrArg (·.segments.length) heq
    simp [Key.root] at this
  rw [names, List.map_map]
  exact List.mem_map.mpr ⟨(_, d), Contents.mem_children.mpr ⟨hd, hchild⟩,
    Path.lastSegment_render _ _⟩

theorem exists_segment_of_mem_names {name : String} {s : Store} (h : name ∈ c.names s) :
    ∃ segment : Segment, name = segment.text := by
  rw [names, List.map_map] at h
  obtain ⟨⟨k, e⟩, hmem, rfl⟩ := List.mem_map.mp h
  obtain ⟨segment, rfl⟩ := (Contents.mem_children.mp hmem).2.exists_segment
  exact ⟨segment, Path.lastSegment_render _ _⟩

theorem nodup_names (s : Store) : (c.names s).Nodup := by
  have hnames : c.names s =
      ((s.contents.children (.ofPath c.root)).map (·.1)).map fun k => Path.lastSegment k.text := by
    rw [names, List.map_map, List.map_map]
    rfl
  rw [hnames]
  refine List.Nodup.map_on (fun k hk k' hk' heq => ?_) (s.contents.nodup_children _)
  obtain ⟨⟨_, e⟩, hmem, rfl⟩ := List.mem_map.mp hk
  obtain ⟨⟨_, e'⟩, hmem', rfl⟩ := List.mem_map.mp hk'
  obtain ⟨segment, rfl⟩ := (Contents.mem_children.mp hmem).2.exists_segment
  obtain ⟨segment', rfl⟩ := (Contents.mem_children.mp hmem').2.exists_segment
  dsimp only [Key.text] at heq
  rw [Path.lastSegment_render, Path.lastSegment_render] at heq
  rw [Segment.ext_text heq]

/-- Because of lost requests, a listing does not come to a name, or fails to read it. -/
def Misses (name : String) (l : Link) : Prop :=
  (l.Loses (l.perform (c.client.children c.root)).2 ∧ ∀ v ∈ c.searches l, v.1 ≠ name) ∨
    ∃ v ∈ c.searches l, v.1 = name ∧ v.2.Loses (v.2.perform (c.find name)).2 ∧
      ∃ f, (v.2.perform (c.find name)).1 = .error f

/-- **A listing shows what can be found, and nothing that can be found under a simple name is left
out, unless requests are lost.** -/
theorem findAll_finds (still : l.IsStill) {ds : List Dogu}
    (h : (l.perform c.findAll).1 = .ok ds) :
    c.client.retry.fault? = none ∧ (∀ d ∈ ds, ∃ name, c.findIn name l.store = .ok d) ∧
      ∀ (name : String) (d : Dogu), l.store.InOrder → name ≠ "" → Dogu.simpleNameOf name = name →
        c.findIn name l.store = .ok d → d ∈ ds ∨ c.Misses name l := by
  rw [perform_findAll] at h
  cases hlisted : (l.perform (c.client.children c.root)).1 with
  | error f =>
    rw [hlisted] at h
    cases h
  | ok paths =>
    rw [hlisted] at h
    obtain rfl := Except.ok.inj h
    have husable := c.client.usable_of_children c.root hlisted
    refine ⟨husable, fun d hd => ?_, fun name d order nonempty simple hfound => ?_⟩
    · obtain ⟨v, hv, hd⟩ := c.mem_harvest.mp hd
      obtain ⟨hkept, hstill⟩ := c.searches_keep still v hv
      exact ⟨v.1, hkept ▸ (c.find_finds v.1 hstill).of_ok hd⟩
    · have hsearches : c.searches l = c.visits (paths.map Path.lastSegment)
          (l.perform (c.client.children c.root)).2 := by
        rw [searches]
        generalize l.perform (c.client.children c.root) = first at hlisted
        obtain ⟨answer, l'⟩ := first
        dsimp only at hlisted
        rw [hlisted]
      have hroot : Key.ofPath (c.currentPath name) ≠ .root := by
        intro heq
        have := congrArg Key.segments heq
        rw [segments_currentPath, pointerPlace] at this
        simp [Key.root] at this
      have hname := c.mem_names order nonempty simple (c.hasPointer_of_findIn hroot hfound).2
      obtain ⟨-, -, hchildren⟩ := c.client.children_finds c.root still
      rw [hlisted, c.client.childrenIn_eq c.root husable order] at hchildren
      rcases hchildren with heq | ⟨hloses, hnone⟩
      · -- the listing is right, so that the name is searched for
        rw [names, ← Except.ok.inj heq, ← c.map_fst_visits (paths.map Path.lastSegment)
          (l.perform (c.client.children c.root)).2, ← hsearches] at hname
        obtain ⟨v, hv, rfl⟩ := List.mem_map.mp hname
        obtain ⟨hkept, hstill⟩ := c.searches_keep still v hv
        have hfind := c.find_finds v.1 hstill
        rw [hkept, hfound] at hfind
        rcases hfind.found with hd | ⟨hloses, hf⟩
        · exact .inl (c.mem_harvest.mpr ⟨v, hv, hd⟩)
        · exact .inr (.inr ⟨v, hv, rfl, hloses, hf⟩)
      · rcases hnone with ⟨f, hf⟩ | hnil
        · cases hf
        · obtain rfl := Except.ok.inj hnil
          refine .inr (.inl ⟨hloses, fun v hv => ?_⟩)
          rw [hsearches] at hv
          cases hv

end Catalog

/-! ## Both catalogs -/

theorem Link.IsStill.undisturbed {l : Link} (still : l.IsStill) : (l.undisturbed []).IsStill := by
  intro k e he hdue
  obtain ⟨d, hd, hle⟩ := hdue
  exact still k e he ⟨d, hd, Nat.le_trans hle (Nat.le_add_right _ _)⟩

theorem Catalog.find_undisturbed (c : Catalog) (name : String) {l : Link} (still : l.IsStill) :
    ((l.undisturbed []).perform (c.find name)).1 = c.findIn name l.store :=
  (c.find_finds name still.undisturbed).calm (l.undisturbed_isCalm [])

namespace CatalogPair

variable (p : CatalogPair)

/-- A listing of both catalogs is one of the newer catalog, and then one of the older catalog
without the simple names that it has shown. -/
theorem perform_findAll {l : Link} {ds : List Dogu} (h : (l.perform p.findAll).1 = .ok ds) :
    ∃ newer older, (l.perform p.newer.findAll).1 = .ok newer ∧
      ((l.perform p.newer.findAll).2.perform p.older.findAll).1 = .ok older ∧
      ds = newer ++ older.filter fun d => d.simpleName ∉ newer.map Dogu.simpleName := by
  rw [findAll, Link.perform_bind] at h
  cases hnewer : (l.perform p.newer.findAll).1 with
  | error f =>
    rw [hnewer] at h
    cases h
  | ok newer =>
    rw [hnewer] at h
    dsimp only at h
    rw [Link.perform_bind_pure] at h
    cases holder : ((l.perform p.newer.findAll).2.perform p.older.findAll).1 with
    | error f =>
      rw [holder] at h
      cases h
    | ok older =>
      rw [holder] at h
      exact ⟨newer, older, rfl, rfl, (Except.ok.inj h).symm⟩

/-- **Whatever a listing shows of the older catalog, the newer one does not have, unless what it has
cannot be read or is filed under another name, or requests were lost on the way to it.** -/
theorem findAll_legacy (steps : List Step) (now : Nat) (passages : List Passage)
    (still : Link.IsStill ⟨(Course.run steps).store, now, passages⟩) {ds : List Dogu}
    (h : (Link.perform ⟨(Course.run steps).store, now, passages⟩ p.findAll).1 = .ok ds) :
    let l : Link := ⟨(Course.run steps).store, now, passages⟩
    ∃ newer legacy, (l.perform p.newer.findAll).1 = .ok newer ∧ ds = newer ++ legacy ∧
      (∀ x ∈ newer, ∃ name, ((l.undisturbed []).perform (p.newer.find name)).1 = .ok x) ∧
      ∀ d ∈ legacy, (∃ name, ((l.undisturbed []).perform (p.older.find name)).1 = .ok d) ∧
        (∀ x ∈ newer, x.simpleName ≠ d.simpleName) ∧
        let answer := ((l.undisturbed []).perform (p.newer.find d.simpleName)).1
        ((∃ f, answer = .error f ∧ f.IsNotFound) ↔
          ¬ ((∃ f, answer = .error (.format f)) ∨ ∃ x, answer = .ok x ∧
            (x.simpleName ≠ d.simpleName ∨ d.simpleName = "" ∨
              p.newer.Misses d.simpleName l))) := by
  intro l
  obtain ⟨newer, older, hnewer, holder, rfl⟩ := p.perform_findAll h
  obtain ⟨hkept, hstill⟩ := p.newer.findAll_keeps still
  obtain ⟨husable, hshown, hcomplete⟩ := p.newer.findAll_finds still hnewer
  obtain ⟨-, hshown', -⟩ := p.older.findAll_finds hstill holder
  refine ⟨newer, _, hnewer, rfl, fun x hx => ?_, fun d hd => ?_⟩
  · obtain ⟨name, hname⟩ := hshown x hx
    exact ⟨name, (p.newer.find_undisturbed name still).trans hname⟩
  obtain ⟨hd, hother⟩ := List.mem_filter.mp hd
  have hapart : ∀ x ∈ newer, x.simpleName ≠ d.simpleName := fun x hx heq =>
    of_decide_eq_true hother (heq ▸ List.mem_map_of_mem hx)
  refine ⟨?_, hapart, ?_⟩
  · obtain ⟨name, hname⟩ := hshown' d hd
    exact ⟨name, (p.older.find_undisturbed name still).trans (hkept ▸ hname)⟩
  · intro answer
    have hanswer : answer = p.newer.findIn d.simpleName l.store :=
      p.newer.find_undisturbed d.simpleName still
    cases hfound : p.newer.findIn d.simpleName l.store with
    | ok x =>
      rw [hanswer, hfound]
      refine iff_of_false (fun ⟨f, hf, _⟩ => nomatch hf) (not_not_intro (.inr ⟨x, rfl, ?_⟩))
      by_cases hempty : d.simpleName = ""
      · exact .inr (.inl hempty)
      by_cases hname : x.simpleName = d.simpleName
      · rcases hcomplete _ x (Course.run_inOrder steps) hempty
          (Dogu.simpleNameOf_simpleNameOf d.name) hfound with hx | hmisses
        · exact absurd hname (hapart x hx)
        · exact .inr (.inr hmisses)
      · exact .inl hname
    | error f =>
      rw [hanswer, hfound]
      rcases Catalog.failure_of_findIn p.newer husable hfound with hf | ⟨g, rfl⟩
      · refine iff_of_true ⟨f, rfl, hf⟩ ?_
        rintro (⟨g, hg⟩ | ⟨x, hx, -⟩)
        · obtain rfl := Except.error.inj hg
          cases hf
        · cases hx
      · refine iff_of_false ?_ (not_not_intro (.inl ⟨g, rfl⟩))
        rintro ⟨f, hf, hkind⟩
        obtain rfl := Except.error.inj hf
        cases hkind

/-- A dogu that is enabled in one version in the older catalog and in the next one in the newer
catalog. -/
def upgraded : List Step :=
  let d : Dogu := { name := "official/nginx", version := "1.0" }
  let d' : Dogu := { d with version := "2.0" }
  [.request (.set "/dogu/nginx/1.0" (d.write .v1) {}),
    .request (.set "/dogu/nginx/current" "1.0" {}),
    .request (.set "/dogu_v2/nginx/2.0" (d'.write .v2) {}),
    .request (.set "/dogu_v2/nginx/current" "2.0" {})]

/-- The way to that store, on which the request after the first one is lost. -/
def lossy : Link := ⟨(Course.run upgraded).store, 0, [{}, { failure := some (.timedOut 0) }]⟩

/-- A pair of catalogs whose clients send each request once. -/
def single : CatalogPair := (⟨⟨.constant 0 0, 1000, 1⟩⟩ : Registry).catalogs

theorem lossy_isStill : lossy.IsStill := by decide +kernel

theorem lossy_newer : (lossy.perform single.newer.findAll).1 = .ok [] := by decide +kernel

theorem lossy_findAll : (lossy.perform single.findAll).1 =
    .ok [{ name := "official/nginx", version := "1.0" }] := by decide +kernel

theorem lossy_found : ((lossy.undisturbed []).perform (single.newer.find
    (Dogu.simpleName { name := "official/nginx", version := "1.0" }))).1 =
      .ok { name := "official/nginx", version := "2.0" } := by decide +kernel

/-- A listing shows the older version, because the newer one is missed. -/
theorem findAll_legacy_upgraded :
    (lossy.perform single.findAll).1 = .ok [{ name := "official/nginx", version := "1.0" }] ∧
      single.newer.Misses (Dogu.simpleName { name := "official/nginx", version := "1.0" }) lossy := by
  refine ⟨lossy_findAll, ?_⟩
  obtain ⟨newer, legacy, hnewer, happend, -, hlegacy⟩ :=
    findAll_legacy single upgraded 0 _ lossy_isStill lossy_findAll
  obtain rfl := Except.ok.inj (hnewer.symm.trans lossy_newer)
  obtain ⟨-, -, hwhy⟩ := hlegacy _ (happend ▸ List.mem_singleton_self _)
  have hfound : ¬ ∃ f, ((lossy.undisturbed []).perform (single.newer.find
      (Dogu.simpleName { name := "official/nginx", version := "1.0" }))).1 = .error f ∧
        f.IsNotFound := by
    rintro ⟨f, hf, -⟩
    rw [lossy_found] at hf
    cases hf
  rcases of_not_not (mt hwhy.mpr hfound) with ⟨f, hf⟩ | ⟨x, hx, hname | hempty | hmisses⟩
  · cases lossy_found.symm.trans hf
  · obtain rfl := Except.ok.inj (lossy_found.symm.trans hx)
    exact absurd rfl hname
  · exact absurd hempty (by decide +kernel)
  · exact hmisses

/-- Not everything that is listed from the older catalog is absent in the newer one. -/
theorem lossy_masked : ¬ ∀ (p : CatalogPair) (steps : List Step) (now : Nat)
    (passages : List Passage) (newer ds : List Dogu),
    let l : Link := ⟨(Course.run steps).store, now, passages⟩
    l.IsStill → (l.perform p.newer.findAll).1 = .ok newer → (l.perform p.findAll).1 = .ok ds →
      ∀ d ∈ ds, d ∉ newer → ∃ f,
        ((l.undisturbed []).perform (p.newer.find d.simpleName)).1 = .error f ∧ f.IsNotFound := by
  intro h
  obtain ⟨f, hf, -⟩ := h single upgraded 0 _ [] _ lossy_isStill lossy_newer lossy_findAll _
    (List.mem_singleton_self _) List.not_mem_nil
  cases lossy_found.symm.trans hf

end CatalogPair

end ClusterRegistry
