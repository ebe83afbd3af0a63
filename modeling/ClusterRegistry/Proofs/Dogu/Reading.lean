import ClusterRegistry.Proofs.Dogu.Place

/-!
# Undisturbed reads

When nothing gets lost, what catalogs answer is read off the store, and reading changes nothing.

* `Slots.text`: the value of a file;
* `Client.getIn`, `Catalog.findIn`, `CatalogPair.findIn`: the answers;
* **`CatalogPair.find_calm`**, **`Catalog.isEnabled_calm`**: what a read answers;
* **`CatalogPair.findAll_calm`**: whatever is listed is found under some name.
-/

namespace ClusterRegistry

/-- The value of the file at a key. -/
def Slots.text (slots : Slots) (k : Key) : Option String :=
  slots[k]?.bind fun x => if x.dir then none else some x.value

namespace Store

variable {s s' : Store} {now : Nat} {path : String} {options : GetOptions} {response : Response}

theorem serve_get (s : Store) (now : Nat) (path : String) (options : GetOptions) :
    s.serve now (.get path options) = (s.expire now, (s.expire now).read now path options) := by
  have hperform : (s.expire now).perform now (.get path options) =
      ((s.expire now).read now path options).map (s.expire now, ·) := rfl
  unfold serve
  dsimp only
  rw [hperform]
  cases (s.expire now).read now path options <;> rfl

theorem perform_get_store (h : s.perform now (.get path options) = .ok (s', response)) :
    s' = s := by
  change (s.read now path options).map (s, ·) = _ at h
  cases hread : s.read now path options with
  | error refusal =>
    rw [hread] at h
    cases h
  | ok answer =>
    rw [hread] at h
    exact (congrArg Prod.fst (Except.ok.inj h)).symm

theorem perform_get_of_none (now : Nat) (options : GetOptions) (notRoot : Key.ofPath path ≠ .root)
    (h : s.contents.slots[Key.ofPath path]? = none) : s.perform now (.get path options) =
      .error (.ofCode Refusal.keyNotFound (Key.ofPath path).text s.index) := by
  change (s.read now path options).map (s, ·) = _
  unfold read
  dsimp only
  rw [if_neg notRoot, Contents.lookup_slots_eq_none.mp h]
  rfl

theorem perform_get_of_some (now : Nat) (options : GetOptions) (notRoot : Key.ofPath path ≠ .root)
    {x : Slot} (h : s.contents.slots[Key.ofPath path]? = some x) : ∃ response,
      s.perform now (.get path options) = .ok (s, response) ∧
        response.node.valueText = if x.dir then "" else x.value := by
  obtain ⟨e, he, rfl⟩ := Option.map_eq_some_iff.mp (Contents.lookup_slots.symm.trans h)
  have hread : ∃ nodes, s.read now path options = .ok
      { action := .get, node := (e.snapshot now).node (.ofPath path) nodes, index := s.index } := by
    unfold read
    dsimp only
    rw [if_neg notRoot, he]
    exact ⟨_, rfl⟩
  obtain ⟨nodes, hread⟩ := hread
  refine ⟨_, congrArg (Except.map (s, ·)) hread, ?_⟩
  change (if e.dir then none else some e.value).getD "" = if e.dir then "" else e.value
  split <;> rfl

end Store

namespace Client

variable (c : Client) (path : String) {l : Link} {s : Store}

/-- The outcome of a read of one value. -/
def getIn (s : Store) : Except Failure String :=
  (c.settle "get" path (.get path {}) s).1.map fun response => response.node.valueText

theorem settle_get_store (operation : String) (options : GetOptions) (s : Store) :
    (c.settle operation path (.get path options) s).2 = s := by
  rw [settle]
  cases c.retry.delays with
  | error reason => rfl
  | ok waits =>
    dsimp only
    rw [settleWith]
    cases hperform : s.perform 0 (.get path options) with
    | error refusal => rfl
    | ok answer => exact Store.perform_get_store hperform

theorem get_calm (h : l.store.Lasting) (calm : l.IsCalm) :
    (l.perform (c.get path)).1 = c.getIn path l.store ∧
      (l.perform (c.get path)).2.store = l.store := by
  obtain ⟨hanswer, hstore⟩ := c.request_calm "get" path h (r := .get path {}) trivial calm
  rw [get, Link.perform_bind_pure, hanswer]
  exact ⟨rfl, hstore.trans (c.settle_get_store path _ _ _)⟩

section Usable

variable {c path} (usable : c.retry.fault? = none) (notRoot : Key.ofPath path ≠ .root)

include usable notRoot

theorem getIn_of_none (h : s.contents.slots[Key.ofPath path]? = none) :
    ∃ f, c.getIn path s = .error f ∧ f.IsNotFound := by
  obtain ⟨n, hsettle⟩ := settle_of_error "get" path usable
    (Store.perform_get_of_none 0 {} notRoot h)
  rw [getIn, hsettle]
  exact ⟨_, rfl, rfl⟩

theorem getIn_of_text {value : String} (h : s.contents.slots.text (.ofPath path) = some value) :
    c.getIn path s = .ok value := by
  obtain ⟨x, hx, hvalue⟩ := Option.bind_eq_some_iff.mp h
  obtain ⟨response, hperform, htext⟩ :=
    Store.perform_get_of_some 0 {} notRoot hx
  rw [getIn, settle_of_ok "get" path usable hperform]
  split_ifs at hvalue with hdir
  rw [if_neg hdir] at htext
  exact congrArg Except.ok (htext.trans (Option.some.inj hvalue))

end Usable

theorem kept_of_getIn {c : Client} {path value : String} (notRoot : Key.ofPath path ≠ .root)
    (h : c.getIn path s = .ok value) :
    c.retry.fault? = none ∧ s.contents.slots[Key.ofPath path]? ≠ none := by
  cases hfault : c.retry.fault? with
  | some reason =>
    rw [getIn, settle_of_fault "get" path hfault] at h
    cases h
  | none =>
    refine ⟨rfl, fun hnone => ?_⟩
    obtain ⟨f, hf, -⟩ := getIn_of_none hfault notRoot hnone
    rw [hf] at h
    cases h

theorem children_calm (h : l.store.Lasting) (calm : l.IsCalm) :
    (l.perform (c.children path)).2.store = l.store := by
  obtain ⟨-, hstore⟩ := c.request_calm "get_children_paths" path h
    (r := .get path { sorted := true }) trivial calm
  rw [children, Link.perform_bind, Link.perform_outcome]
  dsimp only
  generalize l.perform (c.request "get_children_paths" path _) = sent at hstore ⊢
  have hsame : sent.2.store = l.store := hstore.trans (c.settle_get_store path _ _ _)
  cases sent.1 with
  | ok response => exact hsame
  | error f =>
    dsimp only
    split <;> exact hsame

theorem exists_calm (h : l.store.Lasting) (calm : l.IsCalm) (notRoot : Key.ofPath path ≠ .root) :
    (l.perform (c.exists? path)).1 = match c.retry.fault? with
      | some reason => .error (.retryPolicy reason)
      | none => .ok (l.store.contents.slots[Key.ofPath path]?.isSome) := by
  obtain ⟨hanswer, -⟩ := c.request_calm "exists" path h (r := .get path {}) trivial calm
  rw [exists?, Link.perform_bind, Link.perform_outcome]
  dsimp only
  rw [hanswer]
  cases hfault : c.retry.fault? with
  | some reason =>
    rw [settle_of_fault "exists" path hfault]
    rfl
  | none =>
    cases hslot : l.store.contents.slots[Key.ofPath path]? with
    | none =>
      obtain ⟨n, hsettle⟩ := settle_of_error "exists" path hfault
        (Store.perform_get_of_none 0 {} notRoot hslot)
      rw [hsettle]
      rfl
    | some x =>
      obtain ⟨response, hperform, -⟩ := Store.perform_get_of_some 0 {} notRoot hslot
      rw [settle_of_ok "exists" path hfault hperform]
      rfl

end Client

namespace Catalog

variable (c : Catalog) {l : Link}

/-! ## One catalog -/

/-- The outcome of a search in one catalog. -/
def findIn (name : String) (s : Store) : Except Failure Dogu :=
  match c.client.getIn (c.currentPath name) s with
  | .error f => .error (.context s!"failed to read current version of dogu {name}" f)
  | .ok version =>
    match c.client.getIn (c.versionPath name version) s with
    | .error f => .error (.context s!"failed to read dogu {name} {version}" f)
    | .ok raw => (Dogu.readFirst c.readers raw).mapError .format

theorem find_calm (name : String) (h : l.store.Lasting) (calm : l.IsCalm) :
    (l.perform (c.find name)).1 = c.findIn name l.store ∧
      (l.perform (c.find name)).2.store = l.store := by
  obtain ⟨hcurrent, hstore⟩ := c.client.get_calm (c.currentPath name) h calm
  have hcalm := calm.perform (c.client.get (c.currentPath name))
  rw [find, Link.perform_bind, Link.perform_during, findIn]
  generalize l.perform (c.client.get (c.currentPath name)) = first at hcurrent hstore hcalm ⊢
  obtain ⟨answer, l'⟩ := first
  dsimp only at hcurrent hstore hcalm ⊢
  rw [hcurrent]
  cases c.client.getIn (c.currentPath name) l.store with
  | error f => exact ⟨rfl, hstore⟩
  | ok version =>
    dsimp only [Except.mapError]
    obtain ⟨hraw, hstore'⟩ :=
      c.client.get_calm (c.versionPath name version) (l := l') (hstore ▸ h) hcalm
    rw [Link.perform_bind, Link.perform_during, hraw, hstore]
    cases c.client.getIn (c.versionPath name version) l.store with
    | error f => exact ⟨rfl, hstore'.trans hstore⟩
    | ok raw =>
      dsimp only [Except.mapError]
      cases Dogu.readFirst c.readers raw with
      | error f => exact ⟨rfl, hstore'.trans hstore⟩
      | ok d => exact ⟨rfl, hstore'.trans hstore⟩

theorem hasPointer_of_findIn {c : Catalog} {name : String} {s : Store} {d : Dogu}
    (notRoot : Key.ofPath (c.currentPath name) ≠ .root) (h : c.findIn name s = .ok d) :
    c.client.retry.fault? = none ∧ c.HasPointer name s := by
  rw [findIn] at h
  cases hcurrent : c.client.getIn (c.currentPath name) s with
  | error f =>
    rw [hcurrent] at h
    cases h
  | ok version => exact Client.kept_of_getIn notRoot hcurrent

theorem isEnabled_calm (name : String) (h : l.store.Lasting) (calm : l.IsCalm)
    (notRoot : Key.ofPath (c.currentPath name) ≠ .root) :
    (l.perform (c.isEnabled name)).1 = match c.client.retry.fault? with
      | some reason =>
        .error (.context s!"failed to check whether dogu {name} is enabled" (.retryPolicy reason))
      | none => .ok (l.store.contents.slots[Key.ofPath (c.currentPath name)]?.isSome) := by
  rw [isEnabled, Link.perform_during, c.client.exists_calm _ h calm notRoot]
  cases c.client.retry.fault? <;> rfl

theorem findEach_calm (names : List String) (h : l.store.Lasting) (calm : l.IsCalm) :
    (l.perform (c.findEach names)).1 =
        .ok (names.filterMap fun name => (c.findIn name l.store).toOption) ∧
      (l.perform (c.findEach names)).2.store = l.store := by
  induction names generalizing l with
  | nil => exact ⟨rfl, rfl⟩
  | cons name rest ih =>
    obtain ⟨hfound, hstore⟩ := c.find_calm name h calm
    have hcalm := calm.perform (c.find name)
    rw [findEach, Link.perform_bind, Link.perform_outcome]
    dsimp only
    generalize l.perform (c.find name) = first at hfound hstore hcalm ⊢
    obtain ⟨found, l'⟩ := first
    dsimp only at hfound hstore hcalm ⊢
    obtain ⟨hothers, hstore'⟩ := ih (l := l') (hstore ▸ h) hcalm
    rw [Link.perform_bind, hothers, hfound, hstore]
    cases hresult : c.findIn name l.store with
    | error f =>
      rw [List.filterMap_cons_none (by rw [hresult]; rfl)]
      exact ⟨rfl, hstore'.trans hstore⟩
    | ok d =>
      rw [List.filterMap_cons_some (by rw [hresult]; rfl)]
      exact ⟨rfl, hstore'.trans hstore⟩

theorem findAll_calm (h : l.store.Lasting) (calm : l.IsCalm) :
    (l.perform c.findAll).2.store = l.store ∧
      ∀ ds, (l.perform c.findAll).1 = .ok ds → ∀ d ∈ ds, ∃ name, c.findIn name l.store = .ok d := by
  have hstore : (l.perform (Operation.during s!"failed to list dogus below {c.root}"
      (c.client.children c.root))).2.store = l.store := by
    rw [Link.perform_during]
    exact c.client.children_calm c.root h calm
  have hcalm := calm.perform (Operation.during s!"failed to list dogus below {c.root}"
    (c.client.children c.root))
  rw [findAll, Link.perform_bind]
  generalize l.perform (Operation.during s!"failed to list dogus below {c.root}"
    (c.client.children c.root)) = first at hstore hcalm ⊢
  obtain ⟨paths, l'⟩ := first
  dsimp only at hstore hcalm ⊢
  cases paths with
  | error f => exact ⟨hstore, fun ds hds => nomatch hds⟩
  | ok paths =>
    obtain ⟨heach, hstore'⟩ :=
      c.findEach_calm (paths.map Path.lastSegment) (l := l') (hstore ▸ h) hcalm
    refine ⟨hstore'.trans hstore, fun ds hds d hd => ?_⟩
    rw [heach, hstore] at hds
    obtain rfl := Except.ok.inj hds
    obtain ⟨name, -, hname⟩ := List.mem_filterMap.mp hd
    refine ⟨name, ?_⟩
    cases hfound : c.findIn name l.store with
    | error f =>
      rw [hfound] at hname
      cases hname
    | ok d' =>
      rw [hfound] at hname
      exact congrArg Except.ok (Option.some.inj hname)

end Catalog

namespace CatalogPair

variable (p : CatalogPair) {l : Link}

/-! ## Both catalogs -/

/-- The outcome of a search in both catalogs. -/
def findIn (name : String) (s : Store) : Except Failure Dogu :=
  match p.newer.findIn name s with
  | .ok d => .ok d
  | .error f => if f.IsNotFound then p.older.findIn name s else .error f

/-- **An undisturbed search answers what is in the newer catalog, or else in the older one.** -/
theorem find_calm (name : String) (h : l.store.Lasting) (calm : l.IsCalm) :
    (l.perform (p.find name)).1 = p.findIn name l.store := by
  obtain ⟨hnewer, hstore⟩ := p.newer.find_calm name h calm
  have hcalm := calm.perform (p.newer.find name)
  rw [find, Link.perform_bind, Link.perform_outcome, findIn, ← hnewer]
  dsimp only
  cases (l.perform (p.newer.find name)).1 with
  | ok d => rfl
  | error f =>
    dsimp only
    split
    · rw [← hstore]
      exact (p.older.find_calm name (hstore ▸ h) hcalm).1
    · rfl

/-- **Whatever is listed is found under some name.** -/
theorem findAll_calm (h : l.store.Lasting) (calm : l.IsCalm) :
    ∀ ds, (l.perform p.findAll).1 = .ok ds → ∀ d ∈ ds, ∃ name,
      p.newer.findIn name l.store = .ok d ∨ p.older.findIn name l.store = .ok d := by
  intro ds hds d hd
  obtain ⟨hstore, hnewer⟩ := p.newer.findAll_calm h calm
  have hcalm := calm.perform p.newer.findAll
  rw [findAll, Link.perform_bind] at hds
  generalize l.perform p.newer.findAll = first at hstore hnewer hcalm hds
  obtain ⟨newer, l'⟩ := first
  dsimp only at hstore hnewer hcalm hds
  cases newer with
  | error f => cases hds
  | ok newer =>
    dsimp only at hds
    obtain ⟨-, holder⟩ := p.older.findAll_calm (l := l') (hstore ▸ h) hcalm
    rw [Link.perform_bind] at hds
    generalize l'.perform p.older.findAll = second at holder hds
    obtain ⟨older, l''⟩ := second
    dsimp only at holder hds
    cases older with
    | error f => cases hds
    | ok older =>
      obtain rfl := Except.ok.inj hds
      rcases List.mem_append.mp hd with hd | hd
      · obtain ⟨name, hname⟩ := hnewer newer rfl d hd
        exact ⟨name, .inl hname⟩
      · obtain ⟨name, hname⟩ := holder older rfl d (List.mem_filter.mp hd).1
        exact ⟨name, .inr (hstore ▸ hname)⟩

end CatalogPair

end ClusterRegistry
