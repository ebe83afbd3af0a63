import ClusterRegistry.Registry
import ClusterRegistry.Proofs.Dogu.Look
import ClusterRegistry.Proofs.Store.Scan
import ClusterRegistry.Proofs.Tree

/-!
# Views of a store

The values below a key, the children of a key and the tree of everything are read in different ways.
They are views of the same contents.

* `Key.relativeTo`: the path of a key below another one;
* `Contents.HasValues`, `Contents.HasChildren`, `Contents.HasTree`: what the views should be;
* `leavesOf_childNodes`: the values of a recursive read are those of the files that a walk meets;
* `Store.InOrder.hasValues`, `Store.InOrder.hasChildren`, `Store.InOrder.hasTree`: what they are;
* `Client.perform_get`: a look at a store through a client;
* **`Registry.run_views`**: all views show what is in the store.
-/

namespace ClusterRegistry

/-! ## Relative paths of keys -/

namespace Key

variable {k l base : Key}

/-- The path of a key relative to one above it: the segments that are left, with slashes between. -/
def relativeTo (k base : Key) : String := Path.spell (k.segments.drop base.segments.length)

theorem relativeTo_append (base : Key) (rest : List Segment) :
    relativeTo ⟨base.segments ++ rest⟩ base = Path.spell rest := by
  rw [relativeTo, List.drop_left]

theorem IsBelow.relativeTo_text (h : k.IsBelow base) :
    Path.relativeTo base.text k.text = k.relativeTo base := by
  obtain ⟨rest, hrest, rfl⟩ := h.exists_rest
  rw [relativeTo_append]
  exact Path.relativeTo_render base.segments hrest

theorem IsBelow.lead_append (h : k.IsBelow base) : base.lead ++ k.relativeTo base = k.text := by
  obtain ⟨rest, hrest, rfl⟩ := h.exists_rest
  rw [relativeTo_append, text_append base hrest]

theorem IsBelow.eq_of_relativeTo (h : k.IsBelow base) (h' : l.IsBelow base)
    (heq : k.relativeTo base = l.relativeTo base) : k = l := by
  apply text_injective
  rw [← h.lead_append, ← h'.lead_append, heq]

end Key

/-! ## What the views should be -/

/-- The item that stands for a key, if there is one. -/
def Tree.at? (t : Tree) (k : Key) : Option Nat :=
  t.follow? Tree.root (k.segments.map (·.text))

namespace Contents

/-- Something stands at a key. The root is always there. -/
def Holds (m : Contents) (key : Key) : Prop := key = .root ∨ m[key]? ≠ none

/-- The values below a key: those of the files, by their relative paths, and none is left out
because another file has the same path. -/
structure HasValues (m : Contents) (key : Key) (values : Values) : Prop where
  value : ∀ p v, values[p]? = some v ↔ ∃ (k : Key) (e : Entry), m[k]? = some e ∧ e.dir = false ∧
    k.IsBelow key ∧ k.relativeTo key = p ∧ e.value = v
  size : values.size = (m.toList.filter fun p => p.1.IsBelow key ∧ p.2.dir = false).length

/-- The paths of the children of a key, in order. A file has none, nor has a key that is absent. -/
structure HasChildren (m : Contents) (key : Key) (paths : List String) : Prop where
  ascending : paths.Pairwise (· < ·)
  path : ∀ p, p ∈ paths ↔ ∃ k : Key, m[k]? ≠ none ∧ k.IsChildOf key ∧ k.text = p
  empty : key ≠ .root → (∀ e, m[key]? = some e → e.dir = false) → paths = []

/-- The tree of everything: an item for the root and for each entry. -/
structure HasTree (m : Contents) (t : Tree) : Prop where
  size : t.size = m.size + 1
  reached : ∀ id < t.size, ∃! k : Key, t.at? k = some id
  found : ∀ k : Key, (t.at? k).isSome ↔ m.Holds k
  item : ∀ (k : Key) (e : Entry), m[k]? = some e → ∃ (id parent : Nat) (i : Item),
    t.at? k = some id ∧ t.item? id = some i ∧ "/" ++ i.fullKey = k.text ∧ i.value = e.value ∧
      i.dir = e.dir ∧ i.parent = some parent ∧ t.at? ⟨k.segments.dropLast⟩ = some parent

end Contents

/-! ## Values -/

theorem leavesOf_eq_flatMap (root : String) (nodes : List Node) :
    leavesOf root nodes = nodes.flatMap (·.leaves root) := by
  induction nodes with
  | nil => rw [leavesOf, List.flatMap_nil]
  | cons n rest ih => rw [leavesOf, List.flatMap_cons, ih]

theorem Snapshot.leaves_node (root : String) (now : Nat) (k : Key) (e : Entry) (nodes : List Node) :
    ((e.snapshot now).node k nodes).leaves root =
      if e.dir then leavesOf root nodes else [(Path.relativeTo root k.text, e.value)] := by
  rw [Snapshot.node, Node.leaves]
  cases hdir : e.dir <;> simp [Entry.snapshot, hdir]

/-- **The values of a recursive read are those of the files that a walk meets.** -/
theorem leavesOf_childNodes (root : String) (m : Contents) (now depth : Nat) (key : Key) :
    leavesOf root (m.childNodes now depth key) =
      ((m.walk depth key).filter fun p => !p.2.dir).map
        fun p => (Path.relativeTo root p.1.text, p.2.value) := by
  induction depth generalizing key with
  | zero =>
    have hlist := List.flatMap_singleton' (m.children key)
    rw [Contents.walk, ← hlist, leavesOf_eq_flatMap, Contents.childNodes, List.flatMap_map,
      List.filter_flatMap, List.map_flatMap]
    refine List.flatMap_congr fun p _ => ?_
    rw [Snapshot.leaves_node]
    cases hdir : p.2.dir <;> simp [hdir, leavesOf]
  | succ depth ih =>
    rw [Contents.walk, leavesOf_eq_flatMap, Contents.childNodes, List.flatMap_map,
      List.filter_flatMap, List.map_flatMap]
    refine List.flatMap_congr fun p _ => ?_
    rw [Snapshot.leaves_node]
    cases hdir : p.2.dir
    · simp [hdir]
    · simp only [if_true, ih]
      simp [hdir]

theorem Values.distinct {l : List (String × String)} (h : (l.map (·.1)).Nodup) :
    l.Pairwise fun a b => ¬ compare a.1 b.1 = .eq :=
  (List.pairwise_map.mp h).imp fun hne heq => hne (Std.LawfulEqOrd.eq_of_compare heq)

theorem Values.lookup_ofList {l : List (String × String)} (distinct : (l.map (·.1)).Nodup)
    {p v : String} : (.ofList l : Values)[p]? = some v ↔ (p, v) ∈ l := by
  have hpair := Values.distinct distinct
  have hfind : ∀ {q w}, (q, w) ∈ l → (.ofList l : Values)[q]? = some w :=
    fun hmem => Std.ExtTreeMap.getElem?_ofList_of_mem Std.ReflCmp.compare_self hpair hmem
  constructor
  · intro h
    by_cases hmem : p ∈ l.map (·.1)
    · obtain ⟨⟨q, w⟩, hw, rfl⟩ := List.mem_map.mp hmem
      rw [hfind hw] at h
      exact Option.some.inj h ▸ hw
    · rw [Std.ExtTreeMap.getElem?_ofList_of_contains_eq_false (by simpa using hmem)] at h
      cases h
  · exact hfind

namespace Store

variable {s : Store} {k key : Key} {e : Entry}

/-- The files that a recursive read meets below a key. -/
def filesBelow (s : Store) (key : Key) : List (Key × Entry) :=
  (s.contents.walk s.contents.size key).filter fun p => !p.2.dir

theorem InOrder.mem_filesBelow (h : s.InOrder) : (k, e) ∈ s.filesBelow key ↔
    s.contents[k]? = some e ∧ k.IsBelow key ∧ e.dir = false := by
  rw [filesBelow, List.mem_filter, h.mem_walk_size, Bool.not_eq_true', and_assoc]

theorem InOrder.nodup_filesBelow (h : s.InOrder) (key : Key) :
    ((s.filesBelow key).map fun p => Path.relativeTo key.text p.1.text).Nodup := by
  have hnodup : (s.filesBelow key).Nodup := (s.contents.nodup_walk _ key).of_map.filter _
  refine hnodup.map_on fun p hp q hq heq => ?_
  obtain ⟨hlook, hbelow, -⟩ := h.mem_filesBelow.mp hp
  obtain ⟨hlook', hbelow', -⟩ := h.mem_filesBelow.mp hq
  rw [hbelow.relativeTo_text, hbelow'.relativeTo_text] at heq
  have hkey := hbelow.eq_of_relativeTo hbelow' heq
  rw [hkey, hlook'] at hlook
  exact Prod.ext hkey (Option.some.inj hlook).symm

theorem InOrder.hasValues (h : s.InOrder) (now : Nat) (key : Key) :
    s.contents.HasValues key
      (.ofList (leavesOf key.text (s.contents.childNodes now s.contents.size key))) := by
  have hleaves := leavesOf_childNodes key.text s.contents now s.contents.size key
  have hnodup : (((s.filesBelow key).map fun p =>
      (Path.relativeTo key.text p.1.text, p.2.value)).map (·.1)).Nodup := by
    rw [List.map_map]
    exact h.nodup_filesBelow key
  rw [hleaves, ← filesBelow]
  constructor
  · intro p v
    rw [Values.lookup_ofList hnodup, List.mem_map]
    constructor
    · rintro ⟨⟨k, e⟩, hmem, heq⟩
      obtain ⟨hlook, hbelow, hfile⟩ := h.mem_filesBelow.mp hmem
      obtain ⟨hpath, hvalue⟩ := Prod.mk.inj heq
      exact ⟨k, e, hlook, hfile, hbelow, hbelow.relativeTo_text ▸ hpath, hvalue⟩
    · rintro ⟨k, e, hlook, hfile, hbelow, rfl, rfl⟩
      refine ⟨(k, e), h.mem_filesBelow.mpr ⟨hlook, hbelow, hfile⟩, ?_⟩
      rw [hbelow.relativeTo_text]
  · rw [Std.ExtTreeMap.size_ofList (Values.distinct hnodup), List.length_map,
      filesBelow, ((h.walk_perm key).filter _).length_eq, List.filter_filter]
    refine congrArg List.length (List.filter_congr fun p _ => ?_)
    rw [Bool.decide_and, Bool.and_comm, Bool.decide_eq_false]

/-! ## Children -/

theorem InOrder.hasChildren (h : s.InOrder) (key : Key) :
    s.contents.HasChildren key ((s.contents.children key).map (·.1.text)) where
  ascending := List.pairwise_map.mpr (s.contents.children_pairwise key)
  path p := by
    rw [List.mem_map]
    constructor
    · rintro ⟨⟨k, e⟩, hmem, rfl⟩
      obtain ⟨hlook, hchild⟩ := Contents.mem_children.mp hmem
      exact ⟨k, hlook ▸ Option.some_ne_none e, hchild, rfl⟩
    · rintro ⟨k, hlook, hchild, rfl⟩
      obtain ⟨e, he⟩ := Option.ne_none_iff_exists'.mp hlook
      exact ⟨(k, e), Contents.mem_children.mpr ⟨he, hchild⟩, rfl⟩
  empty hroot hfile := by
    rw [h.children_of_not_dir hroot hfile, List.map_nil]

/-! ## The tree -/

/-- The keys that a recursive read from the root meets, in order, and the root before them. -/
def tour (s : Store) : List Key := .root :: (s.contents.walk s.contents.size .root).map (·.1)

theorem InOrder.mem_tour (h : s.InOrder) : k ∈ s.tour ↔ s.contents.Holds k := by
  rw [tour, List.mem_cons, List.mem_map, Contents.Holds]
  refine or_congr_right ⟨?_, fun hne => ?_⟩
  · rintro ⟨⟨k, e⟩, hwalk, rfl⟩
    rw [(h.mem_walk_size.mp hwalk).1]
    exact Option.some_ne_none e
  · obtain ⟨e, he⟩ := Option.ne_none_iff_exists'.mp hne
    exact ⟨(k, e), h.mem_walk_size.mpr ⟨he, List.nil_prefix, h.notRoot k e he⟩, rfl⟩

theorem InOrder.length_tour (h : s.InOrder) : s.tour.length = s.contents.size + 1 := by
  have hall : s.contents.toList.filter (fun p => p.1.IsBelow .root) = s.contents.toList := by
    refine List.filter_eq_self.mpr fun p hp => decide_eq_true ?_
    exact ⟨List.nil_prefix, h.notRoot p.1 p.2 (Contents.mem_toList.mp hp)⟩
  rw [tour, List.length_cons, List.length_map, (h.walk_perm .root).length_eq, hall,
    Std.ExtTreeMap.length_toList]

theorem InOrder.hasTree (h : s.InOrder) (now : Nat) {root : Node} (hkey : root.key = "")
    (hnodes : root.nodes = s.contents.childNodes now s.contents.size .root) :
    s.contents.HasTree (.ofNode root) := by
  have hdraws : (Tree.ofNode root).Draws s.contents s.tour :=
    Tree.draws_ofNode now s.contents.size hkey hnodes
  generalize Tree.ofNode root = t at hdraws ⊢
  have hat : ∀ {k : Key} {id : Nat}, t.at? k = some id ↔ s.tour[id]? = some k :=
    hdraws.follow?_eq_some_iff
  have hfound : ∀ k : Key, (t.at? k).isSome ↔ s.contents.Holds k := by
    intro k
    rw [← h.mem_tour, List.mem_iff_getElem?, Option.isSome_iff_exists]
    exact exists_congr fun id => hat
  refine ⟨hdraws.length.trans h.length_tour, fun id hid => ?_, hfound, fun k e he => ?_⟩
  · have hkey := List.getElem?_eq_getElem (hid.trans_eq hdraws.length)
    exact ⟨_, hat.mpr hkey, fun k hk => Option.some.inj ((hat.mp hk).symm.trans hkey)⟩
  · obtain ⟨id, hid⟩ := Option.isSome_iff_exists.mp
      ((hfound k).mpr (.inr (he ▸ Option.some_ne_none e)))
    obtain ⟨e', parent, he', hparent, hitem⟩ := hdraws.item id k (hat.mp hid) (h.notRoot k e he)
    obtain rfl := Option.some.inj (he.symm.trans he')
    -- the tree leaves out the value of a directory, which is empty in the store too
    have hvalue : (if e.dir then "" else e.value) = e.value := by
      split_ifs with hdir
      · exact (h.emptyDirs k e he hdir).symm
      · rfl
    exact ⟨id, parent, _, hid, hitem, (Path.render_eq k.segments).symm, hvalue, rfl, rfl,
      hat.mpr hparent⟩

/-! ## Reads -/

theorem childNodes_of_children_eq_nil {m : Contents} (now depth : Nat)
    (h : m.children key = []) : m.childNodes now depth key = [] := by
  cases depth <;> rw [Contents.childNodes, h, List.map_nil]

theorem InOrder.read_nodes (h : s.InOrder) (now : Nat) (path : String) (options : GetOptions) :
    match s.read now path options with
    | .ok response => s.contents.Holds (.ofPath path) ∧
        (Key.ofPath path = .root → response.node.key = "") ∧
          response.node.nodes = s.contents.childNodes now
            (if options.recursive then s.contents.size else 0) (.ofPath path)
    | .error refusal => ¬ s.contents.Holds (.ofPath path) ∧ refusal.kind = .notFound := by
  unfold read
  dsimp only
  by_cases hroot : Key.ofPath path = .root
  · rw [if_pos hroot]
    exact ⟨.inl hroot, fun _ => rfl, rfl⟩
  · rw [if_neg hroot]
    cases hlook : s.contents[Key.ofPath path]? with
    | none => exact ⟨fun hholds => hholds.elim hroot (absurd hlook), rfl⟩
    | some e =>
      refine ⟨.inr (hlook ▸ Option.some_ne_none e), fun hroot' => absurd hroot' hroot, ?_⟩
      cases hdir : e.dir with
      | true => rfl
      | false =>
        have hnone := h.children_of_not_dir hroot fun d hd =>
          Option.some.inj (hlook.symm.trans hd) ▸ hdir
        exact (childNodes_of_children_eq_nil now _ hnone).symm

end Store

/-! ## Looks through a client -/

theorem Link.serve_get {l : Link} (h : l.passages = []) (path : String) (options : GetOptions) :
    (l.serve (.get path options)).2 =
      ((l.store.expire l.now).read l.now path options).mapError .refused := by
  unfold serve
  rw [h, List.headD_nil, List.tail_nil]
  dsimp only
  rw [Nat.add_zero, Store.serve_get]

namespace Client

variable {c : Client} {l : Link}

theorem perform_get (usable : c.retry.fault? = none) (h : l.passages = []) (operation path : String)
    (options : GetOptions) :
    (l.perform (c.request operation path (.get path options))).1 =
      ((l.store.expire l.now).read l.now path options).mapError
        fun refusal => .request operation path 1 (.refused refusal) := by
  rw [perform_request, delays_eq, usable]
  dsimp only
  generalize (List.range c.retry.maxRetryCount.toNat).map c.retry.delay = waits
  have hserve := Link.serve_get h path options
  cases hread : (l.store.expire l.now).read l.now path options with
  | ok response =>
    rw [hread] at hserve
    cases waits <;> rw [attempts, Link.exec_count, Link.exec_ask, hserve] <;> rfl
  | error refusal =>
    rw [hread] at hserve
    have hgist := (l.store.expire l.now).read_gist l.now path options
    rw [hread] at hgist
    have hkind : (RequestFailure.refused refusal).kind = .notFound := Store.kind_of_gist hgist.symm
    cases waits with
    | nil =>
      rw [attempts, Link.exec_count, Link.exec_ask, hserve]
      rfl
    | cons wait waits =>
      rw [attempts, Link.exec_count, Link.exec_ask, hserve]
      dsimp only [Except.mapError]
      rw [if_pos hkind]
      rfl

variable (usable : c.retry.fault? = none) (h : l.passages = []) (order : l.store.InOrder)
  (path : String)

include usable h order

theorem getAll_view :
    match (l.perform (c.getAll path)).1 with
    | .ok values => (l.store.expire l.now).contents.Holds (.ofPath path) ∧
        (l.store.expire l.now).contents.HasValues (.ofPath path) values
    | .error f => ¬ (l.store.expire l.now).contents.Holds (.ofPath path) ∧ f.IsNotFound := by
  have hsettled := order.expire l.now
  have hread := hsettled.read_nodes l.now path { recursive := true, sorted := true }
  rw [getAll, Link.perform_bind_pure, perform_get usable h]
  cases hanswer : (l.store.expire l.now).read l.now path { recursive := true, sorted := true } with
  | error refusal =>
    rw [hanswer] at hread
    exact hread
  | ok response =>
    rw [hanswer] at hread
    obtain ⟨hholds, -, hnodes⟩ := hread
    refine ⟨hholds, ?_⟩
    dsimp only
    rw [hnodes]
    exact hsettled.hasValues l.now (.ofPath path)

theorem children_view : ∃ paths, (l.perform (c.children path)).1 = .ok paths ∧
    (l.store.expire l.now).contents.HasChildren (.ofPath path) paths := by
  have hsettled := order.expire l.now
  refine ⟨_, ?_, hsettled.hasChildren (.ofPath path)⟩
  rw [← c.childrenIn_eq path usable hsettled, perform_children, childrenIn, lookIn, delays_eq,
    usable]
  dsimp only
  rw [perform_get usable h, Except.map_mapError, Store.read_gist]

end Client

namespace Registry

variable {r : Registry}

theorem snapshot_view {l : Link} (usable : r.client.retry.fault? = none) (h : l.passages = [])
    (order : l.store.InOrder) : ∃ t, (l.perform r.snapshot).1 = .ok t ∧
      (l.store.expire l.now).contents.HasTree t := by
  have hsettled := order.expire l.now
  have hread := hsettled.read_nodes l.now "/" { recursive := true, sorted := true }
  have hroot : Key.ofPath "/" = .root := by decide
  rw [snapshot, Link.perform_during, Link.perform_bind_pure, Client.getNode,
    Link.perform_bind_pure, Client.perform_get usable h]
  cases hanswer : (l.store.expire l.now).read l.now "/" { recursive := true, sorted := true } with
  | error refusal =>
    rw [hanswer] at hread
    exact absurd (.inl hroot) hread.1
  | ok response =>
    rw [hanswer] at hread
    obtain ⟨-, hkey, hnodes⟩ := hread
    exact ⟨_, rfl, hsettled.hasTree l.now (hkey hroot) (hroot ▸ hnodes)⟩

/-- **Whatever has happened to a store, all ways to read it show the same contents:** those that are
left when everything due is gone. -/
theorem run_views (usable : r.client.retry.fault? = none) (steps : List Step) :
    let l : Link := { store := (Course.run steps).store, now := (Course.run steps).now }
    let m := ((Course.run steps).store.expire (Course.run steps).now).contents
    (∀ path, match (l.perform (r.client.getAll path)).1 with
      | .ok values => m.Holds (.ofPath path) ∧ m.HasValues (.ofPath path) values
      | .error f => ¬ m.Holds (.ofPath path) ∧ f.IsNotFound) ∧
    (∀ path, ∃ paths, (l.perform (r.client.children path)).1 = .ok paths ∧
      m.HasChildren (.ofPath path) paths) ∧
    ∃ t, (l.perform r.snapshot).1 = .ok t ∧ m.HasTree t := by
  intro l m
  have horder : l.store.InOrder := Course.run_inOrder steps
  exact ⟨Client.getAll_view usable rfl horder, Client.children_view usable rfl horder,
    snapshot_view usable rfl horder⟩

/-- A store with a neighbour of a directory that stands between the directory and its files in the
order of the texts, and with a file that has gone with its lifetime. -/
theorem run_views_neighbour :
    let r : Registry := ⟨⟨.constant 10 2, 1000, 1⟩⟩
    let steps : List Step :=
      [.request (.set "/a/b" "v" {}), .request (.set "/a-b" "w" {}),
        .request (.set "/a/c/d" "x" { lifetime := some 10 }), .request (.set "a//c/e" "y" {}),
        .pass 10]
    let l : Link := { store := (Course.run steps).store, now := (Course.run steps).now }
    r.client.retry.fault? = none ∧
      (∃ values, (l.perform (r.client.getAll "/a")).1 = .ok values ∧ values["c/e"]? = some "y" ∧
        values.size = 2) ∧
      (∃ paths, (l.perform (r.client.children "/a/")).1 = .ok paths ∧ "/a/c" ∈ paths ∧
        "/a-b" ∉ paths) ∧
      ∃ t, (l.perform r.snapshot).1 = .ok t ∧ t.size = 6 ∧ (t.at? (.ofPath "/a/c/e")).isSome := by
  intro r steps l
  obtain ⟨hvalues, hchildren, t, ht, htree⟩ := r.run_views rfl steps
  have hholds : ((Course.run steps).store.expire (Course.run steps).now).contents.Holds
      (.ofPath "/a/c/e") := .inr (by decide +kernel)
  refine ⟨rfl, ?_, ?_, t, ht, ?_, (htree.found _).mpr hholds⟩
  · specialize hvalues "/a"
    cases hall : (l.perform (r.client.getAll "/a")).1 with
    | error f =>
      rw [hall] at hvalues
      exact absurd (.inr (by decide +kernel)) hvalues.1
    | ok values =>
      rw [hall] at hvalues
      refine ⟨values, rfl, (hvalues.2.value _ _).mpr ?_, hvalues.2.size.trans (by decide +kernel)⟩
      exact ⟨.ofPath "/a/c/e", ⟨false, "y", none, 4, 4⟩, by decide +kernel, rfl, by decide,
        by decide +kernel, rfl⟩
  · obtain ⟨paths, hpaths, hview⟩ := hchildren "/a/"
    refine ⟨paths, hpaths, (hview.path _).mpr ?_, fun hmem => ?_⟩
    · exact ⟨.ofPath "/a/c", by decide +kernel, by decide, by decide⟩
    · obtain ⟨k, -, hchild, htext⟩ := (hview.path _).mp hmem
      obtain rfl : k = .ofPath "/a-b" := htext ▸ (Key.ofPath_text k).symm
      exact absurd hchild (by decide)
  · rw [htree.size]
    decide +kernel

end Registry

end ClusterRegistry
