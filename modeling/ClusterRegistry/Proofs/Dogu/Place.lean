import Mathlib.Data.List.TakeWhile
import ClusterRegistry.Registry
import ClusterRegistry.Proofs.Dogu.Call
import ClusterRegistry.Proofs.Path

/-!
# Places in a catalog

Both catalogs of a registry keep the same places below different roots: for each simple name a
pointer and the descriptions of its versions.

* `Dogu.simpleNameOf_simpleNameOf`, `Dogu.segments_simpleNameOf`: simple names as segments;
* `CatalogCall.place`, `Schema.keyAt`: where a call does something;
* **`Registry.ofPath_target`**: a call goes to the same place of both catalogs;
* `Schema.mem_ancestors_keyAt`: the keys above a place.
-/

namespace ClusterRegistry

namespace Dogu

/-! ## Simple names -/

theorem slash_notMem_simpleNameOf (name : String) : '/' ∉ (simpleNameOf name).toList := by
  rw [simpleNameOf, String.toList_ofList, List.mem_reverse]
  intro hmem
  have := List.mem_takeWhile_imp hmem
  simp at this

theorem simpleNameOf_of_notMem {name : String} (h : '/' ∉ name.toList) :
    simpleNameOf name = name := by
  have hall : name.toList.reverse.takeWhile (· ≠ '/') = name.toList.reverse := by
    refine List.takeWhile_eq_self_iff.mpr fun c hc => ?_
    have hne : c ≠ '/' := fun e => h (e ▸ List.mem_reverse.mp hc)
    simpa using hne
  rw [simpleNameOf, hall, List.reverse_reverse, String.ofList_toList]

theorem simpleNameOf_simpleNameOf (name : String) :
    simpleNameOf (simpleNameOf name) = simpleNameOf name :=
  simpleNameOf_of_notMem (slash_notMem_simpleNameOf name)

end Dogu

/-- A text that is one segment. -/
def Segment.ofText (text : String) (nonempty : text ≠ "") (slashless : '/' ∉ text.toList) :
    Segment where
  text := text
  nonempty h := nonempty (String.toList_eq_nil_iff.mp h)
  slashless := slashless

namespace Dogu

theorem segments_simpleNameOf {name : String} (h : simpleNameOf name ≠ "") :
    Path.segments (simpleNameOf name) =
      [.ofText (simpleNameOf name) h (slash_notMem_simpleNameOf name)] :=
  Path.segments_eq_singleton (.ofText (simpleNameOf name) h (slash_notMem_simpleNameOf name))

theorem simpleNameOf_eq_of_segments {name other : String}
    (h : Path.segments (simpleNameOf name) = Path.segments (simpleNameOf other)) :
    simpleNameOf name = simpleNameOf other := by
  by_cases hname : simpleNameOf name = ""
  · by_cases hother : simpleNameOf other = ""
    · rw [hname, hother]
    · rw [segments_simpleNameOf hother, hname, Path.segments_empty] at h
      cases h
  · by_cases hother : simpleNameOf other = ""
    · rw [segments_simpleNameOf hname, hother, Path.segments_empty] at h
      cases h
    · rw [segments_simpleNameOf hname, segments_simpleNameOf hother] at h
      exact congrArg Segment.text (List.cons.inj h).1

end Dogu

/-! ## Places -/

/-- The segment of the pointer to the enabled version. -/
def Catalog.pointer : Segment where
  text := currentKey
  nonempty := by decide
  slashless := by decide

/-- The place of the pointer of a dogu, below the root of a catalog. -/
def Catalog.pointerPlace (name : String) : List Segment :=
  Path.segments (Dogu.simpleNameOf name) ++ [pointer]

theorem Catalog.length_pointerPlace {name : String} (h : Dogu.simpleNameOf name ≠ "") :
    (pointerPlace name).length = 2 := by
  rw [pointerPlace, Dogu.segments_simpleNameOf h]
  rfl

/-- Where a call does something, below the root of a catalog. -/
def CatalogCall.place : CatalogCall → List Segment
  | .register d => Path.segments d.simpleName ++ Path.segments d.version
  | .enable d => Catalog.pointerPlace d.name
  | .unregister name => Catalog.pointerPlace name

namespace Catalog

variable (c : Catalog)

theorem segments_versionPath (name version : String) :
    (Key.ofPath (c.versionPath name version)).segments = Path.segments c.root ++
      (Path.segments (Dogu.simpleNameOf name) ++ Path.segments version) := by
  rw [versionPath, doguPath, Key.segments_ofPath_join, Path.segments_join, List.append_assoc]

theorem segments_currentPath (name : String) :
    (Key.ofPath (c.currentPath name)).segments = Path.segments c.root ++ pointerPlace name := by
  have hpointer : Path.segments currentKey = [pointer] := Path.segments_eq_singleton pointer
  rw [currentPath, doguPath, Key.segments_ofPath_join, Path.segments_join, List.append_assoc,
    hpointer, pointerPlace]

theorem segments_target (call : CatalogCall) :
    (Key.ofPath (c.target call)).segments = Path.segments c.root ++ call.place := by
  cases call with
  | register d =>
    rw [target, segments_versionPath, CatalogCall.place, Dogu.simpleName,
      Dogu.simpleNameOf_simpleNameOf]
  | enable d =>
    rw [target, segments_currentPath, CatalogCall.place, pointerPlace, pointerPlace,
      Dogu.simpleName, Dogu.simpleNameOf_simpleNameOf]
  | unregister name => exact c.segments_currentPath name

end Catalog

/-! ## The catalogs of a registry -/

/-- The segment of the root of each catalog. -/
def Schema.root : Schema → Segment
  | .v1 => ⟨"dogu", by decide, by decide⟩
  | .v2 => ⟨"dogu_v2", by decide, by decide⟩

/-- The key of a place in a catalog of a registry. -/
def Schema.keyAt (schema : Schema) (place : List Segment) : Key := ⟨schema.root :: place⟩

theorem Schema.keyAt_ne_root {schema : Schema} {place : List Segment} :
    schema.keyAt place ≠ .root := fun h => by
  cases congrArg Key.segments h

theorem Schema.segments_keyAt (schema : Schema) (place : List Segment) :
    (schema.keyAt place).segments = [schema.root] ++ place := rfl

/-- The catalog with descriptions in a schema. -/
def Registry.catalogOf (r : Registry) : Schema → Catalog
  | .v1 => r.catalogs.older
  | .v2 => r.catalogs.newer

namespace Registry

variable (r : Registry) (schema : Schema)

theorem segments_root : Path.segments (r.catalogOf schema).root = [schema.root] := by
  have holder : Path.segments olderCatalogPath = [Schema.v1.root] := by decide +kernel
  have hnewer : Path.segments newerCatalogPath = [Schema.v2.root] := by decide +kernel
  cases schema with
  | v1 => exact holder
  | v2 => exact hnewer

theorem catalogOf_client : (r.catalogOf schema).client = r.client := by
  cases schema <;> rfl

theorem catalogOf_usable (usable : r.client.retry.fault? = none) :
    (r.catalogOf schema).client.retry.fault? = none := by
  rw [catalogOf_client, usable]

theorem catalogOf_schema : (r.catalogOf schema).schema = schema := by
  cases schema <;> rfl

theorem ofPath_versionPath (name version : String) :
    Key.ofPath ((r.catalogOf schema).versionPath name version) =
      schema.keyAt (Path.segments (Dogu.simpleNameOf name) ++ Path.segments version) := by
  refine Key.ext_segments ?_
  rw [Catalog.segments_versionPath, segments_root, Schema.segments_keyAt]

theorem ofPath_currentPath (name : String) :
    Key.ofPath ((r.catalogOf schema).currentPath name) =
      schema.keyAt (Catalog.pointerPlace name) := by
  refine Key.ext_segments ?_
  rw [Catalog.segments_currentPath, segments_root, Schema.segments_keyAt]

theorem currentPath_ne_root (name : String) :
    Key.ofPath ((r.catalogOf schema).currentPath name) ≠ .root := by
  rw [ofPath_currentPath]
  exact Schema.keyAt_ne_root

/-- **A call goes to the same place of both catalogs.** -/
theorem ofPath_target (call : CatalogCall) :
    Key.ofPath ((r.catalogOf schema).target call) = schema.keyAt call.place := by
  refine Key.ext_segments ?_
  rw [Catalog.segments_target, segments_root, Schema.segments_keyAt]

end Registry

namespace Schema

variable {schema other : Schema} {place place' : List Segment}

theorem keyAt_inj : schema.keyAt place = other.keyAt place' ↔ schema = other ∧ place = place' := by
  constructor
  · intro h
    obtain ⟨hroot, hplace⟩ := List.cons.inj (congrArg Key.segments h)
    refine ⟨?_, hplace⟩
    cases schema <;> cases other <;> first | rfl | exact absurd hroot (by decide)
  · rintro ⟨rfl, rfl⟩
    rfl

theorem mem_ancestors_keyAt {k : Key} : k ∈ (schema.keyAt place).ancestors ↔
    ∃ above, k = schema.keyAt above ∧ above <+: place ∧ above ≠ place := by
  rw [Key.mem_ancestors]
  constructor
  · rintro ⟨⟨hwithin, hne⟩, hroot⟩
    cases hk : k.segments with
    | nil => exact absurd (Key.ext_segments hk) hroot
    | cons s above =>
      rw [hk] at hwithin
      obtain ⟨rfl, habove⟩ := List.cons_prefix_cons.mp hwithin
      have hkey : k = schema.keyAt above := Key.ext_segments hk
      refine ⟨above, hkey, habove, ?_⟩
      rintro rfl
      exact hne hkey.symm
  · rintro ⟨above, rfl, habove, hne⟩
    refine ⟨⟨List.cons_prefix_cons.mpr ⟨rfl, habove⟩, ?_⟩, keyAt_ne_root⟩
    intro h
    exact hne (keyAt_inj.mp h).2.symm

end Schema

end ClusterRegistry
