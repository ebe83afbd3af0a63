import ClusterRegistry.Dogu.Catalog
import ClusterRegistry.Scope
import ClusterRegistry.Tree

/-!
# The registry

The registry of a cluster hands out the parts of the store: scopes for settings, the catalogs of
dogus, the states of their setup, and a snapshot of it all. All parts share one client.

* `Registry`, `Registry.globalConfig`, `Registry.hostConfig`, … : the parts;
* `Registry.value`, `Registry.childPaths`: reads at any path;
* `Registry.snapshot`: the whole store as a tree.
-/

namespace ClusterRegistry

/-- The registry of a cluster. -/
structure Registry where
  client : Client
deriving DecidableEq, Repr

namespace Registry

def globalPath : String := "/config/_global"
def hostPath : String := "/config/_host"
def configPath : String := "/config"
def olderCatalogPath : String := "/dogu"
def newerCatalogPath : String := "/dogu_v2"
def statePath : String := "/state"
def blueprintPath : String := "/blueprint"

variable (r : Registry)

/-- Settings of the whole cluster. -/
def globalConfig : Scope := ⟨r.client, globalPath⟩

/-- Settings of a service of the host. -/
def hostConfig (service : String) : Scope := ⟨r.client, Path.join hostPath service⟩

/-- Settings of a dogu. -/
def doguConfig (dogu : String) : Scope := ⟨r.client, Path.join configPath dogu⟩

/-- What has been rolled out. -/
def blueprint : Scope := ⟨r.client, blueprintPath⟩

/-- Values below any path. -/
def scope (parent : String) : Scope := ⟨r.client, parent⟩

/-- The state of the setup of a dogu. -/
def state (dogu : String) : StateMarker := ⟨r.client, Path.join statePath dogu⟩

/-- A catalog of dogus below any root. -/
def catalog (root : String) (schema : Schema) : Catalog :=
  { client := r.client, root := root, schema := schema }

/-- The catalogs of dogus. -/
def catalogs : CatalogPair :=
  ⟨r.catalog olderCatalogPath .v1, r.catalog newerCatalogPath .v2⟩

/-- The value at any path. -/
def value (path : String) : Operation String :=
  Operation.during s!"could not get value of {path}" (r.client.get path)

/-- The paths of the children of any path. -/
def childPaths (path : String) : Operation (List String) :=
  Operation.during s!"could not list children of {path}" (r.client.children path)

/-- The whole store as a tree. -/
def snapshot : Operation Tree :=
  Operation.during "could not read store tree" do
    let root ← r.client.getNode "/" true
    return .ofNode root

end Registry

end ClusterRegistry
