import ClusterRegistry.Client
import ClusterRegistry.Dogu.Document

/-!
# Catalogs of dogus

A catalog keeps, below its root and the simple name of a dogu, one description for each version, and
under `current` the version that is enabled. Two catalogs stand side by side while readers move from
one schema to the other; a pair of them keeps them in step.

* `Catalog`, `Catalog.register`, `Catalog.enable`, `Catalog.find`, … : one catalog;
* `CatalogPair`, `CatalogPair.register`, … : both, the older one first in writes, the newer one
  first in reads.
-/

namespace ClusterRegistry

/-- The descriptions below a root, written in one schema and read in several. -/
structure Catalog where
  client : Client
  root : String
  schema : Schema
  readers : List Schema := Dogu.defaultSchemas
deriving DecidableEq, Repr

namespace Catalog

/-- The key below a dogu that names the enabled version. -/
def currentKey : String := "current"

variable (c : Catalog)

/-- The path of a dogu. -/
def doguPath (name : String) : String := Path.join c.root (Dogu.simpleNameOf name)

/-- The path of one description. -/
def versionPath (name version : String) : String := Path.join (c.doguPath name) version

/-- The path of the enabled version. -/
def currentPath (name : String) : String := Path.join (c.doguPath name) currentKey

/-- Stores the description of a version. -/
def register (d : Dogu) : Operation Unit :=
  Operation.during s!"failed to register dogu {d.name} {d.version}" do
    let _ ← c.client.set (c.versionPath d.simpleName d.version) (d.write c.schema)

/-- Makes a version the enabled one. -/
def enable (d : Dogu) : Operation Unit :=
  Operation.during s!"failed to enable dogu {d.name} {d.version}" do
    let _ ← c.client.set (c.currentPath d.simpleName) d.version

/-- The description of the enabled version. -/
def find (name : String) : Operation Dogu := do
  let version ← Operation.during s!"failed to read current version of dogu {name}"
    (c.client.get (c.currentPath name))
  let raw ← Operation.during s!"failed to read dogu {name} {version}"
    (c.client.get (c.versionPath name version))
  match Dogu.readFirst c.readers raw with
  | .ok d => return d
  | .error f => throw (.format f)

/-- The dogus among the given names that can be read. -/
def findEach : List String → Operation (List Dogu)
  | [] => return []
  | name :: rest => do
    let found ← (c.find name).outcome
    let others ← findEach rest
    match found with
    | .ok d => return d :: others
    | .error _ => return others

/-- All enabled dogus that can be read. -/
def findAll : Operation (List Dogu) := do
  let paths ← Operation.during s!"failed to list dogus below {c.root}" (c.client.children c.root)
  c.findEach (paths.map Path.lastSegment)

/-- Disables a dogu. Its descriptions stay. -/
def unregister (name : String) : Operation Unit :=
  Operation.during s!"failed to unregister dogu {name}" (c.client.delete (c.currentPath name))

/-- Whether some version is enabled. -/
def isEnabled (name : String) : Operation Bool :=
  Operation.during s!"failed to check whether dogu {name} is enabled"
    (c.client.exists? (c.currentPath name))

end Catalog

/-- Two catalogs of the same dogus. -/
structure CatalogPair where
  older : Catalog
  newer : Catalog
deriving DecidableEq, Repr

namespace CatalogPair

variable (p : CatalogPair)

/-- A write to both catalogs. If only the first one takes it, the failure says so. -/
def writeBoth (operation : String) (d : Dogu) (first second : Operation Unit) : Operation Unit := do
  first
  match ← second.outcome with
  | .ok () => return ()
  | .error f => throw (.partialWrite operation d.name .v1 .v2 f)

def register (d : Dogu) : Operation Unit :=
  writeBoth "register" d (p.older.register d) (p.newer.register d)

def enable (d : Dogu) : Operation Unit :=
  writeBoth "enable" d (p.older.enable d) (p.newer.enable d)

/-- The description in the newer catalog, or in the older one if it is absent there. -/
def find (name : String) : Operation Dogu := do
  match ← (p.newer.find name).outcome with
  | .ok d => return d
  | .error f => if f.IsNotFound then p.older.find name else throw f

/-- All dogus of the newer catalog, and those that only the older one has. -/
def findAll : Operation (List Dogu) := do
  let newer ← p.newer.findAll
  let older ← p.older.findAll
  return newer ++ older.filter fun d => d.simpleName ∉ newer.map Dogu.simpleName

/-- Disables a dogu in both catalogs. That the newer one does not have it is no failure. -/
def unregister (name : String) : Operation Unit := do
  p.older.unregister name
  match ← (p.newer.unregister name).outcome with
  | .ok () => return ()
  | .error f => if f.IsNotFound then return () else throw f

/-- Whether a version is enabled in the older catalog. -/
def isEnabled (name : String) : Operation Bool := p.older.isEnabled name

end CatalogPair

end ClusterRegistry
