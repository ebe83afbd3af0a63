/-!
# Dogus

A dogu is an application of the cluster, described by its name, version and dependencies. A name may
have a namespace in front, as in `official/nginx`; the registry files dogus under the simple name.

* `Dogu`, `Dependency`;
* `Dogu.simpleNameOf`, `Dogu.simpleName`, `Dogu.nameSpaceOf`: the parts of a name;
* `Schema`: the two forms in which a description is written.
-/

namespace ClusterRegistry

/-- Something that a dogu needs, with a constraint on its version. -/
structure Dependency where
  kind : String
  name : String
  version : String
deriving DecidableEq, Repr

/-- A dependency on another dogu. -/
def Dependency.dogu (name version : String) : Dependency := ⟨"dogu", name, version⟩

/-- The description of an application. -/
structure Dogu where
  name : String
  version : String
  displayName : String := ""
  description : String := ""
  category : String := ""
  tags : List String := []
  logo : String := ""
  url : String := ""
  image : String := ""
  dependencies : List Dependency := []
  optionalDependencies : List Dependency := []
deriving DecidableEq, Repr

namespace Dogu

/-- The part of a name after the last slash; all of it, if there is none. -/
def simpleNameOf (name : String) : String :=
  String.ofList (name.toList.reverse.takeWhile (· ≠ '/')).reverse

/-- The part of a name before the last slash; nothing, if there is none. -/
def nameSpaceOf (name : String) : String :=
  String.ofList ((name.toList.reverse.dropWhile (· ≠ '/')).drop 1).reverse

def simpleName (d : Dogu) : String := simpleNameOf d.name

end Dogu

/-- The forms in which a description is written: `v1` knows dependencies by name alone. -/
inductive Schema
  | v1 | v2
deriving DecidableEq, Repr

def Schema.label : Schema → String
  | .v1 => "v1"
  | .v2 => "v2"

end ClusterRegistry
