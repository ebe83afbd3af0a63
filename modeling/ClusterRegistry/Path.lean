/-!
# Paths

A path is a text that names a place in the store; slashes divide it into segments. Callers spell
paths freely, so slashes may be repeated, missing in front or left over at the end.

* `Segment`, `Path.segments`: the non-empty texts between slashes;
* `Path.render`, `Path.canonical`: the one spelling with a slash in front of each segment;
* `Path.join`, `Path.lastSegment`, `Path.relativeTo`: work on the text as it was given;
* **`Path.segments_render`**: the canonical spelling has the segments it was made of.
-/

namespace ClusterRegistry

/-- One step of a path: a non-empty text without a slash. -/
structure Segment where
  text : String
  nonempty : text.toList ≠ []
  slashless : '/' ∉ text.toList
deriving DecidableEq

/-- The segment with the given characters, if they make one. -/
def Segment.ofChars? (cs : List Char) : Option Segment :=
  if h : cs ≠ [] ∧ '/' ∉ cs then
    some ⟨String.ofList cs, by simpa using h.1, by simpa using h.2⟩
  else none

theorem Segment.ofChars?_toList (s : Segment) : Segment.ofChars? s.text.toList = some s := by
  cases s with
  | mk text nonempty slashless => simp [Segment.ofChars?, nonempty, slashless]

theorem Segment.ofChars?_nil : Segment.ofChars? [] = none := by simp [Segment.ofChars?]

namespace Path

/-- The text without the slashes at its end. -/
def trimEnd (cs : List Char) : List Char := (cs.reverse.dropWhile (· = '/')).reverse

/-- The text without the slashes at its start. -/
def trimStart (cs : List Char) : List Char := cs.dropWhile (· = '/')

/-- The segments of a path, in order. -/
def segments (path : String) : List Segment :=
  (path.toList.splitOn '/').filterMap Segment.ofChars?

/-- The characters of the canonical spelling: a slash, then the segments with slashes between. -/
def renderChars (segs : List Segment) : List Char :=
  '/' :: ['/'].intercalate (segs.map (·.text.toList))

/-- The canonical spelling of a list of segments; the empty list is a lone slash. -/
def render (segs : List Segment) : String := String.ofList (renderChars segs)

/-- The canonical spelling of a path: absolute, with single slashes and none at the end. -/
def canonical (path : String) : String := render (segments path)

/-- The path `key` below `parent`. Slashes around `key` and at the end of `parent` are dropped;
an empty `key` is `parent` itself. -/
def join (parent key : String) : String :=
  let above := trimEnd parent.toList
  let below := trimEnd (trimStart key.toList)
  if below = [] then
    if above = [] then "/" else String.ofList above
  else String.ofList (above ++ '/' :: below)

/-- What stands after the last slash, slashes at the end aside. -/
def lastSegment (path : String) : String :=
  String.ofList (((path.toList.reverse.dropWhile (· = '/')).takeWhile (· ≠ '/')).reverse)

/-- The part of `full` below `root`, without slashes in front. A path outside `root` is kept whole
but for the slashes in front. -/
def relativeTo (root full : String) : String :=
  let above := trimEnd root.toList
  let rest := full.toList.drop above.length
  if above.isPrefixOf full.toList ∧ (rest = [] ∨ rest.head? = some '/') then
    String.ofList (trimStart rest)
  else String.ofList (trimStart full.toList)

theorem segments_render (segs : List Segment) : segments (render segs) = segs := by
  have hcons : ('/' :: ['/'].intercalate (segs.map (·.text.toList))).splitOn '/' =
      [] :: (['/'].intercalate (segs.map (·.text.toList))).splitOn '/' := by
    simpa using
      List.splitOn_append_cons_self (a := '/') [] (['/'].intercalate (segs.map (·.text.toList)))
  rw [segments, render, String.toList_ofList, renderChars, hcons,
    List.filterMap_cons_none Segment.ofChars?_nil]
  cases segs with
  | nil => simp [Segment.ofChars?_nil]
  | cons s segs =>
    rw [List.splitOn_intercalate]
    · rw [List.filterMap_map]
      have : (Segment.ofChars? ∘ fun s : Segment => s.text.toList) = some := by
        funext s; exact s.ofChars?_toList
      rw [this, List.filterMap_some]
    · intro l hl
      obtain ⟨t, -, rfl⟩ := List.mem_map.1 hl
      exact t.slashless
    · simp

theorem canonical_canonical (path : String) : canonical (canonical path) = canonical path := by
  simp [canonical, segments_render]

end Path

end ClusterRegistry
