/-!
# Entries

Tables keep their entries in the order in which the names came first.

* `Entries.put`: sets a name, which keeps its position if it is there;
* **`Entries.lookup_put`**: that changes this name and no other one.
-/

namespace ClusterRegistry.Entries

/-- Sets a name. -/
def put (name : String) (value : α) : List (String × α) → List (String × α)
  | [] => [(name, value)]
  | (n, v) :: rest => if n = name then (n, value) :: rest else (n, v) :: put name value rest

/-- **Setting a name changes what is found under it, and nothing else.** -/
theorem lookup_put (name other : String) (value : α) (entries : List (String × α)) :
    (put name value entries).lookup other =
      if other = name then some value else entries.lookup other := by
  induction entries with
  | nil =>
    by_cases h : other = name
    · simp [put, h]
    · simp [put, List.lookup_cons, h, beq_false_of_ne h]
  | cons e rest ih =>
    obtain ⟨n, v⟩ := e
    by_cases hn : n = name
    · by_cases h : other = name
      · simp [put, hn, h]
      · simp [put, List.lookup_cons, hn, h, beq_false_of_ne h]
    · by_cases h : other = n
      · simp [put, hn, h]
      · simp [put, List.lookup_cons, hn, beq_false_of_ne h, ih]

end ClusterRegistry.Entries
