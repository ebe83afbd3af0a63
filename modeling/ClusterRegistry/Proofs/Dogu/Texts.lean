import ClusterRegistry.Proofs.Dogu.Reading

/-!
# A catalog without lifetimes

Whatever happens elsewhere in a store, the files of a catalog stay as they are if no key of the
catalog has a lifetime and nobody removes anything. A plain write then changes one place at most.

* `Store.texts`, `Store.Endures`: the files of a catalog by place, none of which ends on its own;
* `Store.Endures.texts_expire`: time changes nothing;
* `Store.Endures.serve_get`: a file is read as it is;
* **`Store.Endures.accept`**, `Store.Endures.texts_of_refusal`: what a plain write does.
-/

namespace ClusterRegistry.Store

/-- The values of the files of a catalog. -/
def texts (s : Store) (schema : Schema) (place : List Segment) : Option String :=
  s.contents.slots.text (schema.keyAt place)

/-- Nothing in a catalog has a lifetime. -/
structure Endures (s : Store) (schema : Schema) : Prop where
  inOrder : s.InOrder
  endless : ∀ place e, s.contents[schema.keyAt place]? = some e → e.deadline = none

variable {s s' : Store} {schema : Schema} {now : Nat} {path value : String} {place : List Segment}
  {response : Response} {refusal : Refusal} {r : Request}

/-! ## Time -/

theorem Endures.lookup_expire (h : s.Endures schema) (now : Nat) (place : List Segment) :
    (s.expire now).contents[schema.keyAt place]? = s.contents[schema.keyAt place]? := by
  rw [Store.lookup_expire, if_neg]
  rintro ⟨a, e, he, ⟨t, ht, -⟩, hin⟩
  -- a key above a place is not the root, so it is in the catalog itself
  cases ha : a.segments with
  | nil => exact h.inOrder.notRoot a e he (Key.ext_segments ha)
  | cons first above =>
    rw [Key.IsWithin, ha] at hin
    obtain ⟨rfl, -⟩ := List.cons_prefix_cons.mp hin
    have hkey : a = schema.keyAt above := Key.ext_segments ha
    rw [h.endless above e (hkey ▸ he)] at ht
    cases ht

theorem Endures.texts_expire (h : s.Endures schema) (now : Nat) :
    (s.expire now).texts schema = s.texts schema := by
  funext place
  rw [texts, texts, Slots.text, Slots.text, Contents.lookup_slots, Contents.lookup_slots,
    h.lookup_expire]

theorem Endures.expire (h : s.Endures schema) (now : Nat) : (s.expire now).Endures schema :=
  ⟨h.inOrder.expire now, fun place e he => h.endless place e (h.lookup_expire now place ▸ he)⟩

/-! ## Reads -/

/-- **A file is read as it is.** -/
theorem Endures.serve_get (h : s.Endures schema) (now : Nat)
    (hpath : .ofPath path = schema.keyAt place) (htext : s.texts schema place = some value) :
    ∃ response, s.serve now (.get path {}) = (s.expire now, .ok response) ∧
        response.node.valueText = value := by
  rw [← h.texts_expire now, texts, ← hpath] at htext
  obtain ⟨x, hx, hvalue⟩ := Option.bind_eq_some_iff.mp htext
  obtain ⟨response, hperform, hread⟩ :=
    perform_get_of_some now {} (hpath ▸ Schema.keyAt_ne_root) hx
  refine ⟨response, serve_of_ok hperform, hread.trans ?_⟩
  split_ifs at hvalue ⊢ with hdir
  exact Option.some.inj hvalue

/-! ## Writes -/

theorem perform_of_serve (h : s.serve now r = (s', .ok response)) :
    (s.expire now).perform now r = .ok (s', response) := by
  cases hperform : (s.expire now).perform now r with
  | error refusal =>
    rw [serve_of_error hperform] at h
    cases h
  | ok answer =>
    rw [serve_of_ok hperform] at h
    cases h
    rfl

theorem Endures.texts_of_refusal (h : s.Endures schema)
    (hserve : s.serve now r = (s', .error refusal)) :
    s'.Endures schema ∧ s'.texts schema = s.texts schema := by
  cases hperform : (s.expire now).perform now r with
  | error refusal =>
    rw [serve_of_error hperform] at hserve
    cases hserve
    exact ⟨h.expire now, h.texts_expire now⟩
  | ok answer =>
    rw [serve_of_ok hperform] at hserve
    cases hserve

theorem deadline_of_set (h : s.perform now (.set path value {}) = .ok (s', response)) {k : Key}
    {x : Slot} (hx : s'.contents.slots[k]? = some x) :
    x.deadline = none ∨ s.contents.slots[k]? = some x := by
  rw [lookup_slots_of_set h] at hx
  split_ifs at hx
  · exact .inl (Option.some.inj hx ▸ rfl)
  · cases hold : s.contents.slots[k]? with
    | none =>
      rw [hold] at hx
      exact .inl (Option.some.inj hx ▸ rfl)
    | some y =>
      rw [hold] at hx
      exact .inr hx
  · exact .inr hx

/-- **An accepted plain write leaves its value at its place and the files of all others.** -/
theorem Endures.accept (h : s.Endures schema)
    (hserve : s.serve now (.set path value {}) = (s', .ok response)) :
    s'.Endures schema ∧ ∀ place, s'.texts schema place =
      if schema.keyAt place = .ofPath path then some value else s.texts schema place := by
  have hperform := perform_of_serve hserve
  have horder := h.inOrder.serve now (.set path value {})
  rw [hserve] at horder
  refine ⟨⟨horder, fun place e he => ?_⟩, fun place => ?_⟩
  · have hslot : s'.contents.slots[schema.keyAt place]? = some e.slot := by
      rw [Contents.lookup_slots, he]
      rfl
    rcases deadline_of_set hperform hslot with hnone | hold
    · exact hnone
    · rw [Contents.lookup_slots, Option.map_eq_some_iff] at hold
      obtain ⟨y, hy, hslots⟩ := hold
      have hsame : y.deadline = e.deadline := congrArg Slot.deadline hslots
      exact hsame ▸ (h.expire now).endless place y hy
  · rw [← h.texts_expire now, texts, texts, Slots.text, Slots.text, lookup_slots_of_set hperform]
    split_ifs with hkey hanc
    · rfl
    · -- what stands above the key that is written stays, and a new directory is no file
      cases hold : (s.expire now).contents.slots[schema.keyAt place]? with
      | none => rfl
      | some x => rfl
    · rfl

end ClusterRegistry.Store
