import Mathlib.Data.List.Forall2
import ClusterRegistry.Proofs.Json.Record

/-!
# Two readings of one document

The generic reading keeps of a repeated field the last one, and it may refuse what the record
reading skips. What both accept, however, the record reading finds again in what is kept.

* `Doc.record?_object_iff`: which fields of an object are read;
* `Doc.generic?_object`, `Doc.generic?_array`: what is kept of objects and arrays;
* `Doc.record?_generic?`: the known fields of a record, before and after the generic reading;
* `Doc.Lasts`: a reader that reads what is kept as it reads the document;
* **`Doc.Lasts.ofFields`**: a reader of records lasts if the reader of its fields does.
-/

namespace ClusterRegistry.Json

theorem mapM_eq_some_iff {α β : Type} {f : α → Option β} {l : List α} {l' : List β} :
    l.mapM f = some l' ↔ List.Forall₂ (fun x y => f x = some y) l l' := by
  induction l generalizing l' with
  | nil =>
    rw [List.mapM_nil, List.forall₂_nil_left_iff]
    exact ⟨fun h => (Option.some.inj h).symm, fun h => h ▸ rfl⟩
  | cons x rest ih =>
    simp only [List.mapM_cons, List.forall₂_cons_left_iff, ← ih, Option.bind_eq_bind,
      Option.bind_eq_some_iff, Option.pure_def, Option.some.injEq]
    exact ⟨fun ⟨y, hy, ys, hys, h⟩ => ⟨y, ys, hy, hys, h.symm⟩,
      fun ⟨y, ys, hy, hys, h⟩ => ⟨y, hy, ys, hys, h.symm⟩⟩

theorem lookup_eq_some_iff_mem {α β : Type} [DecidableEq α] {l : List (α × β)}
    (h : (l.map (·.1)).Nodup) {a : α} {b : β} : l.lookup a = some b ↔ (a, b) ∈ l := by
  rw [List.lookup_eq_some_iff]
  constructor
  · rintro ⟨l₁, l₂, rfl, -⟩
    exact List.mem_append_right _ List.mem_cons_self
  · intro hmem
    obtain ⟨l₁, l₂, rfl⟩ := List.append_of_mem hmem
    refine ⟨l₁, l₂, rfl, fun p hp => bne_iff_ne.mpr fun hap => ?_⟩
    rw [List.map_append, List.nodup_append] at h
    exact h.2.2 _ (List.mem_map_of_mem hp) _ (List.mem_map_of_mem List.mem_cons_self) hap.symm

namespace Doc

variable {levels : Nat} {doc kept : Doc} {names : List String}
  {fields : List (Option String × Doc)} {known : List (String × Doc)}

/-! ## Known fields -/

/-- A field with its name given. -/
def nameField (p : String × Doc) : Option String × Doc := (some p.1, p.2)

/-- A field whose name is one of those given. -/
def isKnown (names : List String) (p : Option String × Doc) : Bool := p.1.any (· ∈ names)

theorem nameField_injective : Function.Injective nameField := fun p q h => by
  obtain ⟨h₁, h₂⟩ := Prod.mk.inj h
  exact Prod.ext (Option.some.inj h₁) h₂

theorem filter_isKnown (ns : List (String × Doc)) :
    (ns.map nameField).filter (isKnown names) = (ns.filter (·.1 ∈ names)).map nameField :=
  List.filter_map

theorem mapM_name_iff {ns : List (String × Doc)} :
    (fields.mapM fun p => p.1.map (·, p.2)) = some ns ↔ fields = ns.map nameField := by
  have hname : ∀ (p : Option String × Doc) (q : String × Doc),
      p.1.map (·, p.2) = some q ↔ p = nameField q := by
    intro p q
    rw [Option.map_eq_some_iff]
    constructor
    · rintro ⟨n, hn, rfl⟩
      exact Prod.ext hn rfl
    · rintro rfl
      exact ⟨q.1, rfl, rfl⟩
  simp only [mapM_eq_some_iff, hname, ← List.forall₂_map_right_iff (f := nameField),
    List.forall₂_eq_eq_eq]

theorem nodup_nameField {ns : List (String × Doc)} :
    (ns.map ((·.1) ∘ nameField)).Nodup ↔ (ns.map (·.1)).Nodup := by
  rw [← List.nodup_map_iff (fun _ _ h => Option.some.inj h : Function.Injective (@some String)),
    List.map_map]
  rfl

/-- **The record reading of an object needs all names to be texts; it returns the known fields,
none of which may come twice.** -/
theorem record?_object_iff : (object fields).record? names = some known ↔
    (∃ ns : List (String × Doc), fields = ns.map nameField) ∧
      fields.filter (isKnown names) = known.map nameField ∧ (known.map (·.1)).Nodup := by
  change (fields.mapM fun p : Option String × Doc => p.1.map (·, p.2)).bind
    (fun ns : List (String × Doc) => if ((ns.filter (·.1 ∈ names)).map (·.1)).Nodup
      then some (ns.filter (·.1 ∈ names)) else none) = some known ↔ _
  simp only [Option.bind_eq_some_iff, mapM_name_iff]
  constructor
  · rintro ⟨ns, rfl, h⟩
    split at h
    case isTrue hnodup =>
      obtain rfl := Option.some.inj h
      exact ⟨⟨ns, rfl⟩, filter_isKnown ns, hnodup⟩
    case isFalse => cases h
  · rintro ⟨⟨ns, rfl⟩, hknown, hnodup⟩
    rw [filter_isKnown] at hknown
    obtain rfl := List.map_injective_iff.mpr nameField_injective hknown
    exact ⟨ns, rfl, if_pos hnodup⟩

/-- **A field that may be left out, seen from all fields of the object.** -/
theorem fieldD?_record? {α : Type} {name : String} {absent value : α} {read : Doc → Option α}
    (hread : (object fields).record? names = some known) (hname : name ∈ names)
    (h : fieldD? known name absent read = some value) :
    (∀ d, (some name, d) ∈ fields → read d = some value) ∧
      ((∀ d, (some name, d) ∉ fields) → value = absent) := by
  obtain ⟨-, hknown, hnodup⟩ := record?_object_iff.mp hread
  have hmem : ∀ d, known.lookup name = some d ↔ (some name, d) ∈ fields := by
    intro d
    have hinj : (name, d) ∈ known ↔ (some name, d) ∈ known.map nameField :=
      (List.mem_map_of_injective nameField_injective).symm
    rw [lookup_eq_some_iff_mem hnodup, hinj, ← hknown, List.mem_filter]
    exact and_iff_left (by simpa [isKnown] using hname)
  unfold fieldD? at h
  constructor
  · intro d hd
    rw [(hmem d).mpr hd] at h
    exact h
  · intro hnone
    have habsent : known.lookup name = none :=
      Option.eq_none_iff_forall_not_mem.mpr fun d hd => hnone d ((hmem d).mp hd)
    rw [habsent] at h
    exact (Option.some.inj h).symm

/-! ## What is kept -/

/-- A field and what the generic reading keeps of it. -/
def KeepsField (levels : Nat) (p q : Option String × Doc) : Prop :=
  p.1 = q.1 ∧ generic? levels p.2 = some q.2

theorem generic?_object (h : generic? levels (object fields) = some kept) :
    ∃ lv keptFields, List.Forall₂ (KeepsField lv) fields keptFields ∧
      kept = object (lastFields keptFields) := by
  cases levels with
  | zero => cases h
  | succ lv =>
    change ((fields.mapM fun p => (generic? lv p.2).bind fun d => p.1.map fun n => (some n, d)).bind
      fun fs => some (object (lastFields fs))) = some kept at h
    simp only [Option.bind_eq_some_iff, Option.some.injEq] at h
    obtain ⟨fs, hfs, rfl⟩ := h
    refine ⟨lv, fs, (mapM_eq_some_iff.mp hfs).imp fun p q hpq => ?_, rfl⟩
    obtain ⟨d, hd, hq⟩ := Option.bind_eq_some_iff.mp hpq
    obtain ⟨n, hn, rfl⟩ := Option.map_eq_some_iff.mp hq
    exact ⟨hn, hd⟩

theorem generic?_array {items : List Doc} (h : generic? levels (array items) = some kept) :
    ∃ lv keptItems, List.Forall₂ (fun d e => generic? lv d = some e) items keptItems ∧
      kept = array keptItems := by
  cases levels with
  | zero => cases h
  | succ lv =>
    change ((items.mapM (generic? lv)).bind fun ds => some (array ds)) = some kept at h
    simp only [Option.bind_eq_some_iff, Option.some.injEq] at h
    obtain ⟨ds, hds, rfl⟩ := h
    exact ⟨lv, ds, mapM_eq_some_iff.mp hds, rfl⟩

theorem lastFields_sublist (fields : List (Option String × Doc)) :
    (lastFields fields).Sublist fields := by
  induction fields with
  | nil => exact List.Sublist.slnil
  | cons f rest ih =>
    rw [lastFields]
    split
    · exact ih.cons f
    · exact ih.cons_cons f

/-- **Known fields of which none comes twice are all kept.** -/
theorem lastFields_filter (h : ((fields.filter (isKnown names)).map (·.1)).Nodup) :
    (lastFields fields).filter (isKnown names) = fields.filter (isKnown names) := by
  induction fields with
  | nil => rfl
  | cons f rest ih =>
    rw [lastFields]
    cases hf : isKnown names f with
    | false =>
      rw [List.filter_cons_of_neg (by simp [hf])] at h ⊢
      split
      · exact ih h
      · rw [List.filter_cons_of_neg (by simp [hf]), ih h]
    | true =>
      rw [List.filter_cons_of_pos hf, List.map_cons, List.nodup_cons] at h
      have hlast : ¬(rest.map (·.1)).contains f.1 := by
        intro hmem
        obtain ⟨g, hg, hname⟩ := List.mem_map.mp (List.contains_iff_mem.mp hmem)
        have hgf : isKnown names g = isKnown names f := by rw [isKnown, hname, isKnown]
        exact h.1 (hname ▸ List.mem_map_of_mem (List.mem_filter.mpr ⟨hg, hgf.trans hf⟩))
      rw [if_neg hlast, List.filter_cons_of_pos hf, List.filter_cons_of_pos hf, ih h.2]

/-! ## Readers of fields -/

/-- Fields and what the generic reading keeps of them, in the same order. -/
def Keeps (levels : Nat) (known keptFields : List (String × Doc)) : Prop :=
  List.Forall₂ (fun p q => KeepsField levels (nameField p) (nameField q)) known keptFields

theorem Keeps.map_name {keptFields : List (String × Doc)} (h : Keeps levels known keptFields) :
    known.map (·.1) = keptFields.map (·.1) := by
  induction h with
  | nil => rfl
  | cons hp _ ih => rw [List.map_cons, List.map_cons, Option.some.inj hp.1, ih]

theorem Keeps.zip {items keptItems : List Doc}
    (h : List.Forall₂ (fun d e => generic? levels d = some e) items keptItems) :
    Keeps levels (names.zip items) (names.zip keptItems) := by
  induction h generalizing names with
  | nil => cases names <;> exact .nil
  | cons hd _ ih =>
    cases names with
    | nil => exact .nil
    | cons n rest => exact .cons ⟨rfl, hd⟩ ih

theorem KeepsField.filter (names : List String) {fs gs : List (Option String × Doc)}
    (h : List.Forall₂ (KeepsField levels) fs gs) :
    List.Forall₂ (KeepsField levels) (fs.filter (isKnown names)) (gs.filter (isKnown names)) := by
  refine List.rel_filter (fun p q hpq => ?_) h
  change (p.1.any (· ∈ names) : Prop) ↔ q.1.any (· ∈ names)
  rw [hpq.1]

theorem KeepsField.exists_map {gs : List (Option String × Doc)}
    (h : List.Forall₂ (KeepsField levels) (known.map nameField) gs) :
    ∃ keptFields : List (String × Doc), gs = keptFields.map nameField ∧
      Keeps levels known keptFields := by
  induction known generalizing gs with
  | nil => exact ⟨[], List.forall₂_nil_left_iff.mp h, .nil⟩
  | cons p rest ih =>
    obtain ⟨q, gs, hq, hrest, rfl⟩ := List.forall₂_cons_left_iff.mp h
    obtain ⟨keptFields, rfl, hkeeps⟩ := ih hrest
    have hname : q = nameField (p.1, q.2) := Prod.ext hq.1.symm rfl
    exact ⟨(p.1, q.2) :: keptFields, by rw [List.map_cons, ← hname], .cons (hname ▸ hq) hkeeps⟩

/-- **What the record reading returns, it finds again in what is kept of the document.** -/
theorem record?_generic? (hread : doc.record? names = some known)
    (hkept : generic? levels doc = some kept) :
    ∃ lv keptFields, kept.record? names = some keptFields ∧ Keeps lv known keptFields := by
  cases doc with
  | object fields =>
    obtain ⟨⟨ns, hnamed⟩, hknown, hnodup⟩ := record?_object_iff.mp hread
    obtain ⟨lv, gs, hgs, rfl⟩ := generic?_object hkept
    have hfilter := KeepsField.filter names hgs
    rw [hknown] at hfilter
    obtain ⟨keptFields, hkeptFields, hkeeps⟩ := KeepsField.exists_map hfilter
    obtain ⟨gns, rfl, -⟩ := KeepsField.exists_map (hnamed ▸ hgs)
    obtain ⟨ls, -, hls⟩ := List.sublist_map_iff.mp (lastFields_sublist (gns.map nameField))
    have hnodup' : (keptFields.map (·.1)).Nodup := by
      rwa [← hkeeps.map_name]
    have hlast : (lastFields (gns.map nameField)).filter (isKnown names) =
        (gns.map nameField).filter (isKnown names) := by
      refine lastFields_filter ?_
      rw [hkeptFields, List.map_map]
      exact nodup_nameField.mpr hnodup'
    exact ⟨lv, keptFields,
      record?_object_iff.mpr ⟨⟨ls, hls⟩, hlast.trans hkeptFields, hnodup'⟩, hkeeps⟩
  | array items =>
    obtain ⟨lv, keptItems, hitems, rfl⟩ := generic?_array hkept
    rw [record?] at hread
    split at hread
    case isFalse => cases hread
    case isTrue hlength =>
      obtain rfl := Option.some.inj hread
      exact ⟨lv, names.zip keptItems, if_pos (hitems.length_eq ▸ hlength), Keeps.zip hitems⟩
  | null => cases hread
  | bool b => cases hread
  | number n => cases hread
  | string t => cases hread

/-! ## Readers that last -/

section Lasts

variable {α β : Type} {read : Doc → Option α}

/-- A reader that reads what is kept of a document as it reads the document. -/
def Lasts (read : Doc → Option α) : Prop :=
  ∀ ⦃levels doc kept value⦄, generic? levels doc = some kept → read doc = some value →
    read kept = some value

/-- A reader of fields that reads what is kept of the fields as it reads the fields. -/
def FieldsLast (build : List (String × Doc) → Option α) : Prop :=
  ∀ ⦃levels known keptFields value⦄, Keeps levels known keptFields → build known = some value →
    build keptFields = some value

theorem Lasts.text? : Lasts Doc.text? := by
  intro levels doc kept value hkept hread
  cases doc with
  | string t =>
    obtain rfl : t = some value := hread
    cases levels <;> (obtain rfl := Option.some.inj hkept; rfl)
  | null => cases hread
  | bool b => cases hread
  | number n => cases hread
  | array items => cases hread
  | object fields => cases hread

theorem Lasts.list (h : Lasts read) :
    Lasts fun d => d.items?.bind fun items => items.mapM read := by
  intro levels doc kept value hkept hread
  cases doc with
  | array items =>
    obtain ⟨lv, keptItems, hitems, rfl⟩ := generic?_array hkept
    refine mapM_eq_some_iff.mpr ?_
    have hvalues : List.Forall₂ (fun d v => read d = some v) items value :=
      mapM_eq_some_iff.mp hread
    clear hread hkept
    induction hitems generalizing value with
    | nil => rwa [List.forall₂_nil_left_iff] at hvalues ⊢
    | cons hd _ ih =>
      obtain ⟨v, vs, hv, hvs, rfl⟩ := List.forall₂_cons_left_iff.mp hvalues
      exact .cons (h hd hv) (ih hvs)
  | null => cases hread
  | bool b => cases hread
  | number n => cases hread
  | string t => cases hread
  | object fields => cases hread

/-- **A reader of records lasts if the reader of its fields does.** -/
theorem Lasts.ofFields {build : List (String × Doc) → Option α} (h : FieldsLast build) :
    Lasts fun d => (d.record? names).bind build := by
  intro levels doc kept value hkept hread
  obtain ⟨known, hknown, hbuild⟩ := Option.bind_eq_some_iff.mp hread
  obtain ⟨lv, keptFields, hkeptFields, hkeeps⟩ := record?_generic? hknown hkept
  exact Option.bind_eq_some_iff.mpr ⟨keptFields, hkeptFields, h hkeeps hbuild⟩

theorem FieldsLast.pure (a : α) : FieldsLast fun _ => some a :=
  fun _ _ _ _ _ h => h

theorem FieldsLast.bind {build : List (String × Doc) → Option α}
    {next : α → List (String × Doc) → Option β} (h : FieldsLast build)
    (hnext : ∀ a, FieldsLast (next a)) : FieldsLast fun fs => (build fs).bind (next · fs) := by
  intro levels known keptFields value hkeeps hread
  obtain ⟨a, ha, hvalue⟩ := Option.bind_eq_some_iff.mp hread
  exact Option.bind_eq_some_iff.mpr ⟨a, h hkeeps ha, hnext a hkeeps hvalue⟩

theorem Keeps.lookup {keptFields : List (String × Doc)} (h : Keeps levels known keptFields)
    (name : String) :
    Option.Rel (fun d e => generic? levels d = some e) (known.lookup name)
      (keptFields.lookup name) := by
  induction h with
  | nil => exact .none
  | @cons p q _ _ hpq _ ih =>
    have hname : p.1 = q.1 := Option.some.inj hpq.1
    rw [List.lookup_cons, List.lookup_cons, hname]
    cases name == q.1 with
    | true => exact .some hpq.2
    | false => exact ih

theorem FieldsLast.field (h : Lasts read) (name : String) :
    FieldsLast fun fs => field? fs name read := by
  intro levels known keptFields value hkeeps hread
  obtain ⟨d, hd, hvalue⟩ := Option.bind_eq_some_iff.mp hread
  have hlookup := hkeeps.lookup name
  rw [hd] at hlookup
  change (keptFields.lookup name).bind read = some value
  generalize keptFields.lookup name = e at hlookup ⊢
  cases hlookup with
  | some hkept => exact h hkept hvalue

theorem FieldsLast.fieldD (h : Lasts read) (name : String) (absent : α) :
    FieldsLast fun fs => fieldD? fs name absent read := by
  intro levels known keptFields value hkeeps hread
  have hlookup := hkeeps.lookup name
  change fieldD? known name absent read = some value at hread
  change fieldD? keptFields name absent read = some value
  unfold fieldD? at hread ⊢
  revert hread
  generalize known.lookup name = d at hlookup ⊢
  generalize keptFields.lookup name = e at hlookup ⊢
  intro hread
  cases hlookup with
  | none => exact hread
  | some hkept => exact h hkept hread

end Lasts

end Doc

end ClusterRegistry.Json
