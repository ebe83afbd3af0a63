import ClusterRegistry.Proofs.Json.Record
import ClusterRegistry.Settings.Layer

/-!
# Fields of settings

Settings have seven fields in three sections. Each is read on its own, and has a default.

* `Settings.Field`: the fields, with their sections, names, values and defaults;
* `Settings.Field.read?`, `Settings.Field.of?`: what a field makes of a value, and of none;
* **`Settings.ofSetting?_table_iff`**: settings are read field by field;
* `Settings.Field.written?`, **`Settings.Field.read?_written?`**: what is written of a field is read
  back.
-/

namespace ClusterRegistry

namespace Settings

/-- A field of the settings. -/
inductive Field
  | endpoints | requestTimeout | interval | maxRetryCount | shape | maxInterval | bufferSize
deriving DecidableEq, Repr

namespace Field

/-- The section of a field. -/
def group : Field → String
  | endpoints | requestTimeout => "store"
  | interval | maxRetryCount | shape | maxInterval => "retry"
  | bufferSize => "watch"

/-- The name of a field within its section. -/
def name : Field → String
  | endpoints => "endpoints"
  | requestTimeout => "request_timeout_ms"
  | interval => "interval"
  | maxRetryCount => "max_retry_count"
  | shape => "type"
  | maxInterval => "max_interval"
  | bufferSize => "buffer_size"

/-- What a field holds. -/
abbrev Value : Field → Type
  | endpoints => List String
  | requestTimeout | bufferSize => Nat
  | interval | maxRetryCount | maxInterval => Int
  | shape => Option BackoffShape

/-- What a field holds in some settings. -/
def get (s : Settings) : (k : Field) → k.Value
  | endpoints => s.store.endpoints
  | requestTimeout => s.store.requestTimeout
  | interval => s.retry.interval
  | maxRetryCount => s.retry.maxRetryCount
  | shape => s.retry.shape
  | maxInterval => s.retry.maxInterval
  | bufferSize => s.watch.bufferSize

/-- The default of a field. -/
def fallback (k : Field) : k.Value := k.get {}

/-- What a field makes of a value. -/
def read? : (k : Field) → Setting → Option k.Value
  | endpoints => Setting.texts?
  | requestTimeout | bufferSize => Setting.nat?
  | interval | maxRetryCount | maxInterval => Setting.int?
  | shape => Setting.shape?

/-- What a field holds if it is given a value, or none. -/
def of? (k : Field) : Option Setting → Option k.Value
  | none => some k.fallback
  | some v => k.read? v

end Field

end Settings

open Settings (Field)

/-! ## Reading -/

variable {es top : List (String × Setting)}

theorem StoreSettings.ofSetting?_table_iff {s : StoreSettings} :
    ofSetting? (.table es) = some s ↔
      Field.endpoints.of? (es.lookup "endpoints") = some s.endpoints ∧
        Field.requestTimeout.of? (es.lookup "request_timeout_ms") = some s.requestTimeout := by
  constructor
  · intro h
    obtain ⟨endpoints, hendpoints, h⟩ := Option.bind_eq_some_iff.mp h
    obtain ⟨timeout, htimeout, h⟩ := Option.bind_eq_some_iff.mp h
    cases h
    exact ⟨hendpoints, htimeout⟩
  · rintro ⟨hendpoints, htimeout⟩
    exact Option.bind_eq_some_iff.mpr ⟨_, hendpoints,
      Option.bind_eq_some_iff.mpr ⟨_, htimeout, rfl⟩⟩

theorem RetryPolicy.ofSetting?_table_iff {p : RetryPolicy} :
    ofSetting? (.table es) = some p ↔
      Field.interval.of? (es.lookup "interval") = some p.interval ∧
        Field.maxRetryCount.of? (es.lookup "max_retry_count") = some p.maxRetryCount ∧
        Field.shape.of? (es.lookup "type") = some p.shape ∧
        Field.maxInterval.of? (es.lookup "max_interval") = some p.maxInterval := by
  constructor
  · intro h
    obtain ⟨interval, hinterval, h⟩ := Option.bind_eq_some_iff.mp h
    obtain ⟨count, hcount, h⟩ := Option.bind_eq_some_iff.mp h
    obtain ⟨shape, hshape, h⟩ := Option.bind_eq_some_iff.mp h
    obtain ⟨longest, hlongest, h⟩ := Option.bind_eq_some_iff.mp h
    cases h
    exact ⟨hinterval, hcount, hshape, hlongest⟩
  · rintro ⟨hinterval, hcount, hshape, hlongest⟩
    exact Option.bind_eq_some_iff.mpr ⟨_, hinterval, Option.bind_eq_some_iff.mpr ⟨_, hcount,
      Option.bind_eq_some_iff.mpr ⟨_, hshape, Option.bind_eq_some_iff.mpr ⟨_, hlongest, rfl⟩⟩⟩⟩

theorem WatchSettings.ofSetting?_table_iff {w : WatchSettings} :
    ofSetting? (.table es) = some w ↔
      Field.bufferSize.of? (es.lookup "buffer_size") = some w.bufferSize := by
  constructor
  · intro h
    obtain ⟨size, hsize, h⟩ := Option.bind_eq_some_iff.mp h
    cases h
    exact hsize
  · intro hsize
    exact Option.bind_eq_some_iff.mpr ⟨_, hsize, rfl⟩

namespace Settings

theorem ofSetting?_iff {s : Settings} :
    ofSetting? (.table top) = some s ↔
      Setting.field? top "store" {} StoreSettings.ofSetting? = some s.store ∧
        Setting.field? top "retry" {} RetryPolicy.ofSetting? = some s.retry ∧
        Setting.field? top "watch" {} WatchSettings.ofSetting? = some s.watch := by
  constructor
  · intro h
    obtain ⟨store, hstore, h⟩ := Option.bind_eq_some_iff.mp h
    obtain ⟨retry, hretry, h⟩ := Option.bind_eq_some_iff.mp h
    obtain ⟨watch, hwatch, h⟩ := Option.bind_eq_some_iff.mp h
    cases h
    exact ⟨hstore, hretry, hwatch⟩
  · rintro ⟨hstore, hretry, hwatch⟩
    exact Option.bind_eq_some_iff.mpr ⟨_, hstore, Option.bind_eq_some_iff.mpr ⟨_, hretry,
      Option.bind_eq_some_iff.mpr ⟨_, hwatch, rfl⟩⟩⟩

end Settings

namespace Setting

/-- What stands in a section of a tree. -/
def within (t : Setting) (group : String) : List (String × Setting) :=
  ((t.entries.lookup group).getD .absent).entries

/-- What stands under a field of a tree. -/
def found? (k : Field) (t : Setting) : Option Setting := (t.within k.group).lookup k.name

/-- The section of a field is a table, maybe one without entries. -/
def HasSection (k : Field) (t : Setting) : Prop := ∃ es, t.entries.lookup k.group = some (.table es)

variable {k : Field} {t : Setting}

theorem field?_of_lookup {α : Type} {es : List (String × Setting)} {name : String} {v : Setting}
    {fallback : α} {read : Setting → Option α} (h : es.lookup name = some v) :
    field? es name fallback read = read v := by
  rw [field?, h]

theorem HasSection.exists_table (h : t.HasSection k) :
    ∃ top es, t = .table top ∧ top.lookup k.group = some (.table es) ∧
      t.found? k = es.lookup k.name := by
  obtain ⟨es, hes⟩ := h
  have hfound : t.found? k = es.lookup k.name := by
    rw [found?, within, hes]
    rfl
  cases t with
  | table top => exact ⟨top, es, rfl, hes, hfound⟩
  | _ => cases hes

end Setting

namespace Settings

variable {t : Setting} {s : Settings}

/-- **Settings that are read from a tree have what the tree says**, a field at a time. -/
theorem of?_found? (h : ofSetting? t = some s) {k : Field} (hsection : t.HasSection k) :
    k.of? (t.found? k) = some (k.get s) := by
  obtain ⟨top, es, rfl, hes, hfound⟩ := hsection.exists_table
  obtain ⟨hstore, hretry, hwatch⟩ := ofSetting?_iff.mp h
  rw [hfound]
  cases k with
  | endpoints =>
    have hread := (Setting.field?_of_lookup hes).symm.trans hstore
    exact (StoreSettings.ofSetting?_table_iff.mp hread).1
  | requestTimeout =>
    have hread := (Setting.field?_of_lookup hes).symm.trans hstore
    exact (StoreSettings.ofSetting?_table_iff.mp hread).2
  | interval =>
    have hread := (Setting.field?_of_lookup hes).symm.trans hretry
    exact (RetryPolicy.ofSetting?_table_iff.mp hread).1
  | maxRetryCount =>
    have hread := (Setting.field?_of_lookup hes).symm.trans hretry
    exact (RetryPolicy.ofSetting?_table_iff.mp hread).2.1
  | shape =>
    have hread := (Setting.field?_of_lookup hes).symm.trans hretry
    exact (RetryPolicy.ofSetting?_table_iff.mp hread).2.2.1
  | maxInterval =>
    have hread := (Setting.field?_of_lookup hes).symm.trans hretry
    exact (RetryPolicy.ofSetting?_table_iff.mp hread).2.2.2
  | bufferSize =>
    have hread := (Setting.field?_of_lookup hes).symm.trans hwatch
    exact WatchSettings.ofSetting?_table_iff.mp hread

/-- **A tree gives the settings that have what it says.** -/
theorem ofSetting?_of_entries (hsection : ∀ k : Field, t.HasSection k)
    (h : ∀ k : Field, k.of? (t.found? k) = some (k.get s)) : ofSetting? t = some s := by
  obtain ⟨top, store, rfl, hstore, -⟩ := (hsection .endpoints).exists_table
  obtain ⟨_, retry, ⟨⟩, hretry, -⟩ := (hsection .interval).exists_table
  obtain ⟨_, watch, ⟨⟩, hwatch, -⟩ := (hsection .bufferSize).exists_table
  have hfound : ∀ k : Field, ∀ es, top.lookup k.group = some (.table es) →
      k.of? (es.lookup k.name) = some (k.get s) := fun k es hes => by
    rw [← h k, Setting.found?, Setting.within, Setting.entries, hes]
    rfl
  refine ofSetting?_iff.mpr ⟨?_, ?_, ?_⟩
  · refine (Setting.field?_of_lookup hstore).trans ?_
    exact StoreSettings.ofSetting?_table_iff.mpr
      ⟨hfound .endpoints store hstore, hfound .requestTimeout store hstore⟩
  · refine (Setting.field?_of_lookup hretry).trans ?_
    exact RetryPolicy.ofSetting?_table_iff.mpr
      ⟨hfound .interval retry hretry, hfound .maxRetryCount retry hretry,
        hfound .shape retry hretry, hfound .maxInterval retry hretry⟩
  · refine (Setting.field?_of_lookup hwatch).trans ?_
    exact WatchSettings.ofSetting?_table_iff.mpr (hfound .bufferSize watch hwatch)

/-! ## Writing -/

namespace Field

/-- What is written of a field. An empty list of endpoints leaves nothing behind. -/
def written? : (k : Field) → k.Value → Option Setting
  | endpoints, es => if es = [] then none else some (.list (es.map .text))
  | requestTimeout, n | bufferSize, n => some (.integer n)
  | interval, i | maxRetryCount, i | maxInterval, i => some (.integer i)
  | shape, b => some (match b with | none => .absent | some b => .text b.label)

/-- A number of 64 bits with a sign, if the field holds a number. -/
def Fits : (k : Field) → k.Value → Prop
  | endpoints, _ | shape, _ => True
  | requestTimeout, n | bufferSize, n => (n : Int) ∈ Bounds.int64
  | interval, i | maxRetryCount, i | maxInterval, i => i ∈ Bounds.int64

variable {k : Field} {x : k.Value} {v : Setting}

/-- **What is written of a field is read back.** -/
theorem read?_written? (hfits : k.Fits x) (h : k.written? x = some v) : k.read? v = some x := by
  have hnat : ∀ n : Nat, (n : Int) ∈ Bounds.int64 → Setting.nat? (.integer n) = some n := by
    intro n hn
    have hmem : (n : Int) ∈ Bounds.nat64 := by
      rw [Bounds.mem_iff] at hn ⊢
      simp only [Bounds.int64, Bounds.nat64] at hn ⊢
      omega
    simp [Setting.nat?, Setting.bounded?, hmem]
  have hint : ∀ i : Int, i ∈ Bounds.int64 → Setting.int? (.integer i) = some i := by
    intro i hi
    rw [Setting.int?, Setting.bounded?, if_pos hi]
  cases k with
  | endpoints =>
    rw [written?] at h
    split_ifs at h
    cases h
    exact Json.mapM_map_eq_some fun e _ => rfl
  | requestTimeout | bufferSize =>
    cases h
    exact hnat x hfits
  | interval | maxRetryCount | maxInterval =>
    cases h
    exact hint x hfits
  | shape =>
    cases h
    cases x with
    | none => rfl
    | some b =>
      have hname : Setting.shapeOf? b.label = some b := by cases b <;> decide +kernel
      change (Setting.shapeOf? b.label).map some = some (some b)
      rw [hname]
      rfl

theorem read?_bare (k : Field) : k.read? (.table []) = none := by
  cases k <;> rfl

theorem mem_of_int? {i : Int} (h : Setting.int? v = some i) : i ∈ Bounds.int64 := by
  cases v with
  | flag b =>
    cases h
    cases b <;> decide
  | integer j =>
    rw [Setting.int?, Setting.bounded?] at h
    split_ifs at h with hj
    cases h
    exact hj
  | real d =>
    cases h
    exact Double.roundInto_mem (by decide) d
  | text word =>
    rw [Setting.int?, Setting.bounded?] at h
    split at h
    · rename_i j hword
      cases h
      obtain ⟨front, back, hsplit, -⟩ := List.lookup_eq_some_iff.mp hword
      have hflags : ∀ p ∈ Setting.flagWords, p.2 ∈ Bounds.int64 := by decide
      exact hflags (word.toLower, i) (hsplit ▸ List.mem_append_cons_self)
    · exact of_decide_eq_true (Option.filter_eq_some_iff.mp h).2
  | absent | list | table => cases h

theorem fits_fallback (k : Field) : k.Fits k.fallback := by
  cases k with
  | endpoints | shape => trivial
  | requestTimeout => exact (by decide : (3000 : Int) ∈ Bounds.int64)
  | interval => exact (by decide : (200 : Int) ∈ Bounds.int64)
  | maxRetryCount => exact (by decide : (4 : Int) ∈ Bounds.int64)
  | maxInterval => exact (by decide : (30000 : Int) ∈ Bounds.int64)
  | bufferSize => exact (by decide : (64 : Int) ∈ Bounds.int64)

/-- What has been read fits. Of numbers without a sign, a layer takes only those that do. -/
theorem fits_get {s : Settings} {base : Layer} (hlayer : s.layer? = some base) {o : Option Setting}
    (h : k.of? o = some (k.get s)) : k.Fits (k.get s) := by
  rw [layer?] at hlayer
  split_ifs at hlayer with hnat
  cases o with
  | none =>
    rw [← Option.some.inj h]
    exact k.fits_fallback
  | some v =>
    cases k with
    | endpoints | shape => trivial
    | requestTimeout => exact hnat.1
    | bufferSize => exact hnat.2
    | interval | maxRetryCount | maxInterval => exact mem_of_int? h

end Field

end Settings

end ClusterRegistry
