import ClusterRegistry.Proofs.Settings.Environment

/-!
# Stages of settings

Settings are read from three layers: settings that are there already, a file, and the environment.

* `Settings.values_layer?`: the layer of settings gives each field what is written of it;
* `Settings.leaf?_stage`: what stands under a field once the three layers are laid over each other;
* **`Settings.of?_stage`**, **`Settings.ofSetting?_of_stage`**: the settings that are read, a field
  at a time.
-/

namespace ClusterRegistry

open Settings (Field)

variable {k : Field}

theorem Layer.hasSection_of_mem {l : Layer} (h : l.IsLeafwise k) {name g : String}
    {sub : List (String × Setting)} (hmem : (name, .table sub) ∈ l)
    (hname : Place.ofName name = [.name g]) (hg : g.toLower = k.group) (hsub : sub ≠ [])
    (t : Setting) : (l.laidOver t).HasSection k := by
  obtain ⟨front, back, rfl⟩ := List.append_of_mem hmem
  rw [laidOver, List.foldl_append, List.foldl_cons]
  refine hasSection_laidOver (fun e he => h e (by simp [he])) ?_
  dsimp only
  generalize List.foldl _ t front = t'
  rw [hname, Setting.assign, Setting.HasSection, Setting.entries, Setting.mergeInto,
    Entries.lookup_put, if_pos hg.symm, if_neg (by simpa using hsub)]
  exact ⟨_, rfl⟩

namespace Settings

variable {s : Settings} {base : Layer}

/-! ## The layer of settings -/

theorem layer?_eq (h : s.layer? = some base) :
    base = [("store", s.store.setting), ("retry", s.retry.setting), ("watch", s.watch.setting)] := by
  rw [layer?] at h
  split_ifs at h
  exact (Option.some.inj h).symm

theorem ofName_group (k : Field) : Place.ofName k.group = [.name k.group] := by
  cases k <;> decide

theorem valuesAt_group (k k' : Field) (v : Setting) : v.valuesAt k (Place.ofName k'.group) =
    if k'.group = k.group then Setting.valuesOf k.name v.entries else [] := by
  rw [ofName_group, Setting.valuesAt, k'.toLower_group]

/-- The entries of the section of a field, as they are written. -/
def sectionEntries (s : Settings) : Field → List (String × Setting)
  | .endpoints | .requestTimeout => s.store.setting.entries
  | .interval | .maxRetryCount | .shape | .maxInterval => s.retry.setting.entries
  | .bufferSize => s.watch.setting.entries

theorem valuesOf_sectionEntries (s : Settings) (k : Field) :
    Setting.valuesOf k.name (s.sectionEntries k) = (k.written? (k.get s)).toList := by
  have hendpoints : "endpoints".toLower = "endpoints" := Field.toLower_name .endpoints
  have htimeout : "request_timeout_ms".toLower = "request_timeout_ms" :=
    Field.toLower_name .requestTimeout
  have hinterval : "interval".toLower = "interval" := Field.toLower_name .interval
  have hcount : "max_retry_count".toLower = "max_retry_count" := Field.toLower_name .maxRetryCount
  have hshape : "type".toLower = "type" := Field.toLower_name .shape
  have hlongest : "max_interval".toLower = "max_interval" := Field.toLower_name .maxInterval
  have hsize : "buffer_size".toLower = "buffer_size" := Field.toLower_name .bufferSize
  cases k with
  | endpoints | requestTimeout =>
    by_cases hempty : s.store.endpoints = [] <;>
      simp [sectionEntries, StoreSettings.setting, Setting.entries, Setting.valuesOf, Field.name,
        Field.written?, Field.get, hendpoints, htimeout, hempty]
  | interval | maxRetryCount | maxInterval =>
    simp [sectionEntries, RetryPolicy.setting, Setting.entries, Setting.valuesOf, Field.name,
      Field.written?, Field.get, hinterval, hcount, hshape, hlongest]
  | shape =>
    cases hs : s.retry.shape <;>
      simp [sectionEntries, RetryPolicy.setting, Setting.entries, Setting.valuesOf, Field.name,
        Field.written?, Field.get, hinterval, hcount, hshape, hlongest, hs]
  | bufferSize =>
    simp [sectionEntries, WatchSettings.setting, Setting.entries, Setting.valuesOf, Field.name,
      Field.written?, Field.get, hsize]

theorem values_layer? (h : s.layer? = some base) (k : Field) :
    base.values k = (k.written? (k.get s)).toList := by
  rw [layer?_eq h, ← valuesOf_sectionEntries, Layer.values_cons, Layer.values_cons,
    Layer.values_cons, show "store" = Field.endpoints.group from rfl,
    show "retry" = Field.interval.group from rfl, show "watch" = Field.bufferSize.group from rfl,
    valuesAt_group, valuesAt_group, valuesAt_group]
  cases k <;> simp [Field.group, sectionEntries, Layer.values]

theorem mem_layer? (h : s.layer? = some base) (k : Field) :
    (k.group, Setting.table (s.sectionEntries k)) ∈ base := by
  rw [layer?_eq h]
  cases k <;> simp [Field.group, sectionEntries, StoreSettings.setting, RetryPolicy.setting,
    WatchSettings.setting, Setting.entries]

theorem isLeafwise_layer? (h : s.layer? = some base) (k : Field) : base.IsLeafwise k := by
  refine Layer.isLeafwise_of_sections ?_ k
  rw [layer?_eq h]
  simp only [List.forall_mem_cons, List.not_mem_nil, false_imp_iff, implies_true, and_true]
  exact ⟨⟨trivial, ofName_group .endpoints⟩, ⟨trivial, ofName_group .interval⟩, trivial,
    ofName_group .bufferSize⟩

theorem hasSection_layer? (h : s.layer? = some base) (k : Field) (t : Setting) :
    (base.laidOver t).HasSection k := by
  refine Layer.hasSection_of_mem (isLeafwise_layer? h k) (mem_layer? h k) (ofName_group k)
    k.toLower_group ?_ t
  cases k <;> simp [sectionEntries, StoreSettings.setting, RetryPolicy.setting,
    WatchSettings.setting, Setting.entries]

/-! ## Three layers -/

variable {file : Layer} {env : List (String × String)} {r : Settings}

theorem not_isTable_of_written? {x : k.Value} {v : Setting} (h : k.written? x = some v) :
    ¬v.IsTable := by
  cases k with
  | endpoints =>
    rw [Field.written?] at h
    split_ifs at h
    cases h
    exact id
  | shape =>
    cases h
    cases x <;> exact id
  | _ =>
    cases h
    exact id

/-- **What stands under a field** is the value of the environment, else that of the file, else what
was there already. -/
theorem leaf?_stage (h : s.layer? = some base) (hfile : file.IsLeafwise k)
    (henv : (Layer.ofEnvironment env).IsLeafwise k) :
    (Setting.ofLayers [base, file, .ofEnvironment env]).leaf? k =
      (k.variableValue? env).or ((file.given? k).or (k.written? (k.get s))) := by
  have hbase : (base.laidOver (.table [])).leaf? k = k.written? (k.get s) := by
    rw [Layer.leaf?_laidOver (isLeafwise_layer? h k), values_layer? h k]
    cases hwritten : k.written? (k.get s) with
    | none => rfl
    | some v => exact Setting.laid_of_not_table (not_isTable_of_written? hwritten) _
  have hentries : ((k.written? (k.get s)).getD (.table [])).entries = [] := by
    cases hwritten : k.written? (k.get s) with
    | none => rfl
    | some v => exact Setting.entries_of_not_table (not_isTable_of_written? hwritten)
  rw [Setting.ofLayers, List.foldl_cons, List.foldl_cons, List.foldl_cons, List.foldl_nil,
    Layer.leaf?_laidOver henv, Layer.leaf?_laidOver hfile, hbase, Setting.foldl_laid hentries,
    Layer.foldl_values_ofEnvironment, Layer.given?]

theorem hasSection_stage (h : s.layer? = some base) (hfile : file.IsLeafwise k)
    (henv : (Layer.ofEnvironment env).IsLeafwise k) :
    (Setting.ofLayers [base, file, .ofEnvironment env]).HasSection k :=
  Layer.hasSection_laidOver henv (Layer.hasSection_laidOver hfile (hasSection_layer? h k _))

/-- **What is read of a field** from three layers. -/
theorem of?_stage (h : s.layer? = some base) (hfile : file.IsLeafwise k)
    (henv : (Layer.ofEnvironment env).IsLeafwise k)
    (hread : ofSetting? (.ofLayers [base, file, .ofEnvironment env]) = some r) :
    k.of? ((k.variableValue? env).or ((file.given? k).or (k.written? (k.get s)))) =
      some (k.get r) := by
  rw [← leaf?_stage h hfile henv]
  exact Field.of?_leaf? (of?_found? hread (hasSection_stage h hfile henv))

/-- **Three layers give settings** if each field finds a value that it can take. -/
theorem ofSetting?_of_stage (h : s.layer? = some base) (hfile : ∀ k, file.IsLeafwise k)
    (henv : ∀ k, (Layer.ofEnvironment env).IsLeafwise k)
    (hvalues : ∀ k : Field, ∃ v, (k.variableValue? env).or ((file.given? k).or
      (k.written? (k.get s))) = some v ∧ k.read? v = some (k.get r)) :
    ofSetting? (.ofLayers [base, file, .ofEnvironment env]) = some r := by
  refine ofSetting?_of_entries (fun k => hasSection_stage h (hfile k) (henv k)) fun k => ?_
  obtain ⟨v, hv, hread⟩ := hvalues k
  rw [← leaf?_stage h (hfile k) (henv k)] at hv
  rw [Setting.found?_of_leaf? hv]
  exact hread

end Settings

end ClusterRegistry
