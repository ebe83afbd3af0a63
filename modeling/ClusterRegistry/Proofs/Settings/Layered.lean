import ClusterRegistry.Proofs.Settings.Stage

/-!
# Layers of settings

Each field of the settings has its value from the topmost source that gives it one: the environment,
the additional file, the file that the environment names, the default.

* `SettingsFile.said`: what a file says;
* `Settings.initial?_stage`, `Settings.overridden?_iff`: the two stages in which sources are read;
* `Settings.Field.taken?`, `Settings.Field.kept?`: what a field takes from sources, and what settings
  keep of it;
* **`Settings.taken?_initial`**, **`Settings.taken?_overridden`**: a field after each of the stages;
* **`Settings.overridden?_again`**: the same file once more;
* `Settings.load?_some_iff`, `Settings.load?_none_iff`: settings that are handed out;
* **`Settings.layered`**: where the fields of settings come from.
-/

namespace ClusterRegistry

/-- What a file says, if one is named and can be read. -/
def SettingsFile.said (file : Option SettingsFile) : Layer := (file.bind layer?).getD []

open SettingsFile (said)

namespace Settings

variable {file : Option SettingsFile} {override : SettingsFile} {env : List (String × String)}
  {s r : Settings}

/-! ## Stages -/

theorem initial?_stage (h : initial? file env = some s) : ∃ base,
    ({} : Settings).layer? = some base ∧
      ofSetting? (.ofLayers [base, said file, .ofEnvironment env]) = some s := by
  obtain ⟨base, hbase⟩ : ∃ base, ({} : Settings).layer? = some base := ⟨_, rfl⟩
  refine ⟨base, hbase, ?_⟩
  rw [initial?, hbase] at h
  cases file with
  | none => exact h
  | some f =>
    obtain ⟨_, ⟨⟩, h⟩ := Option.bind_eq_some_iff.mp h
    obtain ⟨named, hnamed, h⟩ := Option.bind_eq_some_iff.mp h
    rw [said, Option.bind_some, hnamed]
    exact h

theorem overridden?_iff : s.overridden? override env = some r ↔
    override.layer?.isSome ∧ ∃ base, s.layer? = some base ∧
      ofSetting? (.ofLayers [base, said (some override), .ofEnvironment env]) = some r := by
  constructor
  · intro h
    obtain ⟨base, hbase, h⟩ := Option.bind_eq_some_iff.mp h
    obtain ⟨named, hnamed, h⟩ := Option.bind_eq_some_iff.mp h
    refine ⟨by rw [hnamed]; rfl, base, hbase, ?_⟩
    rw [said, Option.bind_some, hnamed]
    exact h
  · rintro ⟨hlayer, base, hbase, h⟩
    obtain ⟨named, hnamed⟩ := Option.isSome_iff_exists.mp hlayer
    rw [said, Option.bind_some, hnamed] at h
    exact Option.bind_eq_some_iff.mpr ⟨base, hbase, Option.bind_eq_some_iff.mpr ⟨named, hnamed, h⟩⟩

/-! ## Fields -/

namespace Field

variable {k : Field} {o : Option Setting} {x : k.Value}

/-- What a field takes from some sources: the value of the first one that has one for it, or the
default. -/
def taken? (k : Field) (sources : List (Option Setting)) : Option k.Value :=
  k.of? (sources.foldr Option.or none)

/-- What is kept of a value in settings. Of an empty list nothing is. -/
def kept? : Option Setting → Option Setting
  | some (.list []) => none
  | o => o

theorem texts?_eq_nil_iff {v : Setting} : Setting.texts? v = some [] ↔ v = .list [] := by
  constructor
  · intro h
    cases v with
    | list items =>
      rw [List.forall₂_nil_right_iff.mp (Json.mapM_eq_some_iff.mp h)]
    | _ => cases h
  · rintro rfl
    rfl

theorem written?_eq_none_iff_of? (h : k.of? o = some x) :
    k.written? x = none ↔ o = some (.list []) := by
  cases k with
  | endpoints =>
    rw [written?]
    cases o with
    | none =>
      cases h
      decide
    | some v =>
      have hread : Setting.texts? v = some x := h
      rw [Option.some_inj, ← texts?_eq_nil_iff, hread, Option.some_inj]
      split_ifs with hx
      · exact iff_of_true rfl hx
      · exact iff_of_false not_false hx
  | _ =>
    refine iff_of_false (Option.some_ne_none _) ?_
    rintro rfl
    cases h

/-- What is left behind of a field stands for it, unless it is an empty list. -/
theorem of?_written? (hfits : k.Fits x) (h : k.of? o = some x) :
    k.of? (k.written? x) = k.of? (kept? o) := by
  unfold kept?
  split
  · rw [(written?_eq_none_iff_of? h).mpr rfl]
  · rename_i hempty
    cases hwritten : k.written? x with
    | none => exact absurd ((written?_eq_none_iff_of? h).mp hwritten) hempty
    | some v => exact (read?_written? hfits hwritten).trans h.symm

/-- Sources that come on top win over settings that are there already. -/
theorem of?_or_written? (hfits : k.Fits x) (h : k.of? o = some x) (above : Option Setting) :
    k.of? (above.or (k.written? x)) = k.of? (above.or (kept? o)) := by
  cases above with
  | none => exact of?_written? hfits h
  | some v => rfl

end Field

/-- **A field of the first settings** has the value of the environment, else that of the file, else
the default. -/
theorem taken?_initial {k : Field} (h : initial? file env = some s)
    (hfile : (said file).IsLeafwise k) (henv : (Layer.ofEnvironment env).IsLeafwise k) :
    k.taken? [k.variableValue? env, (said file).given? k] = some (k.get s) := by
  obtain ⟨base, hbase, hread⟩ := initial?_stage h
  have hdefault : k.of? none = some k.fallback := rfl
  have hstage := of?_stage hbase hfile henv hread
  rwa [← Option.or_assoc, show k.get {} = k.fallback from rfl,
    Field.of?_or_written? k.fits_fallback hdefault, Option.or_assoc] at hstage

/-- **A field once a file has been put on top** has the value of the environment, else that of the
file on top, else what has been kept of the one below, else the default. -/
theorem taken?_overridden {k : Field} (h : initial? file env = some s)
    (hr : s.overridden? override env = some r) (hfile : (said file).IsLeafwise k)
    (hoverride : (said (some override)).IsLeafwise k)
    (henv : (Layer.ofEnvironment env).IsLeafwise k) :
    k.taken? [k.variableValue? env, (said (some override)).given? k,
      Field.kept? ((said file).given? k)] = some (k.get r) := by
  obtain ⟨-, base, hbase, hread⟩ := overridden?_iff.mp hr
  have hfirst := taken?_initial h hfile henv
  have hstage := of?_stage hbase hoverride henv hread
  rw [Field.taken?, List.foldr_cons, List.foldr_cons, List.foldr_nil] at hfirst
  rw [← Option.or_assoc, Field.of?_or_written? (Field.fits_get hbase hfirst) hfirst] at hstage
  rw [← hstage]
  cases k.variableValue? env with
  | none => simp [Field.taken?]
  | some v => rfl

/-! ## The same file once more -/

theorem Field.written?_ne_empty {k : Field} (x : k.Value) : k.written? x ≠ some (.list []) := by
  cases k with
  | endpoints =>
    rw [written?]
    split_ifs with hx
    · exact (Option.some_ne_none _).symm
    · simpa using hx
  | shape =>
    intro h
    cases x <;> cases h
  | _ =>
    intro h
    cases h

/-- **Putting the same file on top again** changes nothing, if the settings can be laid down. -/
theorem overridden?_again (hr : s.overridden? override env = some r)
    (hoverride : ∀ k, (said (some override)).IsLeafwise k)
    (henv : ∀ k, (Layer.ofEnvironment env).IsLeafwise k) :
    r.overridden? override env =
      if (r.store.requestTimeout : Int) ∈ Bounds.int64 ∧ (r.watch.bufferSize : Int) ∈ Bounds.int64
      then some r else none := by
  obtain ⟨hlayer, base, hbase, hread⟩ := overridden?_iff.mp hr
  split_ifs with hfits
  · have hagain : r.layer? = some _ := if_pos hfits
    refine overridden?_iff.mpr ⟨hlayer, _, hagain,
      ofSetting?_of_stage hagain hoverride henv fun k => ?_⟩
    have hstage := of?_stage hbase (hoverride k) (henv k) hread
    rw [← Option.or_assoc] at hstage ⊢
    cases habove : (k.variableValue? env).or ((said (some override)).given? k) with
    | some v =>
      rw [habove] at hstage
      exact ⟨v, rfl, hstage⟩
    | none =>
      rw [habove, Option.none_or] at hstage
      cases hwritten : k.written? (k.get r) with
      | some v => exact ⟨v, rfl, Field.read?_written? (Field.fits_get hagain hstage) hwritten⟩
      | none =>
        exact absurd ((Field.written?_eq_none_iff_of? hstage).mp hwritten)
          (Field.written?_ne_empty _)
  · rw [overridden?, layer?, if_neg hfits]
    rfl

/-! ## Usable settings -/

theorem validate_eq_ok_iff : s.validate = .ok () ↔
    s.store.validate = .ok () ∧ s.retry.validate = .ok () ∧ s.watch.validate = .ok () := by
  rw [validate]
  cases s.store.validate <;> cases s.retry.validate <;> simp [bind, Except.bind]

theorem match_validate_eq_some_iff {x : Settings} :
    (match s.validate with
      | .ok () => some s
      | .error _ => none) = some x ↔ s = x ∧ x.validate = .ok () := by
  constructor
  · intro h
    split at h
    · cases h
      exact ⟨rfl, ‹_›⟩
    · cases h
  · rintro ⟨rfl, hvalid⟩
    rw [hvalid]

theorem load?_some_iff {x : Settings} : load? file (some override) env = some x ↔
    (initial? file env).bind (·.overridden? override env) = some x ∧ x.validate = .ok () := by
  rw [load?]
  cases initial? file env with
  | none => exact iff_of_false (fun h => by cases h) fun h => by cases h.1
  | some s =>
    change ((s.overridden? override env).bind fun r => _) = some x ↔
      s.overridden? override env = some x ∧ _
    cases s.overridden? override env with
    | none => exact iff_of_false (fun h => by cases h) fun h => by cases h.1
    | some r =>
      rw [Option.some_inj]
      exact match_validate_eq_some_iff

theorem load?_none_iff {x : Settings} : load? file none env = some x ↔
    initial? file env = some x ∧ x.validate = .ok () := by
  rw [load?]
  cases initial? file env with
  | none => exact iff_of_false (fun h => by cases h) fun h => by cases h.1
  | some s =>
    rw [Option.some_inj]
    exact match_validate_eq_some_iff

/-- **Settings are layered field by field.** Of settings that could be read, a field that is given
values just as a whole has that of the environment, else that of the additional file, else that of
the file below unless it is an empty list, else the default. Putting the same file on top once more
changes nothing as long as there is room for the numbers. Settings are handed out just if they can
be read and are usable. -/
theorem layered (file : Option SettingsFile) (override : SettingsFile)
    (env : List (String × String)) :
    (∀ s r, initial? file env = some s → s.overridden? override env = some r →
      (∀ k, (said file).IsLeafwise k → (Layer.ofEnvironment env).IsLeafwise k →
        k.taken? [k.variableValue? env, (said file).given? k] = some (k.get s)) ∧
      (∀ k, (said file).IsLeafwise k → (said (some override)).IsLeafwise k →
        (Layer.ofEnvironment env).IsLeafwise k →
        k.taken? [k.variableValue? env, (said (some override)).given? k,
          Field.kept? ((said file).given? k)] = some (k.get r)) ∧
      ((∀ k, (said (some override)).IsLeafwise k) → (∀ k, (Layer.ofEnvironment env).IsLeafwise k) →
        r.overridden? override env =
          if (r.store.requestTimeout : Int) ∈ Bounds.int64 ∧
            (r.watch.bufferSize : Int) ∈ Bounds.int64 then some r else none)) ∧
    ∀ x, (load? file (some override) env = some x ↔
        ((initial? file env).bind (·.overridden? override env)) = some x ∧
          x.store.validate = .ok () ∧ x.retry.validate = .ok () ∧ x.watch.validate = .ok ()) ∧
      (load? file none env = some x ↔ initial? file env = some x ∧
          x.store.validate = .ok () ∧ x.retry.validate = .ok () ∧ x.watch.validate = .ok ()) := by
  refine ⟨fun s r h hr => ⟨fun k hfile henv => taken?_initial h hfile henv,
    fun k hfile hoverride henv => taken?_overridden h hr hfile hoverride henv,
    overridden?_again hr⟩, fun x => ?_⟩
  rw [← validate_eq_ok_iff]
  exact ⟨load?_some_iff, load?_none_iff⟩

/-- A variable, two files and the defaults: each of them decides about some field. -/
theorem layered_three_sources :
    let file := some (SettingsFile.present
      "[retry]\ninterval = 7\nmax_retry_count = 9\nmax_interval = 500\n")
    let override := SettingsFile.present "[retry]\ninterval = 10\n"
    let env := [("DOGU_REGISTRY__RETRY__MAX_RETRY_COUNT", "1")]
    let s : Settings := { retry := { interval := 7, maxRetryCount := 1, maxInterval := 500 } }
    let r : Settings := { retry := { interval := 10, maxRetryCount := 1, maxInterval := 500 } }
    initial? file env = some s ∧ s.overridden? override env = some r ∧
      (∀ k, (said file).IsLeafwise k ∧ (said (some override)).IsLeafwise k ∧
        (Layer.ofEnvironment env).IsLeafwise k) ∧
      (∀ k : Field, k.taken? [k.variableValue? env, (said (some override)).given? k,
        Field.kept? ((said file).given? k)] = some (k.get r)) ∧
      r.overridden? override env = some r ∧ load? file (some override) env = some r := by
  intro file override env s r
  have hs : initial? file env = some s := by decide +kernel
  have hr : s.overridden? override env = some r := by decide +kernel
  have hleafwise : ∀ k, (said file).IsLeafwise k ∧ (said (some override)).IsLeafwise k ∧
      (Layer.ofEnvironment env).IsLeafwise k := by
    have hplace : ∀ e ∈ Layer.ofEnvironment env,
        Place.ofName e.1 = [.name "retry", .name "max_retry_count"] := by decide +kernel
    refine fun k => ⟨Layer.isLeafwise_of_sections (by decide +kernel) k,
      Layer.isLeafwise_of_sections (by decide +kernel) k, fun e he => ?_⟩
    rw [hplace e he]
    exact fun _ _ => rfl
  obtain ⟨hlayered, hload⟩ := layered file override env
  obtain ⟨-, htaken, hagain⟩ := hlayered s r hs hr
  refine ⟨hs, hr, hleafwise,
    fun k => htaken k (hleafwise k).1 (hleafwise k).2.1 (hleafwise k).2.2,
    hagain (fun k => (hleafwise k).2.1) fun k => (hleafwise k).2.2, ?_⟩
  refine (hload r).1.mpr ⟨?_, by decide, by decide, by decide⟩
  rw [hs, Option.bind_some, hr]

/-- An empty list of endpoints in the file below gives way to the default as soon as there is a file
on top, even one that says nothing about endpoints. The list alone is not usable. -/
theorem emptied_endpoints_return :
    let file := some (SettingsFile.present "[store]\nendpoints = []\n")
    let override := SettingsFile.present "[watch]\nbuffer_size = 3\n"
    let s : Settings := { store := { endpoints := [] } }
    let r : Settings := { watch := { bufferSize := 3 } }
    initial? file [] = some s ∧ s.overridden? override [] = some r ∧
      (said file).IsLeafwise .endpoints ∧ (said (some override)).IsLeafwise .endpoints ∧
      Field.endpoints.taken? [Field.endpoints.variableValue? [],
        (said (some override)).given? .endpoints, (said file).given? .endpoints] = some [] ∧
      Field.endpoints.get r = ["http://127.0.0.1:4001"] ∧
      load? file none [] = none ∧ load? file (some override) [] = some r := by
  intro file override s r
  have hs : initial? file [] = some s := by decide +kernel
  have hr : s.overridden? override [] = some r := by decide +kernel
  refine ⟨hs, hr, by decide +kernel, by decide +kernel, by decide +kernel, rfl, ?_, ?_⟩
  · refine Option.eq_none_iff_forall_ne_some.mpr fun x hx => ?_
    obtain ⟨hread, hvalid⟩ := load?_none_iff.mp hx
    cases hs.symm.trans hread
    exact absurd hvalid (by decide)
  · refine load?_some_iff.mpr ⟨?_, by decide⟩
    rw [hs, Option.bind_some, hr]

end Settings

end ClusterRegistry
