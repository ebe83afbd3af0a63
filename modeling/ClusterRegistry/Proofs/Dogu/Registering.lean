import ClusterRegistry.Proofs.Client.Writing
import ClusterRegistry.Proofs.Dogu.Answers
import ClusterRegistry.Proofs.Dogu.Place
import ClusterRegistry.Proofs.Dogu.Roster

/-!
# What a registration shows

To register a dogu is to write a single value. Whoever reads a pointer, or looks for a dogu, sees
nothing of it, unless the version of the dogu leads to what is read: as a path it may lead to the
pointer itself.

* `Wire.Wrote.shown?_eq`: what is read at a key after a write;
* `Catalog.ReachesPointer`: a version that leads to a pointer;
* `Catalog.register_shown`, `Catalog.answers_of_beside`, `Catalog.answers_of_within`: what is read
  after a registration, and who notices;
* `Catalog.register_plain`: plain versions enable nothing;
* **`Catalog.register_answers`**: pointers and searches after any registration.
-/

namespace ClusterRegistry

theorem Wire.Wrote.shown?_eq {start : Store} {key : Key} {value : String} {w : Wire}
    (h : w.Wrote start key value) (k : Key) : w.store.shown? k =
      if key = k then some value else if key.IsWithin k then some ""
      else (start.expire w.now).shown? k := by
  obtain ⟨e, he, hfile, hvalue⟩ := h.file
  by_cases hkey : key = k
  · subst hkey
    rw [if_pos rfl, Store.shown?, if_neg h.notRoot, he, Option.map_some, if_neg (by simp [hfile]),
      hvalue]
  rw [if_neg hkey]
  by_cases hwithin : key.IsWithin k
  · rw [if_pos hwithin, Store.shown?]
    by_cases hroot : k = .root
    · rw [if_pos hroot]
    · have habove : k ∈ key.ancestors :=
        Key.mem_ancestors.mpr ⟨(Key.isWithin_iff.mp hwithin).resolve_left hkey, hroot⟩
      obtain ⟨d, hd, hdir⟩ := h.order.parents key e he k habove
      rw [if_neg hroot, hd, Option.map_some, if_pos hdir]
  · rw [if_neg hwithin, Store.shown?, Store.shown?, h.off k hwithin]

namespace Catalog

/-! ## Where a version leads -/

/-- As a path, the version of a dogu leads to the pointer of a name, or below it. -/
def ReachesPointer (d : Dogu) (name : String) : Prop :=
  pointerPlace name <+: (CatalogCall.register d).place

instance (d : Dogu) (name : String) : Decidable (ReachesPointer d name) := by
  unfold ReachesPointer
  infer_instance

theorem IsVersion.segments {version : String} (plain : IsVersion version) :
    Path.segments version = [.ofText version plain.nonempty plain.slashless] :=
  Path.segments_eq_singleton (.ofText version plain.nonempty plain.slashless)

/-- Among dogus with names, this takes the same simple name, and a version that starts with the name
of the pointer. -/
theorem reachesPointer_iff {d : Dogu} {name : String} (named : Dogu.simpleNameOf name ≠ "")
    (doguNamed : d.simpleName ≠ "") : ReachesPointer d name ↔
      d.simpleName = Dogu.simpleNameOf name ∧ [pointer] <+: Path.segments d.version := by
  have hdogu : Path.segments d.simpleName = _ := Dogu.segments_simpleNameOf doguNamed
  rw [ReachesPointer, pointerPlace, CatalogCall.place, Dogu.segments_simpleNameOf named, hdogu,
    List.cons_append, List.cons_append, List.nil_append, List.nil_append, List.cons_prefix_cons]
  refine and_congr_left fun _ => ⟨fun h => (congrArg Segment.text h).symm, fun h => ?_⟩
  exact Segment.ext_text h.symm

theorem not_reachesPointer {d : Dogu} {name : String} (plain : d.IsPlain)
    (named : Dogu.simpleNameOf name ≠ "") : ¬ ReachesPointer d name := by
  rw [reachesPointer_iff named plain.name, plain.version.segments]
  rintro ⟨-, hprefix⟩
  exact plain.version.noPointer (congrArg Segment.text (List.cons_prefix_cons.mp hprefix).1).symm

theorem eq_of_isWithin_versionPath {c : Catalog} {d : Dogu} {name version : String}
    (plain : d.IsPlain) (plain' : IsVersion version) (named : Dogu.simpleNameOf name ≠ "")
    (h : (Key.ofPath (c.versionPath d.simpleName d.version)).IsWithin
      (.ofPath (c.versionPath name version))) :
    d.simpleName = Dogu.simpleNameOf name ∧ d.version = version := by
  have hdogu : Path.segments d.simpleName = _ := Dogu.segments_simpleNameOf plain.name
  change (Key.ofPath (c.versionPath name version)).segments <+:
    (Key.ofPath (c.versionPath d.simpleName d.version)).segments at h
  rw [segments_versionPath, segments_versionPath, List.prefix_append_right_inj,
    Dogu.segments_simpleNameOf named, plain'.segments, Dogu.simpleName,
    Dogu.simpleNameOf_simpleNameOf, ← Dogu.simpleName, hdogu, plain.version.segments] at h
  obtain ⟨hname, hrest⟩ := List.cons_prefix_cons.mp h
  obtain ⟨htext, -⟩ := List.cons_prefix_cons.mp hrest
  exact ⟨(congrArg Segment.text hname).symm, (congrArg Segment.text htext).symm⟩

theorem isWithin_currentPath {c : Catalog} {d : Dogu} {name : String} :
    (Key.ofPath (c.versionPath d.simpleName d.version)).IsWithin (.ofPath (c.currentPath name)) ↔
      ReachesPointer d name := by
  change (Key.ofPath (c.currentPath name)).segments <+:
    (Key.ofPath (c.versionPath d.simpleName d.version)).segments ↔ _
  rw [segments_currentPath, segments_versionPath, List.prefix_append_right_inj, Dogu.simpleName,
    Dogu.simpleNameOf_simpleNameOf]
  rfl

/-! ## A registration -/

theorem register_wrote {c : Catalog} {d : Dogu} {w : Wire} (order : w.store.InOrder)
    (h : (w.exec (c.register d).run).1 = .ok ()) : c.client.retry.fault? = none ∧
      Wire.Wrote w.store (.ofPath (c.versionPath d.simpleName d.version)) (d.write c.schema)
        (w.exec (c.register d).run).2 := by
  obtain ⟨hdone, hstate⟩ := Operation.run_of_during h
  obtain ⟨text, hset, hend⟩ := Operation.run_of_bind hdone
  obtain ⟨response, hrequest, -⟩ := Operation.run_of_bind hset
  have hfinal : (w.exec (c.register d).run).2 = (w.exec (c.client.set
      (c.versionPath d.simpleName d.version) (d.write c.schema)).run).2 :=
    hstate.trans (congrArg (·.2.1) hend)
  rw [hfinal]
  exact ⟨Client.usable_of_ok hrequest, c.client.set_wrote order hset⟩

theorem register_shown {c : Catalog} {d : Dogu} {w w' : Wire} (order : w.store.InOrder)
    (h : w.exec (c.register d).run = (.ok (), w')) : c.client.retry.fault? = none ∧
      ∀ k, (w'.store.expire w'.now).shown? k =
        if Key.ofPath (c.versionPath d.simpleName d.version) = k then some (d.write c.schema)
        else if (Key.ofPath (c.versionPath d.simpleName d.version)).IsWithin k then some ""
        else (w.store.expire w'.now).shown? k := by
  obtain ⟨usable, hwrote⟩ := register_wrote order (congrArg Prod.fst h)
  rw [h] at hwrote
  refine ⟨usable, fun k => ?_⟩
  rw [hwrote.settled]
  exact hwrote.shown?_eq k

section Shown

variable {c : Catalog} {name : String} {s s' : Store} {t : Nat} {body : Key} {text : String}
  (usable : c.client.retry.fault? = none)
  (shown : ∀ k, (s'.expire t).shown? k = if body = k then some text
    else if body.IsWithin k then some "" else (s.expire t).shown? k)
include usable shown

theorem answers_of_beside (beside : ¬ body.IsWithin (.ofPath (c.currentPath name))) :
    s'.answers t (c.client.get (c.currentPath name)) =
        s.answers t (c.client.get (c.currentPath name)) ∧
      s'.answers t (c.isEnabled name) = s.answers t (c.isEnabled name) ∧
      s'.answers t (c.find name) =
        match s.answers t (c.client.get (c.currentPath name)) with
        | .error _ => s.answers t (c.find name)
        | .ok version =>
          if body = .ofPath (c.versionPath name version) then
            (Dogu.readFirst c.readers text).mapError .format
          else if body.IsWithin (.ofPath (c.versionPath name version)) then
            (Dogu.readFirst c.readers "").mapError .format
          else s.answers t (c.find name) := by
  have hne : body ≠ .ofPath (c.currentPath name) := fun e => beside (e ▸ .refl body)
  have hkept : (s'.expire t).shown? (.ofPath (c.currentPath name)) =
      (s.expire t).shown? (.ofPath (c.currentPath name)) := by
    rw [shown, if_neg hne, if_neg beside]
  rw [answers_isEnabled usable, answers_isEnabled usable, answers_find usable,
    answers_find usable, Client.answers_get _ usable, Client.answers_get _ usable, hkept]
  refine ⟨rfl, rfl, ?_⟩
  cases (s.expire t).shown? (.ofPath (c.currentPath name)) with
  | none => rfl
  | some version =>
    dsimp only
    rw [shown]
    split_ifs <;> rfl

theorem answers_of_within (within : body.IsWithin (.ofPath (c.currentPath name))) :
    s'.answers t (c.client.get (c.currentPath name)) =
        .ok (if body = .ofPath (c.currentPath name) then text else "") ∧
      s'.answers t (c.isEnabled name) = .ok true := by
  have hread : (s'.expire t).shown? (.ofPath (c.currentPath name)) =
      some (if body = .ofPath (c.currentPath name) then text else "") := by
    rw [shown, if_pos within]
    split_ifs <;> rfl
  rw [answers_isEnabled usable, Client.answers_get _ usable, hread]
  exact ⟨rfl, rfl⟩

end Shown

/-- A plain version of a dogu with a name enables nothing, and a search is answered as before unless
the dogu is enabled in that version. -/
theorem register_plain {c : Catalog} {d : Dogu} {name : String} {w w' : Wire}
    (order : w.store.InOrder) (h : w.exec (c.register d).run = (.ok (), w'))
    (plain : d.IsPlain) (named : Dogu.simpleNameOf name ≠ "") :
    w'.store.answers w'.now (c.client.get (c.currentPath name)) =
        w.store.answers w'.now (c.client.get (c.currentPath name)) ∧
      w'.store.answers w'.now (c.isEnabled name) = w.store.answers w'.now (c.isEnabled name) ∧
      ∀ version, IsVersion version →
        w.store.answers w'.now (c.client.get (c.currentPath name)) = .ok version →
        ¬ (d.simpleName = Dogu.simpleNameOf name ∧ d.version = version) →
        w'.store.answers w'.now (c.find name) = w.store.answers w'.now (c.find name) := by
  obtain ⟨usable, shown⟩ := register_shown order h
  obtain ⟨hget, henabled, hfind⟩ := answers_of_beside usable shown
    (mt isWithin_currentPath.mp (not_reachesPointer plain named))
  refine ⟨hget, henabled, fun version plain' hbefore hother => hfind.trans ?_⟩
  have hbeside := mt (eq_of_isWithin_versionPath plain plain' named (c := c)) hother
  have hne : Key.ofPath (c.versionPath d.simpleName d.version) ≠
      .ofPath (c.versionPath name version) := fun e => hbeside (Key.isWithin_iff.mpr (.inl e))
  rw [hbefore]
  dsimp only
  rw [if_neg hne, if_neg hbeside]

/-- **A registration shows only where the version of the dogu leads.** Pointers are left as they
are, unless the version leads to them, and then the dogu is enabled. A search is answered as before,
unless the enabled version leads to the new description or above it. -/
theorem register_answers (c : Catalog) (steps : List Step) (now : Nat)
    (handlings : List (Nat × Handling)) (d : Dogu) (name : String) (w : Wire)
    (h : (⟨(Course.run steps).store, now, handlings⟩ : Wire).exec (c.register d).run =
      (.ok (), w)) :
    (¬ ReachesPointer d name →
      w.store.answers w.now (c.client.get (c.currentPath name)) =
        (Course.run steps).store.answers w.now (c.client.get (c.currentPath name)) ∧
      w.store.answers w.now (c.isEnabled name) =
        (Course.run steps).store.answers w.now (c.isEnabled name) ∧
      w.store.answers w.now (c.find name) =
        match (Course.run steps).store.answers w.now (c.client.get (c.currentPath name)) with
        | .error _ => (Course.run steps).store.answers w.now (c.find name)
        | .ok version =>
          if Key.ofPath (c.versionPath d.simpleName d.version) =
              .ofPath (c.versionPath name version) then
            (Dogu.readFirst c.readers (d.write c.schema)).mapError .format
          else if (Key.ofPath (c.versionPath d.simpleName d.version)).IsWithin
              (.ofPath (c.versionPath name version)) then
            (Dogu.readFirst c.readers "").mapError .format
          else (Course.run steps).store.answers w.now (c.find name)) ∧
    (ReachesPointer d name →
      w.store.answers w.now (c.client.get (c.currentPath name)) =
        .ok (if Key.ofPath (c.versionPath d.simpleName d.version) =
          .ofPath (c.currentPath name) then d.write c.schema else "") ∧
      w.store.answers w.now (c.isEnabled name) = .ok true) := by
  obtain ⟨usable, shown⟩ := register_shown (Course.run_inOrder steps) h
  refine ⟨fun hout => ?_, fun hin => ?_⟩
  · exact answers_of_beside usable shown (mt isWithin_currentPath.mp hout)
  · exact answers_of_within usable shown (isWithin_currentPath.mpr hin)

/-- The next version of an enabled dogu is registered, at the second attempt, because the answer to
the first one is lost. The dogu stays enabled in the version that it has. -/
theorem register_answers_upgrade :
    let c : Catalog := ⟨⟨.constant 10 2, 5, 0⟩, "/dogu_v2", .v2, Dogu.defaultSchemas⟩
    let d : Dogu := { name := "official/nginx", version := "1.0" }
    let d' : Dogu := { name := "official/nginx", version := "1.1" }
    let steps : List Step := [.request (.set "/dogu_v2/nginx/1.0" (d.write .v2) {}),
      .request (.set "/dogu_v2/nginx/current" "1.0" {})]
    ∃ w : Wire, (⟨(Course.run steps).store, 0,
        [(500, .unanswered (.timedOut 5)), (700, .answered)]⟩ : Wire).exec (c.register d').run =
          (.ok (), w) ∧
      w.store.answers w.now (c.client.get (c.currentPath "nginx")) = .ok "1.0" ∧
      w.store.answers w.now (c.isEnabled "nginx") = .ok true ∧
      w.store.answers w.now (c.find "nginx") = .ok d := by
  intro c d d' steps
  have hok : ((⟨(Course.run steps).store, 0, [(500, .unanswered (.timedOut 5)),
      (700, .answered)]⟩ : Wire).exec (c.register d').run).1 = .ok () := by
    decide +kernel
  have hnow : ((⟨(Course.run steps).store, 0, [(500, .unanswered (.timedOut 5)),
      (700, .answered)]⟩ : Wire).exec (c.register d').run).2.now = 1200 := by
    decide +kernel
  generalize hexec : Wire.exec _ (c.register d').run = sent at hok hnow ⊢
  obtain ⟨result, w⟩ := sent
  obtain rfl : result = .ok () := hok
  change w.now = 1200 at hnow
  have hbefore : (Course.run steps).store.answers 1200
      (c.client.get (c.currentPath "nginx")) = .ok "1.0" := by
    decide +kernel
  obtain ⟨hget, henabled, hfind⟩ :=
    (c.register_answers steps 0 _ d' "nginx" w hexec).1 (by decide +kernel)
  rw [hnow] at hget henabled hfind
  rw [hbefore] at hget hfind
  refine ⟨w, rfl, ?_, ?_, ?_⟩
  · rw [hnow, hget]
  · rw [hnow, henabled]
    decide +kernel
  · rw [hnow, hfind]
    decide +kernel

/-- A dogu whose version is called like the pointer is enabled by its registration. -/
theorem register_enables :
    let c : Catalog := ⟨⟨.constant 10 2, 5, 0⟩, "/dogu_v2", .v2, Dogu.defaultSchemas⟩
    let d : Dogu := { name := "official/ldap", version := "current" }
    let w : Wire := ⟨.empty, 0, []⟩
    let w' := (w.exec (c.register d).run).2
    (w.exec (c.register d).run).1 = .ok () ∧
      w.store.answers w'.now (c.isEnabled "ldap") = .ok false ∧
      w'.store.answers w'.now (c.isEnabled "ldap") = .ok true := by
  decide +kernel

end Catalog

end ClusterRegistry
