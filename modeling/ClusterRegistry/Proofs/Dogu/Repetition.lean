import ClusterRegistry.Registry
import ClusterRegistry.Proofs.Dogu.Call

/-!
# Repeated calls

A call that failed half-way can be repeated, unless it was to unregister a dogu. Then the older
catalog does not have the dogu any more, and the repetition never gets to the newer one.

* `Failure.unindexed`: a failure without the index of the store, which every write moves;
* `Store.Agree`, `Store.perform_set_congr`, `Store.perform_set_again`: writes to stores that keep
  the same, and a write after the same write;
* `CatalogPair.Alike`, `CatalogPair.settle_alike`: calls with the same outcome;
* **`CatalogPair.run_repeat`**: which repetitions do what the call would have done.
-/

namespace ClusterRegistry

/-! ## Failures without indices -/

def RequestFailure.unindexed : RequestFailure → RequestFailure
  | .refused r => .refused r.unindexed
  | f => f

/-- The failure without the index of the store. -/
def Failure.unindexed : Failure → Failure
  | .request operation key attempts cause => .request operation key attempts cause.unindexed
  | .partialWrite operation dogu applied failed cause =>
    .partialWrite operation dogu applied failed cause.unindexed
  | .context doing cause => .context doing cause.unindexed
  | f => f

theorem Refusal.kind_unindexed (r : Refusal) : r.unindexed.kind = r.kind := rfl

theorem Failure.kind_unindexed (f : Failure) : f.unindexed.kind = f.kind := by
  induction f with
  | request operation key attempts cause => cases cause <;> rfl
  | partialWrite _ _ _ _ _ ih => exact ih
  | context _ _ ih => exact ih
  | _ => rfl

namespace Store

variable {s s' t : Store} {path value : String} {response : Response}

/-! ## Writes to stores that keep the same -/

/-- The same answer, but for indices, and stores that keep the same. -/
inductive Agree :
    Except Refusal (Store × Response) → Except Refusal (Store × Response) → Prop
  | ok {s t : Store} {response response' : Response} (same : s.contents.slots = t.contents.slots) :
      Agree (.ok (s, response)) (.ok (t, response'))
  | error {e e' : Refusal} (same : e.unindexed = e'.unindexed) : Agree (.error e) (.error e')

theorem slots_of_set (h : s.contents.slots = t.contents.slots) {s' t' : Store}
    {response response' : Response} (hs : s.perform 0 (.set path value {}) = .ok (s', response))
    (ht : t.perform 0 (.set path value {}) = .ok (t', response')) :
    s'.contents.slots = t'.contents.slots := by
  ext1 k
  rw [lookup_slots_of_set hs, lookup_slots_of_set ht, h]

/-- Why a plain write is refused: a code, and the key that is in the way. -/
def objection (slots : Slots) (key : Key) : Option (Nat × Key) :=
  if key = .root then some (Refusal.rootReadOnly, key)
  else if slots[key]?.any (·.dir) then some (Refusal.notFile, key)
  else (key.ancestors.find? fun k => slots[k]?.any (!·.dir)).map (Refusal.notDir, ·)

theorem objection_of_error {e : Refusal} (h : s.perform 0 (.set path value {}) = .error e) :
    ∃ o ∈ objection s.contents.slots (.ofPath path), e = .ofCode o.1 o.2.text s.index := by
  have hany : ∀ (k : Key) (f : Bool → Bool),
      s.contents.slots[k]?.any (fun x => f x.dir) = s.contents[k]?.any fun e => f e.dir := by
    intro k f
    rw [Contents.lookup_slots]
    cases s.contents[k]? <;> rfl
  change s.write 0 path value {} = .error e at h
  unfold write at h
  unfold objection
  dsimp only at h
  have hdir := hany (.ofPath path) fun d => d
  rw [hdir]
  simp only [hany _ (! ·)]
  by_cases hroot : Key.ofPath path = .root
  · rw [if_pos hroot] at h ⊢
    exact ⟨_, rfl, (Except.error.inj h).symm⟩
  rw [if_neg hroot] at h ⊢
  rw [if_neg (by simp), if_neg (by simp), if_neg (by simp)] at h
  split_ifs at h ⊢
  · exact ⟨_, rfl, (Except.error.inj h).symm⟩
  · split at h
    · rename_i file hfile
      rw [hfile]
      exact ⟨_, rfl, (Except.error.inj h).symm⟩
    · cases h

theorem perform_set_congr (h : s.contents.slots = t.contents.slots) :
    Agree (s.perform 0 (.set path value {})) (t.perform 0 (.set path value {})) := by
  cases hs : s.perform 0 (.set path value {}) with
  | ok answer =>
    have hok : ∃ answer, t.perform 0 (.set path value {}) = .ok answer :=
      perform_set_ok_iff.mpr (h ▸ perform_set_ok_iff.mp ⟨answer, hs⟩)
    obtain ⟨answer', ht⟩ := hok
    rw [ht]
    exact .ok (slots_of_set h hs ht)
  | error e =>
    obtain ⟨o, ho, rfl⟩ := objection_of_error hs
    cases ht : t.perform 0 (.set path value {}) with
    | ok answer' =>
      have hok : ∃ answer, s.perform 0 (.set path value {}) = .ok answer :=
        perform_set_ok_iff.mpr (h ▸ perform_set_ok_iff.mp ⟨answer', ht⟩)
      obtain ⟨answer, hs'⟩ := hok
      rw [hs] at hs'
      cases hs'
    | error e' =>
      obtain ⟨o', ho', rfl⟩ := objection_of_error ht
      rw [h] at ho
      obtain rfl := Option.mem_unique ho ho'
      exact .error rfl

/-- **A plain write after the same write is accepted and changes nothing but indices.** -/
theorem perform_set_again (h : s.perform 0 (.set path value {}) = .ok (s', response)) :
    ∃ s'' response', s'.perform 0 (.set path value {}) = .ok (s'', response') ∧
      s''.contents.slots = s'.contents.slots := by
  obtain ⟨hroot, hdir, hfile⟩ := perform_set_ok_iff.mp ⟨_, h⟩
  have hlook := lookup_slots_of_set h
  have habove : ∀ a ∈ (Key.ofPath path).ancestors, a ≠ .ofPath path := fun a ha e =>
    (Key.mem_ancestors.mp ha).1.2 e.symm
  have hadmits : s'.contents.slots.Admits (.ofPath path) := by
    refine ⟨hroot, fun x hx => ?_, fun a ha x hx => ?_⟩
    · rw [hlook, if_pos rfl] at hx
      obtain rfl := Option.some.inj hx
      rfl
    · rw [hlook, if_neg (habove a ha), if_pos ha] at hx
      obtain rfl := Option.some.inj hx
      cases hslot : s.contents.slots[a]? with
      | none => rfl
      | some y => exact hfile a ha y hslot
  have hok : ∃ answer, s'.perform 0 (.set path value {}) = .ok answer :=
    perform_set_ok_iff.mpr hadmits
  obtain ⟨⟨s'', response'⟩, hagain⟩ := hok
  refine ⟨s'', response', hagain, ?_⟩
  ext1 k
  rw [lookup_slots_of_set hagain, hlook]
  split_ifs
  · rfl
  · rfl
  · rfl

end Store

/-! ## Calls with the same outcome -/

/-- The same outcome, but for indices, and stores that keep the same. -/
def Alike (x y : Except Failure Unit × Store) : Prop :=
  x.1.mapError Failure.unindexed = y.1.mapError Failure.unindexed ∧
    x.2.contents.slots = y.2.contents.slots

theorem Alike.refl (x : Except Failure Unit × Store) : Alike x x := ⟨rfl, rfl⟩

section Alike

variable {s t : Store} {call : CatalogCall}

theorem Client.settle_alike (c : Client) (operation path : String) {r : Request}
    (h : s.contents.slots = t.contents.slots) (agree : Store.Agree (s.perform 0 r) (t.perform 0 r))
    (call : CatalogCall) :
    Alike (Catalog.concluded call (c.settle operation path r s).1, (c.settle operation path r s).2)
      (Catalog.concluded call (c.settle operation path r t).1, (c.settle operation path r t).2) := by
  unfold settle
  cases c.retry.delays with
  | error reason => exact ⟨rfl, h⟩
  | ok waits =>
    dsimp only [settleWith]
    generalize s.perform 0 r = first at agree ⊢
    generalize t.perform 0 r = second at agree ⊢
    cases agree with
    | ok same => exact ⟨rfl, same⟩
    | @error e e' same =>
      have hkind : e.kind = e'.kind := by
        rw [← e.kind_unindexed, same, Refusal.kind_unindexed]
      refine ⟨?_, h⟩
      dsimp only
      rw [hkind]
      simp only [Catalog.concluded, Except.map, Except.mapError, Failure.unindexed,
        RequestFailure.unindexed, same]

theorem Catalog.settle_alike (c : Catalog) (writes : call.Writes)
    (h : s.contents.slots = t.contents.slots) : Alike (c.settle call s) (c.settle call t) := by
  obtain ⟨value, hrequest⟩ := c.request_of_writes writes
  unfold settle
  dsimp only
  rw [hrequest]
  exact c.client.settle_alike _ _ h (Store.perform_set_congr h) call

theorem CatalogPair.judged_alike {x y : Except Failure Unit × Store} (h : Alike x y) :
    Alike (judged call x.1, x.2) (judged call y.1, y.2) := by
  have hjudged : ∀ o : Except Failure Unit, (judged call o).mapError Failure.unindexed =
      judged call (o.mapError Failure.unindexed) := by
    intro o
    cases o with
    | ok u => rfl
    | error f =>
      cases call with
      | register d => rfl
      | enable d => rfl
      | unregister name =>
        have hkind : f.unindexed.IsNotFound ↔ f.IsNotFound := by
          rw [Failure.IsNotFound, Failure.IsNotFound, f.kind_unindexed]
        simp only [judged, verdict, Except.mapError, hkind]
        split_ifs <;> rfl
  exact ⟨by rw [hjudged, hjudged, h.1], h.2⟩

/-- **A write that the older catalog has taken already does what it would have done before.** -/
theorem CatalogPair.settle_after_older (p : CatalogPair) (writes : call.Writes)
    (usable : p.older.client.retry.fault? = none) {response : Response}
    (older : s.perform 0 (p.older.request call) = .ok (t, response)) :
    Alike (p.settle call t) (p.settle call s) := by
  have hfirst := Catalog.settle_of_ok usable older
  obtain ⟨value, hrequest⟩ := p.older.request_of_writes writes
  rw [hrequest] at older
  obtain ⟨t', response', hagain, hsame⟩ := Store.perform_set_again older
  rw [← hrequest] at hagain
  have hsecond := Catalog.settle_of_ok usable hagain
  rw [settle_of_ok hfirst, settle_of_ok hsecond]
  exact judged_alike (p.newer.settle_alike writes hsame)

end Alike

namespace CatalogPair

variable (p : CatalogPair)

/-! ## Calls that failed -/

/-- A call to unregister a dogu has taken the pointer away from the older catalog. -/
def TakesPointer (call : CatalogCall) (before after : Store) : Prop :=
  ∃ name, call = .unregister name ∧ p.older.HasPointer name before ∧ ¬ p.older.HasPointer name after

section Unregister

variable {p} {s t : Store} {name : String} {response : Response}

theorem takesPointer_of_older (hs : s.Lasting)
    (older : s.perform 0 (p.older.request (.unregister name)) = .ok (t, response)) :
    p.TakesPointer (.unregister name) s t := by
  obtain ⟨x, hx, -⟩ := hs.perform_delete_ok_iff.mp ⟨_, older⟩
  refine ⟨name, rfl, fun hnone => ?_, fun hkept => hkept ?_⟩
  · rw [hnone] at hx
    cases hx
  · rw [hs.lookup_slots_of_delete older, if_pos rfl]

theorem TakesPointer.settle_again (h : p.TakesPointer (.unregister name) s t) (hs : s.Lasting)
    (usable : p.older.client.retry.fault? = none) :
    ∃ f, p.settle (.unregister name) t = (.error f, t) ∧ f.IsNotFound := by
  obtain ⟨_, hname, hbefore, hafter⟩ := h
  obtain rfl := CatalogCall.unregister.inj hname
  have hroot : Key.ofPath (p.older.currentPath name) ≠ .root := by
    obtain ⟨x, hx⟩ := Option.ne_none_iff_exists'.mp hbefore
    rw [Contents.lookup_slots] at hx
    obtain ⟨e, he, -⟩ := Option.map_eq_some_iff.mp hx
    exact hs.inOrder.notRoot _ e he
  obtain ⟨f, hrefused, hf⟩ := Catalog.settle_unregister usable hroot (not_not.mp hafter)
  exact ⟨f, settle_of_error hrefused, hf⟩

theorem settle_unregister_once (usable : p.older.client.retry.fault? = none)
    (older : s.perform 0 (p.older.request (.unregister name)) = .ok (t, response)) {f : Failure}
    (h : (p.settle (.unregister name) s).1 = .error f) : ¬ f.IsNotFound := by
  rw [settle_of_ok (Catalog.settle_of_ok usable older)] at h
  cases hnewer : (p.newer.settle (.unregister name) t).1 with
  | ok u =>
    rw [hnewer] at h
    cases h
  | error g =>
    rw [hnewer] at h
    replace h : (if g.IsNotFound then .ok () else .error g : Except Failure Unit) = .error f := h
    split_ifs at h with hg
    exact Except.error.inj h ▸ hg

end Unregister

/-- What a repetition comes to after each way in which a call may fail. -/
theorem Does.settle_again {p : CatalogPair} {call : CatalogCall} {l : Link}
    {res : Except Failure Unit × Link} (h : p.Does call l res) (hl : l.store.Lasting) {f : Failure}
    (fails : res.1 = .error f) :
    (Alike (p.settle call res.2.store) (p.settle call l.store) ↔
      ¬ p.TakesPointer call l.store res.2.store) ∧
    (p.TakesPointer call l.store res.2.store →
      ∃ g, p.settle call res.2.store = (.error g, res.2.store) ∧ g.IsNotFound) := by
  cases h with
  | neither kept why =>
    have hnot : ¬ p.TakesPointer call l.store l.store := fun ⟨_, _, hbefore, hafter⟩ =>
      hafter hbefore
    rw [kept]
    exact ⟨iff_of_true (.refl _) hnot, fun h => absurd h hnot⟩
  | half usable older why =>
    rcases call.writes_or with writes | ⟨name, rfl⟩
    · have hnot : ∀ t, ¬ p.TakesPointer call l.store t := by
        rintro t ⟨name, rfl, -⟩
        exact writes
      exact ⟨iff_of_true (p.settle_after_older writes usable older) (hnot _),
        fun h => absurd h (hnot _)⟩
    · have htakes := takesPointer_of_older hl older
      obtain ⟨g, hagain, hg⟩ := htakes.settle_again hl usable
      refine ⟨iff_of_false (fun halike => ?_) (not_not_intro htakes), fun _ => ⟨g, hagain, hg⟩⟩
      -- the repetition is answered that there is nothing, the call itself is not
      have houtcome := halike.1
      rw [hagain] at houtcome
      cases honce : (p.settle (.unregister name) l.store).1 with
      | ok u =>
        rw [honce] at houtcome
        cases houtcome
      | error f' =>
        rw [honce] at houtcome
        have hkind : g.kind = f'.kind := by
          rw [← g.kind_unindexed, Except.error.inj houtcome, Failure.kind_unindexed]
        exact settle_unregister_once usable older honce (hkind.symm.trans hg)
  | both older newer => cases fails

/-- **Repeating a failed call does what the call would have done, unless the call was to unregister
a dogu and has taken its pointer away from the older catalog.** Then the repetition fails for want
of that pointer, and nothing changes. -/
theorem run_repeat (passages : List Passage) (calls : List CatalogCall) (call : CatalogCall)
    (pauses pauses' : List Nat) (f : Failure) :
    let l := p.run calls { passages := passages }
    let first := l.perform (p.operate call)
    let again := (first.2.undisturbed pauses).perform (p.operate call)
    let once := (l.undisturbed pauses').perform (p.operate call)
    first.1 = .error f →
      (Alike (again.1, again.2.store) (once.1, once.2.store) ↔
        ¬ p.TakesPointer call l.store first.2.store) ∧
      (p.TakesPointer call l.store first.2.store →
        ∃ g, again.1 = .error g ∧ g.IsNotFound ∧ again.2.store = first.2.store) := by
  intro l first again once hfails
  have hl : l.store.Lasting := p.run_lasting calls .empty
  have hdoes : p.Does call l first := p.operate_does call hl
  have hfirst : first.2.store.Lasting := hdoes.lasting hl
  obtain ⟨hagain, hagain'⟩ :=
    p.operate_calm call (l := first.2.undisturbed pauses) hfirst (first.2.undisturbed_isCalm pauses)
  obtain ⟨honce, honce'⟩ :=
    p.operate_calm call (l := l.undisturbed pauses') hl (l.undisturbed_isCalm pauses')
  change again.1 = (p.settle call first.2.store).1 at hagain
  change again.2.store = (p.settle call first.2.store).2 at hagain'
  change once.1 = (p.settle call l.store).1 at honce
  change once.2.store = (p.settle call l.store).2 at honce'
  obtain ⟨halike, htakes⟩ := hdoes.settle_again hl hfails
  rw [hagain, hagain', honce, honce']
  refine ⟨halike, fun h => ?_⟩
  obtain ⟨g, hsettle, hg⟩ := htakes h
  rw [hsettle]
  exact ⟨g, rfl, hg, rfl⟩

/-- A dogu is registered while the second request gets lost, and then once more. -/
theorem run_repeat_register :
    let p : CatalogPair := (⟨⟨.constant 0 0, 1000, 1⟩⟩ : Registry).catalogs
    let d : Dogu := { name := "official/nginx", version := "1.0" }
    let passages : List Passage := [{}, {}, {}, { failure := some (.timedOut 0) }]
    let l := p.run [.enable d] { passages := passages }
    let first := l.perform (p.operate (.register d))
    let again := (first.2.undisturbed [5]).perform (p.operate (.register d))
    let once := (l.undisturbed []).perform (p.operate (.register d))
    (∃ f, first.1 = .error f) ∧ Alike (again.1, again.2.store) (once.1, once.2.store) := by
  intro p d passages
  have hrepeat := run_repeat p passages [.enable d] (.register d) [5] []
  dsimp only at hrepeat ⊢
  have herror : ((p.run [.enable d] { passages := passages }).perform
      (p.operate (.register d))).1.isOk = false := by decide +kernel
  cases hfirst : ((p.run [.enable d] { passages := passages }).perform
      (p.operate (.register d))).1 with
  | ok u =>
    rw [hfirst] at herror
    cases herror
  | error f =>
    refine ⟨⟨f, rfl⟩, (hrepeat f hfirst).1.mpr ?_⟩
    rintro ⟨name, hcall, -⟩
    cases hcall

/-- Once the second request of a call to unregister a dogu is lost, the call cannot be repeated. -/
theorem not_repeatable :
    let p : CatalogPair := (⟨⟨.constant 0 0, 1000, 1⟩⟩ : Registry).catalogs
    let d : Dogu := { name := "official/nginx", version := "1.0" }
    let lost : Passage := { failure := some (.timedOut 0) }
    let l := p.run [.register d, .enable d] { passages := [{}, {}, {}, {}, {}, lost] }
    let first := l.perform (p.operate (.unregister "nginx"))
    let again := (first.2.undisturbed []).perform (p.operate (.unregister "nginx"))
    let once := (l.undisturbed []).perform (p.operate (.unregister "nginx"))
    let pointer := Key.ofPath (p.newer.currentPath "nginx")
    first.1 ≠ .ok () ∧ once.1 = .ok () ∧ again.1 ≠ .ok () ∧
      again.2.store.contents.slots[pointer]? ≠ once.2.store.contents.slots[pointer]? := by
  decide +kernel

end CatalogPair

end ClusterRegistry
