import ClusterRegistry.Dogu.Catalog
import ClusterRegistry.Proofs.Client.Request

/-!
# Calls to catalogs

Registering, enabling and unregistering are one request to each of two catalogs. Seen from the
store, a call is done in neither catalog, in the older one alone, or in both.

* `CatalogCall`, `Catalog.operate`, `CatalogPair.operate`: the calls;
* `Catalog.perform_operate`, `CatalogPair.perform_operate`: a call as one request, or two;
* `CatalogPair.Does`, **`CatalogPair.operate_does`**: what a call comes to if requests may get lost;
* `CatalogPair.run`, `CatalogPair.run_lasting`: one call after the other;
* `CatalogPair.settle`, **`CatalogPair.operate_calm`**: what it comes to if nothing gets lost.
-/

namespace ClusterRegistry

/-- A call that changes catalogs. -/
inductive CatalogCall
  | register (d : Dogu)
  | enable (d : Dogu)
  | unregister (name : String)

/-- A call that writes. -/
def CatalogCall.Writes : CatalogCall → Prop
  | .register _ | .enable _ => True
  | .unregister _ => False

theorem CatalogCall.writes_or (call : CatalogCall) :
    call.Writes ∨ ∃ name, call = .unregister name := by
  cases call with
  | register d => exact .inl trivial
  | enable d => exact .inl trivial
  | unregister name => exact .inr ⟨name, rfl⟩

namespace Catalog

variable (c : Catalog)

/-- What is asked of one catalog. -/
def operate : CatalogCall → Operation Unit
  | .register d => c.register d
  | .enable d => c.enable d
  | .unregister name => c.unregister name

/-- The request that a call comes to. -/
def request : CatalogCall → Request
  | .register d => .set (c.versionPath d.simpleName d.version) (d.write c.schema) {}
  | .enable d => .set (c.currentPath d.simpleName) d.version {}
  | .unregister name => .delete (c.currentPath name) {}

/-- The name of the request in failures. -/
def verb : CatalogCall → String
  | .register _ | .enable _ => "set"
  | .unregister _ => "delete"

/-- What a failure says about the call. -/
def doing : CatalogCall → String
  | .register d => s!"failed to register dogu {d.name} {d.version}"
  | .enable d => s!"failed to enable dogu {d.name} {d.version}"
  | .unregister name => s!"failed to unregister dogu {name}"

/-- The path of the request. -/
def target : CatalogCall → String
  | .register d => c.versionPath d.simpleName d.version
  | .enable d => c.currentPath d.simpleName
  | .unregister name => c.currentPath name

/-- The answer to a request as the outcome of a call. -/
def concluded (call : CatalogCall) (answer : Except Failure Response) : Except Failure Unit :=
  (answer.map fun _ => ()).mapError (.context (doing call))

/-- A dogu has a pointer. -/
def HasPointer (name : String) (s : Store) : Prop :=
  s.contents.slots[Key.ofPath (c.currentPath name)]? ≠ none

theorem request_isLasting (call : CatalogCall) : (c.request call).IsLasting := by
  cases call <;> first | rfl | trivial

theorem request_of_writes {call : CatalogCall} (h : call.Writes) :
    ∃ value, c.request call = .set (c.target call) value {} := by
  cases call with
  | register d => exact ⟨_, rfl⟩
  | enable d => exact ⟨_, rfl⟩
  | unregister name => exact h.elim

end Catalog

namespace Link

variable {α β : Type} (l : Link)

theorem perform_bind_pure (x : Operation α) (f : α → β) :
    l.perform (x >>= fun a => pure (f a)) = ((l.perform x).1.map f, (l.perform x).2) := by
  rw [perform_bind]
  cases (l.perform x).1 <;> rfl

end Link

/-- **A call to one catalog is one request.** -/
theorem Catalog.perform_operate (c : Catalog) (call : CatalogCall) (l : Link) :
    l.perform (c.operate call) =
      let sent := l.perform (c.client.request (verb call) (c.target call) (c.request call))
      (concluded call sent.1, sent.2) := by
  have hforget : ∀ x : Except Failure Response,
      (x.map fun response => response.node.valueText).map (fun _ => ()) = x.map fun _ => () := by
    intro x
    cases x <;> rfl
  cases call with
  | register d =>
    rw [operate, register, Link.perform_during, Client.set, Link.perform_bind_pure,
      Link.perform_bind_pure, hforget]
    rfl
  | enable d =>
    rw [operate, enable, Link.perform_during, Client.set, Link.perform_bind_pure,
      Link.perform_bind_pure, hforget]
    rfl
  | unregister name =>
    rw [operate, unregister, Link.perform_during, Client.delete, Link.perform_bind_pure]
    rfl

namespace CatalogPair

variable (p : CatalogPair)

/-- What is asked of both catalogs. -/
def operate : CatalogCall → Operation Unit
  | .register d => p.register d
  | .enable d => p.enable d
  | .unregister name => p.unregister name

/-- The outcome of a call that only the older catalog has taken. -/
def verdict : CatalogCall → Failure → Except Failure Unit
  | .register d, f => .error (.partialWrite "register" d.name .v1 .v2 f)
  | .enable d, f => .error (.partialWrite "enable" d.name .v1 .v2 f)
  | .unregister _, f => if f.IsNotFound then .ok () else .error f

/-- The outcome of a call by the outcome in the newer catalog. -/
def judged (call : CatalogCall) : Except Failure Unit → Except Failure Unit
  | .ok () => .ok ()
  | .error f => verdict call f

theorem perform_both (first second : Operation Unit) (next : Except Failure Unit → Operation Unit)
    (judge : Except Failure Unit → Except Failure Unit)
    (hnext : ∀ o (l : Link), l.perform (next o) = (judge o, l)) (l : Link) :
    l.perform (first >>= fun _ => second.outcome >>= next) =
      match (l.perform first).1 with
      | .error f => (.error f, (l.perform first).2)
      | .ok () =>
        let answer := (l.perform first).2.perform second
        (judge answer.1, answer.2) := by
  rw [Link.perform_bind]
  cases (l.perform first).1 with
  | error f => rfl
  | ok u =>
    dsimp only
    rw [Link.perform_bind, Link.perform_outcome]
    exact hnext _ _

/-- **A call goes to the older catalog first, and to the newer one if the older one takes it.** -/
theorem perform_operate (call : CatalogCall) (l : Link) :
    l.perform (p.operate call) =
      let first := l.perform (p.older.operate call)
      match first.1 with
      | .error f => (.error f, first.2)
      | .ok () =>
        let second := first.2.perform (p.newer.operate call)
        (judged call second.1, second.2) := by
  cases call with
  | register d =>
    refine perform_both (p.older.register d) (p.newer.register d) _ (judged (.register d)) ?_ l
    intro o l
    cases o <;> rfl
  | enable d =>
    refine perform_both (p.older.enable d) (p.newer.enable d) _ (judged (.enable d)) ?_ l
    intro o l
    cases o <;> rfl
  | unregister name =>
    refine perform_both (p.older.unregister name) (p.newer.unregister name) _
      (judged (.unregister name)) ?_ l
    intro o l
    cases o with
    | ok u => rfl
    | error f =>
      dsimp only [judged, verdict]
      split <;> rfl

end CatalogPair

/-! ## Calls whose requests may get lost -/

variable {l : Link} {call : CatalogCall}

/-- What a call to one catalog comes to. -/
inductive Catalog.Does (c : Catalog) (call : CatalogCall) (l : Link) :
    Except Failure Unit × Link → Prop
  | done {l' : Link} {response : Response} (usable : c.client.retry.fault? = none)
      (performed : l.store.perform 0 (c.request call) = .ok (l'.store, response)) :
      Does c call l (.ok (), l')
  | failed {l' : Link} {f : Failure} (kept : l'.store = l.store)
      (why : c.client.retry.fault? ≠ none ∨ l.Loses l' ∨
        ∃ refusal, l.store.perform 0 (c.request call) = .error refusal) :
      Does c call l (.error f, l')

theorem Catalog.operate_does (c : Catalog) (call : CatalogCall) (h : l.store.Lasting) :
    c.Does call l (l.perform (c.operate call)) := by
  have hsent := c.client.request_sent (verb call) (c.target call) h (c.request_isLasting call)
  rw [perform_operate]
  generalize l.perform _ = sent at hsent ⊢
  cases hsent with
  | done usable performed => exact .done usable performed
  | failed kept why => exact .failed kept why

namespace CatalogPair

variable (p : CatalogPair)

/-- What a call comes to: the store performs none of its requests, the first one alone, or both. -/
inductive Does (call : CatalogCall) (l : Link) : Except Failure Unit × Link → Prop
  | neither {l' : Link} {f : Failure} (kept : l'.store = l.store)
      (why : p.older.client.retry.fault? ≠ none ∨ l.Loses l' ∨
        ∃ refusal, l.store.perform 0 (p.older.request call) = .error refusal) :
      Does call l (.error f, l')
  | half {l' : Link} {f : Failure} {response : Response}
      (usable : p.older.client.retry.fault? = none)
      (older : l.store.perform 0 (p.older.request call) = .ok (l'.store, response))
      (why : p.newer.client.retry.fault? ≠ none ∨ l.Loses l' ∨
        ∃ refusal, l'.store.perform 0 (p.newer.request call) = .error refusal) :
      Does call l (verdict call f, l')
  | both {s : Store} {l' : Link} {response response' : Response}
      (older : l.store.perform 0 (p.older.request call) = .ok (s, response))
      (newer : s.perform 0 (p.newer.request call) = .ok (l'.store, response')) :
      Does call l (.ok (), l')

/-- **The requests of a call are performed once or not at all, the second one after the first.** -/
theorem operate_does (call : CatalogCall) (h : l.store.Lasting) :
    p.Does call l (l.perform (p.operate call)) := by
  have hfirst := p.older.operate_does call h
  have hleads := l.exec_leadsTo (p.older.operate call).run
  rw [perform_operate]
  change l.LeadsTo (l.perform (p.older.operate call)).2 at hleads
  generalize l.perform (p.older.operate call) = first at hfirst hleads ⊢
  cases hfirst with
  | failed kept why => exact .neither kept why
  | @done l' response usable older =>
    have hsecond := p.newer.operate_does call (h.perform (p.older.request_isLasting call) older)
    dsimp only
    generalize l'.perform (p.newer.operate call) = second at hsecond ⊢
    cases hsecond with
    | done _ newer => exact .both older newer
    | failed kept why =>
      rw [← kept] at older why
      refine .half usable older ?_
      rcases why with hfault | hloses | hrefused
      · exact .inl hfault
      · exact .inr (.inl (hleads.trans_loses hloses))
      · exact .inr (.inr hrefused)

theorem Does.lasting {p : CatalogPair} {res : Except Failure Unit × Link} (h : p.Does call l res)
    (hl : l.store.Lasting) : res.2.store.Lasting := by
  cases h with
  | neither kept => exact kept ▸ hl
  | half _ older => exact hl.perform (p.older.request_isLasting call) older
  | both older newer =>
    exact (hl.perform (p.older.request_isLasting call) older).perform
      (p.newer.request_isLasting call) newer

/-! ## One call after the other -/

/-- The link after some calls. -/
def run (calls : List CatalogCall) (l : Link) : Link :=
  calls.foldl (fun l call => (l.perform (p.operate call)).2) l

theorem run_append (calls calls' : List CatalogCall) (l : Link) :
    p.run (calls ++ calls') l = p.run calls' (p.run calls l) := List.foldl_append

theorem run_leadsTo (calls : List CatalogCall) (l : Link) : l.LeadsTo (p.run calls l) := by
  induction calls generalizing l with
  | nil => exact ⟨[], rfl⟩
  | cons call rest ih => exact (l.exec_leadsTo _).trans (ih _)

theorem run_lasting (calls : List CatalogCall) (h : l.store.Lasting) :
    (p.run calls l).store.Lasting := by
  induction calls generalizing l with
  | nil => exact h
  | cons call rest ih => exact ih ((p.operate_does call h).lasting h)

end CatalogPair

/-! ## Undisturbed calls -/

/-- The outcome of an undisturbed call to one catalog, and the store after it. -/
def Catalog.settle (c : Catalog) (call : CatalogCall) (s : Store) : Except Failure Unit × Store :=
  let sent := c.client.settle (verb call) (c.target call) (c.request call) s
  (concluded call sent.1, sent.2)

theorem Catalog.operate_calm (c : Catalog) (call : CatalogCall) (h : l.store.Lasting)
    (calm : l.IsCalm) : (l.perform (c.operate call)).1 = (c.settle call l.store).1 ∧
      (l.perform (c.operate call)).2.store = (c.settle call l.store).2 := by
  obtain ⟨hanswer, hstore⟩ :=
    c.client.request_calm (verb call) (c.target call) h (c.request_isLasting call) calm
  rw [perform_operate]
  exact ⟨congrArg (concluded call) hanswer, hstore⟩

section Usable

variable {c : Catalog} {s s' : Store} (usable : c.client.retry.fault? = none)

include usable

theorem Catalog.settle_of_ok {response : Response}
    (h : s.perform 0 (c.request call) = .ok (s', response)) : c.settle call s = (.ok (), s') := by
  rw [settle, Client.settle_of_ok _ _ usable h]
  rfl

theorem Catalog.settle_of_error {refusal : Refusal}
    (h : s.perform 0 (c.request call) = .error refusal) : ∃ n, c.settle call s =
      (.error (.context (doing call) (.request (verb call) (c.target call) n (.refused refusal))),
        s) := by
  obtain ⟨n, hsettle⟩ := Client.settle_of_error (verb call) (c.target call) usable h
  rw [settle, hsettle]
  exact ⟨n, rfl⟩

theorem Catalog.settle_unregister {name : String}
    (notRoot : Key.ofPath (c.currentPath name) ≠ .root)
    (hnone : s.contents.slots[Key.ofPath (c.currentPath name)]? = none) :
    ∃ f, c.settle (.unregister name) s = (.error f, s) ∧ f.IsNotFound := by
  have hrefused : s.perform 0 (c.request (.unregister name)) = _ :=
    Store.perform_delete_of_none 0 notRoot hnone
  obtain ⟨n, hsettle⟩ := settle_of_error usable hrefused
  exact ⟨_, hsettle, rfl⟩

end Usable

/-- The outcome of an undisturbed call to both catalogs, and the store after it. -/
def CatalogPair.settle (p : CatalogPair) (call : CatalogCall) (s : Store) :
    Except Failure Unit × Store :=
  let first := p.older.settle call s
  match first.1 with
  | .error f => (.error f, first.2)
  | .ok () =>
    let second := p.newer.settle call first.2
    (judged call second.1, second.2)

theorem CatalogPair.settle_of_error {p : CatalogPair} {s s' : Store} {f : Failure}
    (h : p.older.settle call s = (.error f, s')) : p.settle call s = (.error f, s') := by
  rw [settle, h]

theorem CatalogPair.settle_of_ok {p : CatalogPair} {s s' : Store}
    (h : p.older.settle call s = (.ok (), s')) : p.settle call s =
      (judged call (p.newer.settle call s').1, (p.newer.settle call s').2) := by
  rw [settle, h]

/-- **The outcome of an undisturbed call hangs on the store alone.** -/
theorem CatalogPair.operate_calm (p : CatalogPair) (call : CatalogCall) (h : l.store.Lasting)
    (calm : l.IsCalm) : (l.perform (p.operate call)).1 = (p.settle call l.store).1 ∧
      (l.perform (p.operate call)).2.store = (p.settle call l.store).2 := by
  obtain ⟨hfirst, hstore⟩ := p.older.operate_calm call h calm
  have hcalm := calm.perform (p.older.operate call)
  have hlasting : (l.perform (p.older.operate call)).2.store.Lasting := by
    have hdoes := p.older.operate_does call h
    generalize l.perform (p.older.operate call) = first at hdoes ⊢
    cases hdoes with
    | done _ performed => exact h.perform (p.older.request_isLasting call) performed
    | failed kept => exact kept ▸ h
  rw [perform_operate, settle]
  generalize l.perform (p.older.operate call) = first at hfirst hstore hcalm hlasting ⊢
  obtain ⟨outcome, l'⟩ := first
  dsimp only at hfirst hstore hcalm hlasting ⊢
  rw [← hfirst, ← hstore]
  cases outcome with
  | error f => exact ⟨rfl, rfl⟩
  | ok u =>
    obtain ⟨hsecond, hstore'⟩ := p.newer.operate_calm call hlasting hcalm
    exact ⟨congrArg (judged call) hsecond, hstore'⟩

end ClusterRegistry
