import ClusterRegistry.Proofs.Client.Attempts
import ClusterRegistry.Proofs.Dogu.Look
import ClusterRegistry.Proofs.Dogu.Repetition

/-!
# Undisturbed answers

An operation that only looks, and that nothing disturbs, answers what is in the store at the time.
All that counts is what is read at single keys.

* `Store.shown?`, `Store.gist_unindexed`: what is read at a key;
* `Store.answers`, `Link.exec_expire`: what an operation answers, whatever has expired;
* `Client.answers_get`, `Client.answers_exists`: a value, and whether there is one;
* `Catalog.answers_isEnabled`, **`Catalog.answers_find`**: pointers and searches.
-/

namespace ClusterRegistry

/-! ## What is read at a key -/

namespace Store

/-- What is read at a key: the value of a file, an empty text at a directory. -/
def shown? (s : Store) (key : Key) : Option String :=
  if key = .root then some ""
  else s.contents[key]?.map fun e => if e.dir then "" else e.value

variable {s : Store} {path : String}

theorem gist_unindexed (s : Store) (path : String) :
    ((s.gist path).map Prod.fst).mapError Refusal.unindexed = match s.shown? (.ofPath path) with
      | some value => .ok value
      | none => .error (.ofCode Refusal.keyNotFound (Key.ofPath path).text 0) := by
  unfold gist shown?
  dsimp only
  split_ifs with hroot
  · rfl
  · cases s.contents[Key.ofPath path]? with
    | none => rfl
    | some e =>
      dsimp only [Option.map_some]
      split <;> rfl

end Store

/-! ## Undisturbed answers -/

namespace Link

variable {α : Type}

theorem exec_expire (s : Store) (now : Nat) (x : Program α) :
    ((⟨s.expire now, now, []⟩ : Link).exec x).1 = ((⟨s, now, []⟩ : Link).exec x).1 := by
  induction x with
  | done a => rfl
  | ask r timeout next ih =>
    have hserve : (⟨s.expire now, now, []⟩ : Link).serve r = (⟨s, now, []⟩ : Link).serve r := by
      have hstore : (s.expire now).serve now r = s.serve now r := by
        unfold Store.serve
        rw [Store.expire_expire]
      exact congrArg (fun x : Store × Except Refusal Response =>
        ((⟨x.1, now, []⟩ : Link), x.2.mapError RequestFailure.refused)) hstore
    rw [exec_ask, exec_ask, hserve]
  | sleep millis next ih => exact ih
  | count c next ih => rw [exec_count, exec_count, ih]

theorem isStill_expire (s : Store) (now : Nat) : (⟨s.expire now, now, []⟩ : Link).IsStill :=
  fun _ _ he => Store.not_isDue_of_expire he

theorem isCalm_nil (s : Store) (now : Nat) : (⟨s, now, []⟩ : Link).IsCalm :=
  fun _ h => absurd h List.not_mem_nil

end Link

/-- What an operation answers that nothing disturbs. Failures quote the index of the store, which
does not count here. -/
@[irreducible] def Store.answers {α : Type} (s : Store) (now : Nat) (x : Operation α) :
    Except Failure α :=
  ((⟨s, now, []⟩ : Link).perform x).1.mapError Failure.unindexed

theorem Store.answers_during {α : Type} (s : Store) (now : Nat) (doing : String)
    (x : Operation α) :
    s.answers now (Operation.during doing x) = (s.answers now x).mapError (.context doing) := by
  rw [answers, Link.perform_during, answers]
  cases ((⟨s, now, []⟩ : Link).perform x).1 <;> rfl

namespace Client

variable (c : Client) (operation path : String)

/-- The failure of a look at a path where nothing is. -/
def missing : Failure :=
  .request operation path 1 (.refused (.ofCode Refusal.keyNotFound (Key.ofPath path).text 0))

theorem lookIn_unindexed (usable : c.retry.fault? = none) (s : Store) :
    ((c.lookIn operation path s).map Prod.fst).mapError Failure.unindexed =
      match s.shown? (.ofPath path) with
      | some value => .ok value
      | none => .error (missing operation path) := by
  have hgist := s.gist_unindexed path
  rw [lookIn, delays_eq, usable]
  dsimp only
  cases hlook : s.gist path with
  | ok g =>
    rw [hlook] at hgist
    cases hshown : s.shown? (.ofPath path) with
    | none =>
      rw [hshown] at hgist
      cases hgist
    | some value =>
      rw [hshown] at hgist
      obtain rfl := Except.ok.inj hgist
      rfl
  | error refusal =>
    rw [hlook] at hgist
    cases hshown : s.shown? (.ofPath path) with
    | some value =>
      rw [hshown] at hgist
      cases hgist
    | none =>
      rw [hshown] at hgist
      have hrefusal := Except.error.inj hgist
      exact congrArg (fun refusal => Except.error
        (Failure.request operation path 1 (.refused refusal))) hrefusal

variable {c operation path} in
theorem usable_of_ok {σ : Type} {serve : σ → Request → σ × Except RequestFailure Response} {s : σ}
    {t : Tally} {r : Request} {response : Response}
    (h : ((c.request operation path r).run.run serve s t).1 = .ok response) :
    c.retry.fault? = none := by
  cases hfault : c.retry.fault? with
  | none => rfl
  | some reason =>
    rw [request, ExceptT.run_mk, RetryPolicy.delays_of_fault hfault] at h
    cases h

theorem perform_exists (l : Link) : l.perform (c.exists? path) =
    let sent := l.perform (c.request "exists" path (.get path {}))
    (orAbsent false (fun _ => true) id sent.1, sent.2) := by
  rw [exists?, Link.perform_bind, Link.perform_outcome]
  dsimp only
  cases (l.perform (c.request "exists" path (.get path {}))).1 with
  | ok response => rfl
  | error f =>
    dsimp only [orAbsent]
    split <;> rfl

variable {c} (usable : c.retry.fault? = none) (s : Store) (now : Nat)
include usable

theorem getIn_unindexed : (c.getIn path s).mapError Failure.unindexed =
    match s.shown? (.ofPath path) with
    | some value => .ok value
    | none => .error (missing "get" path) := by
  rw [getIn_eq, c.lookIn_unindexed "get" path usable]

theorem getIn_cases :
    (∃ value, c.getIn path s = .ok value ∧ s.shown? (.ofPath path) = some value) ∨
      ∃ f, c.getIn path s = .error f ∧ f.unindexed = missing "get" path ∧
        s.shown? (.ofPath path) = none := by
  have h := getIn_unindexed path usable s
  cases hget : c.getIn path s with
  | ok value =>
    cases hshown : s.shown? (.ofPath path) with
    | none =>
      rw [hget, hshown] at h
      cases h
    | some value' =>
      rw [hget, hshown] at h
      obtain rfl := Except.ok.inj h
      exact .inl ⟨value, rfl, rfl⟩
  | error f =>
    cases hshown : s.shown? (.ofPath path) with
    | none =>
      rw [hget, hshown] at h
      exact .inr ⟨f, rfl, Except.error.inj h, rfl⟩
    | some value =>
      rw [hget, hshown] at h
      cases h

theorem answers_get : s.answers now (c.get path) =
    match (s.expire now).shown? (.ofPath path) with
    | some value => .ok value
    | none => .error (missing "get" path) := by
  rw [← getIn_unindexed path usable, Store.answers, Link.perform, ← Link.exec_expire]
  exact congrArg (Except.mapError Failure.unindexed)
    ((c.get_finds path (Link.isStill_expire s now)).calm (Link.isCalm_nil _ now))

theorem answers_exists : s.answers now (c.exists? path) =
    .ok ((s.expire now).shown? (.ofPath path)).isSome := by
  have hfound := (c.request_finds "exists" path {} (Link.isStill_expire s now)).calm
    (Link.isCalm_nil _ now)
  have hshown := c.lookIn_unindexed "exists" path usable (s.expire now)
  dsimp only at hfound
  rw [← hfound] at hshown
  rw [Store.answers, Link.perform, ← Link.exec_expire, ← Link.perform, perform_exists]
  dsimp only
  generalize (Link.perform _ (c.request "exists" path (.get path {}))).1 = sent at hshown ⊢
  cases sent with
  | ok response =>
    cases hvalue : (s.expire now).shown? (.ofPath path) with
    | some value => rfl
    | none =>
      rw [hvalue] at hshown
      cases hshown
  | error f =>
    cases hvalue : (s.expire now).shown? (.ofPath path) with
    | some value =>
      rw [hvalue] at hshown
      cases hshown
    | none =>
      rw [hvalue] at hshown
      have hmissing : f.IsNotFound := by
        rw [Failure.IsNotFound, ← f.kind_unindexed, Except.error.inj hshown]
        rfl
      rw [orAbsent, if_pos hmissing]
      rfl

end Client

namespace Catalog

variable {c : Catalog} (usable : c.client.retry.fault? = none) (s : Store) (now : Nat)
  (name : String)
include usable

theorem answers_isEnabled : s.answers now (c.isEnabled name) =
    .ok ((s.expire now).shown? (.ofPath (c.currentPath name))).isSome := by
  rw [isEnabled, Store.answers_during, Client.answers_exists _ usable]
  rfl

theorem answers_find : s.answers now (c.find name) =
    match (s.expire now).shown? (.ofPath (c.currentPath name)) with
    | none => .error (.context s!"failed to read current version of dogu {name}"
        (Client.missing "get" (c.currentPath name)))
    | some version =>
      match (s.expire now).shown? (.ofPath (c.versionPath name version)) with
      | none => .error (.context s!"failed to read dogu {name} {version}"
          (Client.missing "get" (c.versionPath name version)))
      | some raw => (Dogu.readFirst c.readers raw).mapError .format := by
  have hfound := (c.find_finds name (Link.isStill_expire s now)).calm (Link.isCalm_nil _ now)
  rw [Store.answers, Link.perform, ← Link.exec_expire, ← Link.perform, hfound, findIn]
  rcases Client.getIn_cases (c.currentPath name) usable (s.expire now) with
    ⟨version, hcurrent, hversion⟩ | ⟨f, hcurrent, hf, hnone⟩
  · rw [hcurrent, hversion]
    dsimp only
    rcases Client.getIn_cases (c.versionPath name version) usable (s.expire now) with
      ⟨raw, hbody, hraw⟩ | ⟨f, hbody, hf, hnone⟩
    · rw [hbody, hraw]
      dsimp only
      cases Dogu.readFirst c.readers raw <;> rfl
    · rw [hbody, hnone, ← hf]
      rfl
  · rw [hcurrent, hnone, ← hf]
    rfl

end Catalog

end ClusterRegistry
