import ClusterRegistry.Scope
import ClusterRegistry.Proofs.Client.Attempts
import ClusterRegistry.Proofs.Client.Crowd
import ClusterRegistry.Proofs.Dogu.Answers
import ClusterRegistry.Proofs.Store.Course

/-!
# Two requests amid those of others

An operation that first asks whether a key exists cannot rely on it: between its requests others
change the store and lifetimes end. What it answers has to be true at some moment all the same.

* `Operation.Ends`, `Client.request_ends`: where an operation ends, at any server;
* `Client.Reads`, `Scope.get?_ends`, `StateMarker.remove_ends`: the operations that ask first;
* `Encounter`, `Bustle`, `Course.amid`: an operation with whatever others do between its requests;
* `Store.read_shown`, `Store.remove_shown`, `Bustle.reads`: what a single request is told;
* **`Course.amid_held`**: each answer held when one of the requests met the store.
-/

namespace ClusterRegistry

/-! ## Where an operation ends -/

theorem Program.run_of_next? {α σ : Type} {x : Program α} {r : Request}
    {next : Except RequestFailure Response → Program α} (h : x.next? = some (r, next))
    (serve : σ → Request → σ × Except RequestFailure Response) (s : σ) (t : Tally) :
    ∃ t', x.run serve s t = (next (serve s r).2).run serve (serve s r).1 t' := by
  induction x generalizing t with
  | done a => cases h
  | ask r' timeout next' ih =>
    cases h
    exact ⟨t, rfl⟩
  | sleep millis rest ih => exact ih h t
  | count c rest ih => exact ih h (t.add c)

section Ends

variable {σ α β : Type} {serve : σ → Request → σ × Except RequestFailure Response} {s s' s'' : σ}

/-- With this result and in this state the operation ends, whatever has been counted before. -/
def Operation.Ends (serve : σ → Request → σ × Except RequestFailure Response) (x : Operation α)
    (s : σ) (result : Except Failure α) (s' : σ) : Prop :=
  ∀ t, ∃ t', x.run.run serve s t = (result, s', t')

namespace Operation.Ends

variable {x : Operation α} {f : α → Operation β} {result : Except Failure α}

theorem pure (a : α) : (pure a : Operation α).Ends serve s (.ok a) s := fun t => ⟨t, rfl⟩

theorem throw (e : Failure) : (throw e : Operation α).Ends serve s (.error e) s :=
  fun t => ⟨t, rfl⟩

theorem onward {γ : Type} (hx : x.Ends serve s result s') (g : Except Failure α → Program γ)
    (t : Tally) : ∃ t', (x.run.bind g).run serve s t = (g result).run serve s' t' := by
  obtain ⟨t', hrun⟩ := hx t
  exact ⟨t', by rw [Program.run_bind, hrun]⟩

theorem run_bind {a : α} (hx : x.Ends serve s (.ok a) s') (t : Tally) :
    ∃ t', (x >>= f).run.run serve s t = (f a).run.run serve s' t' :=
  hx.onward (ExceptT.bindCont f) t

theorem bind {a : α} {result : Except Failure β} (hx : x.Ends serve s (.ok a) s')
    (hf : (f a).Ends serve s' result s'') : (x >>= f).Ends serve s result s'' := by
  intro t
  obtain ⟨t', hbind⟩ := hx.run_bind t
  obtain ⟨t'', hrun⟩ := hf t'
  exact ⟨t'', hbind.trans hrun⟩

theorem bind_error {e : Failure} (hx : x.Ends serve s (.error e) s') :
    (x >>= f).Ends serve s (.error e) s' := hx.onward (ExceptT.bindCont f)

theorem during (hx : x.Ends serve s result s') (doing : String) :
    (Operation.during doing x).Ends serve s (result.mapError (.context doing)) s' := by
  cases result <;> exact hx.onward _

theorem outcome (hx : x.Ends serve s result s') : x.outcome.Ends serve s (.ok result) s' :=
  hx.onward _

end Operation.Ends

namespace Client

variable (c : Client) (operation path : String) {r : Request}

theorem request_ends (usable : c.retry.fault? = none) (final : IsFinal (serve s r).2) :
    (c.request operation path r).Ends serve s (conclusion operation path 1 (serve s r).2)
      (serve s r).1 := by
  intro t
  rw [request, ExceptT.run_mk, RetryPolicy.delays_of_usable usable]
  generalize (List.range c.retry.maxRetryCount.toNat).map c.retry.delay = waits
  cases hanswer : (serve s r).2 with
  | ok response => cases waits <;> simp only [attempts, Program.run, hanswer] <;> exact ⟨_, rfl⟩
  | error cause =>
    have hkind := final cause hanswer
    cases waits <;> simp only [attempts, Program.run, hanswer, hkind, if_true] <;> exact ⟨_, rfl⟩

theorem request_ends_of_fault {reason : String} (h : c.retry.fault? = some reason) :
    (c.request operation path r).Ends serve s (.error (.retryPolicy reason)) s := by
  intro t
  rw [request, ExceptT.run_mk, RetryPolicy.delays_of_fault h]
  exact ⟨t, rfl⟩

/-- A read of a path shows a value, or says that there is nothing to read. -/
inductive Reads (serve : σ → Request → σ × Except RequestFailure Response) (s : σ) (path : String) :
    Option String → Prop
  | shown {response : Response} (answered : (serve s (.get path {})).2 = .ok response) :
    Reads serve s path (some response.node.valueText)
  | absent {cause : RequestFailure} (failed : (serve s (.get path {})).2 = .error cause)
    (notFound : cause.kind = .notFound) : Reads serve s path none

variable {c path} {found : Option String}

theorem Reads.isFinal (h : Reads serve s path found) : IsFinal (serve s (.get path {})).2 := by
  intro cause hcause
  cases h with
  | shown answered =>
    rw [answered] at hcause
    cases hcause
  | absent failed notFound =>
    rw [failed] at hcause
    exact Except.error.inj hcause ▸ notFound

theorem exists?_ends (usable : c.retry.fault? = none) (h : Reads serve s path found) :
    (c.exists? path).Ends serve s (.ok found.isSome) (serve s (.get path {})).1 := by
  have hsent := (c.request_ends "exists" path usable h.isFinal).outcome
  cases h with
  | shown answered =>
    rw [answered] at hsent
    exact hsent.bind (.pure true)
  | @absent cause failed notFound =>
    rw [failed] at hsent
    refine hsent.bind ?_
    dsimp only [conclusion]
    rw [if_pos (show (Failure.request "exists" path 1 cause).IsNotFound from notFound)]
    exact .pure false

theorem exists?_ends_of_fault {reason : String} (h : c.retry.fault? = some reason) :
    (c.exists? path).Ends serve s (.error (.retryPolicy reason)) s := by
  have hrefused : (c.request "exists" path (.get path {})).Ends serve s
      (.error (.retryPolicy reason)) s := c.request_ends_of_fault "exists" path h
  refine hrefused.outcome.bind ?_
  dsimp only
  rw [if_neg (show ¬ (Failure.retryPolicy reason).IsNotFound from FailureKind.noConfusion)]
  exact .throw _

theorem get_ends (usable : c.retry.fault? = none) (h : Reads serve s path found) :
    ∃ result, (c.get path).Ends serve s result (serve s (.get path {})).1 ∧
      match found with
      | some value => result = .ok value
      | none => ∃ f : Failure, result = .error f ∧ f.IsNotFound := by
  have hsent := c.request_ends "get" path usable h.isFinal
  cases h with
  | shown answered =>
    rw [answered] at hsent
    exact ⟨_, hsent.bind (.pure _), rfl⟩
  | absent failed notFound =>
    rw [failed] at hsent
    exact ⟨_, hsent.bind_error, _, rfl, notFound⟩

theorem delete_ends (usable : c.retry.fault? = none) (h : IsFinal (serve s (.delete path {})).2) :
    ∃ result, (c.delete path).Ends serve s result (serve s (.delete path {})).1 ∧
      ∀ f, result = .error f → f.IsNotFound := by
  have hsent := c.request_ends "delete" path usable h
  cases hanswer : (serve s (.delete path {})).2 with
  | ok response =>
    rw [hanswer] at hsent
    exact ⟨_, hsent.bind (.pure ()), fun f hf => nomatch hf⟩
  | error cause =>
    rw [hanswer] at hsent
    refine ⟨_, hsent.bind_error, fun f hf => ?_⟩
    obtain rfl := Except.error.inj hf
    exact h cause hanswer

end Client

/-! ## Asking first -/

open Client

theorem Scope.get?_ends (sc : Scope) (key : String) (usable : sc.client.retry.fault? = none)
    {first second : Option String} (hfirst : Reads serve s (sc.path key) first)
    (hsecond : Reads serve (serve s (.get (sc.path key) {})).1 (sc.path key) second) :
    match first with
    | none => (sc.get? key).Ends serve s (.ok none) (serve s (.get (sc.path key) {})).1
    | some _ => (sc.get? key).Ends serve s (.ok second)
        (serve (serve s (.get (sc.path key) {})).1 (.get (sc.path key) {})).1 := by
  have hasked := (exists?_ends usable hfirst).during
    s!"could not check existence of {sc.path key}"
  cases first with
  | none => exact hasked.bind (.pure none)
  | some value =>
    refine hasked.bind ?_
    obtain ⟨result, hread, hresult⟩ := get_ends usable hsecond
    have hread := (hread.during s!"could not get value of {sc.path key}").outcome
    cases second with
    | some value' =>
      obtain rfl := hresult
      exact hread.bind (.pure (some value'))
    | none =>
      obtain ⟨f, rfl, hkind⟩ := hresult
      refine hread.bind ?_
      dsimp only [Except.mapError]
      rw [if_pos (show (Failure.context _ f).IsNotFound from hkind)]
      exact .pure none

theorem StateMarker.remove_ends (m : StateMarker) (usable : m.client.retry.fault? = none)
    {first : Option String} (hfirst : Reads serve s m.path first)
    (hsecond : first.isSome → IsFinal (serve (serve s (.get m.path {})).1 (.delete m.path {})).2) :
    match first with
    | none => m.remove.Ends serve s (.ok ()) (serve s (.get m.path {})).1
    | some _ => m.remove.Ends serve s (.ok ())
        (serve (serve s (.get m.path {})).1 (.delete m.path {})).1 := by
  have hasked := exists?_ends usable hfirst
  cases first with
  | none => exact hasked.bind (.pure ())
  | some value =>
    refine hasked.bind ?_
    obtain ⟨result, hdelete, hresult⟩ := delete_ends usable (hsecond rfl)
    cases result with
    | ok u => exact hdelete.outcome.bind (.pure ())
    | error f =>
      refine hdelete.outcome.bind ?_
      dsimp only
      rw [if_pos (hresult f rfl)]
      exact .pure ()

theorem Scope.get?_ends_of_fault (sc : Scope) (key : String) {reason : String}
    (h : sc.client.retry.fault? = some reason) :
    ∃ f, (sc.get? key).Ends serve s (.error f) s :=
  ⟨_, ((exists?_ends_of_fault h).during _).bind_error⟩

theorem StateMarker.remove_ends_of_fault (m : StateMarker) {reason : String}
    (h : m.client.retry.fault? = some reason) : ∃ f, m.remove.Ends serve s (.error f) s :=
  ⟨_, (exists?_ends_of_fault h).bind_error⟩

end Ends

/-! ## What a single request is told -/

namespace Store

variable {s : Store} {path : String}

/-- A directory stands at a key. The root always is one. -/
def IsDirectory (s : Store) (key : Key) : Prop :=
  key = .root ∨ ∃ e, s.contents[key]? = some e ∧ e.dir = true

instance (s : Store) (key : Key) : Decidable (s.IsDirectory key) :=
  decidable_of_iff (key = .root ∨ s.contents[key]?.any (·.dir)) <|
    or_congr_right (Option.any_eq_true _ _)

theorem shown?_eq_none {key : Key} :
    s.shown? key = none ↔ key ≠ .root ∧ s.contents[key]? = none := by
  unfold shown?
  split_ifs with hroot
  · exact iff_of_false (fun h => nomatch h) fun h => h.1 hroot
  · exact Option.map_eq_none_iff.trans (and_iff_right hroot).symm

theorem read_shown (s : Store) (now : Nat) (path : String) (options : GetOptions) :
    match s.shown? (.ofPath path) with
    | some value => ∃ response, s.read now path options = .ok response ∧
        response.node.valueText = value
    | none => ∃ refusal, s.read now path options = .error refusal ∧ refusal.kind = .notFound := by
  have hgist := s.read_gist now path options
  have hshown := s.gist_unindexed path
  rw [← hgist] at hshown
  cases hread : s.read now path options with
  | error refusal =>
    rw [hread] at hgist hshown
    cases hvalue : s.shown? (.ofPath path) with
    | none => exact ⟨refusal, rfl, kind_of_gist hgist.symm⟩
    | some value =>
      rw [hvalue] at hshown
      cases hshown
  | ok response =>
    rw [hread] at hshown
    cases hvalue : s.shown? (.ofPath path) with
    | none =>
      rw [hvalue] at hshown
      cases hshown
    | some value =>
      rw [hvalue] at hshown
      exact ⟨response, rfl, Except.ok.inj hshown⟩

theorem remove_shown (now : Nat) (options : DeleteOptions) (file : ¬ s.IsDirectory (.ofPath path)) :
    (∃ s' response, s.remove now path options = .ok (s', response) ∧
        s'.shown? (.ofPath path) = none) ∨
      s.shown? (.ofPath path) = none ∧
        ∃ refusal, s.remove now path options = .error refusal ∧ refusal.kind = .notFound := by
  obtain ⟨hroot, hfile⟩ := not_or.mp file
  unfold remove
  dsimp only
  rw [if_neg hroot]
  cases hlook : s.contents[Key.ofPath path]? with
  | none => exact .inr ⟨shown?_eq_none.mpr ⟨hroot, hlook⟩, _, rfl, rfl⟩
  | some e =>
    have hdir : ¬ e.dir = true := fun hdir => hfile ⟨e, hlook, hdir⟩
    refine .inl ?_
    dsimp only
    rw [if_neg fun h => hdir h.1, if_neg fun h => hdir h.1]
    refine ⟨_, _, rfl, shown?_eq_none.mpr ⟨hroot, ?_⟩⟩
    change (s.drop now .delete _ e).1.contents[_]? = none
    rw [drop_contents, Contents.lookup_prune, if_pos (.refl _)]

end Store

/-! ## Among others -/

/-- A request, and the store as it was when the request came and after it had been answered. -/
structure Encounter where
  request : Request
  met : Store
  left : Store

/-- A store that others use as well, with what they do before each of the next requests, and the
requests of an operation so far. -/
structure Bustle where
  course : Course
  interludes : List (List Step)
  encounters : List Encounter := []

namespace Bustle

/-- The course of the store up to the next request. -/
def reached (b : Bustle) : Course := (b.interludes.headD []).foldl Course.step b.course

/-- The store that the next request meets. What has expired is gone. -/
def met (b : Bustle) : Store := b.reached.store.expire b.reached.now

/-- The next request meets the store. -/
def meeting (b : Bustle) (r : Request) : Encounter :=
  ⟨r, b.met, (b.reached.step (.request r)).store⟩

/-- Others go first, then the request is served. -/
def serve (b : Bustle) (r : Request) : Bustle × Except RequestFailure Response :=
  ({ course := b.reached.step (.request r)
     interludes := b.interludes.tail
     encounters := b.encounters ++ [b.meeting r] },
    (b.reached.store.serve b.reached.now r).2.mapError .refused)

variable {b : Bustle} {path : String}

theorem reads (b : Bustle) (path : String) :
    Client.Reads serve b path (b.met.shown? (.ofPath path)) := by
  have hanswer : (b.serve (.get path {})).2 =
      (b.met.read b.reached.now path {}).mapError .refused := by
    rw [serve, Store.serve_get]
    rfl
  have hread := b.met.read_shown b.reached.now path {}
  cases hvalue : b.met.shown? (.ofPath path) with
  | none =>
    rw [hvalue] at hread
    obtain ⟨refusal, hrefusal, hkind⟩ := hread
    rw [hrefusal] at hanswer
    exact .absent hanswer hkind
  | some value =>
    rw [hvalue] at hread
    obtain ⟨response, hresponse, rfl⟩ := hread
    rw [hresponse] at hanswer
    exact .shown hanswer

theorem deletes (file : ¬ b.met.IsDirectory (.ofPath path)) :
    Client.IsFinal (b.serve (.delete path {})).2 ∧
      (b.met.shown? (.ofPath path) = none ∨
        (b.meeting (.delete path {})).left.shown? (.ofPath path) = none) := by
  rcases Store.remove_shown b.reached.now {} file with
    ⟨s', response, hremove, hgone⟩ | ⟨habsent, refusal, hremove, hkind⟩
  · have hserve : b.reached.store.serve b.reached.now (.delete path {}) = (s', .ok response) :=
      Store.serve_of_ok hremove
    have hstore : (b.meeting (.delete path {})).left = s' := by
      rw [meeting, Course.step, hserve]
    rw [serve, hserve, hstore]
    refine ⟨fun cause hcause => ?_, .inr hgone⟩
    cases hcause
  · have hserve : b.reached.store.serve b.reached.now (.delete path {}) = _ :=
      Store.serve_of_error hremove
    rw [serve, hserve]
    refine ⟨fun cause hcause => ?_, .inl habsent⟩
    obtain rfl := Except.error.inj hcause
    exact hkind

theorem encounters_run {α : Type} (x : Program α) (b : Bustle) (t : Tally) :
    b.encounters <+: (x.run serve b t).2.1.encounters := by
  induction x generalizing b t with
  | done a => exact List.prefix_rfl
  | ask r timeout next ih => exact .trans (List.prefix_append _ _) (ih _ (b.serve r).1 t)
  | sleep millis next ih => exact ih b t
  | count c next ih => exact ih b (t.add c)

theorem meeting_mem {α : Type} {x : Operation α} {r : Request} {onward : Response → Operation α}
    (h : x.Sends r onward) (b : Bustle) (t : Tally) :
    b.meeting r ∈ (x.run.run serve b t).2.1.encounters := by
  obtain ⟨next, hnext, -⟩ := h
  obtain ⟨t', hrun⟩ := Program.run_of_next? hnext serve b t
  rw [hrun]
  exact (encounters_run _ (b.serve r).1 t').subset (List.mem_append_right _ List.mem_cons_self)

end Bustle

/-! ## What the operations answer -/

namespace Course

/-- The result of an operation and its requests, when others do these things before each of them. -/
def amid {α : Type} (c : Course) (interludes : List (List Step)) (x : Operation α) :
    Except Failure α × List Encounter :=
  let (result, b, _) := x.run.run Bustle.serve { course := c, interludes := interludes } []
  (result, b.encounters)

variable {c : Course} {interludes : List (List Step)}

theorem amid_of_ends {α : Type} {x : Operation α} {result : Except Failure α} {b : Bustle}
    (h : x.Ends Bustle.serve ⟨c, interludes, []⟩ result b) :
    c.amid interludes x = (result, b.encounters) := by
  obtain ⟨t, hrun⟩ := h []
  rw [amid, hrun]

theorem meeting_mem_amid {α β : Type} {x : Operation α} {f : α → Operation β} {a : α} {b : Bustle}
    {r : Request} {onward : Response → Operation β}
    (hx : x.Ends Bustle.serve ⟨c, interludes, []⟩ (.ok a) b) (hf : (f a).Sends r onward) :
    b.meeting r ∈ (c.amid interludes (x >>= f)).2 := by
  obtain ⟨t, hbind⟩ := hx.run_bind (f := f) []
  rw [amid, hbind]
  exact b.meeting_mem hf t

theorem amid_get? (c : Course) (interludes : List (List Step)) (sc : Scope) (name : String)
    (usable : sc.client.retry.fault? = none) :
    let key := Key.ofPath (sc.path name)
    ∃ first : Encounter, first.request = .get (sc.path name) {} ∧
      (first.met.shown? key = none ∧ c.amid interludes (sc.get? name) = (.ok none, [first]) ∨
        ∃ second : Encounter, second.request = .get (sc.path name) {} ∧
          c.amid interludes (sc.get? name) = (.ok (second.met.shown? key), [first, second])) := by
  intro key
  let r : Request := .get (sc.path name) {}
  let b : Bustle := ⟨c, interludes, []⟩
  let b' : Bustle := (b.serve r).1
  have hfirst := b.reads (sc.path name)
  have hsecond := b'.reads (sc.path name)
  refine ⟨b.meeting r, rfl, ?_⟩
  cases hmet : b.met.shown? (.ofPath (sc.path name)) with
  | none =>
    rw [hmet] at hfirst
    exact .inl ⟨hmet, amid_of_ends (sc.get?_ends name usable hfirst hsecond)⟩
  | some value =>
    rw [hmet] at hfirst
    exact .inr ⟨b'.meeting r, rfl, amid_of_ends (sc.get?_ends name usable hfirst hsecond)⟩

/-- A removal has ended with its first request. Otherwise there is a second one, and unless that
meets a directory, it is the last one and the key is absent before or after it. -/
theorem amid_remove (c : Course) (interludes : List (List Step)) (m : StateMarker)
    (usable : m.client.retry.fault? = none) :
    let key := Key.ofPath m.path
    let run := c.amid interludes m.remove
    ∃ first : Encounter, first.met.shown? key = none ∧ run = (.ok (), [first]) ∨
      ∃ second ∈ run.2, ¬ second.met.IsDirectory key → run = (.ok (), [first, second]) ∧
        (second.met.shown? key = none ∨ second.left.shown? key = none) := by
  intro key run
  let b : Bustle := ⟨c, interludes, []⟩
  let b' : Bustle := (b.serve (.get m.path {})).1
  have hread := b.reads m.path
  refine ⟨b.meeting (.get m.path {}), ?_⟩
  cases hmet : b.met.shown? (.ofPath m.path) with
  | none =>
    rw [hmet] at hread
    exact .inl ⟨hmet, amid_of_ends (m.remove_ends usable hread fun h => nomatch h)⟩
  | some value =>
    rw [hmet] at hread
    have hsends := ((m.client.request_sends usable "delete" m.path (.delete m.path {})).bind
      fun _ => (pure () : Operation Unit)).outcome
    have hmem : b'.meeting (.delete m.path {}) ∈ run.2 :=
      meeting_mem_amid (Client.exists?_ends usable hread) (hsends.bind _)
    refine .inr ⟨_, hmem, fun file => ?_⟩
    obtain ⟨hfinal, hgone⟩ := b'.deletes file
    exact ⟨amid_of_ends (m.remove_ends usable hread fun _ => hfinal), hgone⟩

/-- **What an operation answers that asks first was true when one of its requests met the store,
whatever others do before each of them.** A search fails only if the policy of its client is refused
before anything is sent. A value is what its second read found, that of a file or nothing for a
directory, and a key that it does not find was absent at one of its reads. So it is with a removal
that never meets a directory: the key was absent when one of its requests came, or is gone after
it. -/
theorem amid_held (c : Course) (interludes : List (List Step)) (sc : Scope) (name : String)
    (m : StateMarker) :
    let key := Key.ofPath (sc.path name)
    let found := c.amid interludes (sc.get? name)
    let state := Key.ofPath m.path
    let removed := c.amid interludes m.remove
    (((∃ f, found.1 = .error f) ↔ sc.client.retry.fault? ≠ none) ∧
      (∀ e ∈ found.2, e.request = .get (sc.path name) {}) ∧
      (∀ v, found.1 = .ok (some v) →
        ∃ first second, found.2 = [first, second] ∧ second.met.shown? key = some v) ∧
      (found.1 = .ok none → ∃ e ∈ found.2, e.met.shown? key = none)) ∧
    ((∀ e ∈ removed.2, ¬ e.met.IsDirectory state) →
      ((∃ f, removed.1 = .error f) ↔ m.client.retry.fault? ≠ none) ∧
      (removed.1 = .ok () →
        ∃ e ∈ removed.2, e.met.shown? state = none ∨ e.left.shown? state = none)) := by
  intro key found state removed
  refine ⟨?_, fun hfile => ?_⟩
  · cases hfault : sc.client.retry.fault? with
    | some reason =>
      obtain ⟨f, hends⟩ := sc.get?_ends_of_fault name hfault
      rw [show found = (.error f, []) from amid_of_ends hends]
      simp
    | none =>
      obtain ⟨first, hfirst, ⟨habsent, hfound⟩ | ⟨second, hsecond, hfound⟩⟩ :=
        c.amid_get? interludes sc name hfault
      · rw [show found = _ from hfound]
        simp [hfirst, habsent, key]
      · rw [show found = _ from hfound]
        refine ⟨by simp, by simp [hfirst, hsecond], by simp [key], fun hnone => ?_⟩
        exact ⟨second, by simp, Except.ok.inj hnone⟩
  · cases hfault : m.client.retry.fault? with
    | some reason =>
      obtain ⟨f, hends⟩ := m.remove_ends_of_fault hfault
      rw [show removed = (.error f, []) from amid_of_ends hends]
      simp
    | none =>
      obtain ⟨first, ⟨habsent, hremoved⟩ | ⟨second, hmem, hlast⟩⟩ :=
        c.amid_remove interludes m hfault
      · rw [show removed = _ from hremoved]
        simp [habsent, state]
      · obtain ⟨hremoved, hgone⟩ := hlast (hfile second hmem)
        rw [show removed = _ from hremoved]
        simp [hgone, state]

/-- Both keys go between the two requests, one by a removal and one because its lifetime ends. -/
theorem amid_held_between :
    let client : Client := ⟨{}, 1000, 16⟩
    let sc : Scope := ⟨client, "/config"⟩
    let m : StateMarker := ⟨client, "/state/x"⟩
    let c := run [.request (.set "/config/a" "v" {}),
      .request (.set "/state/x" "ready" { lifetime := some 1000 })]
    let interludes : List (List Step) := [[], [.request (.delete "/config/a" {}), .pass 1000]]
    (∃ e ∈ (c.amid interludes (sc.get? "a")).2, e.met.shown? (.ofPath (sc.path "a")) = none) ∧
      (∀ e ∈ (c.amid interludes m.remove).2, ¬ e.met.IsDirectory (.ofPath m.path)) ∧
      ∃ e ∈ (c.amid interludes m.remove).2, e.met.shown? (.ofPath m.path) = none ∨
        e.left.shown? (.ofPath m.path) = none := by
  intro client sc m c interludes
  have hfile : ∀ e ∈ (c.amid interludes m.remove).2, ¬ e.met.IsDirectory (.ofPath m.path) := by
    decide +kernel
  have hanswer : (c.amid interludes (sc.get? "a")).1 = .ok none := by decide +kernel
  have hdone : (c.amid interludes m.remove).1 = .ok () := by decide +kernel
  obtain ⟨⟨-, -, -, hfound⟩, hremoved⟩ := c.amid_held interludes sc "a" m
  exact ⟨hfound hanswer, hfile, (hremoved hfile).2 hdone⟩

end Course

end ClusterRegistry
