import ClusterRegistry.Proofs.Dogu.Reading

/-!
# Looks at a store that stands still

Whoever only looks finds what is in the store, as long as no lifetime in it ends meanwhile. Lost
requests may end a look with a failure, but never with another answer.

* `Link.IsStill`: nothing falls due before the requests have passed;
* `Response.gist`: what an answer says at any time;
* `Link.Finds`: what is there is found, or a request was lost;
* **`Client.request_finds`**, `Client.get_finds`, **`Catalog.find_finds`**: what a look finds;
* `Client.childrenIn`, `Client.children_finds`, **`Client.childrenIn_eq`**: what a listing shows.
-/

namespace ClusterRegistry

/-- How long passages take, one after the other. -/
def Passage.span (passages : List Passage) : Nat :=
  passages.foldr (fun passage millis => passage.pause + millis) 0

namespace Link

/-- No lifetime ends before the passages are over. -/
def IsStill (l : Link) : Prop := ∀ (k : Key) (e : Entry), l.store.contents[k]? = some e →
  ¬ e.IsDue (l.now + Passage.span l.passages)

instance (l : Link) : Decidable l.IsStill :=
  decidable_of_iff
    (∀ p ∈ l.store.contents.toList, ¬ p.2.IsDue (l.now + Passage.span l.passages)) <| by
    constructor
    · exact fun h k e he => h (k, e) (Contents.mem_toList.mpr he)
    · exact fun h p hp => h p.1 p.2 (Contents.mem_toList.mp hp)

/-- A look changes nothing and finds what it should, or fails because a request was lost. -/
structure Finds {ε α : Type} (l : Link) (expected : Except ε α) (res : Except ε α × Link) :
    Prop where
  kept : res.2.store = l.store
  still : res.2.IsStill
  found : res.1 = expected ∨ l.Loses res.2 ∧ ∃ f, res.1 = .error f

variable {ε α β : Type} {l l' : Link} {expected : Except ε α} {res : Except ε α × Link}

theorem Loses.trans_leadsTo {l'' : Link} (h : l.Loses l') (h' : l'.LeadsTo l'') : l.Loses l'' := by
  obtain ⟨gone, hgone, passage, hmem, hlost⟩ := h
  obtain ⟨gone', hgone'⟩ := h'
  refine ⟨gone ++ gone', by rw [hgone, hgone', List.append_assoc], passage, ?_, hlost⟩
  exact List.mem_append_left _ hmem

theorem IsCalm.not_loses (h : l.IsCalm) : ¬ l.Loses l' := by
  rintro ⟨gone, hgone, passage, hmem, hlost⟩
  exact hlost (h passage (hgone ▸ List.mem_append_left _ hmem))

theorem Finds.calm (h : l.Finds expected res) (calm : l.IsCalm) : res.1 = expected :=
  h.found.resolve_right fun hlost => calm.not_loses hlost.1

theorem Finds.of_ok (h : l.Finds expected res) {a : α} (hok : res.1 = .ok a) :
    expected = .ok a := by
  rcases h.found with hfound | ⟨-, f, hf⟩
  · exact hfound.symm.trans hok
  · rw [hok] at hf
    cases hf

theorem Finds.map {f : α → β} (h : l.Finds expected res) :
    l.Finds (expected.map f) (res.1.map f, res.2) := by
  refine ⟨h.kept, h.still, ?_⟩
  rcases h.found with hfound | ⟨hloses, e, he⟩
  · exact .inl (congrArg (Except.map f) hfound)
  · refine .inr ⟨hloses, e, ?_⟩
    rw [he]
    rfl

theorem Finds.mapError {ε' : Type} {f : ε → ε'} (h : l.Finds expected res) :
    l.Finds (expected.mapError f) (res.1.mapError f, res.2) := by
  refine ⟨h.kept, h.still, ?_⟩
  rcases h.found with hfound | ⟨hloses, e, he⟩
  · exact .inl (congrArg (Except.mapError f) hfound)
  · refine .inr ⟨hloses, f e, ?_⟩
    rw [he]
    rfl

theorem Finds.after_loss {expected' : Except ε α} (h : l'.Finds expected' res)
    (kept : l'.store = l.store) (loses : l.Loses l') (leads : l'.LeadsTo res.2)
    (agree : ∀ a, expected' = .ok a → expected = .ok a) : l.Finds expected res := by
  refine ⟨h.kept.trans kept, h.still, ?_⟩
  cases hres : res.1 with
  | ok a => exact .inl (agree a (h.of_ok hres)).symm
  | error f => exact .inr ⟨loses.trans_leadsTo leads, f, rfl⟩

theorem Finds.bind {expected : Except Failure α} {x : Operation α} {f : α → Operation β}
    {expected' : α → Except Failure β} (h : l.Finds expected (l.perform x))
    (next : ∀ (a : α) (l' : Link), l'.store = l.store → l'.IsStill →
      l'.Finds (expected' a) (l'.perform (f a))) :
    l.Finds (expected.bind expected') (l.perform (x >>= f)) := by
  have hleads := l.exec_leadsTo x.run
  change l.LeadsTo (l.perform x).2 at hleads
  rw [perform_bind]
  cases hres : (l.perform x).1 with
  | error e =>
    refine ⟨h.kept, h.still, ?_⟩
    rcases h.found with hfound | ⟨hloses, -⟩
    · rw [← hfound, hres]
      exact .inl rfl
    · exact .inr ⟨hloses, e, rfl⟩
  | ok a =>
    have hnext := next a (l.perform x).2 h.kept h.still
    rw [h.of_ok hres]
    refine ⟨hnext.kept.trans h.kept, hnext.still, ?_⟩
    rcases hnext.found with hfound | ⟨hloses, hf⟩
    · exact .inl hfound
    · exact .inr ⟨hleads.trans_loses hloses, hf⟩

end Link

/-! ## Answers without time -/

/-- What an answer says at any time: the value, and the keys of the children. -/
def Response.gist (x : Response) : String × List String := (x.node.valueText, x.node.nodes.map (·.key))

theorem Contents.keys_childNodes (c : Contents) (now depth : Nat) (key : Key) :
    (c.childNodes now depth key).map (·.key) = (c.children key).map (·.1.text) := by
  cases depth <;> rw [childNodes, List.map_map] <;> rfl

namespace Store

variable {s : Store} {path : String} {options : GetOptions}

/-- What a read says at any time. -/
def gist (s : Store) (path : String) : Except Refusal (String × List String) :=
  let key := Key.ofPath path
  let listing := (s.contents.children key).map (·.1.text)
  if key = .root then .ok ("", listing)
  else match s.contents[key]? with
    | none => s.refuse Refusal.keyNotFound key.text
    | some e => .ok (if e.dir then ("", listing) else (e.value, []))

theorem read_gist (s : Store) (now : Nat) (path : String) (options : GetOptions) :
    (s.read now path options).map Response.gist = s.gist path := by
  have hkeys := fun depth => s.contents.keys_childNodes now depth (.ofPath path)
  unfold read gist
  dsimp only
  split
  · rw [Except.map, Response.gist, hkeys]
    rfl
  · cases s.contents[Key.ofPath path]? with
    | none => rfl
    | some e =>
      dsimp only
      rw [Except.map, Response.gist]
      cases hdir : e.dir with
      | true =>
        rw [if_pos rfl, if_pos rfl, Snapshot.node, hkeys]
        simp [Node.valueText, Entry.snapshot, hdir]
      | false =>
        simp [Snapshot.node, Node.valueText, Entry.snapshot, hdir]

theorem kind_of_gist {refusal : Refusal} (h : s.gist path = .error refusal) :
    refusal.kind = .notFound := by
  unfold gist at h
  dsimp only at h
  split at h
  · cases h
  · cases hlook : s.contents[Key.ofPath path]? with
    | none =>
      rw [hlook] at h
      obtain rfl := Except.error.inj h
      rfl
    | some e =>
      rw [hlook] at h
      cases h

end Store

theorem Except.map_mapError {ε ε' α β : Type} (x : Except ε α) (f : ε → ε') (g : α → β) :
    (x.mapError f).map g = (x.map g).mapError f := by
  cases x <;> rfl

namespace Link

variable {l : Link}

theorem serve_finds (still : l.IsStill) (path : String) (options : GetOptions) :
    l.Finds ((l.store.gist path).mapError .refused)
      ((l.serve (.get path options)).2.map Response.gist, (l.serve (.get path options)).1) := by
  have htime : l.now + (l.passages.headD {}).pause + Passage.span l.passages.tail =
      l.now + Passage.span l.passages := by
    cases l.passages with
    | nil => rfl
    | cons passage rest => exact Nat.add_assoc _ _ _
  have hsettled : l.store.expire (l.now + (l.passages.headD {}).pause) = l.store := by
    refine Store.expire_eq_self fun k e he hdue => still k e he ?_
    obtain ⟨d, hd, hle⟩ := hdue
    exact ⟨d, hd, by omega⟩
  cases hfail : (l.passages.headD {}).failure with
  | some failure =>
    obtain ⟨hserve, hloses⟩ := serve_of_loss (r := .get path options) hfail
    rw [hserve] at hloses ⊢
    refine ⟨rfl, fun k e he => ?_, .inr ⟨hloses, failure, rfl⟩⟩
    rw [htime]
    exact still k e he
  | none =>
    have hserve : l.serve (.get path options) =
        (⟨l.store, l.now + (l.passages.headD {}).pause, l.passages.tail⟩,
          (l.store.read (l.now + (l.passages.headD {}).pause) path options).mapError .refused) := by
      unfold serve
      dsimp only
      rw [hfail]
      dsimp only
      rw [Store.serve_get, hsettled]
    rw [hserve]
    refine ⟨rfl, fun k e he => ?_, .inl ?_⟩
    · rw [htime]
      exact still k e he
    · dsimp only
      rw [Except.map_mapError, l.store.read_gist]

end Link

/-! ## Requests with repetitions -/

namespace Client

variable (c : Client) (operation path : String) {options : GetOptions} {l : Link}

/-- What a look at a path should find. -/
def lookIn (s : Store) : Except Failure (String × List String) :=
  match c.retry.delays with
  | .error reason => .error (.retryPolicy reason)
  | .ok _ => (s.gist path).mapError fun refusal => .request operation path 1 (.refused refusal)

/-- What is the end of one attempt: an answer, a refusal, or a loss. -/
theorem conclude_finds {answer : Except RequestFailure Response} {l' : Link} {n : Nat}
    (h : l.Finds ((l.store.gist path).mapError .refused) (answer.map Response.gist, l')) :
    (∃ response, answer = .ok response ∧ l.store.gist path = .ok response.gist) ∨
      ∃ cause, answer = .error cause ∧
        l.Finds ((l.store.gist path).mapError fun refusal =>
          Failure.request operation path n (.refused refusal))
          (.error (.request operation path n cause), l') ∧
        (cause.kind = .notFound ∨ l.Loses l') := by
  rcases h.found with hfound | ⟨hloses, f, hf⟩
  · cases hgist : l.store.gist path with
    | ok g =>
      rw [hgist] at hfound
      cases answer with
      | error cause => cases hfound
      | ok response => exact .inl ⟨response, rfl, congrArg Except.ok (Except.ok.inj hfound).symm⟩
    | error refusal =>
      rw [hgist] at hfound
      cases answer with
      | ok response => cases hfound
      | error cause =>
        obtain rfl := Except.error.inj hfound
        exact .inr ⟨_, rfl, ⟨h.kept, h.still, .inl rfl⟩, .inl (Store.kind_of_gist hgist)⟩
  · cases answer with
    | ok response => cases hf
    | error cause => exact .inr ⟨cause, rfl, ⟨h.kept, h.still, .inr ⟨hloses, _, rfl⟩⟩, .inr hloses⟩

theorem attempts_finds (waits : List Nat) (n : Nat) (still : l.IsStill) :
    let sent := l.exec (c.attempts operation path (.get path options) waits n)
    l.Finds ((l.store.gist path).mapError fun refusal =>
      Failure.request operation path n (.refused refusal)) (sent.1.map Response.gist, sent.2) := by
  induction waits generalizing n l with
  | nil =>
    have hserve := Link.serve_finds still path options
    rw [attempts, Link.exec_count, Link.exec_ask]
    generalize l.serve (.get path options) = sent at hserve ⊢
    obtain ⟨l', answer⟩ := sent
    rcases conclude_finds operation path hserve with
      ⟨response, rfl, hgist⟩ | ⟨cause, rfl, hfinds, -⟩
    · exact ⟨hserve.kept, hserve.still, .inl (by rw [hgist]; rfl)⟩
    · exact hfinds
  | cons wait waits ih =>
    have hserve := Link.serve_finds still path options
    rw [attempts, Link.exec_count, Link.exec_ask]
    generalize l.serve (.get path options) = sent at hserve ⊢
    obtain ⟨l', answer⟩ := sent
    rcases conclude_finds operation path hserve with
      ⟨response, rfl, hgist⟩ | ⟨cause, rfl, hfinds, hwhy⟩
    · exact ⟨hserve.kept, hserve.still, .inl (by rw [hgist]; rfl)⟩
    · dsimp only
      split_ifs with hkind
      · exact hfinds
      · rw [Link.exec_count, Link.exec_sleep]
        have hagain := ih (n + 1) hserve.still
        rw [hserve.kept] at hagain
        refine hagain.after_loss hserve.kept (hwhy.resolve_left hkind) (l'.exec_leadsTo _) ?_
        intro g hg
        cases hstore : l.store.gist path with
        | ok g' =>
          rw [hstore] at hg
          exact congrArg Except.ok (Except.ok.inj hg)
        | error refusal =>
          rw [hstore] at hg
          cases hg

/-- **A look finds what is in the store, or fails because a request was lost.** -/
theorem request_finds (options : GetOptions) (still : l.IsStill) :
    let sent := l.perform (c.request operation path (.get path options))
    l.Finds (c.lookIn operation path l.store) (sent.1.map Response.gist, sent.2) := by
  rw [perform_request, lookIn]
  cases c.retry.delays with
  | error reason => exact ⟨rfl, still, .inl rfl⟩
  | ok waits => exact c.attempts_finds operation path waits 1 still

theorem lookIn_eq_settle (options : GetOptions) (s : Store) :
    c.lookIn operation path s =
      (c.settle operation path (.get path options) s).1.map Response.gist := by
  have hperform : s.perform 0 (.get path options) = (s.read 0 path options).map (s, ·) := rfl
  have hgist := s.read_gist 0 path options
  rw [lookIn, settle]
  cases c.retry.delays with
  | error reason => rfl
  | ok waits =>
    dsimp only
    rw [settleWith, hperform]
    cases hread : s.read 0 path options with
    | ok response =>
      rw [hread] at hgist
      rw [← hgist]
      rfl
    | error refusal =>
      rw [hread] at hgist
      have hkind := Store.kind_of_gist hgist.symm
      rw [← hgist]
      dsimp only [Except.map]
      rw [if_pos hkind]
      rfl

theorem getIn_eq (s : Store) : c.getIn path s = (c.lookIn "get" path s).map Prod.fst := by
  rw [c.lookIn_eq_settle "get" path {}, getIn]
  cases (c.settle "get" path (.get path {}) s).1 <;> rfl

theorem get_finds (still : l.IsStill) :
    l.Finds (c.getIn path l.store) (l.perform (c.get path)) := by
  have hvalue : ∀ x : Except Failure Response,
      (x.map Response.gist).map Prod.fst = x.map fun response => response.node.valueText := by
    intro x
    cases x <;> rfl
  have hlook := (c.request_finds "get" path {} still).map (f := Prod.fst)
  rw [hvalue] at hlook
  rw [get, Link.perform_bind_pure, getIn_eq]
  exact hlook

theorem isNotFound_of_getIn {s : Store} {f : Failure} (usable : c.retry.fault? = none)
    (h : c.getIn path s = .error f) : f.IsNotFound := by
  rw [getIn_eq, lookIn, delays_eq, usable] at h
  dsimp only at h
  cases hgist : s.gist path with
  | ok g =>
    rw [hgist] at h
    cases h
  | error refusal =>
    rw [hgist] at h
    obtain rfl := Except.error.inj h
    exact Store.kind_of_gist hgist

/-! ## Listings -/

/-- The listing that an answer shows. Where nothing is, there is nothing to list. -/
def listed : Except Failure (String × List String) → Except Failure (List String)
  | .ok (_, keys) => .ok keys
  | .error f => if f.IsNotFound then .ok [] else .error f

/-- What a listing should show. -/
def childrenIn (s : Store) : Except Failure (List String) :=
  listed (c.lookIn "get_children_paths" path s)

theorem perform_children (l : Link) : l.perform (c.children path) =
    let sent := l.perform (c.request "get_children_paths" path (.get path { sorted := true }))
    (listed (sent.1.map Response.gist), sent.2) := by
  rw [children, Link.perform_bind, Link.perform_outcome]
  dsimp only
  cases (l.perform (c.request "get_children_paths" path (.get path { sorted := true }))).1 with
  | ok response => rfl
  | error f =>
    dsimp only [listed, Except.map]
    split <;> rfl

/-- A listing shows what is there, or else a request was lost and nothing is shown. -/
theorem children_finds (still : l.IsStill) :
    let res := l.perform (c.children path)
    res.2.store = l.store ∧ res.2.IsStill ∧ (res.1 = c.childrenIn path l.store ∨
      l.Loses res.2 ∧ ((∃ f, res.1 = .error f) ∨ res.1 = .ok [])) := by
  have hlook := c.request_finds "get_children_paths" path { sorted := true } still
  rw [perform_children]
  refine ⟨hlook.kept, hlook.still, ?_⟩
  rcases hlook.found with hfound | ⟨hloses, f, hf⟩
  · exact .inl (congrArg listed hfound)
  · refine .inr ⟨hloses, ?_⟩
    dsimp only at hf ⊢
    rw [hf, listed]
    split
    · exact .inr rfl
    · exact .inl ⟨f, rfl⟩

theorem usable_of_children {paths : List String} (h : (l.perform (c.children path)).1 = .ok paths) :
    c.retry.fault? = none := by
  cases hfault : c.retry.fault? with
  | none => rfl
  | some reason =>
    rw [perform_children, perform_request, delays_eq, hfault] at h
    cases h

/-- **A listing shows the keys directly below a path.** -/
theorem childrenIn_eq {s : Store} (usable : c.retry.fault? = none) (order : s.InOrder) :
    c.childrenIn path s = .ok ((s.contents.children (.ofPath path)).map (·.1.text)) := by
  rw [childrenIn, lookIn, delays_eq, usable]
  dsimp only
  unfold Store.gist
  dsimp only
  split_ifs with hroot
  · rfl
  · cases hlook : s.contents[Key.ofPath path]? with
    | none =>
      rw [order.children_of_not_dir hroot fun d hd => by rw [hlook] at hd; cases hd]
      rfl
    | some e =>
      dsimp only
      split_ifs with hdir
      · rfl
      · have hfile : e.dir = false := Bool.not_eq_true _ ▸ hdir
        rw [order.children_of_not_dir hroot fun d hd =>
          Option.some.inj (hlook.symm.trans hd) ▸ hfile]
        rfl

end Client

/-! ## Searches -/

namespace Catalog

variable (c : Catalog) {l : Link}

/-- A search fails because nothing is there, or because what is there cannot be read. -/
theorem failure_of_findIn {name : String} {s : Store} {f : Failure}
    (usable : c.client.retry.fault? = none) (h : c.findIn name s = .error f) :
    f.IsNotFound ∨ ∃ g, f = .format g := by
  rw [findIn] at h
  cases hcurrent : c.client.getIn (c.currentPath name) s with
  | error f' =>
    have hcause := c.client.isNotFound_of_getIn _ usable hcurrent
    rw [hcurrent] at h
    exact .inl (Except.error.inj h ▸ hcause)
  | ok version =>
    rw [hcurrent] at h
    dsimp only at h
    cases hbody : c.client.getIn (c.versionPath name version) s with
    | error f' =>
      have hcause := c.client.isNotFound_of_getIn _ usable hbody
      rw [hbody] at h
      exact .inl (Except.error.inj h ▸ hcause)
    | ok raw =>
      rw [hbody] at h
      dsimp only at h
      cases hread : Dogu.readFirst c.readers raw with
      | error g =>
        rw [hread] at h
        exact .inr ⟨g, (Except.error.inj h).symm⟩
      | ok d =>
        rw [hread] at h
        cases h

/-- **A search finds what is in the store, or fails because a request was lost.** -/
theorem find_finds (name : String) (still : l.IsStill) :
    l.Finds (c.findIn name l.store) (l.perform (c.find name)) := by
  have hduring : ∀ {l : Link} (doing path : String), l.IsStill →
      l.Finds ((c.client.getIn path l.store).mapError (Failure.context doing))
        (l.perform (Operation.during doing (c.client.get path))) := by
    intro l doing path still
    rw [Link.perform_during]
    exact (c.client.get_finds path still).mapError
  have hexpected : c.findIn name l.store =
      ((c.client.getIn (c.currentPath name) l.store).mapError
        (Failure.context s!"failed to read current version of dogu {name}")).bind fun version =>
          ((c.client.getIn (c.versionPath name version) l.store).mapError
            (Failure.context s!"failed to read dogu {name} {version}")).bind fun raw =>
              (Dogu.readFirst c.readers raw).mapError Failure.format := by
    rw [findIn]
    cases c.client.getIn (c.currentPath name) l.store with
    | error f => rfl
    | ok version =>
      dsimp only [Except.mapError, Except.bind]
      cases c.client.getIn (c.versionPath name version) l.store <;> rfl
  rw [hexpected, find]
  refine (hduring _ (c.currentPath name) still).bind fun version l' kept still' => ?_
  have hversion := hduring s!"failed to read dogu {name} {version}" (c.versionPath name version)
    still'
  rw [kept] at hversion
  refine hversion.bind fun raw l'' _ still'' => ?_
  cases Dogu.readFirst c.readers raw <;> exact ⟨rfl, still'', .inl rfl⟩

end Catalog

end ClusterRegistry
