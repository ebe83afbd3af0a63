import ClusterRegistry.Proofs.Client.Crowd
import ClusterRegistry.Proofs.Dogu.Roster
import ClusterRegistry.Proofs.Dogu.Texts

/-!
# Upgrades while somebody reads

An upgrade writes the description of a version to both catalogs and then, again in both, the pointer
to it. A search follows the pointer of the newer catalog and reads the description, with requests of
others in between. It finds a description all the same: every pointer that is ever written points to
a description that is there already, and nobody removes one.

* `CatalogCall.InTurn`, `Upgrader`: clients that register a version before they enable it;
* `Upgrade.Permits`, `Upgrader.follows`: what such a client asks, given what it has achieved;
* `Upgrade.Change`, `Upgrade.HasBody.change`, `Upgrade.IsEnabled.change`: what it does to the newer
  catalog, and what stays true there;
* `Upgrade.conduct`: reads and upgrades in any order;
* **`Registry.find_untorn`**: a search finds the description of the version that its first request
  saw, as it stands at its second request.
-/

namespace ClusterRegistry

/-! ## Clients that upgrade -/

/-- Calls that register each version before they enable it, and unregister nothing. Some dogus have
been registered before. -/
def CatalogCall.InTurn : List Dogu → List CatalogCall → Prop
  | _, [] => True
  | known, .register d :: rest => Catalog.IsVersion d.version ∧ InTurn (d :: known) rest
  | known, .enable d :: rest =>
    (∃ d' ∈ known, d'.simpleName = d.simpleName ∧ d'.version = d.version) ∧ InTurn known rest
  | _, .unregister _ :: _ => False

/-- A client that upgrades dogus, with a registry of its own. -/
structure Upgrader where
  registry : Registry
  calls : List CatalogCall

namespace CatalogPair

variable (p : CatalogPair)

/-- One call after the other, up to the first one that fails. -/
def operateAll : List CatalogCall → Operation Unit
  | [] => pure ()
  | call :: rest => do
    p.operate call
    operateAll rest

end CatalogPair

/-- What the client does. -/
def Upgrader.program (u : Upgrader) : Operation Unit := u.registry.catalogs.operateAll u.calls

/-! ## What they ask -/

namespace Upgrade

/-- What an upgrade may ask when some requests have been accepted: anything of the older catalog,
and of the newer one a description, or a pointer to a version whose description is there. -/
inductive Permits (known : List Request) : Request → Prop
  | older {r : Registry} {call : CatalogCall} (writes : call.Writes) :
      Permits known ((r.catalogOf .v1).request call)
  | register {r : Registry} {d : Dogu} (plain : Catalog.IsVersion d.version) :
      Permits known ((r.catalogOf .v2).request (.register d))
  | enable {r r' : Registry} {d d' : Dogu} (plain : Catalog.IsVersion d'.version)
      (registered : (r'.catalogOf .v2).request (.register d') ∈ known)
      (name : d'.simpleName = d.simpleName) (version : d'.version = d.version) :
      Permits known ((r.catalogOf .v2).request (.enable d))

end Upgrade

section Follows

variable {rule : List Request → Request → Prop} {known : List Request} {call : CatalogCall}

theorem Catalog.operate_follows (c : Catalog)
    (h : rule known (c.request call)) :
    (c.operate call).run.Follows rule (Taken (c.request call) known) known := by
  have hforget : ∀ {γ δ : Type} {x : Operation γ} (f : γ → δ),
      x.run.Follows rule (Taken (c.request call) known) known →
      (x >>= fun a => pure (f a)).run.Follows rule (Taken (c.request call) known) known :=
    fun f hx => Operation.follows_bind hx (fun _ _ h => h) fun _ _ h => h
  have hcontext : ∀ {x : Operation Unit} (doing : String),
      x.run.Follows rule (Taken (c.request call) known) known →
      (Operation.during doing x).run.Follows rule (Taken (c.request call) known) known :=
    fun doing hx => Operation.follows_during hx (fun _ _ _ h => h) doing
  have hrequest := fun operation path => c.client.request_follows operation path h
  cases call with
  | register d => exact hcontext _ (hforget _ (hforget _ (hrequest _ _)))
  | enable d => exact hcontext _ (hforget _ (hforget _ (hrequest _ _)))
  | unregister name => exact hcontext _ (hforget _ (hrequest _ _))

namespace CatalogPair

variable (p : CatalogPair)

theorem writeBoth_follows {first second : Operation Unit} {r r' : Request}
    (hfirst : first.run.Follows rule (Taken r known) known)
    (hsecond : second.run.Follows rule (Taken r' (r :: known)) (r :: known)) (operation : String)
    (d : Dogu) : (writeBoth operation d first second).run.Follows rule
      (fun known' answer => answer = .ok () → known' = r' :: r :: known) known := by
  refine Operation.follows_bind hfirst (fun known' _ h => ?_) fun _ _ _ h => absurd h (by simp)
  obtain rfl : known' = r :: known := h
  refine Operation.follows_bind (Operation.follows_outcome hsecond) (fun known' answer h => ?_)
    fun _ _ h => h.elim
  cases answer with
  | ok u => exact fun _ => h
  | error f => exact fun h => absurd h (by simp)

theorem operate_follows (writes : call.Writes) (older : rule known (p.older.request call))
    (newer : rule (p.older.request call :: known) (p.newer.request call)) :
    (p.operate call).run.Follows rule (fun known' answer => answer = .ok () →
      known' = p.newer.request call :: p.older.request call :: known) known := by
  have hfirst := p.older.operate_follows older
  have hsecond := p.newer.operate_follows newer
  cases call with
  | register d => exact writeBoth_follows hfirst hsecond "register" d
  | enable d => exact writeBoth_follows hfirst hsecond "enable" d
  | unregister name => exact writes.elim

end CatalogPair

end Follows

namespace Upgrade

/-- The description of a dogu has been accepted by the newer catalog. -/
def Registered (known : List Request) (d : Dogu) : Prop :=
  ∃ r : Registry, (r.catalogOf .v2).request (.register d) ∈ known

theorem Registered.mono {known known' : List Request} {d : Dogu} (h : Registered known d)
    (hsub : known ⊆ known') : Registered known' d :=
  h.imp fun _ hmem => hsub hmem

/-- **A client that registers each version before it enables it asks nothing else.** -/
theorem follows_operateAll (r : Registry) (calls : List CatalogCall) {dogus : List Dogu}
    {known : List Request} (inTurn : CatalogCall.InTurn dogus calls)
    (before : ∀ d ∈ dogus, Catalog.IsVersion d.version ∧ Registered known d) :
    (r.catalogs.operateAll calls).run.Follows Permits (fun _ _ => True) known := by
  induction calls generalizing dogus known with
  | nil => exact trivial
  | cons call rest ih =>
    have hsub : ∀ call, known ⊆ (r.catalogOf .v2).request call ::
        (r.catalogOf .v1).request call :: known := fun call a ha =>
      List.mem_cons_of_mem _ (List.mem_cons_of_mem _ ha)
    -- if the call fails, it is the last one
    have hcall : ∀ (_ : call.Writes) (_ : Permits ((r.catalogOf .v1).request call :: known)
        ((r.catalogOf .v2).request call)) (_ : (r.catalogs.operateAll rest).run.Follows Permits
          (fun _ _ => True) ((r.catalogOf .v2).request call ::
            (r.catalogOf .v1).request call :: known)),
        (r.catalogs.operateAll (call :: rest)).run.Follows Permits (fun _ _ => True) known := by
      intro writes newer hrest
      refine Operation.follows_bind (r.catalogs.operate_follows writes (.older writes) newer)
        (fun known' _ h => ?_) fun _ _ _ => trivial
      obtain rfl := h rfl
      exact hrest
    cases call with
    | register d =>
      obtain ⟨plain, hrest⟩ := inTurn
      refine hcall trivial (.register plain) (ih hrest fun d' hd' => ?_)
      rcases List.mem_cons.mp hd' with rfl | hd'
      · exact ⟨plain, r, List.mem_cons_self⟩
      · exact ⟨(before d' hd').1, (before d' hd').2.mono (hsub _)⟩
    | enable d =>
      obtain ⟨⟨d', hd', name, version⟩, hrest⟩ := inTurn
      obtain ⟨plain, r', hregistered⟩ := before d' hd'
      refine hcall trivial (.enable plain (List.mem_cons_of_mem _ hregistered) name version)
        (ih hrest fun e he => ⟨(before e he).1, (before e he).2.mono (hsub _)⟩)
    | unregister name => exact inTurn.elim

/-! ## What they do to the newer catalog -/

/-- The values of the files of a catalog by place. -/
abbrev Texts := List Segment → Option String

/-- The place of a description. -/
def bodyPlace (name version : String) : List Segment :=
  Path.segments (Dogu.simpleNameOf name) ++ Path.segments version

/-- A version of a dogu has a description in the newer schema. -/
def HasBody (texts : Texts) (name version : String) : Prop :=
  ∃ d : Dogu, texts (bodyPlace name version) = some (d.write .v2)

/-- The pointer of a dogu leads to a description. -/
def IsEnabled (texts : Texts) (name : String) : Prop :=
  ∃ version, Catalog.IsVersion version ∧ texts (Catalog.pointerPlace name) = some version ∧
    HasBody texts name version

/-- Another value at one place. -/
def put (texts : Texts) (place : List Segment) (value : String) : Texts :=
  fun other => if other = place then some value else texts other

/-- What an accepted request of an upgrade does to the newer catalog. -/
inductive Change (texts : Texts) : Texts → Prop
  | older : Change texts texts
  | register {d : Dogu} (plain : Catalog.IsVersion d.version) :
      Change texts (put texts (bodyPlace d.name d.version) (d.write .v2))
  | enable {d : Dogu} (plain : Catalog.IsVersion d.version)
      (body : HasBody texts d.name d.version) :
      Change texts (put texts (Catalog.pointerPlace d.name) d.version)

variable {texts texts' : Texts} {name version : String}

theorem bodyPlace_ne_pointerPlace (plain : Catalog.IsVersion version) (name name' : String) :
    bodyPlace name version ≠ Catalog.pointerPlace name' := by
  have hsegment : Path.segments version = _ :=
    Path.segments_eq_singleton (.ofText version plain.nonempty plain.slashless)
  rw [bodyPlace, hsegment, Catalog.pointerPlace]
  intro h
  have hlast := (List.append_inj' h rfl).2
  exact plain.noPointer (congrArg Segment.text (List.singleton_inj.mp hlast))

theorem bodyPlace_eq_of_pointerPlace {name' : String}
    (h : Catalog.pointerPlace name = Catalog.pointerPlace name') (version : String) :
    bodyPlace name version = bodyPlace name' version := by
  rw [bodyPlace, bodyPlace, (List.append_inj' h rfl).1]

/-- **A description stays a description.** -/
theorem HasBody.change (h : HasBody texts name version) (plain : Catalog.IsVersion version)
    (change : Change texts texts') : HasBody texts' name version := by
  obtain ⟨d, hd⟩ := h
  cases change with
  | older => exact ⟨d, hd⟩
  | @register d' =>
    by_cases hplace : bodyPlace name version = bodyPlace d'.name d'.version
    · exact ⟨d', if_pos hplace⟩
    · exact ⟨d, (if_neg hplace).trans hd⟩
  | enable => exact ⟨d, (if_neg (bodyPlace_ne_pointerPlace plain _ _)).trans hd⟩

/-- **A pointer always leads to a description.** -/
theorem IsEnabled.change (h : IsEnabled texts name) (change : Change texts texts') :
    IsEnabled texts' name := by
  obtain ⟨version, plain, hpointer, hbody⟩ := h
  have hkept := hbody.change plain change
  cases change with
  | older => exact ⟨version, plain, hpointer, hkept⟩
  | @register d plain' =>
    have hne := (bodyPlace_ne_pointerPlace plain' d.name name).symm
    exact ⟨version, plain, (if_neg hne).trans hpointer, hkept⟩
  | @enable d plain' body =>
    by_cases hplace : Catalog.pointerPlace name = Catalog.pointerPlace d.name
    · have hbody' := body.change plain' (.enable plain' body)
      rw [HasBody, ← bodyPlace_eq_of_pointerPlace hplace] at hbody'
      exact ⟨d.version, plain', if_pos hplace, hbody'⟩
    · exact ⟨version, plain, (if_neg hplace).trans hpointer, hkept⟩

/-! ## Reads and upgrades in any order -/

/-- What a registration that was accepted has left behind. -/
def Stands (r : Request) (s : Store) : Prop :=
  ∀ (registry : Registry) (d : Dogu), r = (registry.catalogOf .v2).request (.register d) →
    Catalog.IsVersion d.version → HasBody (s.texts .v2) d.name d.version

/-- What holds of the newer catalog next to what was written: nothing has a lifetime, every file is
as it was last written or as it was at the beginning, and `Q` holds of the files. -/
structure Tidy (start : Texts) (Q : Texts → Prop) (s : Store) (log : List Request) : Prop where
  endures : s.Endures .v2
  written : ∀ place, s.texts .v2 place =
    (lastWritten log (Schema.v2.keyAt place)).or (start place)
  property : Q (s.texts .v2)

theorem Tidy.mono {start : Texts} {Q Q' : Texts → Prop} {s : Store} {log : List Request}
    (h : Tidy start Q s log) (hQ : Q' (s.texts .v2)) : Tidy start Q' s log :=
  ⟨h.endures, h.written, hQ⟩

/-- A read. -/
def IsGet (r : Request) : Prop := ∃ path options, r = .get path options

variable {start : Texts} {Q : Texts → Prop} {s s' : Store} {log known : List Request} {r : Request}
  {now : Nat} {response : Response}

theorem Permits.exists_set (h : Permits known r) : ∃ path value, r = .set path value {} := by
  cases h with
  | @older r call writes =>
    obtain ⟨value, hvalue⟩ := (r.catalogOf .v1).request_of_writes writes
    exact ⟨_, _, hvalue⟩
  | register => exact ⟨_, _, rfl⟩
  | enable => exact ⟨_, _, rfl⟩

theorem texts_of_accept {registry : Registry} {schema : Schema} {call : CatalogCall}
    {value : String} (h : s.Endures .v2) (hvalue : (registry.catalogOf schema).request call =
      .set ((registry.catalogOf schema).target call) value {})
    (hserve : s.serve now ((registry.catalogOf schema).request call) = (s', .ok response)) :
    s'.texts .v2 = if schema = .v2 then put (s.texts .v2) call.place value else s.texts .v2 := by
  rw [hvalue] at hserve
  funext place
  rw [(h.accept hserve).2, registry.ofPath_target]
  by_cases hschema : schema = .v2
  · subst hschema
    simp only [Schema.keyAt_inj, true_and, if_true]
    rfl
  · rw [if_neg hschema, if_neg]
    exact fun h => hschema (Schema.keyAt_inj.mp h).1.symm

/-- **What an upgrade asks next to what it has achieved is a change that keeps descriptions.** -/
theorem Permits.change (h : Permits known r) (hs : s.Endures .v2)
    (stands : ∀ a ∈ known, Stands a s) (hserve : s.serve now r = (s', .ok response)) :
    Change (s.texts .v2) (s'.texts .v2) := by
  cases h with
  | @older registry call writes =>
    obtain ⟨value, hvalue⟩ := (registry.catalogOf .v1).request_of_writes writes
    rw [texts_of_accept hs hvalue hserve, if_neg (by decide)]
    exact .older
  | @register registry d plain =>
    rw [texts_of_accept hs rfl hserve, if_pos rfl]
    exact .register plain
  | @enable registry registry' d d' plain registered name version =>
    have hbody := stands _ registered registry' d' rfl plain
    have hplace : bodyPlace d'.name d'.version = bodyPlace d.name d.version :=
      congrArg₂ (fun n v => Path.segments n ++ Path.segments v) name version
    rw [HasBody, hplace] at hbody
    rw [texts_of_accept hs rfl hserve, if_pos rfl]
    exact .enable (version ▸ plain) hbody

theorem Stands.of_accept (hs : s.Endures .v2) (hserve : s.serve now r = (s', .ok response)) :
    Stands r s' := by
  rintro registry d rfl plain
  refine ⟨d, ?_⟩
  rw [texts_of_accept hs rfl hserve, if_pos rfl]
  exact if_pos rfl

theorem Stands.change (h : Stands r s) (change : Change (s.texts .v2) (s'.texts .v2)) :
    Stands r s' := fun registry d hr plain => (h registry d hr plain).change plain change

theorem Stands.of_texts (h : Stands r s) (hsame : s'.texts .v2 = s.texts .v2) : Stands r s' := by
  unfold Stands
  rwa [hsame]

/-- **Reads keep the newer catalog tidy, and so does what upgrades ask.** -/
theorem conduct (start : Texts) (Q : Texts → Prop)
    (keep : ∀ texts texts', Change texts texts' → Q texts → Q texts') :
    Crowd.Conduct IsGet Permits Stands (Tidy start Q) where
  read := by
    rintro s r log now ⟨path, options, rfl⟩ ⟨hs, hwritten, hQ⟩
    rw [s.serve_get]
    have hsame := hs.texts_expire now
    refine ⟨⟨hs.expire now, ?_, ?_⟩, fun a ha => ha.of_texts hsame⟩
    · rwa [hsame]
    · rwa [hsame]
  refuse := by
    rintro s now r known log s' refusal - ⟨hs, hwritten, hQ⟩ hserve
    obtain ⟨hs', hsame⟩ := hs.texts_of_refusal hserve
    refine ⟨⟨hs', ?_, ?_⟩, fun a ha => ha.of_texts hsame⟩
    · rwa [hsame]
    · rwa [hsame]
  accept := by
    rintro s now r known log s' response hr hstands ⟨hs, hwritten, hQ⟩ hserve
    have hchange := hr.change hs hstands hserve
    refine ⟨⟨?_, fun place => ?_, keep _ _ hchange hQ⟩, .of_accept hs hserve,
      fun a ha => ha.change hchange⟩
    · obtain ⟨path, value, rfl⟩ := hr.exists_set
      exact (hs.accept hserve).1
    · obtain ⟨path, value, rfl⟩ := hr.exists_set
      rw [(hs.accept hserve).2, hwritten, lastWritten_append, Request.written?]
      by_cases hkey : Key.ofPath path = Schema.v2.keyAt place
      · rw [if_pos hkey.symm, if_pos hkey]
        rfl
      · rw [if_neg (Ne.symm hkey), if_neg hkey]
        rfl

end Upgrade

/-! ## The search -/

section Find

variable (r : Registry) (name : String)

theorem Catalog.find_asks (c : Catalog) : (c.find name).Asks Upgrade.IsGet := by
  have hget : ∀ path, (c.client.get path).Asks Upgrade.IsGet := fun path =>
    .bind (c.client.request_asks "get" path ⟨path, {}, rfl⟩) fun _ => .pure _
  refine .bind (.during (hget _) _) fun version => .bind (.during (hget _) _) fun raw => ?_
  split <;> exact trivial

theorem CatalogPair.find_asks (p : CatalogPair) : (p.find name).Asks Upgrade.IsGet := by
  refine .bind (.outcome (p.newer.find_asks name)) fun found => ?_
  cases found with
  | ok d => exact trivial
  | error f =>
    dsimp only
    split
    · exact p.older.find_asks name
    · exact trivial

/-- What is left of a search when the pointer has been read. -/
def CatalogPair.findVersion (p : CatalogPair) (version : String) : Operation Dogu := do
  let found ← Operation.outcome do
    let raw ← Operation.during s!"failed to read dogu {name} {version}"
      (p.newer.client.get (p.newer.versionPath name version))
    match Dogu.readFirst p.newer.readers raw with
    | .ok d => return d
    | .error f => throw (.format f)
  match found with
  | .ok d => return d
  | .error f => if f.IsNotFound then p.older.find name else throw f

variable (usable : r.client.retry.fault? = none)

include usable

theorem Registry.find_sends : (r.catalogs.find name).Sends
    (.get (r.catalogs.newer.currentPath name) {}) fun response =>
      r.catalogs.findVersion name response.node.valueText :=
  ((((r.client.get_sends usable _).during _).bind _).outcome).bind _

theorem Registry.findVersion_sends (version : String) : ∃ onward,
    (r.catalogs.findVersion name version).Sends
      (.get (r.catalogs.newer.versionPath name version) {}) onward ∧
    ∀ response (d : Dogu), response.node.valueText = d.write .v2 → onward response = pure d := by
  refine ⟨_, ((((r.client.get_sends usable _).during _).bind _).outcome).bind _, ?_⟩
  intro response d htext
  have hread : Dogu.readFirst r.catalogs.newer.readers (d.write .v2) = .ok d :=
    d.readFirst_write .v2
  rw [htext]
  -- what is read is no longer of interest
  generalize d.write .v2 = raw at hread ⊢
  change (Operation.outcome (match Dogu.readFirst r.catalogs.newer.readers raw with
    | .ok d => pure d
    | .error f => throw (.format f)) >>= _) = _
  rw [hread]
  rfl

end Find

/-! ## The main result -/

/-- The value of the file at a path. -/
def Store.textAt (s : Store) (path : String) : Option String := s.contents.slots.text (.ofPath path)

namespace Registry

/-- A search for a name, and clients that upgrade dogus. -/
def gather (r : Registry) (name : String) (upgraders : List Upgrader) (s : Store) (now : Nat) :
    Crowd (Except Failure Dogu) (Except Failure Unit) where
  store := s
  now := now
  reader := (r.catalogs.find name).run
  writers := upgraders.map (·.program.run)

variable (r : Registry) (name : String) {upgraders : List Upgrader} {s : Store}

open Upgrade

theorem gather_keeps (inTurn : ∀ u ∈ upgraders, CatalogCall.InTurn [] u.calls)
    (endures : s.Endures .v2) (now : Nat) :
    (r.gather name upgraders s now).Keeps IsGet Permits Stands
      (Tidy (s.texts .v2) fun _ => True) where
  store := ⟨endures, fun _ => rfl, trivial⟩
  reader := r.catalogs.find_asks name
  writers x hx := by
    obtain ⟨u, hu, rfl⟩ := List.mem_map.mp hx
    exact ⟨[], follows_operateAll u.registry u.calls (inTurn u hu)
      fun d hd => absurd hd List.not_mem_nil, fun a ha => absurd ha List.not_mem_nil⟩

theorem textAt_currentPath (s : Store) (name : String) :
    s.textAt (r.catalogs.newer.currentPath name) = s.texts .v2 (Catalog.pointerPlace name) :=
  congrArg s.contents.slots.text (r.ofPath_currentPath .v2 name)

theorem textAt_versionPath (s : Store) (name version : String) :
    s.textAt (r.catalogs.newer.versionPath name version) = s.texts .v2 (bodyPlace name version) :=
  congrArg s.contents.slots.text (r.ofPath_versionPath .v2 name version)

/-- What a search does if the newer catalog has a pointer at its first request and, at the second
one, a description of that version, whatever happens in between. -/
theorem find_of_reads (usable : r.client.retry.fault? = none)
    {asking : Crowd (Except Failure Dogu) (Except Failure Unit)}
    (hreader : asking.reader = (r.catalogs.find name).run) {second : List Crowd.Turn}
    (hsecond : Crowd.Turn.read ∉ second) {version : String} {d : Dogu} :
    let reading := (asking.step .read).run second
    asking.store.Endures .v2 →
    asking.store.texts .v2 (Catalog.pointerPlace name) = some version →
    reading.store.Endures .v2 →
    reading.store.texts .v2 (bodyPlace name version) = some (d.write .v2) →
    (reading.step .read).reader = .done (.ok d) ∧ (reading.step .read).asked = asking.asked ++
      [.get (r.catalogs.newer.currentPath name) {},
        .get (r.catalogs.newer.versionPath name version) {}] := by
  intro reading hendures hpointer hendures' hbody
  obtain ⟨response, hserve, hvalue⟩ :=
    hendures.serve_get asking.now (r.ofPath_currentPath .v2 name) hpointer
  have hfirstRead := asking.step_read hreader (r.find_sends name usable) hserve
  obtain ⟨onward, hsends, hdone⟩ := r.findVersion_sends name usable version
  obtain ⟨hreader', hasked'⟩ := (asking.step .read).run_reader hsecond
  have hprogram : reading.reader = (r.catalogs.findVersion name version).run :=
    hreader'.trans (by rw [hfirstRead, hvalue])
  obtain ⟨response', hserve', hvalue'⟩ :=
    hendures'.serve_get reading.now (r.ofPath_versionPath .v2 name version) hbody
  have hsecondRead := reading.step_read hprogram hsends hserve'
  constructor
  · rw [hsecondRead, hdone response' d hvalue']
    rfl
  · have hasked : reading.asked = asking.asked ++ [.get (r.catalogs.newer.currentPath name) {}] :=
      hasked'.trans (by rw [hfirstRead])
    rw [hsecondRead, hasked, List.append_assoc]
    rfl

/-- **A search never sees half an upgrade.** Any number of clients register versions of dogus before
they enable them; their requests and those of a search come in any order. If the newer catalog has
an enabled version with a description when the search begins, the search succeeds: it returns the
description, as it was last written before its second request, of the version that was enabled at
its first one. It asks nothing else, so it never goes to the older catalog. -/
theorem find_untorn (usable : r.client.retry.fault? = none)
    (inTurn : ∀ u ∈ upgraders, CatalogCall.InTurn [] u.calls) (endures : s.Endures .v2) (now : Nat)
    (before first second rest : List Crowd.Turn) (hbefore : Crowd.Turn.read ∉ before)
    (hfirst : Crowd.Turn.read ∉ first) (hsecond : Crowd.Turn.read ∉ second) :
    let newer := r.catalogs.newer
    let begun := (r.gather name upgraders s now).run before
    let asking := begun.run first
    let reading := (asking.step .read).run second
    let ended := (reading.step .read).run rest
    ∀ (version : String) (d : Dogu), Catalog.IsVersion version →
      begun.store.textAt (newer.currentPath name) = some version →
      begun.store.textAt (newer.versionPath name version) = some (d.write .v2) →
      ∃ version d, asking.store.textAt (newer.currentPath name) = some version ∧
        reading.store.textAt (newer.versionPath name version) = some (d.write .v2) ∧
        (lastWritten reading.accepted (.ofPath (newer.versionPath name version))).or
          (s.textAt (newer.versionPath name version)) = some (d.write .v2) ∧
        ended.reader = .done (.ok d) ∧
        ended.asked = [.get (newer.currentPath name) {},
          .get (newer.versionPath name version) {}] := by
  intro newer begun asking reading ended version d plain hcurrent hbody
  -- up to the first request the pointer leads to some description, whichever version is enabled
  have hbegun : begun.Keeps IsGet Permits Stands (Tidy (s.texts .v2) fun _ => True) :=
    (r.gather_keeps name inTurn endures now).run (conduct _ _ fun _ _ _ _ => trivial) before
  rw [textAt_currentPath] at hcurrent
  rw [textAt_versionPath] at hbody
  have hasking : asking.Keeps IsGet Permits Stands (Tidy (s.texts .v2) (IsEnabled · name)) :=
    (hbegun.mono (hbegun.store.mono ⟨version, plain, hcurrent, d, hbody⟩)).run
      (conduct _ _ fun _ _ change h => h.change change) first
  obtain ⟨version', plain', hpointer, hthere⟩ := hasking.store.property
  -- from then on the version that was seen keeps a description, whatever the pointer says
  have hconduct := conduct (s.texts .v2) (HasBody · name version')
    fun _ _ change h => h.change plain' change
  have hreading : reading.Keeps IsGet Permits Stands
      (Tidy (s.texts .v2) (HasBody · name version')) :=
    ((hasking.mono (hasking.store.mono hthere)).step hconduct .read).run hconduct second
  obtain ⟨d', hd'⟩ := hreading.store.property
  obtain ⟨hreader, hasked⟩ : asking.reader = (r.catalogs.find name).run ∧ asking.asked = [] := by
    obtain ⟨hreader, hasked⟩ := (r.gather name upgraders s now).run_reader hbefore
    obtain ⟨hreader', hasked'⟩ := begun.run_reader hfirst
    exact ⟨hreader'.trans hreader, hasked'.trans hasked⟩
  obtain ⟨hdone, hboth⟩ := r.find_of_reads name usable hreader hsecond hasking.store.endures
    hpointer hreading.store.endures hd'
  obtain ⟨hended, hnothing⟩ := (reading.step .read).run_done hdone rest
  have hkey : Key.ofPath (newer.versionPath name version') =
      Schema.v2.keyAt (bodyPlace name version') := r.ofPath_versionPath .v2 name version'
  refine ⟨version', d', ?_, ?_, ?_, hended, ?_⟩
  · rw [textAt_currentPath, hpointer]
  · rw [textAt_versionPath, hd']
  · rw [textAt_versionPath, hkey, ← hd']
    exact (hreading.store.written _).symm
  · rw [hnothing, hboth, hasked]
    rfl

/-- While a search is under way, another version is enabled, and the version that the search has
seen is registered anew. -/
theorem find_untorn_crossing :
    let r : Registry := ⟨⟨.constant 10 2, 1000, 1⟩⟩
    let d : Dogu := { name := "a/n", version := "1" }
    let d' : Dogu := { d with description := "x" }
    let d'' : Dogu := { d with version := "2" }
    let upgraders : List Upgrader :=
      [⟨r, [.register d, .enable d, .register d']⟩, ⟨r, [.register d'', .enable d'']⟩]
    let before : List Crowd.Turn := [.write 0, .write 0, .write 0, .write 0]
    let first : List Crowd.Turn := [.write 1, .write 1]
    let second : List Crowd.Turn := [.write 1, .write 0, .pass 5, .write 1, .write 0]
    let rest : List Crowd.Turn := [.write 0, .read]
    let asking := ((r.gather "n" upgraders .empty 0).run before).run first
    let reading := (asking.step .read).run second
    ((reading.step .read).run rest).reader = .done (.ok d') := by
  intro r d d' d'' upgraders before first second rest asking reading
  have plain : Catalog.IsVersion "1" := ⟨by decide, by decide, by decide⟩
  have plain' : Catalog.IsVersion "2" := ⟨by decide, by decide, by decide⟩
  have inTurn : ∀ u ∈ upgraders, CatalogCall.InTurn [] u.calls := by
    intro u hu
    rcases List.mem_cons.mp hu with rfl | hu
    · exact ⟨plain, ⟨d, List.mem_cons_self, rfl, rfl⟩, plain, trivial⟩
    · rw [List.mem_singleton.mp hu]
      exact ⟨plain', ⟨d'', List.mem_cons_self, rfl, rfl⟩, trivial⟩
  have endures : Store.empty.Endures .v2 :=
    ⟨.empty, fun place e he => Store.Lasting.empty.endless _ e he⟩
  obtain ⟨version, e, hseen, hread, -, hended, -⟩ := r.find_untorn "n" rfl inTurn endures 0
    before first second rest (by decide) (by decide) (by decide) "1" d plain (by decide +kernel)
    (by decide +kernel)
  have hversion : version = "1" := by
    refine Option.some.inj (hseen.symm.trans ?_)
    decide +kernel
  subst hversion
  have hbody : e.write .v2 = d'.write .v2 := by
    refine Option.some.inj (hread.symm.trans ?_)
    decide +kernel
  have he : e = d' := by
    have h := e.readV2_write
    rw [hbody, d'.readV2_write] at h
    exact (Except.ok.inj h).symm
  rw [he] at hended
  exact hended

end Registry

end ClusterRegistry
