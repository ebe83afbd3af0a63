import ClusterRegistry.Proofs.Client.Wire
import ClusterRegistry.Proofs.Store.Order

/-!
# A plain write

A value is written without a lifetime, however often the request has to be sent. Off the key, which
is neither there nor above, everything stays as it is but for the lifetimes that end meanwhile.

* `Store.SameOff`: two stores that keep the same off a key, from some time on;
* `Store.lookup_expire_put`, `Store.SameOff.serve`: writes keep that;
* `Wire.exec_sameOff`: a program that asks for one write keeps it, answered or not;
* `Wire.Wrote`, **`Client.set_wrote`**: what a write that succeeds leaves behind.
-/

namespace ClusterRegistry

namespace Store

/-! ## Off a key -/

/-- From a time on, both stores keep the same wherever neither a key nor anything above it is. -/
def SameOff (s s' : Store) (key : Key) (now : Nat) : Prop :=
  ∀ t, now ≤ t → ∀ k : Key, ¬ key.IsWithin k →
    (s'.expire t).contents[k]? = (s.expire t).contents[k]?

variable {s s' : Store} {key k : Key} {now now' : Nat} {path value : String}

theorem SameOff.refl (s : Store) (key : Key) (now : Nat) : s.SameOff s key now :=
  fun _ _ _ _ => rfl

theorem SameOff.mono (h : s.SameOff s' key now) (hle : now ≤ now') : s.SameOff s' key now' :=
  fun t ht => h t (Nat.le_trans hle ht)

theorem SameOff.expire (h : s.SameOff s' key now) : s.SameOff (s'.expire now) key now := by
  intro t ht k hk
  rw [s'.expire_contents_expire ht]
  exact h t ht k hk

theorem isDoomed_put (hk : ¬ k.IsWithin key) (prev : Option Entry) (value : String) (t : Nat) :
    (s.put now key prev value {}).1.contents.IsDoomed t k ↔ s.contents.IsDoomed t k := by
  have hlook : ∀ a, k.IsWithin a → (s.put now key prev value {}).1.contents[a]? =
      if a ∈ key.ancestors then some (s.contents[a]?.getD (.parent (s.index + 1)))
      else s.contents[a]? := by
    intro a ha
    have hne : a ≠ key := fun e => hk (e ▸ ha)
    rw [lookup_put, if_neg hne]
  constructor
  · rintro ⟨a, e, hmem, hdue, hin⟩
    refine ⟨a, e, ?_, hdue, hin⟩
    rw [hlook a hin] at hmem
    split_ifs at hmem with habove
    · cases ha : s.contents[a]? with
      | some e' => rwa [ha] at hmem
      | none =>
        -- a new directory never falls due
        rw [ha] at hmem
        obtain rfl := Option.some.inj hmem
        obtain ⟨d, hd, -⟩ := hdue
        cases hd
    · exact hmem
  · rintro ⟨a, e, hmem, hdue, hin⟩
    refine ⟨a, e, ?_, hdue, hin⟩
    rw [hlook a hin, hmem]
    exact ite_self _

theorem lookup_expire_put (order : s.InOrder) (notRoot : key ≠ .root)
    (noDir : ∀ e, s.contents[key]? = some e → e.dir = false) (hk : ¬ key.IsWithin k)
    (prev : Option Entry) (value : String) (t : Nat) :
    ((s.put now key prev value {}).1.expire t).contents[k]? = (s.expire t).contents[k]? := by
  have hput : (s.put now key prev value {}).1.contents[k]? = s.contents[k]? := by
    have hne : k ≠ key := fun e => hk (e ▸ .refl k)
    rw [lookup_put, if_neg hne,
      if_neg fun habove => hk (Key.mem_ancestors.mp habove).1.isWithin]
  rw [lookup_expire, lookup_expire, hput]
  by_cases hwithin : k.IsWithin key
  · have hbelow : k.IsBelow key :=
      (Key.isWithin_iff.mp hwithin).resolve_left fun e => hk (e ▸ .refl k)
    rw [order.lookup_of_isBelow notRoot noDir hbelow, ite_self, ite_self]
  · exact if_congr (isDoomed_put hwithin prev value t) rfl rfl

theorem SameOff.serve (h : s.SameOff s' (.ofPath path) now) (order : s'.InOrder) :
    s.SameOff (s'.serve now (.set path value {})).1 (.ofPath path) now := by
  have houtcome := (s'.expire now).perform_outcome now (.set path value {})
  cases hperform : (s'.expire now).perform now (.set path value {}) with
  | error refusal =>
    rw [serve_of_error hperform]
    exact h.expire
  | ok answer =>
    rw [hperform] at houtcome
    rw [serve_of_ok hperform]
    cases houtcome with
    | refreshed present asked => cases asked
    | put notRoot noDir noFile asked =>
      intro t ht k hk
      rw [lookup_expire_put (order.expire now) notRoot noDir hk]
      exact h.expire t ht k hk

end Store

/-! ## A program that writes -/

namespace Wire

variable {key : Key} {path value : String} {w : Wire} {start : Store}

/-- Since a start, nothing has changed off a key, and the store is in order. -/
structure Apart (start : Store) (key : Key) (w : Wire) : Prop where
  order : w.store.InOrder
  same : start.SameOff w.store key w.now

theorem Apart.later (h : w.Apart start key) (pause : Nat) (handlings : List (Nat × Handling)) :
    Apart start key ⟨w.store, w.now + pause, handlings⟩ :=
  ⟨h.order, h.same.mono (Nat.le_add_right _ _)⟩

theorem Apart.serve (h : w.Apart start (.ofPath path)) (value : String) :
    Apart start (.ofPath path) (w.serve (.set path value {})).1 := by
  have hlater := h.later (w.handlings.headD (0, .answered)).1 w.handlings.tail
  unfold Wire.serve
  dsimp only
  split
  · exact ⟨hlater.order.serve _ _, hlater.same.serve hlater.order⟩
  · exact hlater
  · exact ⟨hlater.order.serve _ _, hlater.same.serve hlater.order⟩

/-- What stands at every key after a write that has succeeded, given what stood there before. -/
structure Wrote (start : Store) (key : Key) (value : String) (w : Wire) : Prop where
  /-- Nothing is due. -/
  settled : w.store.expire w.now = w.store
  order : w.store.InOrder
  notRoot : key ≠ .root
  file : ∃ e, w.store.contents[key]? = some e ∧ e.dir = false ∧ e.value = value
  /-- Elsewhere stands what stood there, unless it has expired. -/
  off : ∀ k : Key, ¬ key.IsWithin k → w.store.contents[k]? = (start.expire w.now).contents[k]?

theorem serve_set_ok {w' : Wire} {response : Response}
    (h : w.serve (.set path value {}) = (w', .ok response)) :
    Key.ofPath path ≠ .root ∧ ∃ prev, w'.store =
      ((w.store.expire w'.now).put w'.now (.ofPath path) prev value {}).1 := by
  unfold Wire.serve at h
  dsimp only at h
  split at h
  · have houtcome := (w.store.expire (w.now + (w.handlings.headD (0, .answered)).1)).perform_outcome
      (w.now + (w.handlings.headD (0, .answered)).1) (.set path value {})
    cases hperform : (w.store.expire (w.now + (w.handlings.headD (0, .answered)).1)).perform
        (w.now + (w.handlings.headD (0, .answered)).1) (.set path value {}) with
    | error refusal =>
      rw [Store.serve_of_error hperform] at h
      cases h
    | ok answer =>
      rw [hperform] at houtcome
      rw [Store.serve_of_ok hperform] at h
      cases h
      cases houtcome with
      | refreshed present asked => cases asked
      | put notRoot noDir noFile asked => exact ⟨notRoot, _, rfl⟩
  · cases h
  · cases h

theorem Apart.wrote {w' : Wire} {response : Response} (h : w.Apart start (.ofPath path))
    (hserve : w.serve (.set path value {}) = (w', .ok response)) :
    Wrote start (.ofPath path) value w' := by
  have hafter := h.serve value
  rw [hserve] at hafter
  obtain ⟨notRoot, prev, hstore⟩ := serve_set_ok hserve
  have hlook : ∀ k, w'.store.contents[k]? = _ := fun k =>
    hstore ▸ Store.lookup_put (.ofPath path) prev value {} k
  have hsettled : w'.store.expire w'.now = w'.store := by
    refine Store.expire_eq_self fun k e he => ?_
    rw [hlook] at he
    split_ifs at he with hkey habove
    · obtain rfl := Option.some.inj he
      rintro ⟨d, hd, -⟩
      cases hd
    · cases hk : (w.store.expire w'.now).contents[k]? with
      | some e' =>
        rw [hk] at he
        obtain rfl := Option.some.inj he
        exact Store.not_isDue_of_expire hk
      | none =>
        rw [hk] at he
        obtain rfl := Option.some.inj he
        rintro ⟨d, hd, -⟩
        cases hd
    · exact Store.not_isDue_of_expire he
  refine ⟨hsettled, hafter.order, notRoot, ⟨_, (hlook _).trans (if_pos rfl), rfl, rfl⟩, ?_⟩
  intro k hk
  have hsame := hafter.same w'.now (Nat.le_refl _) k hk
  rwa [hsettled] at hsame

end Wire

theorem Client.set_wrote (c : Client) {path value text : String} {w : Wire}
    (order : w.store.InOrder) (h : (w.exec (c.set path value).run).1 = .ok text) :
    Wire.Wrote w.store (.ofPath path) value (w.exec (c.set path value).run).2 := by
  obtain ⟨response, hrequest, hend⟩ := Operation.run_of_bind h
  obtain ⟨w', hapart, hserve⟩ := c.request_served "set" path
    (P := fun w' : Wire => w'.Apart w.store (.ofPath path))
    (fun w' f hw _ => hw.serve value) ⟨order, .refl _ _ _⟩ hrequest
  have hwrote := hapart.wrote hserve
  have hfinal : (w.exec (c.set path value).run).2 =
      ((c.request "set" path (.set path value {})).run.run Wire.serve w []).2.1 :=
    congrArg (·.2.1) hend
  rwa [hfinal]

end ClusterRegistry
