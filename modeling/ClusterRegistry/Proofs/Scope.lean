import ClusterRegistry.Scope
import ClusterRegistry.Proofs.Client.Wire
import ClusterRegistry.Proofs.Path
import ClusterRegistry.Proofs.Store.Course
import ClusterRegistry.Proofs.Store.Frame

/-!
# Scopes are isolated

However a parent path and the keys in a scope are spelled, its operations ask for nothing outside.
What they do ends with the scope, whether their requests are answered or not.

* `Scope.key`, `Scope.Offers`: where a scope lies, and its operations;
* `Scope.Offers.asks`: the requests of an operation are for keys within the scope;
* `Wire.exec_outside`: what becomes of everything outside;
* `Scope.clear_served`: what is left after a scope has been removed;
* **`Scope.isolated`**: scopes beside each other.
-/

namespace ClusterRegistry

namespace Scope

/-- The key that holds a scope. -/
def key (s : Scope) : Key := .ofPath s.parent

/-- The operations that a scope offers, with any arguments. -/
inductive Offers (s : Scope) : {α : Type} → Operation α → Prop
  | set (key value : String) : Offers s (s.set key value)
  | setFor (key value : String) (seconds : Int) : Offers s (s.setFor key value seconds)
  | refresh (key : String) (seconds : Int) : Offers s (s.refresh key seconds)
  | get (key : String) : Offers s (s.get key)
  | getAll : Offers s s.getAll
  | delete (key : String) : Offers s (s.delete key)
  | deleteAll (key : String) : Offers s (s.deleteAll key)
  | exists? (key : String) : Offers s (s.exists? key)
  | clear : Offers s s.clear
  | get? (key : String) : Offers s (s.get? key)

/-! ## What the operations ask -/

variable (s : Scope)

/-- The request is for the scope or something in it. -/
def Holds (r : Request) : Prop := r.key.IsWithin s.key

theorem path_isWithin (key : String) : (Key.ofPath (s.path key)).IsWithin s.key := by
  change Path.segments s.parent <+: (Key.ofPath (Path.join s.parent key)).segments
  rw [Key.segments_ofPath_join]
  exact List.prefix_append _ _

section Asks

variable {s} {α : Type}

theorem request_asks {β : Type} (operation path : String) {r : Request} (hr : s.Holds r)
    (f : Response → β) :
    (do return f (← s.client.request operation path r) : Operation β).Asks s.Holds :=
  .bind (s.client.request_asks operation path hr) fun _ => .pure _

theorem lifetimeOf_asks (path : String) (seconds : Int) :
    (lifetimeOf path seconds).Asks s.Holds := by
  unfold lifetimeOf
  split_ifs <;> exact trivial

theorem get_asks (key : String) : (s.get key).Asks s.Holds := by
  refine .during (request_asks _ _ ?_ _) _
  exact s.path_isWithin key

theorem exists?_asks (key : String) : (s.exists? key).Asks s.Holds := by
  refine .during (.bind (.outcome (s.client.request_asks _ _ ?_)) fun answer => ?_) _
  · exact s.path_isWithin key
  · cases answer with
    | ok response => exact .pure _
    | error f =>
      dsimp only
      split_ifs <;> exact trivial

/-- **An operation asks only for what lies in the scope.** -/
theorem Offers.asks {x : Operation α} (h : s.Offers x) : x.Asks s.Holds := by
  cases h with
  | set key value =>
    refine .during (.bind (request_asks _ _ ?_ _) fun _ => .pure _) _
    exact s.path_isWithin key
  | setFor key value seconds =>
    refine .bind (lifetimeOf_asks _ _) fun lifetime => ?_
    refine .during (.bind (request_asks _ _ ?_ _) fun _ => .pure _) _
    exact s.path_isWithin key
  | refresh key seconds =>
    refine .bind (lifetimeOf_asks _ _) fun lifetime => .during (request_asks _ _ ?_ _) _
    exact s.path_isWithin key
  | get key => exact get_asks key
  | getAll =>
    refine .during (request_asks _ _ ?_ _) _
    exact Key.IsWithin.refl _
  | delete key =>
    refine .during (request_asks _ _ ?_ _) _
    exact s.path_isWithin key
  | deleteAll key =>
    refine .during (request_asks _ _ ?_ _) _
    exact s.path_isWithin key
  | exists? key => exact exists?_asks key
  | clear =>
    refine .during (request_asks _ _ ?_ _) _
    exact Key.IsWithin.refl _
  | get? key =>
    refine .bind (exists?_asks key) fun there => ?_
    cases there with
    | false => exact .pure _
    | true =>
      refine .bind (get_asks key).outcome fun answer => ?_
      cases answer with
      | ok value => exact .pure _
      | error f =>
        dsimp only
        split_ifs <;> exact trivial

end Asks

end Scope

/-! ## Outside a scope -/

namespace Wire

variable {m : Contents} {key : Key}

theorem serve_outside {w : Wire} {r : Request} (hr : r.key.IsWithin key)
    (h : m.KeptOutside key w.now w.store.contents) :
    m.KeptOutside key (w.serve r).1.now (w.serve r).1.store.contents := by
  have hlater := h.mono (Nat.le_add_right w.now (w.handlings.headD (0, .answered)).1)
  unfold serve
  dsimp only
  split
  · exact hlater.serve hr
  · exact hlater
  · exact hlater.serve hr

/-- An operation keeps what stands outside the key that all its requests are within. -/
theorem exec_outside {α : Type} {x : Operation α} (hx : x.Asks fun r => r.key.IsWithin key)
    (w : Wire) : w.store.contents.KeptOutside key (w.exec x.run).2.now
      (w.exec x.run).2.store.contents := by
  refine Program.Asks.keep
    (P := fun w' : Wire => w.store.contents.KeptOutside key w'.now w'.store.contents) ?_ hx ?_ []
  · intro w' r hr h
    exact serve_outside hr h
  · exact .refl _ _ _

end Wire

/-! ## The end of a scope -/

theorem Store.serve_delete (s : Store) (now : Nat) (path : String) (options : DeleteOptions) :
    (∃ refusal, s.serve now (.delete path options) = (s.expire now, .error refusal)) ∨
    ∃ response s', s.serve now (.delete path options) = (s', .ok response) ∧
      (s.expire now).contents[Key.ofPath path]? ≠ none ∧
      s'.contents = (s.expire now).contents.prune (.ofPath path) := by
  have houtcome := (s.expire now).perform_outcome now (.delete path options)
  cases hperform : (s.expire now).perform now (.delete path options) with
  | error refusal => exact .inl ⟨refusal, serve_of_error hperform⟩
  | ok answer =>
    rw [hperform] at houtcome
    cases houtcome with
    | dropped present =>
      exact .inr ⟨_, _, serve_of_ok hperform, present ▸ Option.some_ne_none _, drop_contents _ _ _⟩

namespace Wire

/-- The key is gone, or nothing has happened to a store but that lifetimes have ended. -/
def Spares (start : Store) (key : Key) (w : Wire) : Prop :=
  w.store.contents[key]? = none ∨
    ∀ t, w.now ≤ t → (w.store.expire t).contents = (start.expire t).contents

variable {start : Store} {path : String} {options : DeleteOptions} {w : Wire}

theorem Spares.later (h : w.Spares start (.ofPath path)) (pause : Nat)
    (handlings : List (Nat × Handling)) :
    Spares start (.ofPath path) ⟨w.store, w.now + pause, handlings⟩ :=
  h.imp_right fun hsame t ht => hsame t (Nat.le_trans (Nat.le_add_right _ _) ht)

theorem Spares.expire (h : w.Spares start (.ofPath path)) :
    Spares start (.ofPath path) { w with store := w.store.expire w.now } := by
  refine h.imp (fun hgone => ?_) fun hsame t ht => ?_
  · rw [Store.lookup_expire, hgone, ite_self]
  · exact (w.store.expire_contents_expire ht).trans (hsame t ht)

theorem Spares.serve {f : RequestFailure} (h : w.Spares start (.ofPath path))
    (hfail : (w.serve (.delete path options)).2 = .error f) :
    Spares start (.ofPath path) (w.serve (.delete path options)).1 := by
  have hlater := h.later (w.handlings.headD (0, .answered)).1 w.handlings.tail
  have hanswer := w.store.serve_delete (w.now + (w.handlings.headD (0, .answered)).1) path options
  unfold Wire.serve at hfail ⊢
  dsimp only at hfail ⊢
  split at hfail
  · rcases hanswer with ⟨refusal, hserve⟩ | ⟨response, s', hserve, -⟩
    · rw [hserve]
      exact hlater.expire
    · rw [hserve] at hfail
      cases hfail
  · exact hlater
  · rcases hanswer with ⟨refusal, hserve⟩ | ⟨response, s', hserve, -, hpruned⟩
    · rw [hserve]
      exact hlater.expire
    · refine .inl ?_
      rw [hserve, hpruned, Contents.lookup_prune, if_pos (.refl _)]

theorem Spares.serve_ok {w' : Wire} {response : Response} (h : w.Spares start (.ofPath path))
    (hserve : w.serve (.delete path options) = (w', .ok response)) :
    (start.expire w'.now).contents[Key.ofPath path]? ≠ none ∧
      w'.store.contents = (start.expire w'.now).contents.prune (.ofPath path) := by
  have hlater := h.later (w.handlings.headD (0, .answered)).1 w.handlings.tail
  have hanswer := w.store.serve_delete (w.now + (w.handlings.headD (0, .answered)).1) path options
  unfold Wire.serve at hserve
  dsimp only at hserve
  split at hserve
  · rcases hanswer with ⟨refusal, hrefused⟩ | ⟨response, s', hdone, hpresent, hpruned⟩
    · rw [hrefused] at hserve
      cases hserve
    · rw [hdone] at hserve
      cases hserve
      rcases hlater with hgone | hsame
      · rw [Store.lookup_expire, hgone, ite_self] at hpresent
        exact absurd rfl hpresent
      · rw [hsame _ (Nat.le_refl _)] at hpresent hpruned
        exact ⟨hpresent, hpruned⟩
  · cases hserve
  · cases hserve

end Wire

namespace Scope

variable (s : Scope) (w : Wire)

/-- **What is left after a scope has been removed.** -/
theorem clear_served (h : (w.exec s.clear.run).1 = .ok ()) :
    (w.store.expire (w.exec s.clear.run).2.now).contents[s.key]? ≠ none ∧
      (w.exec s.clear.run).2.store.contents =
        (w.store.expire (w.exec s.clear.run).2.now).contents.prune s.key := by
  obtain ⟨hremoved, hstate⟩ := Operation.run_of_during h
  obtain ⟨response, hrequest, hend⟩ := Operation.run_of_bind hremoved
  obtain ⟨w', hspares, hserve⟩ := s.client.request_served _ _ (P := Wire.Spares w.store s.key)
    (fun w' f hw hfail => hw.serve hfail) (.inr fun t _ => rfl) hrequest
  have hfinal : (w.exec s.clear.run).2 = ((s.client.request "delete_recursive" s.parent
      (.delete s.parent { recursive := true, dir := true })).run.run Wire.serve w []).2.1 :=
    hstate.trans (congrArg (·.2.1) hend)
  rw [hfinal]
  exact hspares.serve_ok hserve

/-- **Scopes beside each other do not touch each other.** Whatever an operation of a scope does,
what lies at or below a path beside the scope is there afterwards or has expired. If the scope is
removed, exactly the scope and what is below it is gone, apart from what has expired. -/
theorem isolated :
    (∀ {α : Type} {x : Operation α}, s.Offers x → ∀ other : String,
      ¬ Path.segments s.parent <+: Path.segments other →
      ¬ Path.segments other <+: Path.segments s.parent →
      ∀ k : Key, k.IsWithin (.ofPath other) →
        (w.exec x.run).2.store.contents[k]? = w.store.contents[k]? ∨
        (w.exec x.run).2.store.contents[k]? = none ∧
          w.store.contents.IsDoomed (w.exec x.run).2.now k) ∧
    ((w.exec s.clear.run).1 = .ok () →
      (w.store.contents[s.key]? ≠ none ∧
        ¬ w.store.contents.IsDoomed (w.exec s.clear.run).2.now s.key) ∧
      ∀ k : Key, (w.exec s.clear.run).2.store.contents[k]? =
        if k.IsWithin s.key ∨ w.store.contents.IsDoomed (w.exec s.clear.run).2.now k then none
        else w.store.contents[k]?) := by
  constructor
  · intro α x hx other hout hin k hk
    have hkept := Wire.exec_outside hx.asks w
    refine hkept.apart (fun hks => ?_) fun hsk => ?_
    · -- both paths lead to the key, so one continues the other
      rcases List.prefix_or_prefix_of_prefix hk hks with h | h
      · exact hin h
      · exact hout h
    · exact hin (hsk.trans hk)
  · intro h
    obtain ⟨hpresent, hcontents⟩ := s.clear_served w h
    obtain ⟨e, he⟩ := Option.ne_none_iff_exists'.mp hpresent
    obtain ⟨hbefore, hlasting⟩ := Store.lookup_of_expire he
    refine ⟨⟨hbefore ▸ Option.some_ne_none e, hlasting⟩, fun k => ?_⟩
    rw [hcontents, Contents.lookup_prune, Store.lookup_expire]
    by_cases hk : k.IsWithin s.key
    · rw [if_pos hk, if_pos (.inl hk)]
    · rw [if_neg hk, if_congr (or_iff_right hk) rfl rfl]

/-- The settings of one purpose are removed, at the second attempt, and those with a longer name
stay but for a lifetime that ends in between. -/
theorem isolated_clear_sibling :
    let c : Course := Course.run [.request (.set "/config/nginx/a" "1" {}),
      .request (.set "/config/nginx-ingress/b" "2" {}),
      .request (.set "/config/nginx-ingress/c" "3" { lifetime := some 1000 })]
    let w : Wire := ⟨c.store, c.now, [(500, .lost (.timedOut 5)), (700, .answered)]⟩
    let s : Scope := ⟨{ retry := .constant 10 2, timeout := 5, bufferSize := 0 }, "config//nginx/"⟩
    let w' := (w.exec s.clear.run).2
    (∀ k : Key, k.IsWithin (.ofPath "/config/nginx-ingress") →
      w'.store.contents[k]? = w.store.contents[k]? ∨
        w'.store.contents[k]? = none ∧ w.store.contents.IsDoomed w'.now k) ∧
      w'.store.contents[Key.ofPath "/config/nginx-ingress/b"]? ≠ none ∧
      w'.store.contents[Key.ofPath "/config/nginx-ingress/c"]? = none ∧
      w'.store.contents[Key.ofPath "/config/nginx"]? = none := by
  intro c w s w'
  obtain ⟨hbeside, hclear⟩ := s.isolated w
  have hok : (w.exec s.clear.run).1 = .ok () := by decide +kernel
  refine ⟨hbeside .clear "/config/nginx-ingress" ?_ ?_, ?_, ?_, ?_⟩
  · decide +kernel
  · decide +kernel
  · rw [(hclear hok).2, if_neg] <;> decide +kernel
  · rw [(hclear hok).2, if_pos]
    decide +kernel
  · rw [(hclear hok).2, if_pos]
    decide +kernel

end Scope

end ClusterRegistry
