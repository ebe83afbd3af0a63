import ClusterRegistry.Proofs.Store.Answer

/-!
# Stores that differ in what they remember

Answers to requests hang on the contents and the index of a store alone. Neither its history nor the
number of its signals matters.

* `Store.Twin`: the same contents and the same index;
* `Store.Twin.expiries`, `Store.Twin.expire`: twins expire alike;
* `Store.SameOutcome`, **`Store.Twin.perform`**: twins answer requests alike and stay twins;
* `Store.Twin.answer?`: they also answer waits alike, if they remember the same log.
-/

namespace ClusterRegistry.Store

/-- Two stores with the same contents and the same index. -/
structure Twin (s t : Store) : Prop where
  contents : s.contents = t.contents
  index : s.index = t.index

namespace Twin

variable {s t u : Store} {now : Nat}

theorem refl (s : Store) : s.Twin s := ⟨rfl, rfl⟩

theorem symm (h : s.Twin t) : t.Twin s := ⟨h.contents.symm, h.index.symm⟩

theorem trans (h : s.Twin t) (h' : t.Twin u) : s.Twin u :=
  ⟨h.contents.trans h'.contents, h.index.trans h'.index⟩

theorem signal (h : s.Twin t) : s.signal.Twin t.signal := ⟨h.contents, h.index⟩

/-! ## Expiry -/

theorem drop (h : s.Twin t) (now : Nat) (action : Action) (key : Key) (e : Entry) :
    (s.drop now action key e).1.Twin (t.drop now action key e).1 ∧
      (s.drop now action key e).2 = (t.drop now action key e).2 := by
  refine ⟨⟨?_, ?_⟩, ?_⟩
  · rw [drop_contents, drop_contents, h.contents]
  · rw [drop_index, drop_index, h.index]
  · unfold Store.drop
    rw [h.index]

theorem expireKey (h : s.Twin t) (now : Nat) (key : Key) :
    (expireKey now s key).Twin (expireKey now t key) ∧
      s.recorded? (Store.expireKey now s key) = t.recorded? (Store.expireKey now t key) := by
  cases he : s.contents[key]? with
  | none =>
    rw [expireKey_of_none he, expireKey_of_none (h.contents ▸ he), recorded?_self, recorded?_self]
    exact ⟨h, rfl⟩
  | some e =>
    obtain ⟨htwin, hchange⟩ := h.drop now .expire key e
    rw [expireKey_of_some he, expireKey_of_some (h.contents ▸ he), recorded?_drop, recorded?_drop,
      hchange]
    exact ⟨htwin, rfl⟩

theorem expireKeys (h : s.Twin t) (keys : List Key) :
    (keys.foldl (Store.expireKey now) s).Twin (keys.foldl (Store.expireKey now) t) ∧
      expiriesOf now s keys = expiriesOf now t keys := by
  induction keys generalizing s t with
  | nil => exact ⟨h, rfl⟩
  | cons key rest ih =>
    obtain ⟨htwin, hrecorded⟩ := h.expireKey now key
    obtain ⟨hstore, hlog⟩ := ih htwin
    refine ⟨hstore, ?_⟩
    rw [expiriesOf, expiriesOf, hrecorded, hlog]

theorem dueKeys (h : s.Twin t) : s.dueKeys now = t.dueKeys now := by
  unfold Store.dueKeys
  rw [h.contents]

theorem expiries (h : s.Twin t) (now : Nat) : s.expiries now = t.expiries now := by
  unfold Store.expiries
  rw [h.dueKeys]
  exact (h.expireKeys _).2

theorem expireKeys_expire (s : Store) (now : Nat) :
    (s.expire now).Twin ((s.dueKeys now).foldl (Store.expireKey now) s) := by
  unfold Store.expire
  dsimp only
  split
  · exact .refl _
  · exact ⟨rfl, rfl⟩

theorem expire (h : s.Twin t) (now : Nat) : (s.expire now).Twin (t.expire now) := by
  refine (expireKeys_expire s now).trans (.trans ?_ (expireKeys_expire t now).symm)
  rw [h.dueKeys]
  exact (h.expireKeys _).1

/-! ## Requests -/

theorem put (h : s.Twin t) (now : Nat) (key : Key) (prev : Option Entry) (value : String)
    (options : SetOptions) :
    (s.put now key prev value options).1.Twin (t.put now key prev value options).1 ∧
      (s.put now key prev value options).2 = (t.put now key prev value options).2 := by
  refine ⟨⟨?_, ?_⟩, ?_⟩
  · rw [put_contents, put_contents, h.contents, h.index]
    unfold written
    rw [h.index]
  · rw [put_index, put_index, h.index]
  · unfold Store.put
    rw [h.index]

theorem refresh (h : s.Twin t) (now : Nat) (key : Key) (e : Entry) (lifetime : Option Nat) :
    (s.refresh now key e lifetime).1.Twin (t.refresh now key e lifetime).1 ∧
      (s.refresh now key e lifetime).2 = (t.refresh now key e lifetime).2 := by
  refine ⟨⟨?_, h.index⟩, ?_⟩
  · exact congrArg (fun m => Std.ExtTreeMap.insert m key _) h.contents
  · unfold Store.refresh
    rw [h.index]

end Twin

/-- The same answer, and stores that are twins and have recorded the same. -/
inductive SameOutcome (s t : Store) :
    Except Refusal (Store × Response) → Except Refusal (Store × Response) → Prop
  | refused (refusal : Refusal) : SameOutcome s t (.error refusal) (.error refusal)
  | served {s' t' : Store} (twin : s'.Twin t') (recorded : s.recorded? s' = t.recorded? t')
      (response : Response) : SameOutcome s t (.ok (s', response)) (.ok (t', response))

namespace Twin

variable {s t : Store} {now : Nat}

theorem refuse (h : s.Twin t) (code : Nat) (cause : String) :
    SameOutcome s t (s.refuse code cause) (t.refuse code cause) := by
  unfold Store.refuse
  rw [h.index]
  exact .refused _

theorem read (h : s.Twin t) (path : String) (options : GetOptions) :
    s.read now path options = t.read now path options := by
  unfold Store.read Store.refuse
  rw [h.contents, h.index]

theorem write (h : s.Twin t) (path value : String) (options : SetOptions) :
    SameOutcome s t (s.write now path value options) (t.write now path value options) := by
  unfold Store.write
  dsimp only
  rw [h.contents]
  split_ifs
  · exact h.refuse _ _
  · exact h.refuse _ _
  · exact h.refuse _ _
  · split
    · exact h.refuse _ _
    · rename_i e _
      obtain ⟨htwin, hresponse⟩ := h.refresh now (.ofPath path) e options.lifetime
      change SameOutcome s t (.ok (_, (s.refresh now _ e _).2)) (.ok (_, (t.refresh now _ e _).2))
      rw [hresponse]
      exact .served htwin (by rw [recorded?_refresh, recorded?_refresh]) _
  · exact h.refuse _ _
  · split
    · exact h.refuse _ _
    · obtain ⟨htwin, hchange⟩ :=
        h.put now (.ofPath path) t.contents[Key.ofPath path]? value options
      rw [hchange]
      exact .served htwin (by rw [recorded?_put, recorded?_put, hchange]) _

theorem remove (h : s.Twin t) (path : String) (options : DeleteOptions) :
    SameOutcome s t (s.remove now path options) (t.remove now path options) := by
  unfold Store.remove
  dsimp only
  rw [h.contents]
  split_ifs
  · exact h.refuse _ _
  · split
    · exact h.refuse _ _
    · rename_i e _
      split_ifs
      · exact h.refuse _ _
      · exact h.refuse _ _
      · obtain ⟨htwin, hchange⟩ := h.drop now .delete (.ofPath path) e
        rw [hchange]
        refine .served htwin.signal ?_ _
        calc s.recorded? (s.drop now .delete (.ofPath path) e).1
            = t.recorded? (t.drop now .delete (.ofPath path) e).1 := by
              rw [recorded?_drop, recorded?_drop, hchange]

/-- **Twins answer requests alike, record the same and stay twins.** -/
theorem perform (h : s.Twin t) (now : Nat) (q : Request) :
    SameOutcome s t (s.perform now q) (t.perform now q) := by
  cases q with
  | get path options =>
    change SameOutcome s t ((s.read now path options).map (s, ·))
      ((t.read now path options).map (t, ·))
    rw [h.read]
    cases t.read now path options with
    | error refusal => exact .refused _
    | ok response => exact .served h (by rw [recorded?_self, recorded?_self]) _
  | set path value options => exact h.write path value options
  | delete path options => exact h.remove path options

theorem serve (h : (s.expire now).Twin (t.expire now)) (q : Request) :
    (s.serve now q).2 = (t.serve now q).2 ∧ (s.serve now q).1.Twin (t.serve now q).1 ∧
      ∃ new, s.changes now q = s.expiries now ++ new ∧ t.changes now q = t.expiries now ++ new := by
  have hout := h.perform now q
  cases hs : (s.expire now).perform now q with
  | error refusal =>
    rw [hs] at hout
    cases ht : (t.expire now).perform now q with
    | ok answer => rw [ht] at hout; cases hout
    | error refusal' =>
      rw [ht] at hout
      cases hout
      rw [serve_of_error hs, serve_of_error ht, changes_of_error hs, changes_of_error ht]
      exact ⟨rfl, h, [], (List.append_nil _).symm, (List.append_nil _).symm⟩
  | ok answer =>
    rw [hs] at hout
    cases ht : (t.expire now).perform now q with
    | error refusal => rw [ht] at hout; cases hout
    | ok answer' =>
      rw [ht] at hout
      cases hout with
      | served twin recorded response =>
        rw [serve_of_ok hs, serve_of_ok ht, changes_of_ok hs, changes_of_ok ht, recorded]
        exact ⟨rfl, twin, _, rfl, rfl⟩

/-! ## Waits -/

theorem answer? (h : s.Twin t) {log : List Change} (hs : s.Remembers log) (ht : t.Remembers log)
    (key : Key) (recursive : Bool) (after : Nat) :
    s.answer? key recursive after = t.answer? key recursive after := by
  have hev : s.evictedUpTo = t.evictedUpTo := by rw [hs.evicted, ht.evicted, h.index]
  have hhistory : s.history = t.history := by rw [hs.kept, ht.kept, hev]
  unfold Store.answer? firstChange? cleared
  rw [hev, hhistory, h.index]

end Twin

end ClusterRegistry.Store
