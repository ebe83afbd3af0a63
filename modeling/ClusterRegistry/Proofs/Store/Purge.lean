import ClusterRegistry.Proofs.Store.Effect
import ClusterRegistry.Proofs.Store.Heads

/-!
# Expiry as a loop

A store that looks for one expired key at a time scans its entries from the beginning after every
removal. Since a removal takes along what is below the key, and since no key comes before those
above it, each scan finds the next of the keys that a single scan would have found.

* `Store.firstDue?`, `Store.Purge`: one scan, and the loop from its beginning to its end;
* `Store.dueKeys_drop`, `Store.exists_purge`: every removal leaves fewer keys, so the loop ends;
* **`Store.purge_iff`**: it comes to what a single scan comes to;
* `Store.Purge.reports`, `Store.Remembers.history_append`: what is recorded, and what is kept of it;
* `Store.Purged`, **`Course.run_purge`**: what the loop does to a store.
-/

namespace ClusterRegistry

namespace Store

variable {s s' : Store} {now : Nat} {key : Key} {e : Entry} {changes : List Change}

/-! ## The loop -/

/-- The first entry whose lifetime has ended. -/
def firstDue? (s : Store) (now : Nat) : Option (Key × Entry) :=
  s.contents.toList.find? fun p => p.2.IsDue now

/-- One expired key after the other is removed and reported, until a scan finds none. -/
inductive Purge (now : Nat) : Store → List Change → Store → Prop
  | done {s : Store} (clean : s.firstDue? now = none) : Purge now s [] s
  | next {s s' : Store} {key : Key} {e : Entry} {changes : List Change}
      (due : s.firstDue? now = some (key, e))
      (rest : Purge now (s.drop now .expire key e).1 changes s') :
      Purge now s ((s.drop now .expire key e).2 :: changes) s'

/-! ## One scan -/

theorem firstDue?_eq (s : Store) (now : Nat) :
    s.firstDue? now = (s.contents.toList.filter fun p => p.2.IsDue now).head? :=
  List.head?_filter.symm

theorem firstDue?_eq_none : s.firstDue? now = none ↔ s.dueKeys now = [] := by
  rw [firstDue?_eq, List.head?_eq_none_iff]
  exact List.map_eq_nil_iff.symm

theorem dueKeys_eq_cons (h : s.firstDue? now = some (key, e)) :
    (∃ rest, s.dueKeys now = key :: rest) ∧ s.contents[key]? = some e ∧ e.IsDue now := by
  have hdue : e.IsDue now := by simpa using List.find?_some h
  refine ⟨?_, Contents.mem_toList.mp (List.mem_of_find?_eq_some h), hdue⟩
  rw [firstDue?_eq] at h
  obtain ⟨rest, hrest⟩ := List.head?_eq_some_iff.mp h
  exact ⟨rest.map Prod.fst, congrArg (List.map Prod.fst) hrest⟩

theorem dueKeys_drop (s : Store) (now : Nat) (action : Action) (key : Key) (e : Entry) :
    (s.drop now action key e).1.dueKeys now =
      (s.dueKeys now).filter fun k => ¬ k.IsWithin key := by
  rw [dueKeys, drop_contents, Contents.prune, Std.ExtTreeMap.toList_filter, dueKeys,
    List.filter_map, List.filter_filter, List.filter_filter]
  refine congrArg (List.map Prod.fst) (List.filter_congr fun p _ => ?_)
  exact Bool.and_comm _ _

/-! ## From the beginning to the end -/

/-- **The loop ends:** whatever the store, every removal leaves fewer expired keys. -/
theorem exists_purge (s : Store) (now : Nat) : ∃ changes s', Purge now s changes s' := by
  cases hfirst : s.firstDue? now with
  | none => exact ⟨[], s, .done hfirst⟩
  | some p =>
    obtain ⟨key, e⟩ := p
    have hfewer : ((s.drop now .expire key e).1.dueKeys now).length < (s.dueKeys now).length := by
      obtain ⟨⟨rest, hrest⟩, -, -⟩ := dueKeys_eq_cons hfirst
      rw [dueKeys_drop, hrest, List.filter_cons_of_neg (by simpa using Key.IsWithin.refl key),
        List.length_cons]
      exact Nat.lt_succ_of_le (List.length_filter_le _ _)
    obtain ⟨changes, s', hpurge⟩ := exists_purge (s.drop now .expire key e).1 now
    exact ⟨_, s', .next hfirst hpurge⟩
termination_by (s.dueKeys now).length

/-- What the loop leaves and records is what a single scan leaves and records. -/
theorem Purge.eq (h : Purge now s changes s') :
    changes = s.expiries now ∧ s' = (s.dueKeys now).foldl (expireKey now) s := by
  induction h with
  | done clean =>
    rw [expiries, firstDue?_eq_none.mp clean]
    exact ⟨rfl, rfl⟩
  | @next s s' key e changes due rest ih =>
    obtain ⟨⟨keys, hkeys⟩, hpresent, -⟩ := dueKeys_eq_cons due
    obtain ⟨hchanges, hstore⟩ := ih
    have hleft : (s.drop now .expire key e).1.dueKeys now =
        keys.filter fun k => ¬ k.IsWithin key := by
      rw [dueKeys_drop, hkeys, List.filter_cons_of_neg (by simpa using Key.IsWithin.refl key)]
    -- the single scan meets the keys below, but they are gone by then
    have hgone : ∀ pre k, pre ++ [k] <+: keys → ¬ ¬ k.IsWithin key →
        (pre.foldl (expireKey now) (s.drop now .expire key e).1).contents[k]? = none := by
      intro pre k _ hk
      rw [lookup_expireKeys, drop_contents, Contents.lookup_prune, if_pos (not_not.mp hk), ite_self]
    obtain ⟨hfold, hlog⟩ := expiriesOf_filter hgone
    rw [expiries, hleft, hlog] at hchanges
    rw [hleft, hfold] at hstore
    rw [expiries, hkeys, expiriesOf, List.foldl_cons, expireKey_of_some hpresent, recorded?_drop]
    exact ⟨congrArg _ hchanges, hstore⟩

/-- **The loop comes to what a single scan comes to.** -/
theorem purge_iff : Purge now s changes s' ↔
    changes = s.expiries now ∧ s' = (s.dueKeys now).foldl (expireKey now) s := by
  refine ⟨Purge.eq, ?_⟩
  rintro ⟨rfl, rfl⟩
  obtain ⟨changes, s', hpurge⟩ := exists_purge s now
  obtain ⟨rfl, rfl⟩ := hpurge.eq
  exact hpurge

/-! ## What is recorded -/

theorem Purge.reports (h : Purge now s changes s') : ∀ c ∈ changes, ∃ e,
    s.contents[c.key]? = some e ∧ c.action = .expire ∧ c.prev = some (e.snapshot now) ∧
      c.node = ⟨none, e.dir, none, e.createdIndex, c.index⟩ := by
  induction h with
  | done clean => exact fun c hc => absurd hc List.not_mem_nil
  | @next s s' key e changes due rest ih =>
    intro c hc
    rcases List.mem_cons.mp hc with rfl | hc
    · exact ⟨e, (dueKeys_eq_cons due).2.1, rfl, rfl, rfl⟩
    · obtain ⟨x, hx, hreport⟩ := ih c hc
      rw [drop_contents, Contents.lookup_prune] at hx
      split_ifs at hx
      exact ⟨x, hx, hreport⟩

theorem Remembers.history_append {log : List Change} (h : s.Remembers log)
    (h' : s'.Remembers (log ++ changes)) : s'.history =
      (s.history ++ changes).drop (s.history.length + changes.length - historyCapacity) := by
  have hlen := h.length
  have hlen' := h'.length
  have hev := h.evicted
  have hev' := h'.evicted
  rw [List.length_append] at hlen'
  rw [h'.kept, h.kept, ← List.drop_append_of_le_length (by omega), List.drop_drop, List.length_drop]
  refine congrArg (fun n => (log ++ changes).drop n) ?_
  generalize historyCapacity = capacity at *
  omega

/-- What becomes of a store and its history when everything expired is removed. -/
structure Purged (s : Store) (now : Nat) (changes : List Change) (s' : Store) : Prop where
  /-- No lifetime that has ended is left. -/
  clean : ∀ (k : Key) (e : Entry), s'.contents[k]? = some e → ¬ e.IsDue now
  /-- What has gone had expired itself, or a key above it had. -/
  contents : ∀ k : Key, s'.contents[k]? =
    if s.contents.IsDoomed now k then none else s.contents[k]?
  /-- A change is recorded for each expired key that does not go with one above it. -/
  keys : ∀ k : Key, k ∈ changes.map (·.key) ↔
    (∃ e, s.contents[k]? = some e ∧ e.IsDue now) ∧
      ∀ (a : Key) (x : Entry), s.contents[a]? = some x → k.IsBelow a → ¬ x.IsDue now
  ordered : (changes.map (·.key)).Pairwise fun k l => k.text < l.text
  reports : ∀ c ∈ changes, ∃ e, s.contents[c.key]? = some e ∧ c.action = .expire ∧
    c.prev = some (e.snapshot now) ∧ c.node = ⟨none, e.dir, none, e.createdIndex, c.index⟩
  numbered : changes.map (·.index) = List.range' (s.index + 1) changes.length
  index : s'.index = s.index + changes.length
  history : s'.history =
    (s.history ++ changes).drop (s.history.length + changes.length - historyCapacity)
  evictedUpTo : s'.evictedUpTo = s'.index - historyCapacity

theorem Purge.purged {log : List Change} (h : Purge now s changes s') (hlog : s.Remembers log) :
    s.Purged now changes s' := by
  obtain ⟨rfl, rfl⟩ := h.eq
  have hedits := expiriesOf_edits now s (s.dueKeys now)
  have hlog' := hedits.remembers hlog
  have hcontents := s.expire_contents now
  exact {
    clean := fun k e he => not_isDue_of_expire (hcontents ▸ he)
    contents := fun k => hcontents ▸ lookup_expire s now k
    keys := fun k => by
      rw [keys_expiries, mem_heads, mem_dueKeys]
      refine and_congr_right fun _ => ⟨?_, ?_⟩
      · exact fun halone a x hx hbelow hdue => halone a (mem_dueKeys.mpr ⟨x, hx, hdue⟩) hbelow
      · intro halone a ha hbelow
        obtain ⟨x, hx, hdue⟩ := mem_dueKeys.mp ha
        exact halone a x hx hbelow hdue
    ordered := by
      rw [keys_expiries]
      exact s.heads_sorted now
    reports := h.reports
    numbered := hedits.numbered
    index := hedits.index
    history := hlog.history_append hlog'
    evictedUpTo := hlog'.evicted }

end Store

/-! ## The main result -/

/-- **In every store that has come about, and at any time, the loop ends, and in one way only.**
It leaves nothing that has expired and removes nothing but that and what is below it. For each
expired key that does not go with one above it, it records one change, in the order of the keys and
under the next indices. An access removes what the loop removes, and wakes everyone if that is
anything. -/
theorem Course.run_purge (steps : List Step) (now : Nat) :
    let s := (run steps).store
    ∃ changes s', (∀ new final, Store.Purge now s new final ↔ new = changes ∧ final = s') ∧
      s.Purged now changes s' ∧
      s.expire now = if changes = [] then s' else s'.signal := by
  intro s
  obtain ⟨changes, s', hpurge⟩ := s.exists_purge now
  have hpurged := hpurge.purged (run_remembers steps)
  refine ⟨changes, s', fun new final => ?_, hpurged, ?_⟩
  · obtain ⟨rfl, rfl⟩ := hpurge.eq
    exact Store.purge_iff
  · obtain ⟨hchanges, hs'⟩ := hpurge.eq
    have hindex := hpurged.index
    unfold Store.expire
    dsimp only
    rw [← hs']
    by_cases hnil : changes = []
    · rw [if_pos hnil, if_pos (by rw [hindex, hnil]; rfl)]
    · have hpos := List.length_pos_iff.mpr hnil
      rw [if_neg hnil, if_neg (by omega)]

end ClusterRegistry
