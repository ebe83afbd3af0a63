import ClusterRegistry.Proofs.Store.Edit

/-!
# Expiry

Expiry removes the entries whose lifetime has ended together with everything below them, and leaves
nothing that is due. If it removes anything, it wakes everyone.

* `Contents.IsDoomed`: the lifetime of a key, or of one above it, has ended;
* **`Store.lookup_expire`**: expiry removes what is doomed, and nothing else;
* `Store.exists_expiries`: what ends on its own is recorded;
* `Store.expire_eq_self`, `Store.expire_expire`: a second look finds nothing to do;
* **`Store.expire_quiet`**: expiry that wakes nobody has done nothing.
-/

namespace ClusterRegistry

/-- The lifetime of the key, or of one above it, has ended. -/
def Contents.IsDoomed (m : Contents) (now : Nat) (k : Key) : Prop :=
  ∃ a e, m[a]? = some e ∧ e.IsDue now ∧ k.IsWithin a

instance (m : Contents) (now : Nat) (k : Key) : Decidable (m.IsDoomed now k) :=
  decidable_of_iff (∃ p ∈ m.toList, p.2.IsDue now ∧ k.IsWithin p.1) <| by
    constructor
    · rintro ⟨⟨a, e⟩, hmem, hdue, hin⟩
      exact ⟨a, e, Contents.mem_toList.mp hmem, hdue, hin⟩
    · rintro ⟨a, e, hmem, hdue, hin⟩
      exact ⟨(a, e), Contents.mem_toList.mpr hmem, hdue, hin⟩

namespace Store

variable {s : Store} {now : Nat} {k : Key} {e : Entry}

/-! ## What expiry removes -/

theorem mem_dueKeys : k ∈ s.dueKeys now ↔ ∃ e, s.contents[k]? = some e ∧ e.IsDue now := by
  simp only [dueKeys, List.mem_map, List.mem_filter]
  constructor
  · rintro ⟨⟨a, e⟩, ⟨hmem, hdue⟩, rfl⟩
    exact ⟨e, Contents.mem_toList.mp hmem, by simpa using hdue⟩
  · rintro ⟨e, hmem, hdue⟩
    exact ⟨(k, e), ⟨Contents.mem_toList.mpr hmem, by simpa using hdue⟩, rfl⟩

theorem expireKey_of_none {key : Key} (h : s.contents[key]? = none) : expireKey now s key = s := by
  rw [expireKey, h]

theorem expireKey_of_some {key : Key} (h : s.contents[key]? = some e) :
    expireKey now s key = (s.drop now .expire key e).1 := by
  rw [expireKey, h]

theorem lookup_expireKeys (now : Nat) (keys : List Key) (s : Store) (k : Key) :
    (keys.foldl (expireKey now) s).contents[k]? =
      if ∃ a ∈ keys, s.contents[a]?.isSome ∧ k.IsWithin a then none else s.contents[k]? := by
  induction keys generalizing s with
  | nil => simp
  | cons key rest ih =>
    rw [List.foldl_cons]
    cases h : s.contents[key]? with
    | none =>
      rw [expireKey_of_none h, ih]
      refine if_congr ?_ rfl rfl
      constructor
      · rintro ⟨a, ha, hsome, hin⟩
        exact ⟨a, List.mem_cons_of_mem _ ha, hsome, hin⟩
      · rintro ⟨a, ha, hsome, hin⟩
        rcases List.mem_cons.mp ha with rfl | ha
        · rw [h] at hsome
          cases hsome
        · exact ⟨a, ha, hsome, hin⟩
    | some e =>
      rw [expireKey_of_some h, ih, drop_contents]
      by_cases hk : k.IsWithin key
      · have hgone : (s.contents.prune key)[k]? = none := by
          rw [Contents.lookup_prune, if_pos hk]
        rw [hgone, ite_self, if_pos ⟨key, List.mem_cons_self, by rw [h]; rfl, hk⟩]
      · have hkept : (s.contents.prune key)[k]? = s.contents[k]? := by
          rw [Contents.lookup_prune, if_neg hk]
        rw [hkept]
        refine if_congr ?_ rfl rfl
        constructor
        · rintro ⟨a, ha, hsome, hin⟩
          rw [Contents.lookup_prune] at hsome
          split_ifs at hsome with hwithin
          · cases hsome
          · exact ⟨a, List.mem_cons_of_mem _ ha, hsome, hin⟩
        · rintro ⟨a, ha, hsome, hin⟩
          have hwithin : ¬ a.IsWithin key := fun ha => hk (hin.trans ha)
          rcases List.mem_cons.mp ha with rfl | ha
          · exact absurd (.refl a) hwithin
          · exact ⟨a, ha, by rwa [Contents.lookup_prune, if_neg hwithin], hin⟩

theorem expire_contents (s : Store) (now : Nat) :
    (s.expire now).contents = ((s.dueKeys now).foldl (expireKey now) s).contents := by
  unfold expire
  dsimp only
  split <;> rfl

/-- **Expiry removes what is doomed, and nothing else.** -/
theorem lookup_expire (s : Store) (now : Nat) (k : Key) :
    (s.expire now).contents[k]? =
      if s.contents.IsDoomed now k then none else s.contents[k]? := by
  rw [expire_contents, lookup_expireKeys]
  refine if_congr ?_ rfl rfl
  constructor
  · rintro ⟨a, ha, -, hin⟩
    obtain ⟨e, hmem, hdue⟩ := mem_dueKeys.mp ha
    exact ⟨a, e, hmem, hdue, hin⟩
  · rintro ⟨a, e, hmem, hdue, hin⟩
    exact ⟨a, mem_dueKeys.mpr ⟨e, hmem, hdue⟩, by rw [hmem]; rfl, hin⟩

theorem lookup_of_expire (h : (s.expire now).contents[k]? = some e) :
    s.contents[k]? = some e ∧ ¬ s.contents.IsDoomed now k := by
  rw [lookup_expire] at h
  split_ifs at h with hd
  exact ⟨h, hd⟩

theorem not_isDue_of_expire (h : (s.expire now).contents[k]? = some e) : ¬ e.IsDue now := by
  obtain ⟨hmem, hd⟩ := lookup_of_expire h
  exact fun hdue => hd ⟨k, e, hmem, hdue, .refl k⟩

theorem lt_of_expire {k : Key} {e : Entry} (h : (s.expire now).contents[k]? = some e) :
    ∀ d ∈ e.deadline, now < d := fun d hd =>
  Nat.lt_of_not_le fun hle => not_isDue_of_expire h ⟨d, hd, hle⟩

theorem expire_contents_expire (s : Store) {t t' : Nat} (h : t ≤ t') :
    ((s.expire t).expire t').contents = (s.expire t').contents := by
  have hdue : ∀ e : Entry, e.IsDue t → e.IsDue t' := fun e ⟨d, hd, hle⟩ =>
    ⟨d, hd, Nat.le_trans hle h⟩
  ext1 k
  rw [lookup_expire, lookup_expire s t']
  by_cases hearly : s.contents.IsDoomed t k
  · obtain ⟨a, e, hmem, hd, hin⟩ := hearly
    have hgone : (s.expire t).contents[k]? = none := by
      rw [lookup_expire, if_pos ⟨a, e, hmem, hd, hin⟩]
    rw [hgone, ite_self, if_pos ⟨a, e, hmem, hdue e hd, hin⟩]
  · have hkept : (s.expire t).contents[k]? = s.contents[k]? := by
      rw [lookup_expire, if_neg hearly]
    rw [hkept]
    refine if_congr ⟨?_, ?_⟩ rfl rfl
    · rintro ⟨a, e, hmem, hd, hin⟩
      exact ⟨a, e, (lookup_of_expire hmem).1, hd, hin⟩
    · rintro ⟨a, e, hmem, hd, hin⟩
      refine ⟨a, e, ?_, hd, hin⟩
      -- nothing above a key that is left went before
      rw [lookup_expire, if_neg, hmem]
      rintro ⟨b, x, hb, hx, hab⟩
      exact hearly ⟨b, x, hb, hx, hin.trans hab⟩

/-! ## What expiry records -/

theorem exists_expiriesOf {keys : List Key} (hmem : k ∈ keys) (h : s.contents[k]? = some e)
    (alone : ∀ a ∈ keys, k.IsWithin a → a = k) : ∃ c ∈ expiriesOf now s keys, c.key = k := by
  induction keys generalizing s with
  | nil => cases hmem
  | cons key rest ih =>
    by_cases hk : key = k
    · subst hk
      refine ⟨(s.drop now .expire key e).2, ?_, rfl⟩
      rw [expiriesOf, expireKey_of_some h, recorded?_drop]
      exact List.mem_append_left _ (List.mem_singleton.mpr rfl)
    · have hrest : k ∈ rest := (List.mem_cons.mp hmem).resolve_left fun e => hk e.symm
      have hout : ¬ k.IsWithin key := fun hin => hk (alone key List.mem_cons_self hin)
      -- what goes before it leaves it where it is
      have hkept : (expireKey now s key).contents[k]? = some e := by
        cases hkey : s.contents[key]? with
        | none => rwa [expireKey_of_none hkey]
        | some x => rwa [expireKey_of_some hkey, drop_contents, Contents.lookup_prune, if_neg hout]
      obtain ⟨c, hc, hck⟩ :=
        ih hrest hkept fun a ha hin => alone a (List.mem_cons_of_mem _ ha) hin
      exact ⟨c, List.mem_append_right _ hc, hck⟩

theorem exists_expiries (h : s.contents[k]? = some e) (due : e.IsDue now)
    (alone : ∀ (a : Key) (x : Entry), s.contents[a]? = some x → k.IsBelow a → ¬ x.IsDue now) :
    ∃ c ∈ s.expiries now, c.key = k := by
  refine exists_expiriesOf (mem_dueKeys.mpr ⟨e, h, due⟩) h fun a ha hin => ?_
  obtain ⟨x, hx, hdue⟩ := mem_dueKeys.mp ha
  rcases Key.isWithin_iff.mp hin with heq | hbelow
  · exact heq.symm
  · exact absurd hdue (alone a x hx hbelow)

/-! ## Signals -/

theorem expireKeys_index_le (now : Nat) (keys : List Key) (s : Store) :
    s.index ≤ (keys.foldl (expireKey now) s).index := by
  induction keys generalizing s with
  | nil => exact Nat.le_refl _
  | cons key rest ih =>
    refine Nat.le_trans ?_ (ih (expireKey now s key))
    unfold expireKey
    split
    · exact Nat.le_refl _
    · rw [drop_index]
      exact Nat.le_succ _

theorem expireKeys_signals (now : Nat) (keys : List Key) (s : Store) :
    (keys.foldl (expireKey now) s).signals = s.signals := by
  induction keys generalizing s with
  | nil => rfl
  | cons key rest ih =>
    rw [List.foldl_cons, ih, expireKey]
    split
    · rfl
    · exact drop_signals _ _ _

theorem expire_eq_self (h : ∀ (k : Key) (e : Entry), s.contents[k]? = some e → ¬ e.IsDue now) :
    s.expire now = s := by
  have hnil : s.dueKeys now = [] := by
    refine List.eq_nil_iff_forall_not_mem.mpr fun k hk => ?_
    obtain ⟨e, hmem, hdue⟩ := mem_dueKeys.mp hk
    exact h k e hmem hdue
  simp [expire, hnil]

theorem expire_expire (s : Store) (now : Nat) : (s.expire now).expire now = s.expire now :=
  expire_eq_self fun _ _ h => not_isDue_of_expire h

theorem expire_eq_or_signals (s : Store) (now : Nat) :
    s.expire now = s ∨ (s.expire now).signals = s.signals + 1 := by
  by_cases h : ∃ (k : Key) (e : Entry), s.contents[k]? = some e ∧ e.IsDue now
  · refine Or.inr ?_
    -- the first key that is due is still there when its turn comes
    have hne : ((s.dueKeys now).foldl (expireKey now) s).index ≠ s.index := by
      obtain ⟨k, e, hmem, hdue⟩ := h
      cases hkeys : s.dueKeys now with
      | nil =>
        have := mem_dueKeys.mpr ⟨e, hmem, hdue⟩
        rw [hkeys] at this
        cases this
      | cons key rest =>
        obtain ⟨e', hmem', -⟩ := mem_dueKeys.mp (hkeys ▸ List.mem_cons_self : key ∈ s.dueKeys now)
        have hle := expireKeys_index_le now rest (expireKey now s key)
        rw [expireKey_of_some hmem', drop_index] at hle
        rw [List.foldl_cons, expireKey_of_some hmem']
        omega
    unfold expire
    dsimp only
    rw [if_neg hne]
    exact congrArg (· + 1) (expireKeys_signals now _ s)
  · refine Or.inl (expire_eq_self fun k e hmem hdue => h ⟨k, e, hmem, hdue⟩)

theorem signals_le_expire (s : Store) (now : Nat) : s.signals ≤ (s.expire now).signals := by
  rcases expire_eq_or_signals s now with h | h
  · rw [h]
  · omega

/-- **Expiry that wakes nobody has done nothing.** -/
theorem expire_quiet (h : (s.expire now).signals = s.signals) : s.expire now = s := by
  rcases expire_eq_or_signals s now with h' | h'
  · exact h'
  · omega

end Store

end ClusterRegistry
