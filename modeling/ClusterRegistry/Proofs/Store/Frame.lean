import ClusterRegistry.Proofs.Store.Expiry

/-!
# What a request leaves alone

A request for a key leaves everything outside that key as it was, but for the directories above it,
which appear where nothing was, and for what its lifetime takes away.

* `Request.key`: the key that a request is for;
* `Contents.KeptOutside`: contents compared with earlier ones, outside a key;
* **`Contents.KeptOutside.serve`**: a request within the key keeps that;
* **`Contents.KeptOutside.apart`**: what lies apart from the key is there or has expired.
-/

namespace ClusterRegistry

/-- The key that a request is for. -/
def Request.key (r : Request) : Key := .ofPath (Call.request r).path

namespace Contents

/-- Outside a key stands what stood there before. Elsewise, nothing stood there or its lifetime has
ended, or one above; and what stands there now, if anything, is a directory above the key that
nobody asked for. -/
def KeptOutside (m : Contents) (key : Key) (now : Nat) (m' : Contents) : Prop :=
  ∀ k : Key, ¬ k.IsWithin key → m'[k]? = m[k]? ∨
    (m[k]? = none ∨ m.IsDoomed now k) ∧
      (m'[k]? = none ∨ key.IsBelow k ∧ ∃ index, m'[k]? = some (.parent index))

variable {m m' : Contents} {key k : Key} {now now' : Nat}

theorem KeptOutside.refl (m : Contents) (key : Key) (now : Nat) : m.KeptOutside key now m :=
  fun _ _ => .inl rfl

theorem IsDoomed.mono (h : m.IsDoomed now k) (hle : now ≤ now') : m.IsDoomed now' k := by
  obtain ⟨a, e, hmem, ⟨d, hd, hdue⟩, hin⟩ := h
  exact ⟨a, e, hmem, ⟨d, hd, Nat.le_trans hdue hle⟩, hin⟩

theorem KeptOutside.mono (h : m.KeptOutside key now m') (hle : now ≤ now') :
    m.KeptOutside key now' m' := by
  intro k hk
  refine (h k hk).imp_right fun hgone => ⟨?_, hgone.2⟩
  exact hgone.1.imp_right (·.mono hle)

/-- What is doomed outside a key was doomed before, for the new directories have no lifetime. -/
theorem KeptOutside.isDoomed (h : m.KeptOutside key now m') (hk : ¬ k.IsWithin key)
    (hdoomed : m'.IsDoomed now' k) : m.IsDoomed now' k := by
  obtain ⟨a, e, hmem, hdue, hin⟩ := hdoomed
  have ha : ¬ a.IsWithin key := fun ha => hk (hin.trans ha)
  rcases h a ha with hsame | ⟨-, hnone | ⟨-, index, hparent⟩⟩
  · exact ⟨a, e, hsame ▸ hmem, hdue, hin⟩
  · rw [hnone] at hmem
    cases hmem
  · rw [hparent] at hmem
    cases hmem
    obtain ⟨d, hd, -⟩ := hdue
    cases hd

end Contents

namespace Contents.KeptOutside

variable {m : Contents} {key : Key} {s : Store} {now : Nat}

theorem expire (h : m.KeptOutside key now s.contents) :
    m.KeptOutside key now (s.expire now).contents := by
  intro k hk
  rw [Store.lookup_expire]
  split_ifs with hdoomed
  · exact .inr ⟨.inr (h.isDoomed hk hdoomed), .inl rfl⟩
  · exact h k hk

theorem put (h : m.KeptOutside key now s.contents) {target : Key} (within : target.IsWithin key)
    (prev : Option Entry) (value : String) (options : SetOptions) :
    m.KeptOutside key now (s.put now target prev value options).1.contents := by
  intro k hk
  have hne : k ≠ target := fun e => hk (e ▸ within)
  have hlook : (s.put now target prev value options).1.contents[k]? =
      if k ∈ target.ancestors then some (s.contents[k]?.getD (.parent (s.index + 1)))
      else s.contents[k]? := by
    change ((Store.record _ _).contents)[k]? = _
    rw [Store.record_contents, Key.lookup_insert, if_neg hne, Store.lookup_begun]
  rw [hlook]
  have hkept := h k hk
  by_cases hmem : k ∈ target.ancestors
  · rw [if_pos hmem]
    cases hprev : s.contents[k]? with
    | some e =>
      rwa [hprev] at hkept
    | none =>
      refine .inr ⟨?_, .inr ⟨?_, s.index + 1, rfl⟩⟩
      · rcases hkept with hsame | ⟨hgone, -⟩
        · exact .inl (hsame ▸ hprev)
        · exact hgone
      · -- both lie above the target
        rcases List.prefix_or_prefix_of_prefix (Key.mem_ancestors.mp hmem).1.isWithin within with
          habove | hwithin
        · exact ⟨habove, fun e => hk (e ▸ Key.IsWithin.refl k)⟩
        · exact absurd hwithin hk
  · rwa [if_neg hmem]

theorem drop (h : m.KeptOutside key now s.contents) {target : Key} (within : target.IsWithin key)
    (action : Action) (e : Entry) :
    m.KeptOutside key now (s.drop now action target e).1.contents := by
  intro k hk
  rw [Store.drop_contents, Contents.lookup_prune, if_neg fun hin => hk (hin.trans within)]
  exact h k hk

theorem refresh (h : m.KeptOutside key now s.contents) {target : Key} (within : target.IsWithin key)
    (e : Entry) (lifetime : Option Nat) :
    m.KeptOutside key now (s.refresh now target e lifetime).1.contents := by
  intro k hk
  have hne : k ≠ target := fun e => hk (e ▸ within)
  rw [Store.refresh, Key.lookup_insert, if_neg hne]
  exact h k hk

/-- **A request within a key keeps what stands outside.** -/
theorem serve (h : m.KeptOutside key now s.contents) {r : Request} (within : r.key.IsWithin key) :
    m.KeptOutside key now (s.serve now r).1.contents := by
  have houtcome := (s.expire now).perform_outcome now r
  cases hperform : (s.expire now).perform now r with
  | error refusal =>
    rw [Store.serve_of_error hperform]
    exact h.expire
  | ok answer =>
    rw [hperform] at houtcome
    rw [Store.serve_of_ok hperform]
    cases houtcome with
    | shown => exact h.expire
    | refreshed => exact h.expire.refresh within _ _
    | put => exact h.expire.put within _ _ _
    | dropped => exact h.expire.drop within _ _

/-- **What lies apart from the key is there, or it is gone because a lifetime has ended.** -/
theorem apart (h : m.KeptOutside key now s.contents) {k : Key} (outside : ¬ k.IsWithin key)
    (beside : ¬ key.IsWithin k) : s.contents[k]? = m[k]? ∨
      s.contents[k]? = none ∧ m.IsDoomed now k := by
  rcases h k outside with hsame | ⟨hgone, hnone | ⟨hbelow, -⟩⟩
  · exact .inl hsame
  · rcases hgone with hnever | hdoomed
    · exact .inl (hnone.trans hnever.symm)
    · exact .inr ⟨hnone, hdoomed⟩
  · exact absurd hbelow.isWithin beside

end Contents.KeptOutside

end ClusterRegistry
