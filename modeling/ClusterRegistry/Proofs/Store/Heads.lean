import Mathlib.Data.List.Lex
import Mathlib.Data.List.Sort
import ClusterRegistry.Proofs.Store.Scan
import ClusterRegistry.Proofs.Store.Twin

/-!
# Expiry, key by key

Expiry records one change for each key whose lifetime has ended and that does not go with one above
it, in the order of their texts. An access in between records some of them earlier, and that shows
in the log only if it lets a key go before one whose text comes first.

* `Store.heads`, `Store.mem_heads`, `Store.heads_sorted`: the keys that expiry records;
* **`Store.keys_expiries`**: what expiry records, and in which order;
* `Store.Parts`, `Store.heads_perm`: an access in between that removes no key before one above it;
* `Store.Reorders`, `Store.heads_append`: an access in between that lets no key go too early;
* **`Store.expire_index_expire`**, **`Store.expiries_append`**: expiry in two steps and at once.
-/

namespace ClusterRegistry

theorem Key.IsBelow.text_lt {k a : Key} (h : k.IsBelow a) : a.text < k.text := by
  have hroot : k ≠ .root := by
    rintro rfl
    exact h.2 (ext_segments (List.prefix_nil.mp h.1)).symm
  have hlead : a.text.toList <+: a.lead.toList := by
    unfold lead
    split_ifs with ha
    · subst ha
      exact List.prefix_rfl
    · rw [String.toList_append]
      exact List.prefix_append _ _
  obtain ⟨rest, hrest⟩ := hlead.trans ((isBelow_iff_lead hroot).mp h)
  have hne : rest ≠ [] := by
    rintro rfl
    rw [List.append_nil] at hrest
    exact h.2 (text_injective (String.toList_inj.mp hrest)).symm
  obtain ⟨c, cs, rfl⟩ := List.exists_cons_of_ne_nil hne
  rw [String.lt_iff_toList_lt, ← hrest]
  conv_lhs => rw [← List.append_nil a.text.toList]
  exact List.Lex.append_left _ .nil _

namespace Store

variable {s : Store} {now r t : Nat} {k x : Key} {e : Entry}

/-! ## The keys that expiry records -/

/-- The keys whose lifetime has ended and that do not go with one above them, in order. -/
def heads (s : Store) (now : Nat) : List Key :=
  (s.dueKeys now).filter fun k => ∀ a ∈ s.dueKeys now, ¬ k.IsBelow a

theorem mem_heads : k ∈ s.heads now ↔ k ∈ s.dueKeys now ∧ ∀ a ∈ s.dueKeys now, ¬ k.IsBelow a := by
  rw [heads, List.mem_filter, decide_eq_true_iff]

theorem dueKeys_sorted (s : Store) (now : Nat) :
    (s.dueKeys now).Pairwise fun k l => k.text < l.text :=
  List.pairwise_map.mpr (s.contents.sorted.filter _)

theorem heads_sorted (s : Store) (now : Nat) :
    (s.heads now).Pairwise fun k l => k.text < l.text :=
  (s.dueKeys_sorted now).filter _

theorem heads_nodup (s : Store) (now : Nat) : (s.heads now).Nodup :=
  (s.heads_sorted now).imp fun hlt heq => hlt.ne (congrArg Key.text heq)

theorem dueKeys_mono (h : r ≤ t) (hk : k ∈ s.dueKeys r) : k ∈ s.dueKeys t := by
  obtain ⟨e, he, d, hd, hle⟩ := mem_dueKeys.mp hk
  exact mem_dueKeys.mpr ⟨e, he, d, hd, hle.trans h⟩

theorem isDoomed_iff : s.contents.IsDoomed now k ↔ ∃ a ∈ s.dueKeys now, k.IsWithin a := by
  simp only [mem_dueKeys, Contents.IsDoomed]
  constructor
  · rintro ⟨a, e, he, hdue, hin⟩
    exact ⟨a, ⟨e, he, hdue⟩, hin⟩
  · rintro ⟨a, ⟨e, he, hdue⟩, hin⟩
    exact ⟨a, e, he, hdue, hin⟩

theorem exists_head (s : Store) (now : Nat) (k : Key) (h : k ∈ s.dueKeys now) :
    ∃ x ∈ s.heads now, k.IsWithin x := by
  by_cases hhead : k ∈ s.heads now
  · exact ⟨k, hhead, .refl k⟩
  · rw [mem_heads] at hhead
    push Not at hhead
    obtain ⟨a, ha, hbelow⟩ := hhead h
    obtain ⟨x, hx, hin⟩ := exists_head s now a ha
    exact ⟨x, hx, hbelow.isWithin.trans hin⟩
termination_by k.segments.length
decreasing_by exact hbelow.length_lt

theorem mem_dueKeys_expire :
    k ∈ (s.expire r).dueKeys t ↔ k ∈ s.dueKeys t ∧ ¬ s.contents.IsDoomed r k := by
  simp only [mem_dueKeys, lookup_expire]
  by_cases h : s.contents.IsDoomed r k
  · simp [h]
  · simp [h]

/-! ## One change for each of them -/

theorem expiriesOf_append (now : Nat) (s : Store) (keys more : List Key) :
    expiriesOf now s (keys ++ more) =
      expiriesOf now s keys ++ expiriesOf now (keys.foldl (expireKey now) s) more := by
  induction keys generalizing s with
  | nil => rfl
  | cons key rest ih => rw [List.cons_append, expiriesOf, ih, expiriesOf, List.append_assoc]; rfl

theorem expiriesOf_filter {p : Key → Prop} [DecidablePred p] {keys : List Key}
    (gone : ∀ pre key, pre ++ [key] <+: keys → ¬ p key →
      (pre.foldl (expireKey now) s).contents[key]? = none) :
    (keys.filter p).foldl (expireKey now) s = keys.foldl (expireKey now) s ∧
      expiriesOf now s (keys.filter p) = expiriesOf now s keys := by
  induction keys using List.reverseRecOn with
  | nil => exact ⟨rfl, rfl⟩
  | append_singleton keys key ih =>
    obtain ⟨hstore, hlog⟩ := ih fun pre k hpre => gone pre k (hpre.trans (List.prefix_append _ _))
    rw [List.filter_append, List.foldl_append, List.foldl_append, expiriesOf_append,
      expiriesOf_append, hstore, hlog]
    by_cases hp : p key
    · rw [List.filter_cons_of_pos (by simpa using hp)]
      exact ⟨rfl, rfl⟩
    · have hnone := gone keys key List.prefix_rfl hp
      rw [List.filter_cons_of_neg (by simpa using hp)]
      refine ⟨(expireKey_of_none hnone).symm, ?_⟩
      rw [expiriesOf, expireKey_of_none hnone, recorded?_self]
      rfl

theorem heads_expireKeys (s : Store) (now : Nat) :
    (s.heads now).foldl (expireKey now) s = (s.dueKeys now).foldl (expireKey now) s ∧
      expiriesOf now s (s.heads now) = s.expiries now := by
  refine expiriesOf_filter fun pre key hpre hnot => ?_
  push Not at hnot
  obtain ⟨a, ha, hbelow⟩ := hnot
  -- the key above has had its turn
  have hbefore : a ∈ pre := by
    obtain ⟨post, hsplit⟩ := hpre
    have hsorted := s.dueKeys_sorted now
    rw [← hsplit] at ha hsorted
    rw [List.append_assoc, List.pairwise_append] at hsorted
    rcases List.mem_append.mp ha with ha | ha
    · rcases List.mem_append.mp ha with ha | ha
      · exact ha
      · exact absurd (List.mem_singleton.mp ha).symm hbelow.2
    · exact absurd hbelow.text_lt
        (List.rel_of_pairwise_cons hsorted.2.1 (by simpa using ha)).asymm
  obtain ⟨e, he, -⟩ := mem_dueKeys.mp ha
  rw [lookup_expireKeys, if_pos ⟨a, hbefore, by rw [he]; rfl, hbelow.isWithin⟩]

theorem lookup_of_expireKey {key : Key} (h : (expireKey now s key).contents[k]? = some e) :
    s.contents[k]? = some e := by
  unfold expireKey at h
  split at h
  · exact h
  · rw [drop_contents, Contents.lookup_prune] at h
    split_ifs at h
    exact h

theorem keys_expiriesOf {keys : List Key} (there : ∀ k ∈ keys, ∃ e, s.contents[k]? = some e)
    (apart : keys.Pairwise fun a b => ¬ b.IsWithin a) :
    (expiriesOf now s keys).map (·.key) = keys := by
  induction keys generalizing s with
  | nil => rfl
  | cons key rest ih =>
    obtain ⟨e, he⟩ := there key List.mem_cons_self
    obtain ⟨hkey, hrest⟩ := List.pairwise_cons.mp apart
    rw [expiriesOf, expireKey_of_some he, recorded?_drop, List.map_append, ih _ hrest]
    · rfl
    · intro k hk
      obtain ⟨x, hx⟩ := there k (List.mem_cons_of_mem _ hk)
      refine ⟨x, ?_⟩
      rw [drop_contents, Contents.lookup_prune, if_neg (hkey k hk), hx]

/-- **Expiry records the keys that do not go with one above them, in the order of their texts.** -/
theorem keys_expiries (s : Store) (now : Nat) : (s.expiries now).map (·.key) = s.heads now := by
  rw [← (s.heads_expireKeys now).2]
  apply keys_expiriesOf
  · intro k hk
    obtain ⟨e, he, -⟩ := mem_dueKeys.mp (mem_heads.mp hk).1
    exact ⟨e, he⟩
  · refine (s.heads_sorted now).imp_of_mem fun {a b} ha hb hlt hin => ?_
    rcases Key.isWithin_iff.mp hin with rfl | hbelow
    · exact lt_irrefl _ hlt
    · exact (mem_heads.mp hb).2 a (mem_heads.mp ha).1 hbelow

theorem expire_index (s : Store) (now : Nat) :
    (s.expire now).index = s.index + (s.heads now).length := by
  rw [(expire_edits s now).index, ← keys_expiries, List.length_map]

/-! ## The time of the access -/

theorem snapshot_of_due (due : e.IsDue r) (h : r ≤ t) : e.snapshot r = e.snapshot t := by
  obtain ⟨d, hd, hle⟩ := due
  have hr : d - r = 0 := Nat.sub_eq_zero_of_le hle
  have ht : d - t = 0 := Nat.sub_eq_zero_of_le (hle.trans h)
  unfold Entry.snapshot
  rw [hd, Option.map_some, Option.map_some, hr, ht]

theorem drop_of_snapshot (h : e.snapshot r = e.snapshot t) (action : Action) (key : Key) :
    s.drop r action key e = s.drop t action key e := by
  unfold drop
  rw [h]

theorem expireKeys_later (h : r ≤ t) {keys : List Key}
    (due : ∀ k ∈ keys, ∀ e, s.contents[k]? = some e → e.IsDue r) :
    keys.foldl (expireKey r) s = keys.foldl (expireKey t) s ∧
      expiriesOf r s keys = expiriesOf t s keys := by
  induction keys generalizing s with
  | nil =>
    rw [List.foldl_nil, List.foldl_nil, expiriesOf, expiriesOf]
    exact ⟨rfl, rfl⟩
  | cons key rest ih =>
    have hkey : expireKey r s key = expireKey t s key := by
      cases he : s.contents[key]? with
      | none => rw [expireKey_of_none he, expireKey_of_none he]
      | some e =>
        rw [expireKey_of_some he, expireKey_of_some he,
          drop_of_snapshot (snapshot_of_due (due key List.mem_cons_self e he) h)]
    obtain ⟨hstore, hlog⟩ := ih (s := expireKey t s key) fun k hk e he =>
      due k (List.mem_cons_of_mem _ hk) e (lookup_of_expireKey he)
    rw [List.foldl_cons, List.foldl_cons, expiriesOf, expiriesOf, hkey, hstore, hlog]
    exact ⟨rfl, rfl⟩

theorem heads_expireKeys_later (s : Store) (h : r ≤ t) :
    (s.heads r).foldl (expireKey r) s = (s.heads r).foldl (expireKey t) s ∧
      expiriesOf r s (s.heads r) = expiriesOf t s (s.heads r) := by
  refine expireKeys_later h fun k hk e he => ?_
  obtain ⟨x, hx, hdue⟩ := mem_dueKeys.mp (mem_heads.mp hk).1
  rw [he] at hx
  obtain rfl := Option.some.inj hx
  exact hdue

/-! ## An access in between -/

/-- An access at `r` lets a key go before one above it that is to go at `t`. -/
def Parts (s : Store) (r t : Nat) : Prop :=
  ∃ k ∈ s.heads r, ∃ x ∈ (s.expire r).heads t, k.IsBelow x

/-- An access at `r` lets a key go before one whose text comes first and that is to go at `t`. -/
def Reorders (s : Store) (r t : Nat) : Prop :=
  ∃ k ∈ s.heads r, ∃ x ∈ (s.expire r).heads t, x.text < k.text

instance (s : Store) (r t : Nat) : Decidable (s.Parts r t) := by unfold Parts; infer_instance

instance (s : Store) (r t : Nat) : Decidable (s.Reorders r t) := by unfold Reorders; infer_instance

theorem Parts.reorders (h : s.Parts r t) : s.Reorders r t := by
  obtain ⟨k, hk, x, hx, hbelow⟩ := h
  exact ⟨k, hk, x, hx, hbelow.text_lt⟩

theorem mem_heads_expire :
    x ∈ (s.expire r).heads t ↔ x ∈ s.heads t ∧ ¬ s.contents.IsDoomed r x := by
  simp only [mem_heads, mem_dueKeys_expire]
  constructor
  · rintro ⟨⟨hx, hleft⟩, halone⟩
    refine ⟨⟨hx, fun a ha hbelow => ?_⟩, hleft⟩
    refine halone a ⟨ha, fun hdoomed => hleft ?_⟩ hbelow
    obtain ⟨b, hb, hin⟩ := isDoomed_iff.mp hdoomed
    exact isDoomed_iff.mpr ⟨b, hb, hbelow.isWithin.trans hin⟩
  · rintro ⟨⟨hx, halone⟩, hleft⟩
    exact ⟨⟨hx, hleft⟩, fun a ha => halone a ha.1⟩

theorem isDoomed_of_mem_heads (h : k ∈ s.heads now) : s.contents.IsDoomed now k :=
  isDoomed_iff.mpr ⟨k, (mem_heads.mp h).1, .refl k⟩

theorem mem_heads_of_later (h : r ≤ t) (hk : k ∈ s.heads t) :
    k ∈ s.heads r ∨ k ∈ (s.expire r).heads t := by
  by_cases hdoomed : s.contents.IsDoomed r k
  · obtain ⟨a, ha, hin⟩ := isDoomed_iff.mp hdoomed
    have halone := (mem_heads.mp hk).2
    -- the key has ended itself, for none above it has
    obtain rfl : k = a := (Key.isWithin_iff.mp hin).resolve_right (halone a (dueKeys_mono h ha))
    exact .inl (mem_heads.mpr ⟨ha, fun b hb => halone b (dueKeys_mono h hb)⟩)
  · exact .inr (mem_heads_expire.mpr ⟨hk, hdoomed⟩)

/-- What goes at the access in between would have gone at the later time, but with a key above. -/
theorem mem_heads_later (h : r ≤ t) (whole : ¬ s.Parts r t) (hk : k ∈ s.heads r) :
    k ∈ s.heads t := by
  obtain ⟨hdue, halone⟩ := mem_heads.mp hk
  refine mem_heads.mpr ⟨dueKeys_mono h hdue, fun a ha hbelow => whole ?_⟩
  have hleft : ¬ s.contents.IsDoomed r a := by
    intro hdoomed
    obtain ⟨b, hb, hin⟩ := isDoomed_iff.mp hdoomed
    exact halone b hb (hbelow.trans_isWithin hin)
  obtain ⟨x, hx, hin⟩ := exists_head _ _ _ (mem_dueKeys_expire.mpr ⟨ha, hleft⟩)
  exact ⟨k, hk, x, hx, hbelow.trans_isWithin hin⟩

theorem heads_disjoint (s : Store) (r t : Nat) : (s.heads r).Disjoint ((s.expire r).heads t) :=
  fun _ hk hx => (mem_heads_expire.mp hx).2 (isDoomed_of_mem_heads hk)

theorem heads_perm (h : r ≤ t) (whole : ¬ s.Parts r t) :
    (s.heads r ++ (s.expire r).heads t).Perm (s.heads t) := by
  have hnodup : (s.heads r ++ (s.expire r).heads t).Nodup :=
    List.nodup_append'.mpr ⟨s.heads_nodup r, (s.expire r).heads_nodup t, s.heads_disjoint r t⟩
  rw [List.perm_ext_iff_of_nodup hnodup (s.heads_nodup t)]
  intro k
  rw [List.mem_append]
  constructor
  · rintro (hk | hk)
    · exact mem_heads_later h whole hk
    · exact (mem_heads_expire.mp hk).1
  · exact mem_heads_of_later h

theorem heads_append (h : r ≤ t) (kept : ¬ s.Reorders r t) :
    s.heads r ++ (s.expire r).heads t = s.heads t := by
  refine (heads_perm h fun hparts => kept hparts.reorders).eq_of_pairwise
    (fun k l _ _ hkl hlk => absurd hkl hlk.asymm) ?_ (s.heads_sorted t)
  refine List.pairwise_append.mpr ⟨s.heads_sorted r, (s.expire r).heads_sorted t, ?_⟩
  intro k hk x hx
  refine lt_of_le_of_ne (not_lt.mp fun hlt => kept ⟨k, hk, x, hx, hlt⟩) fun heq => ?_
  obtain rfl := Key.text_injective heq
  exact s.heads_disjoint r t hk hx

/-- **Unless it parts a key from one above it, an access in between does not change the number of
changes.** -/
theorem expire_index_expire (h : r ≤ t) (whole : ¬ s.Parts r t) :
    ((s.expire r).expire t).index = (s.expire t).index := by
  have hlength := (heads_perm h whole).length_eq
  rw [List.length_append] at hlength
  rw [expire_index, expire_index, expire_index, ← hlength, Nat.add_assoc]

theorem expire_twin_expire (h : r ≤ t) (whole : ¬ s.Parts r t) :
    ((s.expire r).expire t).Twin (s.expire t) :=
  ⟨expire_contents_expire s h, expire_index_expire h whole⟩

/-- **Unless it reorders them, an access in between does not change what is recorded.** -/
theorem expiries_append (h : r ≤ t) (kept : ¬ s.Reorders r t) :
    s.expiries r ++ (s.expire r).expiries t = s.expiries t := by
  have htwin : (s.expire r).Twin ((s.heads r).foldl (expireKey t) s) := by
    rw [← (s.heads_expireKeys_later h).1, (s.heads_expireKeys r).1]
    exact Twin.expireKeys_expire s r
  rw [← (s.heads_expireKeys t).2, ← heads_append h kept, expiriesOf_append,
    ← (s.heads_expireKeys_later h).2, (s.heads_expireKeys r).2, ← (htwin.expireKeys _).2,
    ((s.expire r).heads_expireKeys t).2]

end Store

end ClusterRegistry
