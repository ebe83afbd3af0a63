import Mathlib.Data.List.Flatten
import Mathlib.Data.List.TakeWhile
import Mathlib.Tactic.SplitIfs
import ClusterRegistry.Proofs.Http.Percent

/-!
# What a request asks for

An address is put together as a text, and read again. A key that is spelled with characters that
mean something in an address is not what is asked for: a question mark or a number sign ends it, a
backslash is a slash, dots step up, percent signs with digits are bytes, line breaks and tabs are
left out, and so are blanks at the end.

* `Http.turn`, `Http.splitOnP_isSlash`: backslashes are slashes;
* `Http.isLossy`, `Http.bulk_resolve_le`: what is lost from the pieces of a path;
* **`Http.percentDecode_pathText_iff`**: the paths that are read as they were written;
* `Address.path`, `Address.query`: the path and the parameters that an address asks for;
* `Http.IsMember`, `Path.IsPlain`, **`Address.path_eq_iff`**, **`Address.asks_iff`**: the keys that
  are asked for as they are.
-/

namespace ClusterRegistry

open Text

namespace Http

/-! ## Slashes -/

/-- A backslash is turned into a slash. -/
def turn (c : Char) : Char := if c = '\\' then '/' else c

theorem splitOnP_isSlash (cs : List Char) : cs.splitOnP isSlash = (cs.map turn).splitOn '/' := by
  rw [List.splitOn]
  induction cs with
  | nil => rfl
  | cons c rest ih =>
    rw [List.map_cons, List.splitOnP_cons_eq_if_modifyHead, List.splitOnP_cons_eq_if_modifyHead, ih]
    by_cases hslash : isSlash c = true
    · have hturn : (turn c == '/') = true := by
        rw [isSlash, Bool.or_eq_true, decide_eq_true_eq, decide_eq_true_eq] at hslash
        rcases hslash with rfl | rfl
        · rfl
        · rfl
      rw [if_pos hslash, if_pos hturn]
    · have hne : c ≠ '/' ∧ c ≠ '\\' := by
        rw [isSlash, Bool.or_eq_true, decide_eq_true_eq, decide_eq_true_eq, not_or] at hslash
        exact hslash
      have hturn : turn c = c := if_neg hne.2
      rw [if_neg hslash, hturn, if_neg (by simpa using hne.1)]

theorem map_turn_eq_self_iff {cs : List Char} : cs.map turn = cs ↔ '\\' ∉ cs := by
  constructor
  · intro h hmem
    have hturned : '\\' ∈ cs.map turn := h.symm ▸ hmem
    obtain ⟨c, -, hc⟩ := List.mem_map.mp hturned
    rw [turn] at hc
    split_ifs at hc with hslash
    · exact absurd hc (by decide)
    · exact hslash hc
  · intro h
    have hturn : ∀ c ∈ cs, turn c = c := fun c hc => if_neg fun (e : c = '\\') => h (e ▸ hc)
    exact (List.map_congr_left hturn).trans (List.map_id' _)

theorem length_octets_map_turn (cs : List Char) :
    (octets (cs.map turn)).length = (octets cs).length := by
  induction cs with
  | nil => rfl
  | cons c rest ih =>
    have hsize : (String.utf8EncodeChar (turn c)).length = (String.utf8EncodeChar c).length := by
      rw [turn]
      split_ifs with hslash
      · rw [hslash]
        rfl
      · rfl
    rw [List.map_cons, octets_cons, octets_cons, List.length_append, List.length_append, hsize, ih]

/-! ## Dots and escapes -/

/-- A piece of a path that does not stand for itself. -/
def isLossy (p : List Char) : Bool := isUp p || isHere p || hasEscape p

/-- The number of bytes in pieces, and one more for each of them. -/
def bulk : List (List UInt8) → Nat
  | [] => 0
  | p :: ps => p.length + 1 + bulk ps

theorem bulk_nil : bulk [] = 0 := rfl

theorem bulk_append (ps qs : List (List UInt8)) : bulk (ps ++ qs) = bulk ps + bulk qs := by
  induction ps with
  | nil => exact (Nat.zero_add _).symm
  | cons p ps ih => rw [List.cons_append, bulk, bulk, ih, Nat.add_assoc (p.length + 1)]

theorem bulk_reverse (ps : List (List UInt8)) : bulk ps.reverse = bulk ps := by
  induction ps with
  | nil => rfl
  | cons p ps ih =>
    rw [List.reverse_cons, bulk_append, ih, Nat.add_comm]
    rfl

theorem bulk_drop_le (ps : List (List UInt8)) : bulk (ps.drop 1) ≤ bulk ps := by
  cases ps with
  | nil => exact Nat.le_refl _
  | cons p ps => exact Nat.le_add_left _ _

theorem length_intercalate {ps : List (List UInt8)} (h : ps ≠ []) :
    ([slashByte].intercalate ps).length + 1 = bulk ps := by
  induction ps with
  | nil => exact absurd rfl h
  | cons p ps ih =>
    cases ps with
    | nil => simp [bulk]
    | cons q ps =>
      have hrest := ih (List.cons_ne_nil q ps)
      rw [List.intercalate_cons_cons, bulk, ← hrest, List.length_append, List.length_append,
        List.length_singleton, Nat.add_assoc (p.length + 1)]

theorem resolve_dots {p : List Char} (h : (isUp p || isHere p) = true)
    (back rest : List (List Char)) :
    ∃ back', resolve back (p :: rest) = resolve back' rest ∧ (rest = [] → back' ≠ []) ∧
      (∀ q ∈ back', q = [] ∨ q ∈ back) ∧
      bulk (back'.map percentDecode) ≤ bulk (back.map percentDecode) + 1 := by
  have hempty : ∀ above : List (List Char),
      bulk (([] :: above).map percentDecode) = bulk (above.map percentDecode) + 1 := fun above =>
    Nat.add_comm _ _
  have hdrop : bulk ((back.drop 1).map percentDecode) ≤ bulk (back.map percentDecode) := by
    rw [List.map_drop]
    exact bulk_drop_le _
  rw [Bool.or_eq_true] at h
  by_cases hup : isUp p = true
  · refine ⟨_, by rw [resolve, if_pos hup], fun hnil => ?_, fun q hq => ?_, ?_⟩
    · rw [if_pos hnil]
      exact List.cons_ne_nil _ _
    · split_ifs at hq
      · exact (List.mem_cons.mp hq).imp_right List.mem_of_mem_drop
      · exact Or.inr (List.mem_of_mem_drop hq)
    · split_ifs
      · rw [hempty]
        omega
      · omega
  · refine ⟨_, by rw [resolve, if_neg hup, if_pos (h.resolve_left hup)], fun hnil => ?_,
      fun q hq => ?_, ?_⟩
    · rw [if_pos hnil]
      exact List.cons_ne_nil _ _
    · split_ifs at hq
      · exact List.mem_cons.mp hq
      · exact Or.inr hq
    · split_ifs
      · exact Nat.le_of_eq (hempty back)
      · exact Nat.le_succ _

theorem resolve_piece {p : List Char} (h : (isUp p || isHere p) = false)
    (back rest : List (List Char)) :
    resolve back (p :: rest) = resolve (encodeUnless keptInPath p :: back) rest := by
  rw [Bool.or_eq_false_iff] at h
  rw [resolve, h.1, h.2]
  rfl

theorem resolve_ne_nil {ps : List (List Char)} (h : ps ≠ []) (back : List (List Char)) :
    resolve back ps ≠ [] := by
  induction ps generalizing back with
  | nil => exact absurd rfl h
  | cons p rest ih =>
    have hnext : ∃ back', resolve back (p :: rest) = resolve back' rest ∧
        (rest = [] → back' ≠ []) := by
      cases hdots : isUp p || isHere p with
      | true =>
        obtain ⟨back', hresolve, hne, -, -⟩ := resolve_dots hdots back rest
        exact ⟨back', hresolve, hne⟩
      | false => exact ⟨_, resolve_piece hdots back rest, fun _ => List.cons_ne_nil _ _⟩
    obtain ⟨back', hresolve, hne⟩ := hnext
    rw [hresolve]
    by_cases hnil : rest = []
    · rw [hnil, resolve]
      exact mt List.reverse_eq_nil_iff.mp (hne hnil)
    · exact ih hnil back'

/-- Every piece that does not stand for itself leaves fewer bytes. -/
theorem bulk_resolve_le (ps back : List (List Char)) :
    bulk ((resolve back ps).map percentDecode) + ps.countP isLossy ≤
      bulk (back.map percentDecode) + bulk (ps.map octets) := by
  induction ps generalizing back with
  | nil =>
    rw [resolve, List.map_reverse, bulk_reverse]
    exact Nat.le_refl _
  | cons p rest ih =>
    rw [List.map_cons, bulk, List.countP_cons]
    cases hdots : isUp p || isHere p with
    | true =>
      have hsize : 0 < (octets p).length := by
        cases p with
        | nil => exact absurd hdots (by decide)
        | cons c p =>
          rw [octets_cons, List.length_append]
          exact Nat.add_pos_left (length_utf8EncodeChar_pos c) _
      obtain ⟨back', hresolve, -, -, hle⟩ := resolve_dots hdots back rest
      have hrest := ih back'
      rw [hresolve]
      split_ifs <;> omega
    | false =>
      have hlossy : isLossy p = hasEscape p := by rw [isLossy, hdots, Bool.false_or]
      have hrest := ih (encodeUnless keptInPath p :: back)
      rw [List.map_cons, bulk, keepsEscapes_keptInPath.percentDecode_encodeUnless] at hrest
      rw [resolve_piece hdots, hlossy]
      split_ifs with hescape
      · have hlt := length_percentDecode_lt hescape
        omega
      · have hle := length_percentDecode_le p
        omega

theorem resolve_of_not_lossy {ps : List (List Char)} (h : ∀ p ∈ ps, isLossy p = false)
    (back : List (List Char)) :
    resolve back ps = back.reverse ++ ps.map (encodeUnless keptInPath) := by
  induction ps generalizing back with
  | nil => rw [resolve, List.map_nil, List.append_nil]
  | cons p rest ih =>
    have hdots : (isUp p || isHere p) = false :=
      (Bool.or_eq_false_iff.mp (h p List.mem_cons_self)).1
    rw [resolve_piece hdots, ih fun q hq => h q (List.mem_cons_of_mem p hq), List.reverse_cons,
      List.map_cons, List.append_assoc, List.singleton_append]

theorem mem_resolve {q : List Char} {ps back : List (List Char)} (h : q ∈ resolve back ps) :
    q = [] ∨ q ∈ back ∨ ∃ p, q = encodeUnless keptInPath p := by
  induction ps generalizing back with
  | nil =>
    rw [resolve, List.mem_reverse] at h
    exact Or.inr (Or.inl h)
  | cons p rest ih =>
    cases hdots : isUp p || isHere p with
    | true =>
      obtain ⟨back', hresolve, -, hback, -⟩ := resolve_dots hdots back rest
      rw [hresolve] at h
      rcases ih h with hnil | hmem | hencoded
      · exact Or.inl hnil
      · exact (hback q hmem).imp_right Or.inl
      · exact Or.inr (Or.inr hencoded)
    | false =>
      rw [resolve_piece hdots] at h
      rcases ih h with hnil | hmem | hencoded
      · exact Or.inl hnil
      · rcases List.mem_cons.mp hmem with rfl | hmem
        · exact Or.inr (Or.inr ⟨p, rfl⟩)
        · exact Or.inr (Or.inl hmem)
      · exact Or.inr (Or.inr hencoded)

/-! ## Paths -/

theorem pathText_cons (cs : List Char) : pathText ('/' :: cs) =
    '/' :: ['/'].intercalate (resolve [] ((cs.map turn).splitOn '/')) := by
  rw [pathText, List.drop_one, List.tail_cons, splitOnP_isSlash]

theorem percentDecode_pathText (cs : List Char) : percentDecode (pathText ('/' :: cs)) =
    slashByte :: [slashByte].intercalate
      ((resolve [] ((cs.map turn).splitOn '/')).map percentDecode) := by
  rw [pathText_cons, ← percentDecode_intercalate]
  exact percentDecode_append_slash [] _

theorem octets_path (cs : List Char) : octets ('/' :: cs.map turn) =
    slashByte :: [slashByte].intercalate (((cs.map turn).splitOn '/').map octets) := by
  rw [← octets_intercalate, List.intercalate_splitOn]
  rfl

theorem notMem_intercalate {x : Char} {ps : List (List Char)} (hx : x ≠ '/')
    (h : ∀ p ∈ ps, x ∉ p) : x ∉ ['/'].intercalate ps := by
  induction ps with
  | nil => exact List.not_mem_nil
  | cons p ps ih =>
    have hp := h p List.mem_cons_self
    cases ps with
    | nil => simpa using hp
    | cons q ps =>
      have hrest := ih fun p hp => h p (List.mem_cons_of_mem _ hp)
      rw [List.intercalate_cons_cons, List.mem_append, List.mem_append, List.mem_singleton]
      exact fun hmem => hmem.elim (fun hmem => hmem.elim hp hx) hrest

theorem mark_notMem_pathText (cs : List Char) : '?' ∉ pathText ('/' :: cs) := by
  rw [pathText_cons, List.mem_cons, not_or]
  refine ⟨by decide, notMem_intercalate (by decide) fun q hq => ?_⟩
  rcases mem_resolve hq with rfl | hmem | ⟨p, rfl⟩
  · exact List.not_mem_nil
  · exact absurd hmem List.not_mem_nil
  · exact not_mem_encodeUnless (by decide) (by decide) (by decide)

theorem length_percentDecode_pathText (cs : List Char) :
    (percentDecode (pathText ('/' :: cs))).length + ((cs.map turn).splitOn '/').countP isLossy ≤
      (octets ('/' :: cs)).length := by
  have hne : (cs.map turn).splitOn '/' ≠ [] := List.splitOnP_ne_nil _ _
  have hle := bulk_resolve_le ((cs.map turn).splitOn '/') []
  have hsize : (octets ('/' :: cs)).length = (octets ('/' :: cs.map turn)).length := by
    rw [octets_cons, octets_cons, List.length_append, List.length_append, length_octets_map_turn]
  rw [← length_intercalate (mt List.map_eq_nil_iff.mp (resolve_ne_nil hne [])),
    ← length_intercalate (mt List.map_eq_nil_iff.mp hne), List.map_nil, bulk_nil] at hle
  rw [hsize, percentDecode_pathText, octets_path, List.length_cons, List.length_cons]
  omega

/-- Nothing is lost from a path in which every piece stands for itself. -/
theorem percentDecode_pathText_of_not_lossy {cs : List Char}
    (h : ∀ p ∈ (cs.map turn).splitOn '/', isLossy p = false) :
    percentDecode (pathText ('/' :: cs)) = octets ('/' :: cs.map turn) := by
  rw [percentDecode_pathText, octets_path, resolve_of_not_lossy h, List.reverse_nil,
    List.nil_append, List.map_map]
  refine congrArg (fun ps => slashByte :: [slashByte].intercalate ps) ?_
  refine List.map_congr_left fun p hp => ?_
  have hescape : hasEscape p = false := (Bool.or_eq_false_iff.mp (h p hp)).2
  rw [Function.comp_apply, keepsEscapes_keptInPath.percentDecode_encodeUnless,
    percentDecode_eq_octets hescape]

/-- **What is left of a path is read as the whole path just if nothing has been left out**, there
are no backslashes in it, and every piece of it stands for itself. -/
theorem percentDecode_pathText_iff {cs full : List Char} (h : cs.Sublist full) :
    percentDecode (pathText ('/' :: cs)) = octets ('/' :: full) ↔
      cs = full ∧ '\\' ∉ full ∧ ∀ p ∈ full.splitOn '/', isLossy p = false := by
  constructor
  · intro heq
    have hlength := length_percentDecode_pathText cs
    have hsub : (octets ('/' :: cs)).Sublist (octets ('/' :: full)) := (h.cons_cons '/').flatMap _
    rw [heq] at hlength
    have hle := hsub.length_le
    have hcs : cs = full :=
      List.tail_eq_of_cons_eq (octets_injective (hsub.eq_of_length (by omega)))
    subst hcs
    have hnone : ∀ p ∈ (cs.map turn).splitOn '/', isLossy p = false := by
      intro p hp
      have hzero : ((cs.map turn).splitOn '/').countP isLossy = 0 := by omega
      exact Bool.eq_false_iff.mpr (List.countP_eq_zero.mp hzero p hp)
    rw [percentDecode_pathText_of_not_lossy hnone] at heq
    have hturn : cs.map turn = cs := List.tail_eq_of_cons_eq (octets_injective heq)
    rw [hturn] at hnone
    exact ⟨rfl, map_turn_eq_self_iff.mp hturn, hnone⟩
  · rintro ⟨rfl, hslash, hnone⟩
    have hturn := map_turn_eq_self_iff.mpr hslash
    rw [percentDecode_pathText_of_not_lossy (by rwa [hturn]), hturn]

/-! ## Blanks -/

/-- A character that does not count at the ends of an address. -/
def isEdge (c : Char) : Bool := c.toNat ≤ 0x20

/-- A line break or a tab, which counts nowhere in an address. -/
def isBreak (c : Char) : Bool := c = '\t' || c = '\n' || c = '\r'

/-- The end of an address without what does not count. -/
def tidy (cs : List Char) : List Char :=
  ((cs.reverse.dropWhile isEdge).reverse).filter (!isBreak ·)

theorem tidy_sublist (cs : List Char) : (tidy cs).Sublist cs := by
  have hends : ((cs.reverse.dropWhile isEdge).reverse).Sublist cs :=
    List.reverse_sublist.mp (by simpa using List.dropWhile_sublist isEdge)
  exact List.filter_sublist.trans hends

theorem tidy_eq_self_iff {cs : List Char} :
    tidy cs = cs ↔ (∀ c ∈ cs, isBreak c = false) ∧ ∀ c ∈ cs.getLast?, isEdge c = false := by
  rw [← List.head?_reverse]
  constructor
  · intro h
    refine ⟨fun c hc => ?_, fun c hc => ?_⟩
    · have hkept : c ∈ tidy cs := h.symm ▸ hc
      have hnot := (List.mem_filter.mp hkept).2
      rwa [Bool.not_eq_true'] at hnot
    · have hends : cs.reverse.dropWhile isEdge = cs.reverse := by
        refine (List.dropWhile_sublist isEdge).eq_of_length_le ?_
        have hle : (tidy cs).length ≤ (cs.reverse.dropWhile isEdge).reverse.length :=
          List.length_filter_le _ _
        rwa [h, List.length_reverse, ← List.length_reverse] at hle
      have hfirst := List.head?_dropWhile_not isEdge cs.reverse
      rw [hends, Option.mem_def.mp hc] at hfirst
      exact hfirst
  · rintro ⟨hbreaks, hlast⟩
    have hends : cs.reverse.dropWhile isEdge = cs.reverse := by
      cases hcs : cs.reverse with
      | nil => rfl
      | cons c rest =>
        rw [hcs] at hlast
        exact List.dropWhile_cons_of_neg (by simp [hlast c rfl])
    rw [tidy, hends, List.reverse_reverse, List.filter_eq_self]
    intro c hc
    rw [hbreaks c hc]
    rfl

theorem isBreak_of_not_isEdge {c : Char} (h : isEdge c = false) : isBreak c = false := by
  cases hbreak : isBreak c with
  | false => rfl
  | true =>
    rw [isBreak, Bool.or_eq_true, Bool.or_eq_true, decide_eq_true_eq, decide_eq_true_eq,
      decide_eq_true_eq] at hbreak
    rcases hbreak with (rfl | rfl) | rfl
    · exact absurd h (by decide)
    · exact absurd h (by decide)
    · exact absurd h (by decide)

theorem clean_append {head : List Char} (h : ∀ c ∈ head, isEdge c = false) (cs : List Char) :
    Address.clean (head ++ '/' :: cs) = head ++ '/' :: tidy cs := by
  have hclean : ∀ cs, Address.clean cs =
      (((cs.dropWhile isEdge).reverse).dropWhile isEdge).reverse.filter (!isBreak ·) := fun cs => by
    refine List.filter_congr fun c _ => ?_
    simp [isBreak, Bool.and_assoc]
  have hslash : isEdge '/' = false := rfl
  have hall : ∀ c ∈ '/' :: head.reverse, isEdge c = false := fun c hc => by
    rcases List.mem_cons.mp hc with rfl | hc
    · exact hslash
    · exact h c (List.mem_reverse.mp hc)
  have hfront : (head ++ '/' :: cs).dropWhile isEdge = head ++ '/' :: cs := by
    cases head with
    | nil => exact List.dropWhile_cons_of_neg (by simp [hslash])
    | cons c rest => exact List.dropWhile_cons_of_neg (by simp [h c List.mem_cons_self])
  have hback : (cs.reverse ++ '/' :: head.reverse).dropWhile isEdge =
      cs.reverse.dropWhile isEdge ++ '/' :: head.reverse := by
    rw [List.dropWhile_append]
    split_ifs with hnil
    · rw [List.isEmpty_iff.mp hnil, List.dropWhile_cons_of_neg (by simp [hslash]), List.nil_append]
    · rfl
  have hkept : ∀ c ∈ '/' :: head.reverse, (!isBreak c) = true := fun c hc => by
    rw [isBreak_of_not_isEdge (hall c hc)]
    rfl
  have hreverse : (head ++ '/' :: cs).reverse = cs.reverse ++ '/' :: head.reverse := by simp
  rw [hclean, hfront, hreverse, hback, List.reverse_append, List.filter_append, tidy,
    List.filter_eq_self.mpr fun c hc => hkept c (List.mem_reverse.mp hc)]
  simp

/-! ## Members -/

/-- A scheme, a colon with two slashes, and a text without blanks, slashes, question marks and
number signs. -/
def IsMember (member : String) : Prop :=
  ∃ scheme authority, member.toList = scheme ++ ':' :: '/' :: '/' :: authority ∧
    (∀ c ∈ scheme, isEdge c = false ∧ c ≠ ':') ∧ authority ≠ [] ∧
    ∀ c ∈ authority, isEdge c = false ∧ isSlash c = false ∧ c ≠ '?' ∧ c ≠ '#'

/-- The part of a path that is asked for. -/
def asked (cs : List Char) : List Char := (cs.takeWhile (· ≠ '#')).takeWhile (· ≠ '?')

theorem asked_sublist (cs : List Char) : (asked cs).Sublist cs :=
  (List.takeWhile_sublist _).trans (List.takeWhile_sublist _)

theorem takeWhile_ne_eq_self_iff {x : Char} {cs : List Char} :
    cs.takeWhile (· ≠ x) = cs ↔ x ∉ cs := by
  rw [List.takeWhile_eq_self_iff]
  constructor
  · intro h hmem
    simpa using h x hmem
  · intro h c hc
    simpa using fun e : c = x => h (e ▸ hc)

theorem asked_eq_self_iff {cs : List Char} : asked cs = cs ↔ '#' ∉ cs ∧ '?' ∉ cs := by
  constructor
  · intro h
    have hcut : cs.takeWhile (· ≠ '#') = cs := by
      refine (List.takeWhile_sublist _).eq_of_length_le ?_
      have hle := (List.takeWhile_sublist (· ≠ '?') (l := cs.takeWhile (· ≠ '#'))).length_le
      rwa [← asked, h] at hle
    rw [asked, hcut] at h
    exact ⟨takeWhile_ne_eq_self_iff.mp hcut, takeWhile_ne_eq_self_iff.mp h⟩
  · rintro ⟨hsign, hmark⟩
    rw [asked, takeWhile_ne_eq_self_iff.mpr hsign, takeWhile_ne_eq_self_iff.mpr hmark]

theorem target_of_ofRest? {authority cs : List Char} {secure : Bool}
    {params : List (String × String)} {a : Address} (hne : authority ≠ [])
    (hauthority : ∀ c ∈ authority, isSlash c = false ∧ c ≠ '?' ∧ c ≠ '#')
    (h : Address.ofRest? secure ('/' :: '/' :: (authority ++ '/' :: cs)) params = some a) :
    ∃ given, a.target.toList = pathText ('/' :: asked cs) ++ queryText given params ∧
      (asked cs = cs → given = none) := by
  have hslashes : ('/' :: '/' :: (authority ++ '/' :: cs)).dropWhile isSlash =
      authority ++ '/' :: cs := by
    obtain ⟨c, rest, rfl⟩ := List.exists_cons_of_ne_nil hne
    have hc := (hauthority c List.mem_cons_self).1
    show (c :: (rest ++ '/' :: cs)).dropWhile isSlash = _
    exact List.dropWhile_cons_of_neg (by simp [hc])
  have hmember : (authority ++ '/' :: cs).takeWhile
      (fun c => !(isSlash c || c = '?' || c = '#')) = authority := by
    rw [List.takeWhile_append_of_pos, List.takeWhile_cons_of_neg (by decide), List.append_nil]
    intro c hc
    simp [hauthority c hc]
  have hpath : (('/' :: cs).takeWhile (· ≠ '#')).takeWhile (· ≠ '?') = '/' :: asked cs := rfl
  simp only [Address.ofRest?, hslashes, hmember, List.drop_left, hpath] at h
  obtain ⟨p, -, ha⟩ := Option.bind_eq_some_iff.mp h
  obtain rfl := Option.some.inj ha
  refine ⟨_, String.toList_ofList, fun hall => ?_⟩
  have hrest : ('/' :: cs).takeWhile (· ≠ '#') = '/' :: cs :=
    takeWhile_ne_eq_self_iff.mpr (by simp [(asked_eq_self_iff.mp hall).1])
  rw [hall, hrest, List.drop_length]

theorem scheme_of_isPrefixOf {name scheme rest : List Char} (hname : ':' ∉ name)
    (hscheme : ':' ∉ scheme) (h : (name ++ [':']).isPrefixOf (scheme ++ ':' :: rest) = true) :
    scheme = name := by
  obtain ⟨tail, htail⟩ := List.isPrefixOf_iff_prefix.mp h
  have htake := congrArg (List.takeWhile (· ≠ ':')) htail
  rw [List.append_assoc, List.singleton_append, takeWhile_append_cons hname,
    takeWhile_append_cons hscheme] at htake
  exact htake.symm

/-- The segments of a key, with slashes between. -/
def names (key : String) : List Char :=
  ['/'].intercalate ((Path.segments key).map (·.text.toList))

theorem toList_canonical (key : String) : (Path.canonical key).toList = '/' :: names key := by
  rw [Path.canonical, Path.render, String.toList_ofList]
  rfl

/-- A text below the start of every path, without the slash in front. -/
def below (cs : List Char) : List Char := ['v', '2', '/', 'k', 'e', 'y', 's', '/'] ++ cs

theorem slash_below (cs : List Char) : '/' :: below cs = Address.keysPath.toList ++ '/' :: cs := rfl

theorem target_of_of? {member key : String} {params : List (String × String)} {a : Address}
    (hmember : IsMember member) (h : Address.of? member key params = some a) :
    ∃ given,
      a.target.toList = pathText ('/' :: asked (below (tidy (names key)))) ++
        queryText given params ∧
      (asked (below (tidy (names key))) = below (tidy (names key)) → given = none) := by
  obtain ⟨scheme, authority, hchars, hscheme, hne, hauthority⟩ := hmember
  have hends : ∀ c ∈ authority, isSlash c = false ∧ c ≠ '?' ∧ c ≠ '#' := fun c hc =>
    (hauthority c hc).2
  have hcolon : ':' ∉ scheme := fun hmem => (hscheme _ hmem).2 rfl
  have hclean : Address.clean (member ++ Address.keysPath ++ Path.canonical key).toList =
      scheme ++ ':' :: '/' :: '/' :: (authority ++ '/' :: below (tidy (names key))) := by
    have hhead : ∀ c ∈ scheme ++ ':' :: '/' :: '/' :: (authority ++ Address.keysPath.toList),
        isEdge c = false := fun c hc => by
      simp only [List.mem_append, List.mem_cons] at hc
      rcases hc with hc | rfl | rfl | rfl | hc | hc
      · exact (hscheme c hc).1
      · rfl
      · rfl
      · rfl
      · exact (hauthority c hc).1
      · have hpath : Address.keysPath.toList.all (!isEdge ·) = true := by decide
        exact (Bool.not_eq_true' _).mp (List.all_eq_true.mp hpath c hc)
    have hwhole : (member ++ Address.keysPath ++ Path.canonical key).toList =
        (scheme ++ ':' :: '/' :: '/' :: (authority ++ Address.keysPath.toList)) ++
          '/' :: names key := by
      rw [String.toList_append, String.toList_append, hchars, toList_canonical]
      simp
    rw [hwhole, clean_append hhead, slash_below]
    simp
  rw [Address.of?, hclean] at h
  split_ifs at h with hopen hsecure
  · obtain rfl : scheme = "http".toList := scheme_of_isPrefixOf (by decide) hcolon hopen
    exact target_of_ofRest? hne hends h
  · obtain rfl : scheme = "https".toList := scheme_of_isPrefixOf (by decide) hcolon hsecure
    exact target_of_ofRest? hne hends h

/-! ## Queries -/

theorem queryText_cases (given : Option (List Char)) (params : List (String × String)) :
    queryText given params = [] ∨ ∃ q, queryText given params = '?' :: q := by
  cases params with
  | nil =>
    cases given with
    | none => exact Or.inl rfl
    | some q => exact Or.inr ⟨_, rfl⟩
  | cons p params =>
    rw [queryText]
    · split
      · exact Or.inr ⟨_, rfl⟩
      · exact Or.inr ⟨_, rfl⟩
    · exact List.cons_ne_nil p params

theorem queryText_none (params : List (String × String)) :
    (queryText none params).drop 1 = formText params := by
  cases params with
  | nil => rfl
  | cons p params => rfl

/-- Visible characters that always mean something in an address. -/
def notInKey : List Char := ['?', '#', '\\']

end Http

namespace Path

open Http

/-- The characters of the path stand for themselves in an address, and so do its segments. -/
structure IsPlain (path : String) : Prop where
  characters : ∀ c ∈ (canonical path).toList, isBreak c = false ∧ c ∉ notInKey
  last : ∀ c ∈ (canonical path).toList.getLast?, isEdge c = false
  pieces : ∀ s ∈ segments path, isLossy s.text.toList = false

theorem isPlain_iff (path : String) : IsPlain path ↔
    ((canonical path).toList.all fun c => !isBreak c && !notInKey.contains c) = true ∧
      (canonical path).toList.getLast?.all (!isEdge ·) = true ∧
      ((segments path).all fun s => !isLossy s.text.toList) = true := by
  simp only [List.all_eq_true, Option.all_eq_true, Bool.and_eq_true, Bool.not_eq_true',
    List.contains_eq_mem, decide_eq_false_iff_not]
  exact ⟨fun h => ⟨h.characters, h.last, h.pieces⟩, fun h => ⟨h.1, h.2.1, h.2.2⟩⟩

instance (path : String) : Decidable (IsPlain path) := decidable_of_iff _ (isPlain_iff path).symm

end Path

namespace Address

open Http

/-- The bytes of the path that is asked for. -/
def path (a : Address) : List UInt8 := percentDecode (a.target.toList.takeWhile (· ≠ '?'))

/-- The names and values that are asked for. -/
def query (a : Address) : List (List UInt8 × List UInt8) :=
  formPairs ((a.target.toList.dropWhile (· ≠ '?')).drop 1)

variable {a : Address} {cs : List Char} {given : Option (List Char)}
  {params : List (String × String)}

theorem path_eq (h : a.target.toList = pathText ('/' :: cs) ++ queryText given params) :
    a.path = percentDecode (pathText ('/' :: cs)) := by
  rw [path, h]
  rcases queryText_cases given params with hquery | ⟨q, hquery⟩
  · rw [hquery, List.append_nil, takeWhile_ne_eq_self_iff.mpr (mark_notMem_pathText cs)]
  · rw [hquery, takeWhile_append_cons (mark_notMem_pathText cs)]

theorem query_eq (h : a.target.toList = pathText ('/' :: cs) ++ queryText none params) :
    a.query = params.map fun p => (octets p.1.toList, octets p.2.toList) := by
  have hquery : (a.target.toList.dropWhile (· ≠ '?')).drop 1 = formText params := by
    rw [h, ← queryText_none]
    rcases queryText_cases none params with hquery | ⟨q, hquery⟩
    · rw [hquery, List.append_nil, List.drop_nil, List.dropWhile_eq_nil_iff.mpr, List.drop_nil]
      intro c hc
      exact decide_eq_true fun e : c = '?' => mark_notMem_pathText cs (e ▸ hc)
    · rw [hquery, dropWhile_append_cons (mark_notMem_pathText cs)]
  rw [query, hquery, formPairs_formText]

variable {member key : String}

theorem getLast?_slash (cs : List Char) :
    (∀ c ∈ ('/' :: cs).getLast?, isEdge c = false) ↔ ∀ c ∈ cs.getLast?, isEdge c = false := by
  cases cs with
  | nil => simp [isEdge]
  | cons c rest => rw [List.getLast?_cons_cons]

theorem mem_below {c : Char} (h : c ∉ keysPath.toList) : c ∈ below cs ↔ c ∈ cs := by
  have hslash : c ≠ '/' := fun e => h (e ▸ by decide)
  have hmem : c ∈ '/' :: below cs ↔ c ∈ cs := by
    rw [slash_below, List.mem_append, List.mem_cons]
    simp [h, hslash]
  rwa [List.mem_cons, or_iff_right hslash] at hmem

theorem isLossy_below_iff (key : String) :
    (∀ p ∈ (below (names key)).splitOn '/', isLossy p = false) ↔
      ∀ s ∈ Path.segments key, isLossy s.text.toList = false := by
  have hsplit : (below (names key)).splitOn '/' =
      ['v', '2'] :: ['k', 'e', 'y', 's'] :: (names key).splitOn '/' := by
    have hversion := List.splitOn_append_cons_self (a := '/') ['v', '2']
      (['k', 'e', 'y', 's', '/'] ++ names key)
    have hkeys := List.splitOn_append_cons_self (a := '/') ['k', 'e', 'y', 's'] (names key)
    exact hversion.trans (congrArg (['v', '2'] :: ·) hkeys)
  have hnames : (names key).splitOn '/' = (Path.segments key).map (·.text.toList) ∨
      Path.segments key = [] ∧ (names key).splitOn '/' = [[]] := by
    by_cases hnil : Path.segments key = []
    · refine Or.inr ⟨hnil, ?_⟩
      rw [names, hnil]
      rfl
    · refine Or.inl (List.splitOn_intercalate '/' (fun p hp => ?_) (by simpa using hnil))
      obtain ⟨s, -, rfl⟩ := List.mem_map.mp hp
      exact s.slashless
  have hversion : isLossy ['v', '2'] = false := by decide
  have hkeys : isLossy ['k', 'e', 'y', 's'] = false := by decide
  rw [hsplit, List.forall_mem_cons, List.forall_mem_cons]
  simp only [hversion, hkeys, true_and]
  rcases hnames with hnames | ⟨hnil, hnames⟩
  · rw [hnames, List.forall_mem_map]
  · rw [hnames, hnil]
    simp [show isLossy [] = false by decide]

/-- A key is plain just if nothing is left out of its path and every piece stands for itself. -/
theorem plain_iff (key : String) : Path.IsPlain key ↔
    tidy (names key) = names key ∧ asked (below (names key)) = below (names key) ∧
      '\\' ∉ below (names key) ∧ ∀ p ∈ (below (names key)).splitOn '/', isLossy p = false := by
  rw [tidy_eq_self_iff, asked_eq_self_iff, mem_below (by decide), mem_below (by decide),
    mem_below (by decide), isLossy_below_iff, ← getLast?_slash, ← toList_canonical]
  constructor
  · intro h
    have hcharacters : ∀ c ∈ names key, isBreak c = false ∧ c ∉ notInKey := fun c hc =>
      h.characters c (by rw [toList_canonical]; exact List.mem_cons_of_mem _ hc)
    exact ⟨⟨fun c hc => (hcharacters c hc).1, h.last⟩,
      ⟨fun hc => (hcharacters _ hc).2 (by decide), fun hc => (hcharacters _ hc).2 (by decide)⟩,
      fun hc => (hcharacters _ hc).2 (by decide), h.pieces⟩
  · rintro ⟨⟨hbreaks, hlast⟩, ⟨hsign, hmark⟩, hslash, hpieces⟩
    refine ⟨fun c hc => ?_, hlast, hpieces⟩
    rw [toList_canonical] at hc
    rcases List.mem_cons.mp hc with rfl | hc
    · decide
    · refine ⟨hbreaks c hc, fun hspecial => ?_⟩
      simp only [notInKey, List.mem_cons, List.not_mem_nil, or_false] at hspecial
      rcases hspecial with rfl | rfl | rfl
      · exact hmark hc
      · exact hsign hc
      · exact hslash hc

/-- **A key is asked for as it is just if it is plain.** -/
theorem path_eq_iff (hmember : IsMember member) (h : of? member key params = some a) :
    a.path = octets (keysPath ++ Path.canonical key).toList ↔ Path.IsPlain key := by
  obtain ⟨given, htarget, -⟩ := target_of_of? hmember h
  have hbelow : (below (tidy (names key))).Sublist (below (names key)) :=
    (tidy_sublist (names key)).append_left _
  have hasked := asked_sublist (below (tidy (names key)))
  have hcanonical : (keysPath ++ Path.canonical key).toList = '/' :: below (names key) := by
    rw [String.toList_append, toList_canonical, slash_below]
  rw [path_eq htarget, hcanonical, percentDecode_pathText_iff (hasked.trans hbelow), plain_iff]
  constructor
  · rintro ⟨hall, hslash, hpieces⟩
    -- nothing is missing at the end, so nothing has been left out on the way
    have hkept : below (tidy (names key)) = below (names key) :=
      hbelow.eq_of_length_le (hall ▸ hasked.length_le)
    rw [hkept] at hall
    exact ⟨List.append_cancel_left hkept, hall, hslash, hpieces⟩
  · rintro ⟨htidy, hall, hslash, hpieces⟩
    rw [htidy]
    exact ⟨hall, hslash, hpieces⟩

theorem query_of_plain (hmember : IsMember member) (h : of? member key params = some a)
    (hplain : Path.IsPlain key) :
    a.query = params.map fun p => (octets p.1.toList, octets p.2.toList) := by
  obtain ⟨given, htarget, hgiven⟩ := target_of_of? hmember h
  obtain ⟨htidy, hall, -⟩ := (plain_iff key).mp hplain
  rw [htidy] at htarget hgiven
  rw [hgiven hall] at htarget
  exact query_eq htarget

theorem map_octets_injective {params params' : List (String × String)}
    (h : (params.map fun p => (octets p.1.toList, octets p.2.toList)) =
      params'.map fun p => (octets p.1.toList, octets p.2.toList)) : params = params' := by
  refine List.map_injective_iff.mpr (fun p q hpq => ?_) h
  obtain ⟨hname, hvalue⟩ := Prod.mk.inj hpq
  exact Prod.ext (String.toList_injective (octets_injective hname))
    (String.toList_injective (octets_injective hvalue))

/-- **What a request asks for.** The path that is asked for is the key just if the key is plain.
Then the query that is asked for is the parameters, and no other plain key, at whatever member and
with whatever parameters, has the same address. -/
theorem asks_iff (hmember : IsMember member) (h : of? member key params = some a) :
    (a.path = octets (keysPath ++ Path.canonical key).toList ↔ Path.IsPlain key) ∧
    (Path.IsPlain key →
      a.query = params.map (fun p => (octets p.1.toList, octets p.2.toList)) ∧
      ∀ member' key' params', IsMember member' → Path.IsPlain key' →
        of? member' key' params' = some a →
        Path.canonical key' = Path.canonical key ∧ params' = params) := by
  refine ⟨path_eq_iff hmember h, fun hplain => ⟨query_of_plain hmember h hplain, ?_⟩⟩
  intro member' key' params' hmember' hplain' h'
  have hpath := (path_eq_iff hmember h).mpr hplain
  have hquery := query_of_plain hmember h hplain
  rw [(path_eq_iff hmember' h').mpr hplain'] at hpath
  rw [query_of_plain hmember' h' hplain'] at hquery
  have htext := octets_injective hpath
  rw [String.toList_append, String.toList_append] at htext
  exact ⟨String.toList_injective (List.append_cancel_left htext), map_octets_injective hquery⟩

/-- Blanks, quotes, letters beyond one byte and a percent sign without digits are asked for as they
are, and so are parameters with signs of their own. -/
theorem asks_iff_spaced :
    let key := "//a key/\"ü\"/50%"
    let params := [("value", "a b&c=d"), ("ttl", "30")]
    ∃ a, of? "http://m:2379" key params = some a ∧
      a.path = octets "/v2/keys/a key/\"ü\"/50%".toList ∧
      a.query = params.map fun p => (octets p.1.toList, octets p.2.toList) := by
  intro key params
  have hmember : IsMember "http://m:2379" :=
    ⟨['h', 't', 't', 'p'], ['m', ':', '2', '3', '7', '9'], by decide, by simp [isEdge], by simp,
      by simp [isEdge, isSlash]⟩
  have hplain : Path.IsPlain key := by decide +kernel
  have hsome : (of? "http://m:2379" key params).isSome := by decide +kernel
  obtain ⟨a, ha⟩ := Option.isSome_iff_exists.mp hsome
  obtain ⟨hpath, hquery⟩ := asks_iff hmember ha
  have hkey : keysPath ++ Path.canonical key = "/v2/keys/a key/\"ü\"/50%" := by decide +kernel
  refine ⟨a, ha, ?_, (hquery hplain).1⟩
  rw [hpath.mpr hplain, hkey]

/-- A number sign ends what is asked for, so two keys have one address. -/
theorem number_sign_ends_path :
    IsMember "http://m" ∧ Path.canonical "a#b" ≠ Path.canonical "a#c" ∧
      ∃ a, of? "http://m" "a#b" [] = some a ∧ of? "http://m" "a#c" [] = some a ∧
        a.path = octets "/v2/keys/a".toList := by
  have hmember : IsMember "http://m" :=
    ⟨['h', 't', 't', 'p'], ['m'], by decide, by simp [isEdge], by simp, by simp [isEdge, isSlash]⟩
  exact ⟨hmember, by decide +kernel, ⟨false, "m", 80, "/v2/keys/a"⟩, by decide +kernel,
    by decide +kernel, by decide +kernel⟩

end Address

end ClusterRegistry
