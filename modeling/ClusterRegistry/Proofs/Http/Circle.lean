import Mathlib.Data.List.Rotate
import ClusterRegistry.Http.Exchange

/-!
# Members in a circle

Members are asked one after the other, from any of them on, until something is heard from one. A
member from which nothing comes is passed over; one that cannot be addressed ends the circle.

* `Circle`, `Circle.place`, `Circle.request?`: members in the order in which they are asked;
* `Circle.heard?`, `Circle.missed`, `Circle.Passed`: what comes from them;
* `Circle.run_of_passed`: after some members have been passed over;
* **`Circle.run_hears`**: which members are asked, and what comes of it.
-/

namespace ClusterRegistry

namespace Http

theorem rotateLeft_eq_rotate {α : Type} (l : List α) (n : Nat) : l.rotateLeft n = l.rotate n := by
  rw [List.rotate_eq_drop_append_take_mod, List.rotateLeft]
  dsimp only
  split_ifs with h
  · cases l with
    | nil => simp
    | cons a rest =>
      obtain rfl : rest = [] := List.eq_nil_of_length_eq_zero (by simpa using h)
      simp [Nat.mod_one]
  · rfl

/-- Members in a circle, with what becomes of a request to the member at each place, and the place
of the member that is asked first. -/
structure Circle where
  members : List String
  fate : Nat → Fate
  start : Nat

namespace Circle

variable (o : Circle) (c : Call) (timeout : Nat)

/-- The number of members. -/
def size : Nat := o.members.length

/-- The place of the member that is number `i` from the start. -/
def place (i : Nat) : Nat := (o.start + i) % o.size

/-- The member that is number `i` from the start. -/
def member? (i : Nat) : Option String := o.members[o.place i]?

/-- The request to it, if it can be addressed. -/
def request? (i : Nat) : Option HttpRequest :=
  (o.member? i).bind fun member =>
    (Address.of? member c.path c.params).map fun address => ⟨c.method, address⟩

/-- Every request is written down, and meets the fate of the member that it goes to. -/
def serve (log : List HttpRequest) (r : HttpRequest) : List HttpRequest × Fate :=
  (log ++ [r], o.fate (o.place log.length))

/-- The requests that reach the members, in order, and what the call results in. -/
def run : List HttpRequest × Except RequestFailure Response :=
  execute o.serve timeout o.members o.start [] c

/-! ## What comes from a member -/

/-- What is heard from a member, if anything is: its answer, or a part of it. -/
def heardFrom? (member : String) : Fate → Option (Except RequestFailure Response)
  | .answered status index body => some (decode member status index body)
  | .broken => some (.error (.unreachable member "<transport error>"))
  | .lost | .silent => none

/-- The failure of a request after which nothing is heard. -/
def missedBy (member : String) : Fate → RequestFailure
  | .silent => .timedOut (Duration.nanosOfMillis timeout)
  | _ => .unreachable member "<transport error>"

/-- What is heard from member number `i`. -/
def heard? (i : Nat) : Option (Except RequestFailure Response) :=
  (o.member? i).bind fun member => heardFrom? member (o.fate (o.place i))

/-- What the call has failed with after the first `k` members have been asked in vain. -/
def missed : Nat → RequestFailure
  | 0 => .noEndpoints
  | k + 1 => ((o.member? k).map fun member => missedBy timeout member (o.fate (o.place k))).getD
      .noEndpoints

/-- The first `k` members can be addressed, and nothing is heard from them. -/
def Passed (k : Nat) : Prop := ∀ i < k, (o.request? c i).isSome ∧ o.heard? i = none

/-! ## One member after the other -/

variable {o c timeout} {i k : Nat} {member : String} {r : HttpRequest}

theorem exists_member (h : i < o.size) : ∃ member, o.member? i = some member :=
  ⟨_, List.getElem?_eq_getElem (Nat.mod_lt _ (Nat.zero_lt_of_lt h))⟩

theorem exists_address (h : o.request? c i = some r) : ∃ member address,
    o.member? i = some member ∧ Address.of? member c.path c.params = some address ∧
      r = ⟨c.method, address⟩ := by
  obtain ⟨member, hmember, hrequest⟩ := Option.bind_eq_some_iff.mp h
  obtain ⟨address, haddress, rfl⟩ := Option.map_eq_some_iff.mp hrequest
  exact ⟨member, address, hmember, haddress, rfl⟩

theorem heard?_eq (hmember : o.member? i = some member) :
    o.heard? i = heardFrom? member (o.fate (o.place i)) := by
  rw [heard?, hmember, Option.bind_some]

theorem missed_succ (hmember : o.member? k = some member) :
    o.missed timeout (k + 1) = missedBy timeout member (o.fate (o.place k)) := by
  rw [missed, hmember, Option.map_some, Option.getD_some]

theorem drop_circle (h : k < o.size) (hmember : o.member? k = some member) :
    (o.members.rotateLeft o.start).drop k =
      member :: (o.members.rotateLeft o.start).drop (k + 1) := by
  have hlength : k < (o.members.rotate o.start).length := by rwa [List.length_rotate]
  rw [rotateLeft_eq_rotate, List.drop_eq_getElem_cons hlength]
  refine congrArg (· :: _) ?_
  have hat := List.getElem?_rotate (n := o.start) h
  rw [List.getElem?_eq_getElem hlength, Nat.add_comm] at hat
  exact Option.some.inj (hat.trans hmember)

theorem tryEach_of_address {σ : Type} {send : σ → HttpRequest → σ × Fate} {rest : List String}
    {last : RequestFailure} {s s' : σ} {fate : Fate} {address : Address}
    (haddress : Address.of? member c.path c.params = some address)
    (hsend : send s ⟨c.method, address⟩ = (s', fate)) :
    tryEach send timeout c (member :: rest) last s =
      match heardFrom? member fate with
      | some answer => (s', answer)
      | none => tryEach send timeout c rest (missedBy timeout member fate) s' := by
  rw [tryEach, haddress]
  dsimp only
  rw [hsend]
  cases fate <;> rfl

/-- The requests to the first `k` members. -/
def Wrote (o : Circle) (c : Call) (k : Nat) (log : List HttpRequest) : Prop :=
  log.map some = (List.range k).map (o.request? c)

theorem Wrote.length {log : List HttpRequest} (h : o.Wrote c k log) : log.length = k := by
  have hlength := congrArg List.length h
  rwa [List.length_map, List.length_map, List.length_range] at hlength

theorem Wrote.succ {log : List HttpRequest} (h : o.Wrote c k log) (hr : o.request? c k = some r) :
    o.Wrote c (k + 1) (log ++ [r]) := by
  rw [Wrote, List.range_succ, List.map_append, List.map_append, h, List.map_singleton,
    List.map_singleton, hr]

theorem tryEach_of_request {log : List HttpRequest} {last : RequestFailure} (hk : k < o.size)
    (hlog : o.Wrote c k log) (hmember : o.member? k = some member) (hr : o.request? c k = some r) :
    tryEach o.serve timeout c ((o.members.rotateLeft o.start).drop k) last log =
      match o.heard? k with
      | some answer => (log ++ [r], answer)
      | none => tryEach o.serve timeout c ((o.members.rotateLeft o.start).drop (k + 1))
          (o.missed timeout (k + 1)) (log ++ [r]) := by
  obtain ⟨member', address, hmember', haddress, rfl⟩ := exists_address hr
  obtain rfl : member' = member := Option.some.inj (hmember'.symm.trans hmember)
  have hserve : o.serve log ⟨c.method, address⟩ =
      (log ++ [⟨c.method, address⟩], o.fate (o.place k)) := by
    rw [serve, hlog.length]
  rw [drop_circle hk hmember, tryEach_of_address haddress hserve, heard?_eq hmember,
    missed_succ hmember]

/-- **Members from which nothing comes are passed over.** -/
theorem run_of_passed (timeout : Nat) (hk : k ≤ o.size) (h : o.Passed c k) :
    ∃ log, o.Wrote c k log ∧
      o.run c timeout = tryEach o.serve timeout c ((o.members.rotateLeft o.start).drop k)
        (o.missed timeout k) log := by
  induction k with
  | zero => exact ⟨[], rfl, rfl⟩
  | succ k ih =>
    obtain ⟨log, hlog, hrun⟩ := ih (Nat.le_of_succ_le hk) fun i hi => h i (Nat.lt_succ_of_lt hi)
    obtain ⟨hrequest, hheard⟩ := h k (Nat.lt_succ_self k)
    obtain ⟨r, hr⟩ := Option.isSome_iff_exists.mp hrequest
    obtain ⟨member, hmember⟩ := exists_member (o := o) hk
    refine ⟨log ++ [r], hlog.succ hr, ?_⟩
    rw [hrun, tryEach_of_request hk hlog hmember hr, hheard]

/-! ## The end of the circle -/

theorem run_of_heard {answer : Except RequestFailure Response} (hk : k < o.size)
    (h : o.Passed c k) (hrequest : (o.request? c k).isSome) (hheard : o.heard? k = some answer) :
    (o.run c timeout).2 = answer ∧ o.Wrote c (k + 1) (o.run c timeout).1 := by
  obtain ⟨log, hlog, hrun⟩ := run_of_passed timeout (Nat.le_of_lt hk) h
  obtain ⟨r, hr⟩ := Option.isSome_iff_exists.mp hrequest
  obtain ⟨member, hmember⟩ := exists_member hk
  rw [hrun, tryEach_of_request hk hlog hmember hr, hheard]
  exact ⟨rfl, hlog.succ hr⟩

theorem run_of_unaddressed (hk : k < o.size) (h : o.Passed c k)
    (hmember : o.member? k = some member) (hrequest : o.request? c k = none) :
    (o.run c timeout).2 = .error (.badEndpoint s!"{member}: <url error>") ∧
      o.Wrote c k (o.run c timeout).1 := by
  obtain ⟨log, hlog, hrun⟩ := run_of_passed timeout (Nat.le_of_lt hk) h
  have haddress : Address.of? member c.path c.params = none := by
    rw [request?, hmember, Option.bind_some, Option.map_eq_none_iff] at hrequest
    exact hrequest
  rw [hrun, drop_circle hk hmember, tryEach, haddress]
  exact ⟨rfl, hlog⟩

theorem run_of_all (h : o.Passed c o.size) :
    (o.run c timeout).2 = .error (o.missed timeout o.size) ∧
      o.Wrote c o.size (o.run c timeout).1 := by
  obtain ⟨log, hlog, hrun⟩ := run_of_passed timeout (Nat.le_refl o.size) h
  have hend : (o.members.rotateLeft o.start).drop o.size = [] := by
    rw [rotateLeft_eq_rotate, List.drop_eq_nil_iff, List.length_rotate]
    exact Nat.le_refl _
  rw [hrun, hend]
  exact ⟨rfl, hlog⟩

/-- Among the first `n` members there is one at which the circle ends, or all are passed over. -/
theorem passed_or_stop (o : Circle) (c : Call) (n : Nat) : o.Passed c n ∨ ∃ k < n, o.Passed c k ∧
    (o.request? c k = none ∨ (o.request? c k).isSome ∧ ∃ answer, o.heard? k = some answer) := by
  induction n with
  | zero => exact .inl fun i hi => absurd hi (Nat.not_lt_zero i)
  | succ n ih =>
    rcases ih with hpassed | ⟨k, hk, hstop⟩
    · cases hrequest : o.request? c n with
      | none => exact .inr ⟨n, Nat.lt_succ_self n, hpassed, .inl hrequest⟩
      | some r =>
        have hsome : (o.request? c n).isSome := hrequest ▸ rfl
        cases hheard : o.heard? n with
        | some answer =>
          exact .inr ⟨n, Nat.lt_succ_self n, hpassed, .inr ⟨hsome, answer, hheard⟩⟩
        | none =>
          refine .inl fun i hi => ?_
          rcases Nat.lt_succ_iff_lt_or_eq.mp hi with hi | rfl
          · exact hpassed i hi
          · exact ⟨hsome, hheard⟩
    · exact .inr ⟨k, Nat.lt_succ_of_lt hk, hstop⟩

theorem decode_ne_noEndpoints {status : Nat} {index : Option String} {body : List UInt8} :
    decode member status index body ≠ .error .noEndpoints := by
  rw [decode]
  split_ifs
  · split <;> rintro ⟨⟩
  · split <;> rintro ⟨⟩

theorem missed_ne_noEndpoints (hk : k < o.size) : o.missed timeout (k + 1) ≠ .noEndpoints := by
  obtain ⟨member, hmember⟩ := exists_member hk
  rw [missed_succ hmember]
  cases o.fate (o.place k) with
  | answered | broken | lost | silent => exact RequestFailure.noConfusion

theorem heard?_ne_noEndpoints : o.heard? k ≠ some (.error .noEndpoints) := by
  intro h
  obtain ⟨member, -, hheard⟩ := Option.bind_eq_some_iff.mp h
  cases hfate : o.fate (o.place k) with
  | answered status index body =>
    rw [hfate] at hheard
    exact decode_ne_noEndpoints (Option.some.inj hheard)
  | broken | lost | silent =>
    rw [hfate] at hheard
    cases hheard

theorem run_ne_noEndpoints (hpos : 0 < o.size) : (o.run c timeout).2 ≠ .error .noEndpoints := by
  rcases passed_or_stop o c o.size with hpassed | ⟨k, hk, hpassed, hnone | ⟨hsome, answer, hheard⟩⟩
  · rw [(run_of_all hpassed).1, ← Nat.sub_add_cancel hpos]
    exact fun h => missed_ne_noEndpoints (Nat.sub_lt hpos Nat.one_pos) (Except.error.inj h)
  · obtain ⟨member, hmember⟩ := exists_member hk
    rw [(run_of_unaddressed hk hpassed hmember hnone).1]
    rintro ⟨⟩
  · rw [(run_of_heard hk hpassed hsome hheard).1]
    exact fun h => heard?_ne_noEndpoints (hheard.trans (congrArg some h))

/-- The members are asked in the order of the circle, each once at most. -/
theorem exists_wrote (o : Circle) (c : Call) (timeout : Nat) :
    ∃ k ≤ o.size, o.Wrote c k (o.run c timeout).1 := by
  rcases passed_or_stop o c o.size with hpassed | ⟨k, hk, hpassed, hnone | ⟨hsome, answer, hheard⟩⟩
  · exact ⟨o.size, Nat.le_refl _, (run_of_all hpassed).2⟩
  · obtain ⟨member, hmember⟩ := exists_member hk
    exact ⟨k, Nat.le_of_lt hk, (run_of_unaddressed hk hpassed hmember hnone).2⟩
  · exact ⟨k + 1, hk, (run_of_heard hk hpassed hsome hheard).2⟩

/-- **One member that answers is enough**, wherever the circle starts, unless it meets one before
that cannot be addressed. The members are asked in the order of the circle, each once at most.
The result is what is heard first; if nothing is heard, it is the failure of the member that has
been tried last, be it the last of all or one that cannot be addressed. -/
theorem run_hears (o : Circle) (c : Call) (timeout : Nat) (hne : o.members ≠ []) :
    (∃ k ≤ o.size, o.Wrote c k (o.run c timeout).1) ∧
      (o.run c timeout).2 ≠ .error .noEndpoints ∧
      (∀ k < o.size, o.Passed c k → (o.request? c k).isSome → ∀ answer, o.heard? k = some answer →
        (o.run c timeout).2 = answer ∧ o.Wrote c (k + 1) (o.run c timeout).1) ∧
      (o.Passed c o.size → ∃ member, o.member? (o.size - 1) = some member ∧
        (o.run c timeout).2 = .error (missedBy timeout member (o.fate (o.place (o.size - 1)))) ∧
        o.Wrote c o.size (o.run c timeout).1) ∧
      ∀ k < o.size, o.Passed c k → o.request? c k = none → ∃ member, o.member? k = some member ∧
        (o.run c timeout).2 = .error (.badEndpoint s!"{member}: <url error>") ∧
        o.Wrote c k (o.run c timeout).1 := by
  have hpos : 0 < o.size := List.length_pos_iff.mpr hne
  refine ⟨exists_wrote o c timeout, run_ne_noEndpoints hpos, fun k hk hpassed hsome answer hheard =>
    run_of_heard hk hpassed hsome hheard, fun hpassed => ?_, fun k hk hpassed hnone => ?_⟩
  · obtain ⟨member, hmember⟩ := exists_member (o := o) (Nat.sub_lt hpos Nat.one_pos)
    refine ⟨member, hmember, ?_, (run_of_all hpassed).2⟩
    rw [(run_of_all hpassed).1, ← missed_succ hmember, Nat.sub_add_cancel hpos]
  · obtain ⟨member, hmember⟩ := exists_member hk
    exact ⟨member, hmember, run_of_unaddressed hk hpassed hmember hnone⟩

/-- Of three members, the second one is lost and the third one does not answer in time, so the
circle comes round to the first one. -/
theorem run_hears_round :
    let o : Circle := ⟨["http://a", "http://b", "http://c"],
      fun place =>
        if place = 0 then .answered 404 none [] else if place = 1 then .lost else .silent, 1⟩
    let c : Call := .request (.get "/k" {})
    (o.run c 100).2 = .error (.badStatus "http://a" 404) ∧ o.Wrote c 3 (o.run c 100).1 := by
  intro o c
  obtain ⟨-, -, hears, -, -⟩ := o.run_hears c 100 (List.cons_ne_nil _ _)
  have hpassed : o.Passed c 2 := by
    have hall : ∀ i < 2, (o.request? c i).isSome ∧ o.heard? i = none := by decide +kernel
    exact hall
  have hheard : o.heard? 2 = some (.error (.badStatus "http://a" 404)) := by
    rw [heard?_eq (show o.member? 2 = some "http://a" by decide),
      show o.place 2 = 0 by decide]
    rfl
  exact hears 2 (by decide) hpassed (by decide +kernel) _ hheard

/-- A member that cannot be addressed keeps the call from the next one, which would answer. -/
theorem unaddressed_ends :
    let o : Circle := ⟨["http://a b", "http://c"], fun _ => .answered 404 none [], 0⟩
    let c : Call := .request (.get "/k" {})
    (o.request? c 1).isSome ∧ o.heard? 1 = some (.error (.badStatus "http://c" 404)) ∧
      (o.run c 100).1 = [] ∧
      (o.run c 100).2 = .error (.badEndpoint "http://a b: <url error>") := by
  intro o c
  have hheard : o.heard? 1 = some (.error (.badStatus "http://c" 404)) := by
    rw [heard?_eq (show o.member? 1 = some "http://c" by decide)]
    rfl
  have hpassed : o.Passed c 0 := fun i hi => absurd hi (Nat.not_lt_zero i)
  obtain ⟨hresult, hlog⟩ : _ ∧ o.Wrote c 0 (o.run c 100).1 :=
    run_of_unaddressed (by decide) hpassed (show o.member? 0 = _ by rfl) (by decide +kernel)
  exact ⟨by decide +kernel, hheard, List.eq_nil_of_length_eq_zero hlog.length, hresult⟩

end Circle

end Http

end ClusterRegistry
