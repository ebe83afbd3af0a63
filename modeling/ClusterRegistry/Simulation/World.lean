import ClusterRegistry.Simulation.Fault
import ClusterRegistry.Program
import ClusterRegistry.Store.Wait
import ClusterRegistry.Watch

/-!
# A simulated world

A world holds one store behind a layer of faults, a clock that moves only when somebody sleeps, and
the tasks that run beside the main program: subscriptions and waits. The main program runs until it
sleeps; then the tasks run until all of them only wait, and the clock goes to whatever is due next.
Tasks queue up in the order in which they are woken.

* `Task`, `World`: who waits for what;
* `World.settle`: the tasks run until they only wait;
* `World.sleep`, `World.operate`, `World.waitFor`: the main program;
* `World.startWait`, `World.subscribe`, `World.receive`, `World.drain`, … : dealing with tasks.
-/

namespace ClusterRegistry

/-! ## Tasks -/

/-- How far a call of a task has come. -/
inductive Progress
  | idle
  /-- Asleep until a time; then the store is asked. -/
  | delayed (due : Nat)
  /-- Asleep until a time; then that is the answer. -/
  | answered (due : Nat) (result : Except RequestFailure Response)
  /-- Parked at the store. Its answer may be held up, or replaced by a failure. -/
  | parked (w : Wait) (late : Option (Nat × Option RequestFailure))

/-- What a task is for. -/
inductive Job
  | watch (sub : Subscription)
  /-- A wait at the store itself, with its answer once there is one. -/
  | wait (path : String) (options : WaitOptions) (result : Option (Except Refusal Response))

/-- A task with a name, the token that may cancel it, the turn in which it last came to rest, and
its place in the queue of those that have something to do. -/
structure Task where
  name : String
  job : Job
  progress : Progress := .idle
  token : Option String := none
  turn : Nat
  place : Option Nat := none

/-- A task is for a wait. -/
def Job.isWait : Job → Bool
  | .wait .. => true
  | .watch _ => false

/-- Everything there is. Time is in milliseconds. A world is broken once a request of the main
program has broken off: the program is gone, and what is shown from then on means nothing. -/
structure World where
  now : Nat := 0
  store : Store := {}
  broken : Bool := false
  rules : List FaultRule := []
  log : List Call := []
  tally : Tally := []
  tasks : List Task := []
  cancelledTokens : List String := []
  turn : Nat := 0

namespace Task

/-- The next time at which the clock alone wakes the task. -/
def timer? (t : Task) : Option Nat :=
  match t.progress with
  | .delayed due | .answered due _ => some due
  | .parked w _ => w.timer
  | .idle =>
    match t.job with
    | .watch sub => match sub.phase with | .pausing due => some due | _ => none
    | .wait .. => none

/-- The task has something to do. -/
def isReady (t : Task) (s : Store) (now : Nat) : Bool :=
  match t.progress with
  | .delayed due | .answered due _ => due ≤ now
  | .parked w _ => w.IsWoken s now
  | .idle =>
    match t.job with
    | .watch sub =>
      match sub.phase with
      | .asking => true
      | .pausing due => due ≤ now
      | .holding _ | .ended => false
    | .wait _ _ result => result.isNone

/-- When the clock wakes a task; those that something else wakes come before all of these. -/
def wakeTime (t : Task) (s : Store) : Nat :=
  match t.progress with
  | .parked w _ => if w.seen = s.signals then w.timer.getD 0 else 0
  | _ => t.timer?.getD 0

/-- The earlier task wakes first; of two at one time, the one that has been at rest longer. -/
def wakesBefore (s : Store) (t u : Task) : Bool :=
  t.wakeTime s < u.wakeTime s || (t.wakeTime s = u.wakeTime s && t.turn ≤ u.turn)

end Task

namespace World

/-! ## Running tasks -/

/-- The answer of the store, as the client of the store sees it. -/
def asAnswer : Except Refusal Response → Except RequestFailure Response
  | .ok r => .ok r
  | .error r => .error (.refused r)

/-- The task takes the answer to its call. -/
def take (w : World) (t : Task) (result : Except RequestFailure Response) : Task :=
  match t.job with
  | .watch sub => { t with job := .watch (sub.answered w.now result), progress := .idle }
  | .wait path options _ =>
    let result := match result with
      | .ok r => some (.ok r)
      | .error (.refused r) => some (.error r)
      | .error _ => none
    { t with job := .wait path options result, progress := .idle }

/-- What the store said, or the wait that it parked, reaches the task. -/
def deliver (w : World) (t : Task) (late : Option (Nat × Option RequestFailure)) :
    Except Refusal Response ⊕ Wait → Task
  | .inr parked => { t with progress := .parked parked late }
  | .inl answer =>
    match late with
    | none => w.take t (asAnswer answer)
    | some (delay, failure) =>
      let result := match failure with
        | some f => .error f
        | none => asAnswer answer
      if delay = 0 then w.take t result
      else { t with progress := .answered (w.now + delay) result }

/-- The task asks the store. -/
def ask (w : World) (t : Task) (path : String) (options : WaitOptions)
    (late : Option (Nat × Option RequestFailure)) : World × Task :=
  let (store, said) := w.store.beginWait w.now path options
  ({ w with store := store }, w.deliver t late said)

/-- The task calls through the layer of faults. -/
def call (w : World) (t : Task) (path : String) (options : WaitOptions) : World × Task :=
  let c : Call := .wait path options
  let (treatment, rules) := FaultRule.treat c w.rules
  let w := { w with rules := rules, log := w.log ++ [c] }
  match treatment with
  | .forward delay =>
    if delay = 0 then w.ask t path options none
    else (w, { t with progress := .delayed (w.now + delay) })
  | .answer delay result =>
    if delay = 0 then (w, w.take t result)
    else (w, { t with progress := .answered (w.now + delay) result })
  | .late delay failure => w.ask t path options (some (delay, failure))

/-- The task does the next thing it has to do. -/
def advance (w : World) (t : Task) : World × Task :=
  match t.progress with
  | .answered _ result => (w, w.take t result)
  | .parked wait late =>
    let (store, said) := w.store.resumeWait w.now wait
    ({ w with store := store }, w.deliver t late said)
  | .delayed _ =>
    match t.job with
    | .watch sub => w.ask t sub.path sub.options none
    | .wait path options _ => w.ask t path options none
  | .idle =>
    match t.job with
    | .watch sub =>
      match sub.phase with
      | .asking => w.call t sub.path sub.options
      | _ => (w, { t with job := .watch (sub.wake w.now) })
    | .wait path options _ => w.ask t path options none

/-- The task runs until it only waits, for so many things at most. -/
def runTask (w : World) (t : Task) : Nat → World × Task
  | 0 => (w, t)
  | fuel + 1 =>
    if t.isReady w.store w.now then
      let (w, t) := w.advance t
      w.runTask t fuel
    else (w, t)

/-- More things than all tasks together can do without time passing: each thing uses up a rule,
passes on a change, or comes once a task. -/
def fuel (w : World) : Nat :=
  w.rules.foldl (· + ·.times + 2) 0 + (w.tasks.length + 1) * (w.store.history.length + 8) +
    2 * w.store.contents.size

/-- Tasks that have something to do join the queue. -/
def enqueue (w : World) : World :=
  let woken := (w.tasks.filter fun t => t.place.isNone && t.isReady w.store w.now).mergeSort
    (Task.wakesBefore w.store)
  let places := woken.zipIdx.map fun (t, i) => (t.turn, w.turn + i)
  { w with
    tasks := w.tasks.map fun t => { t with place := (places.lookup t.turn).or t.place }
    turn := w.turn + woken.length }

/-- The first task in the queue. -/
def first? (w : World) : Option Task :=
  ((w.tasks.filter fun t => t.place.isSome).mergeSort
    fun a b => a.place.getD 0 ≤ b.place.getD 0).head?

/-- A task comes to rest and leaves the queue. Each has its own turn, which says which it is. -/
def rest (w : World) (t : Task) : World :=
  { w with
    tasks := w.tasks.map fun u =>
      if u.turn = t.turn then { t with turn := w.turn, place := none } else u
    turn := w.turn + 1 }

/-- The tasks run, one after the other, until they only wait, for so many turns at most. -/
def settleWithin (w : World) : Nat → World
  | 0 => w
  | turns + 1 =>
    let w := w.enqueue
    match w.first? with
    | none => w
    | some t =>
      let (w, t) := w.runTask t w.fuel
      (w.rest t).settleWithin turns

/-- The tasks run until they only wait. -/
def settle (w : World) : World := w.settleWithin w.fuel

/-! ## The main program -/

/-- The next time at which the clock alone wakes a task. -/
def nextTimer? (w : World) : Option Nat := (w.tasks.filterMap Task.timer?).min?

/-- The clock moves to a time, and the tasks that are due by then join the queue. -/
def moveTo (w : World) (time : Nat) : World := ({ w with now := time } : World).enqueue

/-- The main program sleeps until a time, and the clock stops on the way wherever a task is due, so
many times at most. When the time has come the main program goes on first, before the tasks that
are due at that time, too. -/
def sleepUntil (w : World) (due : Nat) : Nat → World
  | 0 => w.moveTo due
  | stops + 1 =>
    let w := w.settle
    match w.nextTimer? with
    | none => w.moveTo due
    | some t =>
      if w.now < t ∧ t < due then (w.moveTo t).sleepUntil due stops else w.moveTo due

/-- Time passes at once; whoever was due in between is late. -/
def pass (w : World) (millis : Nat) : World := w.moveTo (w.now + millis)

/-- The main program sleeps. -/
def sleep (w : World) (millis : Nat) : World :=
  if millis = 0 then w else w.sleepUntil (w.now + millis) millis

/-- A request at the store itself. One that breaks off breaks the world, and its answer stands for
none. -/
def perform (w : World) (r : Request) : World × Except Refusal Response :=
  match w.store.handle Duration.lastMoment w.now r with
  | (store, some answer) => ({ w with store := store }, answer)
  | (store, none) => ({ w with store := store, broken := true }, store.refuse 0 "")

/-- The index of the store. Asking for it is an access, too. -/
def currentIndex (w : World) : World × Nat :=
  let store := w.store.expire w.now
  ({ w with store := store }, store.index)

/-- A request through the layer of faults. The caller gives up when the timeout is over. -/
def request (w : World) (r : Request) (timeout : Nat) :
    World × Except RequestFailure Response :=
  let c : Call := .request r
  let (treatment, rules) := FaultRule.treat c w.rules
  let w := { w with rules := rules, log := w.log ++ [c] }
  let timedOut : Except RequestFailure Response :=
    .error (.timedOut (Duration.nanosOfMillis timeout))
  match treatment with
  | .forward delay =>
    if timeout < delay then (w.sleep timeout, timedOut)
    else
      let (w, answer) := (w.sleep delay).perform r
      (w, asAnswer answer)
  | .answer delay result =>
    if timeout < delay then (w.sleep timeout, timedOut) else (w.sleep delay, result)
  | .late delay failure =>
    let (w, answer) := w.perform r
    if timeout < delay then (w.sleep timeout, timedOut)
    else (w.sleep delay, match failure with | some f => .error f | none => asAnswer answer)

/-- Runs a program. -/
def run : Program α → World → World × α
  | .done a, w => (w, a)
  | .ask r timeout next, w =>
    let (w, answer) := w.request r timeout
    run (next answer) w
  | .sleep millis next, w => run next (w.sleep (Duration.slept millis))
  | .count c next, w => run next { w with tally := w.tally.add c }

/-- Runs an operation. -/
def operate (w : World) (x : Operation α) : World × Except Failure α := run x.run w

/-- The main program is parked at the store until a time, so many stops of the clock at most. -/
def parkUntil (w : World) (due : Nat) (wait : Wait) : Nat → World × Option (Except Refusal Response)
  | 0 => (w.moveTo due, none)
  | stops + 1 =>
    let w := w.settle
    if wait.IsWoken w.store w.now then
      let (store, said) := w.store.resumeWait w.now wait
      let w := { w with store := store }
      match said with
      | .inl answer => (w, some answer)
      | .inr wait => if due ≤ w.now then (w, none) else w.parkUntil due wait stops
    else if due ≤ w.now then (w, none)
    else
      let next := ((w.nextTimer?.toList ++ wait.timer.toList).filter (w.now < ·)).foldl min due
      let w := w.moveTo next
      if wait.IsWoken w.store w.now then
        let (store, said) := w.store.resumeWait w.now wait
        let w := { w with store := store }
        match said with
        | .inl answer => (w, some answer)
        | .inr wait => if due ≤ w.now then (w, none) else w.parkUntil due wait stops
      else if due ≤ w.now then (w, none)
      else w.parkUntil due wait stops

/-- A wait at the store itself, for so many milliseconds; nothing, if there is no answer by then. -/
def waitFor (w : World) (path : String) (options : WaitOptions) (timeout : Nat) :
    World × Option (Except Refusal Response) :=
  let (store, said) := w.store.beginWait w.now path options
  let w := { w with store := store }
  match said with
  | .inl answer => (w, some answer)
  | .inr wait =>
    if timeout = 0 then (w, none)
    else w.parkUntil (w.now + timeout) wait (2 * timeout + w.fuel)

/-- Writes the values 0, 1, … at the store itself, at one key or at `keys` keys in turn, without
sleeping. It stops at the first refusal. -/
def fill (w : World) (path : String) (keys : Nat) : List Nat → World × Option Refusal
  | [] => (w, none)
  | k :: rest =>
    let path' := if 1 < keys then path ++ toString (k % keys) else path
    match w.perform (.set path' (toString k) {}) with
    | (w, .ok _) => w.fill path keys rest
    | (w, .error r) => (w, some r)

/-! ## Dealing with tasks -/

/-- The task of that name that is, or is not, a wait. -/
def task? (w : World) (isWait : Bool) (name : String) : Option Task :=
  w.tasks.find? fun t => t.name = name ∧ t.job.isWait = isWait

/-- The world without that task. -/
def forget (w : World) (isWait : Bool) (name : String) : World :=
  { w with tasks := w.tasks.filter fun t => ¬ (t.name = name ∧ t.job.isWait = isWait) }

/-- The world with a new task, in place of an older one of that name. -/
def start (w : World) (name : String) (job : Job) (token : Option String) : World :=
  let w := w.forget job.isWait name
  { w with
    tasks := w.tasks ++ [{ name := name, job := job, token := token, turn := w.turn }]
    turn := w.turn + 1 }

/-- Starts a wait at the store itself. -/
def startWait (w : World) (name path : String) (options : WaitOptions) : World :=
  w.start name (.wait path options none) none

/-- The answer to a wait that has been started, which is forgotten with it; nothing, if there is
none yet. -/
def pollWait (w : World) (name : String) :
    Option (World × Option (Except Refusal Response)) :=
  match w.task? true name with
  | some { job := .wait _ _ (some result), .. } => some (w.forget true name, some result)
  | some _ => some (w, none)
  | none => none

/-- Starts a subscription. One whose token has been cancelled ends at once. -/
def subscribe (w : World) (name : String) (sub : Subscription) (token : Option String) : World :=
  let cancelled := token.any (w.cancelledTokens.contains ·)
  w.start name (.watch (if cancelled then sub.cancel else sub)) token

/-- Changes a subscription. -/
def modifySub (w : World) (select : Task → Bool) (f : Subscription → Subscription) : World :=
  { w with
    tasks := w.tasks.map fun t =>
      match t.job with
      | .watch sub => if select t then { t with job := .watch (f sub) } else t
      | .wait .. => t }

/-- The subscription of that name. -/
def sub? (w : World) (name : String) : Option Subscription :=
  match w.task? false name with
  | some { job := .watch sub, .. } => some sub
  | _ => none

/-- Ends what a task does at the moment. -/
def stop (w : World) (select : Task → Bool) : World :=
  let w := w.modifySub select Subscription.cancel
  { w with
    tasks := w.tasks.map fun t =>
      if ¬ t.job.isWait ∧ select t then { t with progress := .idle } else t }

/-- Cancels a subscription. -/
def cancel (w : World) (name : String) : World := w.stop fun t => t.name = name

/-- Cancels every subscription with that token, now and later. -/
def cancelToken (w : World) (token : String) : World :=
  let w := w.stop fun t => t.token = some token
  { w with cancelledTokens := token :: w.cancelledTokens }

/-- Forgets a subscription, which is cancelled with that. -/
def dropSub (w : World) (name : String) : World := w.forget false name

/-- The subscription of that name has ended. -/
def hasEnded (w : World) (name : String) : Option Bool :=
  (w.sub? name).map fun sub => sub.phase = .ended

/-- What the reader of a subscription gets. -/
inductive Received
  | event (e : Event)
  | pending
  | ended

/-- The reader takes the next event. -/
def receive (w : World) (name : String) : Option (World × Received) :=
  match w.sub? name with
  | none => none
  | some sub =>
    match sub.receive with
    | (some e, sub) => some (w.modifySub (·.name = name) fun _ => sub, .event e)
    | (none, sub) => some (w, if sub.phase = .ended then .ended else .pending)

/-- The reader takes events while there are any, and the tasks run in between, so many times at
most. -/
def drainWithin (w : World) (name : String) : Nat → Option (World × List Event × Received)
  | 0 => some (w, [], .pending)
  | times + 1 =>
    match w.receive name with
    | none => none
    | some (w, .event e) =>
      (w.settle.drainWithin name times).map fun (w, es, last) => (w, e :: es, last)
    | some (w, last) => some (w, [], last)

/-- The reader takes all events that there are. -/
def drain (w : World) (name : String) : Option (World × List Event × Received) :=
  w.drainWithin name (w.fuel + ((w.sub? name).map (·.buffer.length)).getD 0 + 1)

end World

end ClusterRegistry
