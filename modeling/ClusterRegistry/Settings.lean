import ClusterRegistry.Failure
import ClusterRegistry.Retry
import ClusterRegistry.Text.Blank

/-!
# Settings

* `StoreSettings`, `WatchSettings`, `Settings`: what an operator may set, with defaults;
* `Settings.validate`: the first thing that is wrong, looking at the store, then at the retry
  policy, then at watches;
* `Settings.connectable`: what is looked at before a registry is handed out.
-/

namespace ClusterRegistry

/-- How to reach the store. The timeout of a single request is in milliseconds. -/
structure StoreSettings where
  endpoints : List String := ["http://127.0.0.1:4001"]
  requestTimeout : Nat := 3000
deriving DecidableEq, Repr

/-- How many events a subscription holds for a slow reader. -/
structure WatchSettings where
  bufferSize : Nat := 64
deriving DecidableEq, Repr

/-- Everything that an operator may set. -/
structure Settings where
  store : StoreSettings := {}
  retry : RetryPolicy := {}
  watch : WatchSettings := {}
deriving DecidableEq, Repr

/-- There must be endpoints, none of them blank, and some time for a request. -/
def StoreSettings.validate (s : StoreSettings) : Except Failure Unit :=
  if s.endpoints = [] then
    .error (.settings "store.endpoints must contain at least one endpoint")
  else match s.endpoints.find? fun e => Text.trim e.toList = [] with
    | some e =>
      .error (.settings s!"store.endpoints contains an empty endpoint: {Text.quoteBlanks e}")
    | none =>
      if s.requestTimeout < 1 then
        .error (.settings "store.request_timeout_ms must be at least 1ms")
      else .ok ()

/-- No number of a policy may be negative. -/
def RetryPolicy.validate (p : RetryPolicy) : Except Failure Unit :=
  match p.fault? with
  | some reason => .error (.retryPolicy reason)
  | none => .ok ()

/-- A subscription must have room. -/
def WatchSettings.validate (w : WatchSettings) : Except Failure Unit :=
  if w.bufferSize = 0 then .error (.settings "watch.buffer_size must be greater than 0")
  else .ok ()

/-- All settings are usable. -/
def Settings.validate (s : Settings) : Except Failure Unit := do
  s.store.validate
  s.retry.validate
  s.watch.validate

/-- The settings are good enough to hand out a registry, which answers with its retry policy. -/
def Settings.connectable (s : Settings) : Except Failure RetryPolicy := do
  s.store.validate
  s.retry.validate
  return s.retry

end ClusterRegistry
