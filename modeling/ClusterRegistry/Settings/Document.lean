import ClusterRegistry.Json.Record
import ClusterRegistry.Settings

/-!
# Documents of settings

Every field has a default; unknown fields are skipped.

* `Settings.doc`, `RetryPolicy.doc`: the written form, with all fields;
* `Settings.ofDoc?`, `RetryPolicy.ofDoc?`: the record reading.
-/

namespace ClusterRegistry

open Json

def BackoffShape.words : List (String × BackoffShape) :=
  BackoffShape.all.map fun s => (s.label, s)

/-! ## Writing -/

def RetryPolicy.doc (p : RetryPolicy) : Doc :=
  .record
    [("interval", .int p.interval), ("max_retry_count", .int p.maxRetryCount),
      ("type", match p.shape with | some s => .str s.label | none => .null),
      ("max_interval", .int p.maxInterval)]

def StoreSettings.doc (s : StoreSettings) : Doc :=
  .record [("endpoints", .array (s.endpoints.map .str)),
    ("request_timeout_ms", .int s.requestTimeout)]

def WatchSettings.doc (w : WatchSettings) : Doc := .record [("buffer_size", .int w.bufferSize)]

def Settings.doc (s : Settings) : Doc :=
  .record [("store", s.store.doc), ("retry", s.retry.doc), ("watch", s.watch.doc)]

/-! ## Reading -/

def RetryPolicy.ofDoc? (d : Doc) : Option RetryPolicy := do
  let f ← d.record? ["interval", "max_retry_count", "type", "max_interval"]
  let absent : RetryPolicy := {}
  some {
    interval := ← fieldD? f "interval" absent.interval Doc.int64?
    maxRetryCount := ← fieldD? f "max_retry_count" absent.maxRetryCount Doc.int64?
    shape := ← fieldD? f "type" none (Doc.optional? (Doc.word? BackoffShape.words))
    maxInterval := ← fieldD? f "max_interval" absent.maxInterval Doc.int64? }

def StoreSettings.ofDoc? (d : Doc) : Option StoreSettings := do
  let f ← d.record? ["endpoints", "request_timeout_ms"]
  let absent : StoreSettings := {}
  some {
    endpoints := ← fieldD? f "endpoints" absent.endpoints fun d => do (← d.items?).mapM Doc.text?
    requestTimeout := ← fieldD? f "request_timeout_ms" absent.requestTimeout Doc.nat64? }

def WatchSettings.ofDoc? (d : Doc) : Option WatchSettings := do
  let f ← d.record? ["buffer_size"]
  let absent : WatchSettings := {}
  some { bufferSize := ← fieldD? f "buffer_size" absent.bufferSize Doc.nat64? }

def Settings.ofDoc? (d : Doc) : Option Settings := do
  let f ← d.record? ["store", "retry", "watch"]
  some {
    store := ← fieldD? f "store" {} StoreSettings.ofDoc?
    retry := ← fieldD? f "retry" {} RetryPolicy.ofDoc?
    watch := ← fieldD? f "watch" {} WatchSettings.ofDoc? }

end ClusterRegistry
