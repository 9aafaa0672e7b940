import Scrollback.Decimal.Binary64
/-!
# Traffic counters

What a history counts: fragments and bytes written, records completed and evicted, partial records
dropped, and reads. The counters are shown in two forms, a summary for people and an export of one
`key=value` line each.

While a run goes on, its duration is what the clock shows when it is asked for. That reading, in
nanoseconds since the start, is a parameter of all that shows a duration.
-/

namespace Scrollback

/-- The counters of one history. -/
structure Metrics where
  fragmentsWritten : Nat
  bytesWritten : Nat
  /-- Fragments rejected because memory was refused. -/
  allocFailures : Nat
  recordsCompleted : Nat
  /-- Unfinished records dropped. -/
  partialsDiscarded : Nat
  /-- Records pushed out of the full log. -/
  recordsEvicted : Nat
  bytesEvicted : Nat
  reads : Nat
  /-- Bytes copied out to readers. -/
  bytesRead : Nat
  /-- Reads that found no more data. -/
  readsAtEnd : Nat
  /-- Nanoseconds from the start to the end of the run, `none` while it goes on. -/
  elapsed : Option Nat
  deriving DecidableEq, Repr

namespace Metrics

def fresh : Metrics :=
  ⟨0, 0, 0, 0, 0, 0, 0, 0, 0, 0, none⟩

/-- Mark the run as ended after some nanoseconds. -/
def complete (m : Metrics) (nanoseconds : Nat) : Metrics :=
  { m with elapsed := some nanoseconds }

/-- Nanoseconds that the run took, or takes up to a reading of the clock. -/
def nanoseconds (m : Metrics) (reading : Nat) : Nat :=
  m.elapsed.getD reading

/-- A run that has ended takes no longer. -/
@[simp] theorem nanoseconds_complete (m : Metrics) (nanoseconds reading : Nat) :
    (m.complete nanoseconds).nanoseconds reading = nanoseconds := rfl

/-- Whole milliseconds that the run took. -/
def milliseconds (m : Metrics) (reading : Nat) : Nat :=
  m.nanoseconds reading / 1000000

/-- Seconds that the run took. -/
def seconds (m : Metrics) (reading : Nat) : Binary64 :=
  let whole := Binary64.ofNat (m.nanoseconds reading / 1000000000)
  let part := Binary64.ofNat (m.nanoseconds reading % 1000000000)
  whole.add (part.div (Binary64.ofNat 1000000000))

/-- One count in units of another, zero if there are none of those. -/
def rate (count units : Nat) : Binary64 :=
  if units = 0 then .zero else (Binary64.ofNat count).div (Binary64.ofNat units)

/-- The part of the completed records that was evicted. -/
def evictionRate (m : Metrics) : Binary64 :=
  rate m.recordsEvicted m.recordsCompleted

def meanFragmentLength (m : Metrics) : Binary64 :=
  rate m.bytesWritten m.fragmentsWritten

/-- Bytes written each second, zero if no time has passed. -/
def throughput (m : Metrics) (reading : Nat) : Binary64 :=
  let seconds := m.seconds reading
  if seconds.isZero then .zero else (Binary64.ofNat m.bytesWritten).div seconds

/-- The values of the export by key. -/
def exported (m : Metrics) (reading : Nat) : List (String × String) :=
  [("duration_ms", toString (m.milliseconds reading)),
    ("fragments_written", toString m.fragmentsWritten),
    ("bytes_written", toString m.bytesWritten),
    ("alloc_failures", toString m.allocFailures),
    ("records_completed", toString m.recordsCompleted),
    ("partials_discarded", toString m.partialsDiscarded),
    ("records_evicted", toString m.recordsEvicted),
    ("bytes_evicted", toString m.bytesEvicted),
    ("eviction_rate", m.evictionRate.fixed 4),
    ("reads", toString m.reads),
    ("bytes_read", toString m.bytesRead),
    ("reads_at_end", toString m.readsAtEnd)]

/-- The export: one line for each value. -/
def exportText (m : Metrics) (reading : Nat) : String :=
  String.join ((m.exported reading).map fun (key, value) => key ++ "=" ++ value ++ "\n")

/-- The summary. The clock is read for the duration, and again for the throughput. -/
def summary (m : Metrics) (first second : Nat) : String :=
  let percent := m.evictionRate.mul (Binary64.ofNat 100)
  let megabytes := (m.throughput second).div (Binary64.ofNat 1000000)
  "\n=== History Summary ===\n" ++
  s!"Duration: {m.milliseconds first} ms\n" ++
  "\n=== Writes ===\n" ++
  s!"Fragments: {m.fragmentsWritten}\n" ++
  s!"Bytes: {m.bytesWritten}\n" ++
  s!"Mean fragment: {m.meanFragmentLength.fixed 1} bytes\n" ++
  s!"Allocation failures: {m.allocFailures}\n" ++
  "\n=== Records ===\n" ++
  s!"Completed: {m.recordsCompleted}\n" ++
  s!"Evicted: {m.recordsEvicted} ({percent.fixed 1}%)\n" ++
  s!"Evicted bytes: {m.bytesEvicted}\n" ++
  s!"Partials discarded: {m.partialsDiscarded}\n" ++
  "\n=== Reads ===\n" ++
  s!"Calls: {m.reads}\n" ++
  s!"Bytes: {m.bytesRead}\n" ++
  s!"End-of-data reads: {m.readsAtEnd}\n" ++
  "\n=== Performance ===\n" ++
  s!"Write throughput: {megabytes.fixed 2} MB/s\n\n"

end Metrics

end Scrollback
