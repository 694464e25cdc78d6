import Teloxide.Outbound.Types

/-!
# Rolling windows

`RollingWindow` and `WindowSet` of
`crates/teloxide-core/src/outbound/scheduler.rs`: weighted sliding windows
whose budget is debited at grant time, and the sets of windows a request must
pass all at once.

A method that prunes as it answers returns the window it leaves behind next to
the answer. The iterators over a set short-circuit, so a window behind the
first failing one is left as it was; the model keeps that.
-/
namespace Teloxide.Outbound

/-- `(Instant, u32, Option<JobId>)`.
mirrors scheduler.rs:204 -/
structure WindowEvent where
  instant : Nat
  weight : Nat
  job : Option JobId
  deriving DecidableEq, Repr

/-- mirrors scheduler.rs:206-213 -/
structure RollingWindow where
  capacity : Nat
  window : Nat
  history : List WindowEvent
  used : Nat
  deriving DecidableEq, Repr

/-- The summed weight of some events. -/
def totalWeight (l : List WindowEvent) : Nat := (l.map (·.weight)).sum

namespace RollingWindow

/-- mirrors scheduler.rs:216-218 -/
def new (limit : WindowLimit) : RollingWindow :=
  { capacity := limit.capacity, window := limit.window, history := [], used := 0 }

/-- The event left a window of this length by `now` (`checked_sub` gives no
cutoff while the clock has not run for a whole window). -/
def expired (window : Nat) (now : Nat) (e : WindowEvent) : Bool :=
  window ≤ now && e.instant ≤ now - window

/-- mirrors scheduler.rs:220-230 -/
def prune (w : RollingWindow) (now : Nat) : RollingWindow :=
  { w with history := w.history.dropWhile (expired w.window now)
           used := w.used - totalWeight (w.history.takeWhile (expired w.window now)) }

/-- mirrors scheduler.rs:232-235 -/
def isIdle (w : RollingWindow) (now : Nat) : RollingWindow × Bool :=
  (w.prune now, (w.prune now).history.isEmpty)

/-- mirrors scheduler.rs:237-240 -/
def canConsume (w : RollingWindow) (now : Nat) (weight : Nat) : RollingWindow × Bool :=
  (w.prune now, (w.prune now).used + weight ≤ w.capacity)

/-- The `debug_assert!` is `canConsume`, checked by `SchedulerState.grant`.
mirrors scheduler.rs:242-249 -/
def consume (w : RollingWindow) (now : Nat) (weight : Nat) (job : JobId) : RollingWindow :=
  { w with history := w.history ++ [⟨now, weight, some job⟩], used := w.used + weight }

/-- The debit a refund of `job` looks for. -/
def isDebit (job : JobId) (weight : Nat) (e : WindowEvent) : Bool :=
  e.job == some job && e.weight == weight

/-- mirrors scheduler.rs:251-265 -/
def refund (w : RollingWindow) (now : Nat) (job : JobId) (weight : Nat) : RollingWindow × Bool :=
  let w := w.prune now
  if w.history.any (isDebit job weight) then
    ({ w with history := w.history.eraseP (isDebit job weight), used := w.used - weight }, true)
  else (w, false)

/-- mirrors scheduler.rs:270-273 -/
def insert (w : RollingWindow) (at' : Nat) (weight : Nat) (job : Option JobId) : RollingWindow :=
  { w with history := w.history ++ [⟨at', weight, job⟩], used := w.used + weight }

/-- The loop of `earliest_for`: the first event after whose expiry the weight
fits. -/
def firstFit (capacity : Nat) (window : Nat) (weight : Nat) : Nat → List WindowEvent → Option Nat
  | _, [] => none
  | remaining, e :: l =>
    if remaining - e.weight + weight ≤ capacity then some (e.instant + window)
    else firstFit capacity window weight (remaining - e.weight) l

/-- mirrors scheduler.rs:279-291 -/
def earliestFor (w : RollingWindow) (now : Nat) (weight : Nat) : Option Nat :=
  if w.used + weight ≤ w.capacity then some now
  else firstFit w.capacity w.window weight w.used w.history

end RollingWindow

/-- mirrors scheduler.rs:294-297 -/
structure WindowSet where
  windows : List RollingWindow
  deriving DecidableEq, Repr

/-- `Iterator::max_by_key`: the last of the greatest elements. -/
def maxByKey {α : Type} (f : α → Nat) : List α → Option α
  | [] => none
  | a :: l => some (l.foldl (fun best b => if f best ≤ f b then b else best) a)

namespace WindowSet

/-- mirrors scheduler.rs:300-309 -/
def new (limits : List WindowLimit) (kind : WindowChatKind) : WindowSet :=
  ⟨(limits.filter fun limit => limit.kind == .any || limit.kind == kind).map .new⟩

/-- mirrors scheduler.rs:311-320 -/
def newClass (limits : List OutboundClassWindowLimit) (cls : OutboundClass) : WindowSet :=
  ⟨(limits.filter fun limit => limit.cls == cls).map fun limit =>
    .new { capacity := limit.capacity, window := limit.window, kind := .any }⟩

/-- Runs a pruning test over the windows up to the first one that fails it. -/
def allMut (test : RollingWindow → RollingWindow × Bool) : List RollingWindow → List RollingWindow × Bool
  | [] => ([], true)
  | w :: ws =>
    match test w with
    | (w, false) => (w :: ws, false)
    | (w, true) => (w :: (allMut test ws).1, (allMut test ws).2)

/-- mirrors scheduler.rs:322-324 -/
def canConsume (s : WindowSet) (now : Nat) (weight : Nat) : WindowSet × Bool :=
  let r := allMut (·.canConsume now weight) s.windows
  (⟨r.1⟩, r.2)

/-- mirrors scheduler.rs:326-330 -/
def consume (s : WindowSet) (now : Nat) (weight : Nat) (job : JobId) : WindowSet :=
  ⟨s.windows.map (·.consume now weight job)⟩

/-- mirrors scheduler.rs:332-338 -/
def refund (s : WindowSet) (now : Nat) (job : JobId) (weight : Nat) : WindowSet × Bool :=
  (⟨s.windows.map fun w => (w.refund now job weight).1⟩, s.windows.any fun w => (w.refund now job weight).2)

/-- mirrors scheduler.rs:340-342 -/
def isIdle (s : WindowSet) (now : Nat) : WindowSet × Bool :=
  let r := allMut (·.isIdle now) s.windows
  (⟨r.1⟩, r.2)

/-- The history of the longest window. -/
def longestHistory (windows : List RollingWindow) : List WindowEvent :=
  ((maxByKey (·.window) windows).map (·.history)).getD []

/-- mirrors scheduler.rs:346-357 -/
def collectEvents (s : WindowSet) (now : Nat) : WindowSet × List WindowEvent :=
  let windows := s.windows.map (·.prune now)
  (⟨windows⟩, longestHistory windows)

/-- mirrors scheduler.rs:361-368 -/
def insertAt (s : WindowSet) (now : Nat) (e : WindowEvent) : WindowSet :=
  ⟨s.windows.map fun w =>
    if RollingWindow.expired w.window now e then w else w.insert e.instant e.weight e.job⟩

/-- mirrors scheduler.rs:372-377 -/
def earliestFor (s : WindowSet) (now : Nat) (weight : Nat) : Option Nat :=
  s.windows.foldlM (fun acc w => (w.earliestFor now weight).map (max acc)) now

end WindowSet

end Teloxide.Outbound
