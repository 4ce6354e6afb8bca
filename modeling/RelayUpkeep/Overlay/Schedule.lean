import RelayUpkeep.Overlay.Poll

/-! # The order of events on one thread

Ready tasks go on first-in first-out. The task in the foreground is the caller itself: it goes on
when every other ready task has, or when its turn has come, or first of all if a timer woke it. The
clock moves only when nothing is ready, to the moment at which the next timer is due.
-/

namespace RelayUpkeep.Overlay

/-- More polls than the tasks at hand can need. -/
def patience (w : Overlay) : Nat :=
  let candidates := w.tasks.foldl (fun n task =>
    match task.job with
    | .setup manual _ _ => n + manual.length
    | _ => n) 0
  32 * (w.tasks.length + 4) * (candidates + w.routing.length + 16)

/-- Poll ready tasks, other than the one in the foreground, until there is none. -/
def drain (foreground : Option TaskId) : Nat → Overlay → Overlay
  | 0, w => w
  | fuel + 1, w =>
    match w.ready.find? fun t => some t ≠ foreground with
    | none => w
    | some t => drain foreground fuel (w.poll t)

/-- Let all background work go on that can. -/
def settle (w : Overlay) : Overlay := drain none w.patience w

/-- When the next timer is due. -/
def nextDue? (w : Overlay) : Option Nat :=
  (w.timers.map Timer.due).min?

/-- Move the clock, and wake those whose timers are due. -/
def advanceTo (w : Overlay) (clock : Nat) : Overlay :=
  let due := w.timers.filter (·.due ≤ clock)
  { w with clock, timers := w.timers.filter (clock < ·.due) }.wakeAll (due.map Timer.task)

/-- How many polls of other tasks the one in the foreground waits for its turn at most. -/
def turnLength : Nat := 61

/-- Go on until a task has ended, or nothing more can happen. -/
def runUntil (foreground : Option TaskId) (goal : TaskId) : Nat → Overlay → Overlay
  | 0, w => w
  | fuel + 1, w =>
    if w.isFinished goal then w
    else
      match foreground.filter (· ∈ w.ready) with
      | some t => runUntil foreground goal fuel (w.poll t)
      | none =>
        if w.ready.isEmpty then
          match w.nextDue? with
          | none => w
          | some due => runUntil foreground goal fuel (w.advanceTo due)
        else runUntil foreground goal fuel (drain foreground turnLength w)

/-- Do a job in the foreground, to its end. -/
def perform (w : Overlay) (job : Job) : Overlay × Option Exit :=
  let (w, t) := w.spawn job none
  let w := runUntil (some t) t w.patience w
  (w, w.exit? t)

/-- Wait in the foreground for a task in the background. -/
def await (w : Overlay) (t : TaskId) : Overlay × Option Exit :=
  let w := runUntil none t w.patience w
  (w, w.exit? t)

/-- Do a job in the background, and wait for its end. -/
def delegate (w : Overlay) (job : Job) : Overlay × Option Exit :=
  let (w, t) := w.spawn job none
  w.await t

/-- Let time pass up to a moment. What is due at that moment is woken. -/
def passUntil (clock : Nat) : Nat → Overlay → Overlay
  | 0, w => w.advanceTo clock
  | fuel + 1, w =>
    let w := w.settle
    match w.nextDue?.filter (· < clock) with
    | some due => passUntil clock fuel (w.advanceTo due)
    | none => w.advanceTo clock

/-- Let some time pass. If that is none, the caller does not wait, and nothing goes on. -/
def pass (w : Overlay) (ms : Nat) : Overlay :=
  if ms = 0 then w else passUntil (w.clock + ms) w.patience w

end RelayUpkeep.Overlay
