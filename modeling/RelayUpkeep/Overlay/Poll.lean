import RelayUpkeep.Overlay.Shutdown

/-! # One step of a task

`poll` lets a task that is ready go on until it waits again or ends. Whatever order the tasks are
polled in, this is all that ever happens by itself.
-/

namespace RelayUpkeep.Overlay

/-- Give up the reservation lock, or the place in its queue. -/
def leaveGate (w : Overlay) (t : TaskId) : Overlay :=
  if w.manager.gate.holder = some t then w.releaseGate
  else w.withManager fun m => { m with gate := m.gate.leave t }

/-- A task that was asked to end does, and asks those that work for it to end. An attempt goes on
without its guard. -/
def abandon (w : Overlay) (t : TaskId) (job : Job) : Overlay :=
  let w := match job with
    | .setup _ _ (.settling _ attempts) => attempts.foldl cancel w
    | .shutdown (.closing _ parts) => parts.foldl cancel w
    | .setup .. | .shutdown _ => w.leaveGate t
    | _ => w
  w.finish t .cancelled

def resume (w : Overlay) (t : TaskId) : Job → Overlay
  | .setup manual maxFail stage => w.pollSetup t manual maxFail stage
  | .shutdown stage => w.pollShutdown t stage
  | .guardAttempt slot candidate attempt => w.pollGuard t slot candidate attempt
  | .attempt candidate stage => w.pollAttempt t candidate stage
  | .watch r => w.pollWatch t r
  | .closeRelay r pending => w.pollCloseRelay t r pending
  | .releaseCreator creator pending => w.pollRelease t creator pending

def poll (w : Overlay) (t : TaskId) : Overlay :=
  let w := { w with ready := w.ready.erase t }
  match w.tasks[t]? with
  | none => w
  | some task =>
    if w.isFinished t then w
    else if task.isCancelled then w.abandon t task.job
    else w.resume t task.job

end RelayUpkeep.Overlay
