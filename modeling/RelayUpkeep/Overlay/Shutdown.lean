import RelayUpkeep.Overlay.Setup

/-! # Shutting the manager down

The pool is emptied and the observers are dropped at once. Then every relay is shut down and the
reserved channels are released, all at the same time; what fails does not stop the rest, and the
failure that came first is the answer.
-/

namespace RelayUpkeep.Overlay

/-- After the last step of a part of a shutdown. -/
def ended (w : Overlay) (t : TaskId) : Outcome → Overlay
  | .succeed => w.finish t .done
  | .fail e => w.finish t (.failed e)
  | .crash text => w.finish t (.crashed (.collaborator text))

def pollCloseRelay (w : Overlay) (t : TaskId) (r : RelayId) : Option Outcome → Overlay
  | some o => w.ended t o
  | none =>
    match w.shutRelay r with
    | (w, none) => w.finish t .done
    | (w, some c) =>
      (w.closeConn c).play t (w.closeScript c) (fun o => .closeRelay r (some o))
        fun w o => w.ended t o

def pollRelease (w : Overlay) (t : TaskId) (creator : CreatorId) : Option Outcome → Overlay
  | some o => w.ended t o
  | none =>
    (w.log (.release creator)).play t w.releaseScript (fun o => .releaseCreator creator (some o))
      fun w o => w.ended t o

/-- What a part of a shutdown has to complain of. -/
def partError? : Exit → Option RelayError
  | .failed e => some e
  | .crashed crash => some (.transport crash.report)
  | .cancelled => some (.transport cancellationReport)
  | .done | .relays _ => none

/-- Every part has ended. -/
def concludeShutdown (w : Overlay) (t : TaskId) (hadRelays : Bool) (parts : List TaskId) :
    Overlay :=
  let w := if hadRelays then w.publish else w
  match (w.exitsOf parts).findSome? fun (_, e) => partError? e with
  | some e => w.finish t (.failed e)
  | none => w.finish t .done

/-- The shutdown holds the lock: take the reserved channels, and start the parts. -/
def closeAll (w : Overlay) (t : TaskId) (drained : List RelayId) : Overlay :=
  let creator := w.manager.creator
  let w := (w.withManager fun m => { m with creator := none }).releaseGate
  let (w, parts) := w.spawnAll
    (drained.map (.closeRelay · none) ++ creator.toList.map (.releaseCreator · none)) (some t)
  if parts.isEmpty then w.concludeShutdown t false []
  else w.setJob t (.shutdown (.closing (!drained.isEmpty) parts))

def enterShutdown (w : Overlay) (t : TaskId) : Overlay :=
  let (drained, pool) := w.manager.pool.drain
  let drained := drained.map Member.relay
  let (gate, held) := w.manager.gate.acquire t
  let w := w.withManager fun m => { m with isShutDown := true, observers := [], pool, gate }
  if held then w.closeAll t drained else w.setJob t (.shutdown (.queued drained))

def pollShutdown (w : Overlay) (t : TaskId) : ShutdownStage → Overlay
  | .entering => w.enterShutdown t
  | .queued drained => if w.manager.gate.holder = some t then w.closeAll t drained else w
  | .closing hadRelays parts =>
    if parts.all w.isFinished then w.concludeShutdown t hadRelays parts else w

end RelayUpkeep.Overlay
