import RelayUpkeep.Overlay.Attempt

/-! # Setting relays up

A setup makes sure that channels are reserved, under a lock so that they are reserved once, collects
the candidates, and runs a round over them.
-/

namespace RelayUpkeep

namespace Manager

/-- The candidates that may be tried, the first copy of each: not relayed themselves, not the node,
and not in the pool. -/
def eligible (m : Manager) (me : PeerAddress) (seen : List PeerId) :
    List PeerAddress → List PeerAddress
  | [] => []
  | p :: rest =>
    if p.relayed ∨ p.same me ∨ m.pool.containsPeer p ∨ p.id ∈ seen then m.eligible me seen rest
    else p :: m.eligible me (p.id :: seen) rest

/-- Peers that a caller names take the place of those that are known. Which of them failed lately
matters for known peers always, and for named ones if the settings say so. -/
def candidates (m : Manager) (now : Instant) (me : PeerAddress)
    (manual known : List PeerAddress) : List PeerAddress × Manager :=
  let source := if manual.isEmpty then known else manual
  if manual.isEmpty ∨ m.config.filterFailedManual then
    let (kept, failed) := m.failed.removeFailed now source
    (m.eligible me [] kept, { m with failed })
  else (m.eligible me [] source, m)

end Manager

namespace Overlay

/-- Whether the manager or the node is going down. -/
def isTornDown (w : Overlay) : Bool := w.manager.isShutDown || w.node.isDown

/-- Let the next one have the reservation lock. -/
def releaseGate (w : Overlay) : Overlay :=
  let w := w.withManager fun m => { m with gate := m.gate.release }
  match w.manager.gate.holder with
  | some next => w.wake next
  | none => w

/-- Take the next turn of a round: start its attempts, or end the setup. -/
def takeTurn (w : Overlay) (t : TaskId) (manual : List PeerAddress) (maxFail : Nat) (r : Round) :
    Overlay :=
  match r.turn with
  | .stop e => w.publish.finish t (.failed e)
  | .attempt draws r =>
    let (w, attempts) :=
      w.spawnAll (draws.map fun (slot, p) => .guardAttempt slot p none) (some t)
    w.setJob t (.setup manual maxFail (.settling r attempts))

def startRound (w : Overlay) (t : TaskId) (manual : List PeerAddress) (maxFail : Nat)
    (candidates : List PeerAddress) : Overlay :=
  let r := Round.start w.manager.pool.remaining candidates maxFail
  if r.wanted = 0 then
    if candidates.isEmpty then w.finish t (.failed (.noCandidates "no relay candidates"))
    else w.finish t (.relays [])
  else w.takeTurn t manual maxFail r

/-- Channels are reserved: collect the candidates. -/
def collect (w : Overlay) (t : TaskId) (manual : List PeerAddress) (maxFail : Nat) : Overlay :=
  let w := if manual.isEmpty then w.log (.readRouting t) else w
  let (candidates, manager) := w.manager.candidates w.now w.node.address manual w.routing
  { w with manager }.startRound t manual maxFail candidates

/-- After the reservation. -/
def reserved (w : Overlay) (t : TaskId) (manual : List PeerAddress) (maxFail : Nat) :
    Outcome → Overlay
  | .crash text => w.releaseGate.finish t (.crashed (.collaborator text))
  | .fail e => w.releaseGate.finish t (.failed e.asResourceUnavailable)
  | .succeed =>
    let creator := w.granted
    let w := { w with granted := creator + 1 }.log (.granted creator)
    (w.withManager fun m => { m with creator := some creator }).releaseGate.collect t manual maxFail

/-- The setup holds the lock: reserve channels unless they are. -/
def reserve (w : Overlay) (t : TaskId) (manual : List PeerAddress) (maxFail : Nat) : Overlay :=
  match w.manager.creator with
  | some _ => w.releaseGate.collect t manual maxFail
  | none =>
    if w.manager.isShutDown then w.releaseGate.finish t (.failed .shutDown)
    else
      (w.log (.reserve t 0 w.manager.config.maxRelays)).play t w.reserveScript
        (fun o => .setup manual maxFail (.reserving o))
        fun w o => w.reserved t manual maxFail o

def enterSetup (w : Overlay) (t : TaskId) (manual : List PeerAddress) (maxFail : Nat) : Overlay :=
  if w.manager.isShutDown then w.finish t (.failed .shutDown)
  else
    let (gate, held) := w.manager.gate.acquire t
    let w := w.withManager fun m => { m with gate }
    if held then w.reserve t manual maxFail
    else w.setJob t (.setup manual maxFail .queued)

/-- How an attempt of a round ended, as its guard tells. -/
def attemptEnd? (w : Overlay) (t : TaskId) (e : Exit) : Option AttemptEnd :=
  match w.tasks[t]? with
  | some ⟨.guardAttempt slot candidate _, _, _⟩ =>
    match e with
    | .failed error => some (.failed candidate error)
    | .crashed crash => some (.aborted crash.report)
    | .cancelled => some (.aborted cancellationReport)
    | _ => some (.joined slot candidate)
  | _ => none

/-- All attempts of an iteration have ended: judge the round. -/
def judge (w : Overlay) (t : TaskId) (manual : List PeerAddress) (maxFail : Nat) (r : Round)
    (attempts : List TaskId) : Overlay :=
  let ends := (w.exitsOf attempts).filterMap fun (a, e) => w.attemptEnd? a e
  let r := r.settle ends
  let policy := w.manager.config.joinPolicy
  if r.isSatisfied policy then
    let w := w.publish
    w.finish t (.relays (w.views w.pooled))
  else
    let reason := r.reason policy ends
    if w.isTornDown then w.finish t (.failed (.shutDownRace reason))
    else w.takeTurn t manual maxFail (r.retry reason)

def pollSetup (w : Overlay) (t : TaskId) (manual : List PeerAddress) (maxFail : Nat) :
    SetupStage → Overlay
  | .entering => w.enterSetup t manual maxFail
  | .queued => if w.manager.gate.holder = some t then w.reserve t manual maxFail else w
  | .reserving o => w.reserved t manual maxFail o
  | .settling r attempts =>
    if attempts.all w.isFinished then w.judge t manual maxFail r attempts else w

end Overlay

end RelayUpkeep
