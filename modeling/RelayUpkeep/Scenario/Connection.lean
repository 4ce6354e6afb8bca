import RelayUpkeep.Scenario.Upkeep

/-! # Scripted runs of one relay

One relay over one connection, without a manager.
-/

namespace RelayUpkeep.Scenario

inductive RelayStep
  | dropLink (deferred : Bool)
  | listen (label : String) (nested : Option String)
  | shutdown (direct : Bool)
  | report
  | info
  | describe
  | dropHandle
  deriving DecidableEq, Repr

inductive RelayAnswer
  | nothing
  | exit (e : Exit)
  | flag (b : Bool)
  | info (address : PeerAddress) (kind : RelayKind)
  | text (s : String)
  | noHandle (step : String)
  deriving DecidableEq, Repr

structure RelayReport where
  answer : RelayAnswer
  isClosed : Option Bool
  events : List Event
  deriving DecidableEq, Repr

namespace RelayStep

def isDeferred : RelayStep → Bool
  | dropLink deferred => deferred
  | _ => false

/-- The name of a step that needs the relay. -/
def needsHandle? : RelayStep → Option String
  | listen .. => some "listen"
  | shutdown _ => some "shutdown"
  | info => some "info"
  | describe => some "debug"
  | dropLink _ | report | dropHandle => none

end RelayStep

/-- An overlay with one relay in it, which the caller holds. -/
def oneRelay (kind : RelayKind) (peer : PeerAddress) (close : Script) : Overlay :=
  let w : Overlay :=
    { Overlay.start {} peer with managerHeld := false, behaviours := [(peer.id, { close })] }
  let (w, c) := w.openConn peer
  let (w, r) := match kind with
    | .openTcp => w.addOpenRelay c peer
    | .push => w.addPushRelay peer
  { w with held := [r] }.settle

def exitAnswer : Overlay × Option Exit → Overlay × RelayAnswer
  | (w, some e) => (w, .exit e)
  | (w, none) => (w, .nothing)

/-- A step on relay 0, over connection 0. -/
def relayStep (kind : RelayKind) (w : Overlay) : RelayStep → Overlay × RelayAnswer
  | .dropLink _ => (w.dropConn 0, .nothing)
  | .listen label nested => ((w.listen 0 (.note label nested false)).1, .nothing)
  | .shutdown true => exitAnswer (w.perform (.closeRelay 0 none))
  | .shutdown false =>
    let (w, t) := w.spawn (.closeRelay 0 none) none
    exitAnswer (w.await t)
  | .report =>
    if kind = .push ∧ w.held ≠ [] then
      let (w, _, closed) := w.lose 0
      (w, .flag closed)
    else (w, .nothing)
  | .info =>
    match w.view? 0 with
    | some v => (w, .info v.address v.kind)
    | none => (w, .nothing)
  | .describe =>
    match w.view? 0 with
    | some v => (w, .text (Run.describeRelay v))
    | none => (w, .nothing)
  | .dropHandle => ({ w with held := [] }, .nothing)

def relayAdvance (kind : RelayKind) (w : Overlay) (s : RelayStep) : Overlay × RelayReport :=
  let before := w.journal.length
  let (w, answer) : Overlay × RelayAnswer :=
    match s.needsHandle?.filter fun _ => w.held.isEmpty with
    | some name => (w, .noHandle name)
    | none => relayStep kind w s
  let w := if s.isDeferred then w else w.settle
  (w, {
    answer
    isClosed := if w.held.isEmpty then none else (w.view? 0).map RelayView.isClosed
    events := (w.journal.drop before).map Entry.event })

def relayPlay (kind : RelayKind) (w : Overlay) : List RelayStep → List RelayReport
  | [] => []
  | s :: rest =>
    let (w, report) := relayAdvance kind w s
    report :: relayPlay kind w rest

def relayRun (kind : RelayKind) (peer : PeerAddress) (close : Script) (steps : List RelayStep) :
    List RelayReport :=
  relayPlay kind (oneRelay kind peer close) steps

end RelayUpkeep.Scenario
