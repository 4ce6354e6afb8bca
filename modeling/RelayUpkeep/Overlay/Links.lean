import RelayUpkeep.Overlay.Basic

/-! # Raw connections and relays

A relay that keeps its connection open has a watcher, a task that waits for the connection to
close. The link is lost when the watcher notices, not when the connection closes; a relay that is
shut down before that was never lost.
-/

namespace RelayUpkeep.Overlay

/-! ## Connections -/

def openConn (w : Overlay) (remote : PeerAddress) : Overlay × ConnId :=
  ({ w with conns := w.conns ++ [⟨remote, true⟩] }, w.conns.length)

/-- The connection to a peer that was opened last. -/
def latestConn? (w : Overlay) (id : PeerId) : Option ConnId :=
  ((w.conns.zipIdx.filter fun (c, _) => c.remote.id = id).getLast?).map Prod.snd

def isOpen (w : Overlay) (c : ConnId) : Bool :=
  (w.conns[c]?).any Conn.isOpen

/-- The watchers of the relays over a connection. -/
def watchersOf (w : Overlay) (c : ConnId) : List TaskId :=
  (w.relays.filter fun r => r.conn = some c).filterMap Relay.watcher

/-- A connection closes, and those who watch it are woken. -/
def dropConn (w : Overlay) (c : ConnId) : Overlay :=
  if w.isOpen c then
    { w with conns := w.conns.modify c fun conn => { conn with isOpen := false } }.wakeAll
      (w.watchersOf c)
  else w

def dropLink (w : Overlay) (id : PeerId) : Overlay :=
  match w.latestConn? id with
  | some c => w.dropConn c
  | none => w

/-- Close a connection: the link is gone at once, whatever the closing itself comes to. -/
def closeConn (w : Overlay) (c : ConnId) : Overlay :=
  match w.conns[c]? with
  | some conn => (w.log (.close c conn.remote)).dropConn c
  | none => w

def closeScript (w : Overlay) (c : ConnId) : Script :=
  match w.conns[c]? with
  | some conn => (w.behaviour conn.remote.id).close
  | none => {}

/-! ## Relays -/

def setSignal (w : Overlay) (r : RelayId) (s : CloseSignal CloseListener) : Overlay :=
  { w with relays := w.relays.modify r fun relay => { relay with signal := s } }

/-- Make an open-connection relay, and watch its connection. -/
def addOpenRelay (w : Overlay) (c : ConnId) (address : PeerAddress) : Overlay × RelayId :=
  let r := w.relays.length
  let (w, watcher) := w.spawn (.watch r) none
  ({ w with relays := w.relays ++ [⟨.openTcp, address, some c, .live none, some watcher⟩] }, r)

def addPushRelay (w : Overlay) (address : PeerAddress) : Overlay × RelayId :=
  ({ w with relays := w.relays ++ [⟨.push, address, none, .live none, none⟩] }, w.relays.length)

def view? (w : Overlay) (r : RelayId) : Option RelayView :=
  (w.relays[r]?).map fun relay => ⟨relay.address, relay.kind, relay.signal.isClosed⟩

def views (w : Overlay) (rs : List RelayId) : List RelayView := rs.filterMap w.view?

def pooled (w : Overlay) : List RelayId := w.manager.pool.members.map Member.relay

/-! ## Who still needs what -/

/-- Whether a task works for the manager. -/
def Job.isManagers : Job → Bool
  | .setup .. | .shutdown _ | .guardAttempt .. | .attempt .. => true
  | .watch _ | .closeRelay .. | .releaseCreator .. => false

/-- Whether a task holds a relay. -/
def Job.holds (r : RelayId) : Job → Bool
  | .closeRelay r' _ => r = r'
  | .attempt _ (.discarding r' _) => r = r'
  | .shutdown (.queued drained) => r ∈ drained
  | _ => false

/-- The manager lives as long as someone holds it or a task works for it. One of its own observers
that looks around holds it, too. -/
def managerLives (w : Overlay) : Bool :=
  w.managerHeld || w.manager.observers.any Observer.inspects ||
    w.running.any fun (_, task) => Job.isManagers task.job

/-- Nobody watches a relay that no one holds. -/
def isHeld (w : Overlay) (r : RelayId) : Bool :=
  r ∈ w.held || (w.managerLives && w.manager.pool.contains r) ||
    w.running.any fun (_, task) => Job.holds r task.job

end RelayUpkeep.Overlay
