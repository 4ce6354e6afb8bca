import RelayUpkeep.Overlay.Links

/-! # Upkeep of the pool

What the manager does when a relay is lost: it leaves the pool, its peer is remembered as failed,
the address is advertised anew, and the observers are told. All this happens in one piece, unless
an observer crashes or the clock overflows.
-/

namespace RelayUpkeep.Overlay

def withManager (w : Overlay) (f : Manager → Manager) : Overlay :=
  { w with manager := f w.manager }

/-- Derive the advertised address from the pool, and announce it. -/
def publish (w : Overlay) : Overlay :=
  let address := w.node.address.advertising w.manager.pool.addresses
  { w with node := { w.node with address } }.log (.publish address)

def markFailed (w : Overlay) (peer : PeerAddress) : Overlay × Option Crash :=
  let (failed, crash) := w.manager.failed.add peer w.now
  let w := w.withManager fun m => { m with failed }
  match crash with
  | none => (w.log (.markFailed peer), none)
  | some c => (w, some c)

/-- What can be seen while a lost relay is told of. -/
def sight (w : Overlay) (lost : PeerAddress) : Sight :=
  ⟨w.manager.pool.addresses, w.manager.failed.contains lost w.now, w.node.address⟩

def tell (w : Overlay) (address : PeerAddress) (o : Observer) : Overlay :=
  w.log (.lost o address (w.sight address))

/-- Tell the observers in the order in which they came. One that crashes is the last. -/
def tellAll (w : Overlay) (address : PeerAddress) : List Observer → Overlay × Option Crash
  | [] => (w, none)
  | o :: rest =>
    let w := w.tell address o
    if o.crashes then (w, some (.collaborator o.label)) else w.tellAll address rest

def relayLost (w : Overlay) (r : RelayId) (address : PeerAddress) : Overlay × Option Crash :=
  match w.manager.pool.remove r with
  | (_, false) => (w, none)
  | (pool, true) =>
    match (w.withManager fun m => { m with pool }).markFailed address with
    | (w, some crash) => (w, some crash)
    | (w, none) => w.publish.tellAll address w.manager.observers

/-! ## Close listeners -/

def callListener (w : Overlay) (r : RelayId) (relay : Relay) :
    CloseListener → Overlay × Option Crash
  | .manager => if w.managerLives then w.relayLost r relay.address else (w, none)
  | .note label nested crashes =>
    let w := w.log (.notified label relay.address (some relay.signal.isClosed))
    let crash := if crashes then some (.collaborator label) else none
    match nested with
    | none => (w, crash)
    | some inner =>
      let (s, called) := relay.signal.listen (.note inner none false)
      let w := w.setSignal r s
      match called with
      | none => (w, crash)
      | some _ => (w.log (.notified inner relay.address none), crash)

/-- Store a new close signal, and call the listener that goes with the change. -/
def signalled (w : Overlay) (r : RelayId) (relay : Relay) (s : CloseSignal CloseListener)
    (called : Option CloseListener) : Overlay × Option Crash :=
  let w := w.setSignal r s
  match called with
  | none => (w, none)
  | some l => w.callListener r { relay with signal := s } l

def listen (w : Overlay) (r : RelayId) (l : CloseListener) : Overlay × Option Crash :=
  match w.relays[r]? with
  | none => (w, none)
  | some relay =>
    let (s, called) := relay.signal.listen l
    w.signalled r relay s called

/-- The link of a relay is lost. The last component tells whether this closed it. -/
def lose (w : Overlay) (r : RelayId) : Overlay × Option Crash × Bool :=
  match w.relays[r]? with
  | none => (w, none, false)
  | some relay =>
    let (s, called, closed) := relay.signal.lose
    let (w, crash) := w.signalled r relay s called
    (w, crash, closed)

/-- What a watcher does when it goes on. -/
def pollWatch (w : Overlay) (t : TaskId) (r : RelayId) : Overlay :=
  match (w.relays[r]?).bind Relay.conn with
  | none => w.finish t .done
  | some c =>
    if w.isOpen c then w
    else if w.isHeld r then
      match w.lose r with
      | (w, some crash, _) => w.finish t (.crashed crash)
      | (w, none, _) => w.finish t .done
    else w.finish t .cancelled

/-! ## Shutting a relay down -/

/-- Mark a relay shut down, and tell the connection that is left to be closed. A relay that is
closed already has none. -/
def shutRelay (w : Overlay) (r : RelayId) : Overlay × Option ConnId :=
  match w.relays[r]? with
  | none => (w, none)
  | some relay =>
    match relay.signal.shut with
    | (_, false) => (w, none)
    | (s, true) =>
      let w := w.setSignal r s
      match relay.watcher with
      | some t => (w.cancel t, relay.conn)
      | none => (w, relay.conn)

end RelayUpkeep.Overlay
