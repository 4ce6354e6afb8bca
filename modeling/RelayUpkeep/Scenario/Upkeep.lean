import RelayUpkeep.Overlay.Schedule

/-! # Scripted runs of a relay manager

A run is a list of steps, each with an answer and a report of what can be seen after it.
-/

namespace RelayUpkeep.Scenario

inductive Step
  | behave (peers : List PeerAddress) (behaviour : Behaviour)
  | learn (peers : List PeerAddress)
  | moveTo (address : PeerAddress)
  | nodeDown (isDown : Bool)
  | reservation (reserve release : Script)
  | setup (manual : List PeerAddress) (maxFail : Nat)
  | spawnSetup (tag : String) (manual : List PeerAddress) (maxFail : Nat)
  | shutdown
  | spawnShutdown (tag : String)
  | await (tag : String)
  | abort (tag : String)
  | advance (ms : Nat)
  | observe (observer : Observer)
  | dropLinks (peers : List PeerAddress)
  | closeRelay (index : Nat)
  | listen (index : Nat) (label : String)
  | isFailed (peer : PeerAddress)
  | config
  | describe
  | hold
  | dropManager
  deriving DecidableEq, Repr

inductive Answer
  | nothing
  | exit (e : Exit)
  | flag (b : Bool)
  | noRelay
  | config (c : RelayConfig)
  | text (s : String)
  deriving DecidableEq, Repr

/-- A run: the overlay, and the tags of the background tasks whose ends nobody has asked for yet. -/
structure Run where
  overlay : Overlay
  tags : List (String × TaskId)
  deriving DecidableEq, Repr

namespace Run

def start (config : RelayConfig) (address : PeerAddress) : Except RelayError Run :=
  config.validate.map fun _ => ⟨.start config address, []⟩

def change (r : Run) (f : Overlay → Overlay) : Run × Answer :=
  ({ r with overlay := f r.overlay }, .nothing)

def forget (r : Run) (tag : String) : Run :=
  { r with tags := r.tags.filter (·.1 ≠ tag) }

def spawn (r : Run) (tag : String) (job : Job) : Run × Answer :=
  let (overlay, t) := r.overlay.spawn job none
  (⟨overlay, (tag, t) :: (r.forget tag).tags⟩, .nothing)

def ended (r : Run) : Overlay × Option Exit → Run × Answer
  | (overlay, some e) => ({ r with overlay }, .exit e)
  | (overlay, none) => ({ r with overlay }, .nothing)

def describeRelay (v : RelayView) : String :=
  v.kind.text ++ "RelayConnection \x7b relay_address: " ++ v.address.describe ++
    ", closed: " ++ toString v.isClosed ++ " \x7d"

def describePool (capacity : Nat) (views : List RelayView) : String :=
  "RelayPool \x7b capacity: " ++ toString capacity ++ ", relays: [" ++
    ", ".intercalate (views.map describeRelay) ++ "] \x7d"

def describeManager (w : Overlay) : String :=
  "RelayServices \x7b .. \x7d / RelayManager \x7b config: " ++ w.manager.config.describe ++
    ", pool: " ++ describePool w.manager.pool.capacity (w.views w.pooled) ++
    ", shut_down: " ++ toString w.manager.isShutDown ++ ", .. \x7d"

/-- Steps that need no manager. -/
def stepOutside (r : Run) : Step → Run × Answer
  | .behave peers b => r.change fun w =>
      { w with behaviours := peers.map (fun p => (p.id, b)) ++ w.behaviours }
  | .learn peers => r.change fun w => { w with routing := peers }
  | .moveTo address => r.change fun w => { w with node := { w.node with address } }
  | .nodeDown isDown => r.change fun w => { w with node := { w.node with isDown } }
  | .reservation reserve release => r.change fun w =>
      { w with reserveScript := reserve, releaseScript := release }
  | .await tag =>
    match r.tags.lookup tag with
    | some t => (r.forget tag).ended (r.overlay.await t)
    | none => (r, .nothing)
  | .abort tag =>
    match r.tags.lookup tag with
    | some t => r.change fun w => w.cancel t
    | none => (r, .nothing)
  | .advance ms => r.change fun w => w.pass ms
  | .dropLinks peers => r.change fun w => peers.foldl (fun w p => w.dropLink p.id) w
  | _ => (r, .nothing)

/-- The relay at a position of the pool. -/
def relayAt? (r : Run) (index : Nat) : Option RelayId := r.overlay.pooled[index]?

/-- Steps on a manager that is still held. A shutdown is done in the foreground; all else that
takes time is done in the background while the caller waits. -/
def stepInside (r : Run) : Step → Run × Answer
  | .setup manual maxFail => r.ended (r.overlay.delegate (.setup manual maxFail .entering))
  | .spawnSetup tag manual maxFail => r.spawn tag (.setup manual maxFail .entering)
  | .shutdown => r.ended (r.overlay.perform (.shutdown .entering))
  | .spawnShutdown tag => r.spawn tag (.shutdown .entering)
  | .observe o => r.change fun w =>
      w.withManager fun m => { m with observers := m.observers ++ [o] }
  | .closeRelay index =>
    match r.relayAt? index with
    | some relay => r.ended (r.overlay.delegate (.closeRelay relay none))
    | none => (r, .noRelay)
  | .listen index label =>
    match r.relayAt? index with
    | some relay => r.change fun w => (w.listen relay (.note label none false)).1
    | none => (r, .noRelay)
  | .isFailed peer => (r, .flag (r.overlay.manager.failed.contains peer r.overlay.now))
  | .config => (r, .config r.overlay.manager.config)
  | .describe => (r, .text (describeManager r.overlay))
  | .hold => r.change fun w => { w with held := w.pooled }
  | .dropManager => r.change fun w => { w with managerHeld := false }
  | step => r.stepOutside step

def step (r : Run) (s : Step) : Run × Answer :=
  if r.overlay.managerHeld then r.stepInside s else r.stepOutside s

end Run

/-- What can be seen of a manager. -/
structure ManagerReport where
  relays : List RelayView
  isShutDown : Bool
  failed : List Bool
  deriving DecidableEq, Repr

structure Report where
  answer : Answer
  clock : Nat
  address : PeerAddress
  manager : Option ManagerReport
  held : List RelayView
  events : List Event
  deriving DecidableEq, Repr

def managerReport (w : Overlay) (watched : List PeerAddress) : ManagerReport where
  relays := w.views w.pooled
  isShutDown := w.manager.isShutDown
  failed := watched.map fun p => w.manager.failed.contains p w.now

/-- Take a step, let the background work go on unless it is deferred, and report. -/
def advance (watched : List PeerAddress) (r : Run) (s : Step) (deferred : Bool) : Run × Report :=
  let before := r.overlay.journal.length
  let (r, answer) := r.step s
  let r := if deferred then r else { r with overlay := r.overlay.settle }
  let w := r.overlay
  (r, {
    answer
    clock := w.clock
    address := w.node.address
    manager := if w.managerHeld then some (managerReport w watched) else none
    held := w.views w.held
    events := (w.journal.drop before).map Entry.event })

def play (watched : List PeerAddress) (r : Run) : List (Step × Bool) → List Report
  | [] => []
  | (s, deferred) :: rest =>
    let (r, report) := advance watched r s deferred
    report :: play watched r rest

/-- The reports of a run from its beginning, or what is wrong with the settings. -/
def run (config : RelayConfig) (address : PeerAddress) (watched : List PeerAddress)
    (steps : List (Step × Bool)) : Except RelayError (List Report) :=
  (Run.start config address).map fun r => play watched r steps

end RelayUpkeep.Scenario
