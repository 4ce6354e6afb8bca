import RelayUpkeep.CloseSignal
import RelayUpkeep.Config.Basic
import RelayUpkeep.FailedCache
import RelayUpkeep.FairLock
import RelayUpkeep.Peer.Advertised
import RelayUpkeep.Pool
import RelayUpkeep.Round

/-! # A node, its relay manager, and the overlay around it

Work is done by tasks. A task runs until it has to wait: for a delay to pass, for a lock, for other
tasks, or for a link to close. Between two such moments nothing else runs, so the state of the
whole is that of every task at the point where it waits.
-/

namespace RelayUpkeep

abbrev ConnId := Nat
abbrev TaskId := Nat
abbrev CreatorId := Nat

/-! ## Collaborators -/

/-- What a collaborator answers. -/
inductive Outcome
  | succeed
  | fail (error : RelayError)
  | crash (text : String)
  deriving DecidableEq, Repr

/-- What a collaborator answers, and after how many milliseconds. -/
structure Script where
  delay : Nat := 0
  outcome : Outcome := .succeed
  deriving DecidableEq, Repr

/-- How a peer answers. A peer whose links are `dead` drops the link right after the handshake, and
one with a stand-in answers the handshake with a connection to another peer. -/
structure Behaviour where
  connect : Script := {}
  handshake : Script := {}
  close : Script := {}
  dead : Bool := false
  standIn : Option PeerAddress := none
  deriving DecidableEq, Repr

/-- The node that the manager belongs to: where it can be reached, and whether it is down. -/
structure LocalNode where
  address : PeerAddress
  isDown : Bool
  deriving DecidableEq, Repr

/-- A raw connection. -/
structure Conn where
  remote : PeerAddress
  isOpen : Bool
  deriving DecidableEq, Repr

/-! ## Relays and observers -/

/-- Who is told that a relay is lost: the manager, or someone who takes a note of it, may try to
attach another listener on the spot, and may then crash. -/
inductive CloseListener
  | manager
  | note (label : String) (nested : Option String) (crashes : Bool)
  deriving DecidableEq, Repr

structure Relay where
  kind : RelayKind
  address : PeerAddress
  conn : Option ConnId
  signal : CloseSignal CloseListener
  watcher : Option TaskId
  deriving DecidableEq, Repr

/-- An observer of lost relays. It may look around when it is told, and may then crash. -/
structure Observer where
  label : String
  inspects : Bool := false
  crashes : Bool := false
  deriving DecidableEq, Repr

structure Manager where
  config : RelayConfig
  pool : Pool
  failed : FailedCache
  observers : List Observer
  creator : Option CreatorId
  gate : FairLock TaskId
  isShutDown : Bool
  deriving DecidableEq, Repr

namespace Manager

def new (config : RelayConfig) : Manager :=
  ⟨config, .empty config.maxRelays, .empty config.failedWait, [], none, .free, false⟩

end Manager

/-! ## Tasks -/

inductive SetupStage
  | entering
  | queued
  | reserving (outcome : Outcome)
  | settling (round : Round) (attempts : List TaskId)
  deriving DecidableEq, Repr

inductive ShutdownStage
  | entering
  | queued (drained : List RelayId)
  | closing (hadRelays : Bool) (parts : List TaskId)
  deriving DecidableEq, Repr

inductive AttemptStage
  | entering
  | connecting (outcome : Outcome)
  | shaking (conn : ConnId) (outcome : Outcome)
  | partingFrom (conn : ConnId) (outcome : Outcome)
  | discarding (relay : RelayId) (outcome : Outcome)
  deriving DecidableEq, Repr

/-- What a task does, and where it waits. An attempt runs in a task of its own; the task that
guards it sees to it that a crashed attempt counts as a failed candidate. -/
inductive Job
  | setup (manual : List PeerAddress) (maxFail : Nat) (stage : SetupStage)
  | shutdown (stage : ShutdownStage)
  | guardAttempt (slot : Nat) (candidate : PeerAddress) (attempt : Option TaskId)
  | attempt (candidate : PeerAddress) (stage : AttemptStage)
  | watch (relay : RelayId)
  | closeRelay (relay : RelayId) (pending : Option Outcome)
  | releaseCreator (creator : CreatorId) (pending : Option Outcome)
  deriving DecidableEq, Repr

structure Task where
  job : Job
  parent : Option TaskId
  isCancelled : Bool
  deriving DecidableEq, Repr

/-- A relay as a caller sees it. -/
structure RelayView where
  address : PeerAddress
  kind : RelayKind
  isClosed : Bool
  deriving DecidableEq, Repr

/-- How a task ended. -/
inductive Exit
  | done
  | relays (views : List RelayView)
  | failed (error : RelayError)
  | crashed (crash : Crash)
  | cancelled
  deriving DecidableEq, Repr

structure Timer where
  due : Nat
  task : TaskId
  deriving DecidableEq, Repr

/-! ## The journal -/

/-- What an observer can see at the moment when it is told of a lost relay. -/
structure Sight where
  pooled : List PeerAddress
  isFailed : Bool
  address : PeerAddress
  deriving DecidableEq, Repr

inductive Event
  | connect (task : TaskId) (peer : PeerAddress)
  | handshake (task : TaskId) (conn : ConnId) (peer : PeerAddress)
  | close (conn : ConnId) (peer : PeerAddress)
  | reserve (task : TaskId) (least greatest : Nat)
  | granted (creator : CreatorId)
  | release (creator : CreatorId)
  | readRouting (task : TaskId)
  | offer (relay : RelayId) (admission : Option Admission)
  | markFailed (peer : PeerAddress)
  | publish (address : PeerAddress)
  | lost (observer : Observer) (relay : PeerAddress) (sight : Sight)
  | notified (label : String) (relay : PeerAddress) (isClosed : Option Bool)
  deriving DecidableEq, Repr

/-- An event with the clock at its moment. -/
structure Entry where
  clock : Nat
  event : Event
  deriving DecidableEq, Repr

/-! ## The whole -/

/-- `tasks`, `conns` and `relays` only grow, and their members are known by their positions.
`ready` holds the tasks that can go on, in the order in which they could; `exits` the tasks that
have ended, in the order in which they did. -/
structure Overlay where
  clock : Nat
  node : LocalNode
  routing : List PeerAddress
  behaviours : List (PeerId × Behaviour)
  reserveScript : Script
  releaseScript : Script
  granted : Nat
  conns : List Conn
  relays : List Relay
  manager : Manager
  managerHeld : Bool
  held : List RelayId
  tasks : List Task
  exits : List (TaskId × Exit)
  ready : List TaskId
  timers : List Timer
  journal : List Entry
  deriving DecidableEq, Repr

namespace Overlay

def start (config : RelayConfig) (address : PeerAddress) : Overlay where
  clock := 0
  node := ⟨address, false⟩
  routing := []
  behaviours := []
  reserveScript := {}
  releaseScript := {}
  granted := 0
  conns := []
  relays := []
  manager := .new config
  managerHeld := true
  held := []
  tasks := []
  exits := []
  ready := []
  timers := []
  journal := []

/-- The instant that the clock shows. -/
def now (w : Overlay) : Instant := Instant.start + nanosPerMilli * w.clock

def log (w : Overlay) (e : Event) : Overlay :=
  { w with journal := w.journal ++ [⟨w.clock, e⟩] }

def behaviour (w : Overlay) (id : PeerId) : Behaviour :=
  (w.behaviours.lookup id).getD {}

/-! ## Tasks -/

def exit? (w : Overlay) (t : TaskId) : Option Exit := w.exits.lookup t

def isFinished (w : Overlay) (t : TaskId) : Bool := (w.exit? t).isSome

/-- The tasks that have not ended, with their numbers. -/
def running (w : Overlay) : List (TaskId × Task) :=
  (w.tasks.zipIdx.map Prod.swap).filter fun (t, _) => !w.isFinished t

def wake (w : Overlay) (t : TaskId) : Overlay :=
  if w.isFinished t ∨ t ∈ w.ready then w else { w with ready := w.ready ++ [t] }

def wakeAll (w : Overlay) (ts : List TaskId) : Overlay := ts.foldl wake w

/-- Start a task, and tell its number. -/
def spawn (w : Overlay) (job : Job) (parent : Option TaskId) : Overlay × TaskId :=
  let t := w.tasks.length
  ({ w with tasks := w.tasks ++ [⟨job, parent, false⟩], ready := w.ready ++ [t] }, t)

def spawnAll (w : Overlay) (jobs : List Job) (parent : Option TaskId) : Overlay × List TaskId :=
  jobs.foldl (fun (w, ts) job => let (w, t) := w.spawn job parent; (w, ts ++ [t])) (w, [])

def setJob (w : Overlay) (t : TaskId) (job : Job) : Overlay :=
  { w with tasks := w.tasks.modify t fun task => { task with job } }

def parent? (w : Overlay) (t : TaskId) : Option TaskId := (w.tasks[t]?).bind Task.parent

/-- End a task: it waits for nothing any more, and the one that waits for it is woken. -/
def finish (w : Overlay) (t : TaskId) (e : Exit) : Overlay :=
  let w := { w with exits := w.exits ++ [(t, e)], timers := w.timers.filter (·.task ≠ t) }
  match w.parent? t with
  | some parent => w.wake parent
  | none => w

/-- Ask a task to end. It does when it goes on next. -/
def cancel (w : Overlay) (t : TaskId) : Overlay :=
  if w.isFinished t then w
  else { w with tasks := w.tasks.modify t fun task => { task with isCancelled := true } }.wake t

/-- Wait until a delay has passed. -/
def sleep (w : Overlay) (t : TaskId) (job : Job) (delay : Nat) : Overlay :=
  { w.setJob t job with timers := w.timers ++ [⟨w.clock + delay, t⟩] }

/-- Follow a script: go on at once if there is no delay, or else wait and go on later. -/
def play (w : Overlay) (t : TaskId) (s : Script) (waiting : Outcome → Job)
    (next : Overlay → Outcome → Overlay) : Overlay :=
  if s.delay = 0 then next w s.outcome else w.sleep t (waiting s.outcome) s.delay

/-- The ends of some tasks that have all ended, in the order in which they did. -/
def exitsOf (w : Overlay) (ts : List TaskId) : List (TaskId × Exit) :=
  w.exits.filter fun (t, _) => t ∈ ts

end Overlay

end RelayUpkeep
