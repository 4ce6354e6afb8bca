import RelayUpkeep.Scenario.Upkeep

/-! # Scripted runs of a pool

The relays of these runs keep no connection and are never closed. Each has a name, and the relay
last made under a name is the one that the name stands for.
-/

namespace RelayUpkeep.Scenario

inductive PoolStep
  | make (name : String) (peer : PeerAddress)
  | add (name : String)
  | remove (name : String)
  | removeAt (index : Nat)
  | contains (peer : PeerAddress)
  | drain
  | describe
  deriving DecidableEq, Repr

inductive PoolAnswer
  | nothing
  | admission (a : Admission)
  | flag (b : Bool)
  | relays (views : List RelayView)
  | text (s : String)
  deriving DecidableEq, Repr

structure PoolRun where
  pool : Pool
  names : List (String × Member)
  made : Nat
  deriving DecidableEq, Repr

def openViews (members : List Member) : List RelayView :=
  members.map fun m => ⟨m.address, .push, false⟩

def PoolRun.step (r : PoolRun) : PoolStep → PoolRun × PoolAnswer
  | .make name peer =>
    (⟨r.pool, (name, ⟨r.made, peer⟩) :: r.names, r.made + 1⟩, .nothing)
  | .add name =>
    match r.names.lookup name with
    | some m =>
      let (pool, a) := r.pool.add m
      ({ r with pool }, .admission a)
    | none => (r, .nothing)
  | .remove name =>
    match r.names.lookup name with
    | some m =>
      let (pool, b) := r.pool.remove m.relay
      ({ r with pool }, .flag b)
    | none => (r, .nothing)
  | .removeAt index =>
    match r.pool.members[index]? with
    | some m =>
      let (pool, b) := r.pool.remove m.relay
      ({ r with pool }, .flag b)
    | none => (r, .nothing)
  | .contains peer => (r, .flag (r.pool.containsPeer peer))
  | .drain =>
    let (members, pool) := r.pool.drain
    ({ r with pool }, .relays (openViews members))
  | .describe => (r, .text (Run.describePool r.pool.capacity (openViews r.pool.members)))

/-- After each step the answer, and the pool. -/
def PoolRun.play (r : PoolRun) : List PoolStep → List (PoolAnswer × Pool)
  | [] => []
  | s :: rest =>
    let (r, a) := r.step s
    (a, r.pool) :: r.play rest

def poolRun (capacity : Nat) (steps : List PoolStep) : List (PoolAnswer × Pool) :=
  PoolRun.play ⟨.empty capacity, [], 0⟩ steps

end RelayUpkeep.Scenario
