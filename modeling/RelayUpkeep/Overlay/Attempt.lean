import RelayUpkeep.Overlay.Upkeep

/-! # Attempts

An attempt connects to a candidate, asks it to act as a relay, makes a relay of the connection that
the answer comes with, and offers the relay to the pool. A relay that is refused is shut down
again, and the attempt counts as a success all the same.
-/

namespace RelayUpkeep.Overlay

/-- The candidate is remembered as failed, unless remembering it crashes. -/
def failAttempt (w : Overlay) (t : TaskId) (candidate : PeerAddress) (e : RelayError) : Overlay :=
  match w.markFailed candidate with
  | (w, some crash) => w.finish t (.crashed crash)
  | (w, none) => w.finish t (.failed e)

/-- After the closing of a refused relay. That it failed does not matter. -/
def discarded (w : Overlay) (t : TaskId) : Outcome → Overlay
  | .crash text => w.finish t (.crashed (.collaborator text))
  | _ => w.finish t .done

def discard (w : Overlay) (t : TaskId) (candidate : PeerAddress) (r : RelayId) : Overlay :=
  match w.shutRelay r with
  | (w, none) => w.finish t .done
  | (w, some c) =>
    (w.closeConn c).play t (w.closeScript c) (fun o => .attempt candidate (.discarding r o))
      fun w o => w.discarded t o

/-- A relay that the pool took in is watched over and advertised. -/
def welcome (w : Overlay) (t : TaskId) (r : RelayId) : Overlay :=
  match w.listen r .manager with
  | (w, some crash) => w.finish t (.crashed crash)
  | (w, none) => w.publish.finish t .done

/-- Offer a relay to the pool. A manager that is shut down takes none. -/
def offer (w : Overlay) (t : TaskId) (candidate : PeerAddress) (r : RelayId)
    (address : PeerAddress) : Overlay :=
  if w.manager.isShutDown then (w.log (.offer r none)).discard t candidate r
  else
    let (pool, admission) := w.manager.pool.add ⟨r, address⟩
    let w := (w.withManager fun m => { m with pool }).log (.offer r (some admission))
    match admission with
    | .added => w.welcome t r
    | .full | .duplicate => w.discard t candidate r

/-- After the closing of the connection that a push relay does not need. That it failed does not
matter. -/
def parted (w : Overlay) (t : TaskId) (candidate : PeerAddress) (c : ConnId) :
    Outcome → Overlay
  | .crash text => w.finish t (.crashed (.collaborator text))
  | _ =>
    match w.conns[c]? with
    | none => w.finish t .done
    | some conn =>
      let (w, r) := w.addPushRelay conn.remote
      w.offer t candidate r conn.remote

def establish (w : Overlay) (t : TaskId) (candidate : PeerAddress) (c : ConnId)
    (remote : PeerAddress) : Overlay :=
  match w.manager.config.kind with
  | .openTcp =>
    let (w, r) := w.addOpenRelay c remote
    w.offer t candidate r remote
  | .push =>
    (w.closeConn c).play t (w.closeScript c) (fun o => .attempt candidate (.partingFrom c o))
      fun w o => w.parted t candidate c o

/-- After the handshake. Whether the link is dead and who stands in is a matter of this moment. -/
def shaken (w : Overlay) (t : TaskId) (candidate : PeerAddress) (c : ConnId) : Outcome → Overlay
  | .crash text => w.finish t (.crashed (.collaborator text))
  | .fail e => w.failAttempt t candidate e
  | .succeed =>
    match w.conns[c]? with
    | none => w.finish t .done
    | some conn =>
      let b := w.behaviour conn.remote.id
      let w := if b.dead then w.dropLink conn.remote.id else w
      match b.standIn with
      | none => w.establish t candidate c conn.remote
      | some other =>
        let (w, c) := w.openConn other
        w.establish t candidate c other

/-- After the connection to a candidate was opened, or not. -/
def connected (w : Overlay) (t : TaskId) (candidate : PeerAddress) : Outcome → Overlay
  | .crash text => w.finish t (.crashed (.collaborator text))
  | .fail e => w.failAttempt t candidate e
  | .succeed =>
    let (w, c) := w.openConn candidate
    (w.log (.handshake t c candidate)).play t (w.behaviour candidate.id).handshake
      (fun o => .attempt candidate (.shaking c o))
      fun w o => w.shaken t candidate c o

def enterAttempt (w : Overlay) (t : TaskId) (candidate : PeerAddress) : Overlay :=
  (w.log (.connect t candidate)).play t (w.behaviour candidate.id).connect
    (fun o => .attempt candidate (.connecting o))
    fun w o => w.connected t candidate o

def pollAttempt (w : Overlay) (t : TaskId) (candidate : PeerAddress) : AttemptStage → Overlay
  | .entering => w.enterAttempt t candidate
  | .connecting o => w.connected t candidate o
  | .shaking c o => w.shaken t candidate c o
  | .partingFrom c o => w.parted t candidate c o
  | .discarding _ o => w.discarded t o

/-- The task that guards an attempt starts it, and ends as it does; but where the attempt crashed,
the candidate is remembered as failed and the crash is told as an error. -/
def pollGuard (w : Overlay) (t : TaskId) (slot : Nat) (candidate : PeerAddress) :
    Option TaskId → Overlay
  | none =>
    let (w, attempt) := w.spawn (.attempt candidate .entering) (some t)
    w.setJob t (.guardAttempt slot candidate (some attempt))
  | some attempt =>
    match w.exit? attempt with
    | none => w
    | some (.crashed crash) =>
      w.failAttempt t candidate (.transport ("attempt aborted: " ++ crash.report))
    | some .cancelled =>
      w.failAttempt t candidate (.transport ("attempt aborted: " ++ cancellationReport))
    | some e => w.finish t e

end RelayUpkeep.Overlay
