import RelayUpkeep.Proofs.Effects
import Mathlib.Logic.Relation

/-! # What one poll is made of

Each poll is a chain of moves, after which the task may end. A stir concerns tasks, connections and
the channels only. The other moves are the few that change the pool, the relays, the advertised
address, or what observers are told. -/

namespace RelayUpkeep

/-- A job without the stage that it has come to. -/
inductive Role
  | setup (manual : List PeerAddress) (maxFail : Nat)
  | shutdown
  | guard (slot : Nat) (candidate : PeerAddress)
  | attempt (candidate : PeerAddress)
  | watch (r : RelayId)
  | close (r : RelayId)
  | release (creator : CreatorId)
  deriving DecidableEq, Repr

namespace Job

def role : Job → Role
  | setup manual maxFail _ => .setup manual maxFail
  | shutdown _ => .shutdown
  | guardAttempt slot candidate _ => .guard slot candidate
  | attempt candidate _ => .attempt candidate
  | watch r => .watch r
  | closeRelay r _ => .close r
  | releaseCreator creator _ => .release creator

end Job

/-- The jobs that a task of a role starts others for. -/
def Role.starts : Role → Job → Bool
  | .setup .., .guardAttempt _ _ none => true
  | .guard _ p, .attempt q .entering => p = q
  | .shutdown, .closeRelay _ none | .shutdown, .releaseCreator _ none => true
  | _, _ => false

theorem Role.starts_cases {role : Role} {job : Job} (h : role.starts job = true) :
    (∃ slot p, job = .guardAttempt slot p none) ∨ (∃ q, job = .attempt q .entering) ∨
      (∃ r, job = .closeRelay r none) ∨ ∃ k, job = .releaseCreator k none := by
  unfold starts at h
  split at h
  · exact .inl ⟨_, _, rfl⟩
  · exact .inr (.inl ⟨_, rfl⟩)
  · exact .inr (.inr (.inl ⟨_, rfl⟩))
  · exact .inr (.inr (.inr ⟨_, rfl⟩))
  · exact absurd h (by simp)

/-- The roles that a task of a role starts others in. -/
def Role.leads : Role → Role → Bool
  | .setup .., .guard .. => true
  | .guard _ p, .attempt q => p = q
  | .shutdown, .close _ | .shutdown, .release _ => true
  | _, _ => false

/-- A role that works on a round for a setup. -/
def Role.works : Role → Bool
  | .guard .. | .attempt _ => true
  | _ => false

/-- A role that changes the pool on behalf of a caller. -/
def Role.isOwn : Role → Bool
  | .setup .. | .shutdown => true
  | _ => false

/-- A role that starts nobody. -/
def Role.isSolitary : Role → Bool
  | .attempt _ | .watch _ | .close _ | .release _ => true
  | _ => false

/-- A role whose tasks nobody but a caller asks to end. -/
def Role.isFirm : Role → Bool
  | .setup .. | .shutdown | .attempt _ => true
  | _ => false

theorem Role.leads_of_starts {role : Role} {job : Job} (h : role.starts job = true) :
    role.leads job.role = true := by
  unfold starts at h
  split at h <;> first | exact h | rfl | exact absurd h (by simp)

/-- The ends of a task that failed. -/
def Exit.isFailure : Exit → Bool
  | .failed _ | .crashed _ | .cancelled => true
  | .done | .relays _ => false

/-- Events that tell nothing of the pool, of the advertised address, or of a lost relay. -/
def Event.isPlain : Event → Bool
  | .offer .. | .publish _ | .lost .. => false
  | _ => true

def Event.isReserve : Event → Bool
  | .reserve .. => true
  | _ => false

namespace Overlay

def role? (w : Overlay) (t : TaskId) : Option Role :=
  (w.tasks[t]?).map fun task => task.job.role

/-- Task `t` plays a role, and was started by `parent`. -/
def Plays (w : Overlay) (t : TaskId) (role : Role) (parent : Option TaskId) : Prop :=
  ∃ task, w.tasks[t]? = some task ∧ task.job.role = role ∧ task.parent = parent

/-- The tasks that a job waits for are those that it started, each with its own role, and the
connections that it speaks of are there. -/
def Refers (w : Overlay) (t : TaskId) : Job → Prop
  | .setup _ _ (.settling _ attempts) =>
    ∀ a ∈ attempts, ∃ slot p, w.Plays a (.guard slot p) (some t)
  | .shutdown (.closing _ parts) =>
    ∀ a ∈ parts, (∃ r, w.Plays a (.close r) (some t)) ∨ ∃ k, w.Plays a (.release k) (some t)
  | .guardAttempt _ p (some a) => w.Plays a (.attempt p) (some t)
  | .attempt q (.shaking c _) => ∃ conn, w.conns[c]? = some conn ∧ conn.remote = q
  | .attempt _ (.partingFrom c _) => ∃ conn, w.conns[c]? = some conn
  | _ => True

/-- Task `t` may start another one for a job. -/
def Starts (w : Overlay) (t : TaskId) (job : Job) : Prop :=
  ∃ role, w.role? t = some role ∧ role.starts job = true

/-- Task `t` is a setup or a shutdown. -/
def Own (w : Overlay) (t : TaskId) : Prop := ∃ role, w.role? t = some role ∧ role.isOwn = true

/-- Task `u` was started by `t`, which may ask it to end. -/
def Serves (w : Overlay) (t u : TaskId) : Prop :=
  (∃ slot p, w.Plays u (.guard slot p) (some t)) ∨ (∃ r, w.Plays u (.close r) (some t)) ∨
    ∃ k, w.Plays u (.release k) (some t)

/-- Whether a task holds the reservation lock or waits for it. -/
def InGate (w : Overlay) (u : TaskId) : Prop :=
  w.manager.gate.holder = some u ∨ u ∈ w.manager.gate.waiting

/-- What the pool answers to a relay of a peer, if it is asked at all. -/
def verdict (w : Overlay) (p : PeerAddress) : Option Admission :=
  if w.manager.isShutDown then none
  else if w.manager.pool.capacity ≤ w.manager.pool.len then some .full
  else if w.manager.pool.containsPeer p then some .duplicate
  else some .added

/-- A relay was just made of a connection that was there, or of none. -/
inductive Made : Overlay → Overlay → RelayId → PeerAddress → Prop
  | openTcp (w : Overlay) (c : ConnId) (conn : Conn) (h : w.conns[c]? = some conn) :
      Made w (w.addOpenRelay c conn.remote).1 w.relays.length conn.remote
  | push (w : Overlay) (p : PeerAddress) : Made w (w.addPushRelay p).1 w.relays.length p

/-- A relay is let in, watched over, and advertised. -/
def admitted (w : Overlay) (r : RelayId) (p : PeerAddress) : Overlay :=
  ((((w.withManager fun m => { m with
    pool := { m.pool with members := m.pool.members ++ [⟨r, p⟩] } }).log
      (.offer r (some .added))).setSignal r (.live (some .manager))).publish)

/-- A relay is turned away, and marked shut down. -/
def refused (w : Overlay) (r : RelayId) (answer : Option Admission) : Overlay :=
  ((w.log (.offer r answer)).shutRelay r).1

/-- The manager stops: it forgets its relays and its observers. -/
def drained (w : Overlay) : Overlay :=
  w.withManager fun m => { m with
    isShutDown := true, observers := [], pool := { m.pool with members := [] } }

/-- A move of task `t` that leaves the pool, the relays and the advertised address alone. Only
setups and shutdowns have to do with the lock and the channels, and none are reserved any more when
the manager is shut down. -/
inductive Stir (t : TaskId) : Overlay → Overlay → Prop
  | rest (w : Overlay) : Stir t w { w with ready := w.ready.erase t }
  | wake (w : Overlay) (u : TaskId) (h : u < w.tasks.length) : Stir t w (w.wake u)
  | spawn (w : Overlay) (job : Job) (h : w.Starts t job) : Stir t w (w.spawn job (some t)).1
  | setJob (w : Overlay) (job : Job) (h : w.role? t = some job.role) (hj : w.Refers t job) :
      Stir t w (w.setJob t job)
  | sleep (w : Overlay) (job : Job) (delay : Nat) (h : w.role? t = some job.role)
      (hj : w.Refers t job) (hd : delay ≠ 0) : Stir t w (w.sleep t job delay)
  | cancel (w : Overlay) (u : TaskId) (h : w.Serves t u) : Stir t w (w.cancel u)
  | log (w : Overlay) (e : Event) (h : e.isPlain)
      (hr : e.isReserve = true → w.manager.isShutDown = false) : Stir t w (w.log e)
  | openConn (w : Overlay) (remote : PeerAddress) : Stir t w (w.openConn remote).1
  | dropConn (w : Overlay) (c : ConnId) : Stir t w (w.dropConn c)
  | manage (w : Overlay) (gate : FairLock TaskId) (creator : Option CreatorId)
      (failed : FailedCache)
      (hg : ∀ u, gate.holder = some u ∨ u ∈ gate.waiting → u = t ∨ w.InGate u)
      (hf : failed.ttl = w.manager.failed.ttl)
      (ho : gate = w.manager.gate ∧ creator = w.manager.creator ∨ w.Own t) :
      Stir t w { w with manager := { w.manager with gate, creator, failed } }
  | grant (w : Overlay) (n : Nat) : Stir t w { w with granted := n }

abbrev Stirs (t : TaskId) : Overlay → Overlay → Prop := Relation.ReflTransGen (Stir t)

inductive Move (t : TaskId) : Overlay → Overlay → Prop
  | stir {w w' : Overlay} (h : Stir t w w') : Move t w w'
  | publish (w : Overlay) : Move t w w.publish
  | accept {w v : Overlay} {r : RelayId} {p q : PeerAddress} (hr : w.role? t = some (.attempt q))
      (hm : Made w v r p) (ha : w.verdict p = some .added) : Move t w (v.admitted r p)
  | refuse {w v : Overlay} {r : RelayId} {p q : PeerAddress} (hr : w.role? t = some (.attempt q))
      (hm : Made w v r p) (ha : w.verdict p ≠ some .added) :
      Move t w (v.refused r (w.verdict p))
  | shut (w : Overlay) (r : RelayId) (hr : w.role? t = some (.close r)) :
      Move t w (w.shutRelay r).1
  | lose (w : Overlay) (r : RelayId) (hr : w.role? t = some (.watch r)) (hh : w.isHeld r) :
      Move t w (w.lose r).1
  | drain (w : Overlay) (hr : w.role? t = some .shutdown) : Move t w w.drained

abbrev Moves (t : TaskId) : Overlay → Overlay → Prop := Relation.ReflTransGen (Move t)

/-- A chain of stirs, after which the task may end. -/
def Quiet (t : TaskId) (w w' : Overlay) : Prop :=
  ∃ v, Stirs t w v ∧ (w' = v ∨ ∃ e, w' = v.finish t e)

/-- A chain of moves, after which the task may end. -/
def Turns (t : TaskId) (w w' : Overlay) : Prop :=
  ∃ v, Moves t w v ∧ (w' = v ∨ ∃ e, w' = v.finish t e)

/-- Who answers for a peer. -/
def partner (w : Overlay) (q : PeerAddress) : PeerAddress :=
  (w.behaviour q.id).standIn.getD q

variable {t : TaskId} {u v w : Overlay}

theorem Stir.one {w w' : Overlay} (h : Stir t w w') : Stirs t w w' := .single h

theorem Move.one {w w' : Overlay} (h : Move t w w') : Moves t w w' := .single h

theorem Stirs.moves (h : Stirs t u v) : Moves t u v :=
  Relation.ReflTransGen.mono (fun _ _ => Move.stir) _ _ h

theorem Quiet.refl (w : Overlay) : Quiet t w w := ⟨w, .refl, .inl rfl⟩

theorem Quiet.finish (w : Overlay) (e : Exit) : Quiet t w (w.finish t e) :=
  ⟨w, .refl, .inr ⟨e, rfl⟩⟩

theorem Stirs.quiet (h : Stirs t u v) (h' : Quiet t v w) : Quiet t u w := by
  obtain ⟨x, hx, hw⟩ := h'
  exact ⟨x, h.trans hx, hw⟩

theorem Turns.refl (w : Overlay) : Turns t w w := ⟨w, .refl, .inl rfl⟩

theorem Turns.finish (w : Overlay) (e : Exit) : Turns t w (w.finish t e) :=
  ⟨w, .refl, .inr ⟨e, rfl⟩⟩

theorem Moves.turns (h : Moves t u v) (h' : Turns t v w) : Turns t u w := by
  obtain ⟨x, hx, hw⟩ := h'
  exact ⟨x, h.trans hx, hw⟩

theorem Stirs.turns (h : Stirs t u v) (h' : Turns t v w) : Turns t u w :=
  h.moves.turns h'

theorem Quiet.turns (h : Quiet t u v) : Turns t u v := by
  obtain ⟨x, hx, hw⟩ := h
  exact ⟨x, hx.moves, hw⟩

theorem FailedCache.ttl_add (c : FailedCache) (p : PeerAddress) (now : Instant) :
    (c.add p now).1.ttl = c.ttl := by
  unfold FailedCache.add
  split <;> rfl

/-! ## Roles stay -/

theorem role?_eq_some {a : TaskId} {role : Role} :
    w.role? a = some role ↔ ∃ task, w.tasks[a]? = some task ∧ task.job.role = role := by
  simp [role?]

theorem Plays.role? {a : TaskId} {role : Role} {parent : Option TaskId}
    (h : w.Plays a role parent) : w.role? a = some role := by
  obtain ⟨task, ht, hr, -⟩ := h
  exact role?_eq_some.mpr ⟨task, ht, hr⟩

theorem role?_append {tasks : List Task} {a : TaskId} {role : Role} (h : w.role? a = some role) :
    ({ w with tasks := w.tasks ++ tasks } : Overlay).role? a = some role := by
  obtain ⟨task, ht, hr⟩ := role?_eq_some.mp h
  exact role?_eq_some.mpr ⟨task, by
    simp [List.getElem?_append_left (List.getElem?_eq_some_iff.mp ht).1, ht], hr⟩

theorem job_of_setJob {job : Job} {task : Task} (h : (w.setJob t job).tasks[t]? = some task) :
    task.job = job := by
  simp only [setJob, List.getElem?_modify_eq, Option.map_eq_map, Option.map_eq_some_iff] at h
  obtain ⟨before, -, rfl⟩ := h
  rfl

@[simp] theorem role?_setJob_self {job : Job} (h : w.role? t = some job.role) (a : TaskId) :
    (w.setJob t job).role? a = w.role? a := by
  simp only [role?, setJob, List.getElem?_modify]
  by_cases ha : t = a
  · subst ha
    obtain ⟨task, ht, hr⟩ := role?_eq_some.mp h
    simp [ht, hr]
  · simp [ha]

@[simp] theorem role?_wake (a b : TaskId) : (w.wake a).role? b = w.role? b := by
  obtain ⟨rs, h, -⟩ := w.wake_eq a
  rw [h]
  rfl

@[simp] theorem role?_cancel (a b : TaskId) : (w.cancel a).role? b = w.role? b := by
  rcases w.cancel_eq a with ⟨-, h⟩ | ⟨-, rs, h, -⟩
  · rw [h]
  · rw [h]
    simp only [role?, List.getElem?_modify]
    by_cases hab : a = b
    · subst hab
      cases w.tasks[a]? <;> simp
    · simp [hab]

@[simp] theorem role?_dropConn (c : ConnId) (a : TaskId) : (w.dropConn c).role? a = w.role? a := by
  rcases w.dropConn_eq c with ⟨-, h⟩ | ⟨-, rs, h, -⟩ <;> rw [h]
  rfl

@[simp] theorem role?_shutRelay (r : RelayId) (a : TaskId) :
    (w.shutRelay r).1.role? a = w.role? a := by
  rcases w.shutRelay_cases r with h | ⟨relay, l, -, -, h⟩ <;> rw [h]
  cases relay.watcher with
  | none => rfl
  | some u => exact role?_cancel u a

theorem Stir.role? (h : Stir t u v) {a : TaskId} {role : Role} (hr : u.role? a = some role) :
    v.role? a = some role := by
  cases h with
  | rest | log | openConn | manage | grant => exact hr
  | wake b => simpa using hr
  | spawn job _ => exact role?_append hr
  | setJob job hj _ => simpa [role?_setJob_self hj] using hr
  | sleep job delay hj _ _ => exact (role?_setJob_self hj a).trans hr
  | cancel b _ => simpa using hr
  | dropConn c => simpa using hr

theorem Stirs.role? (h : Stirs t u v) {a : TaskId} {role : Role} (hr : u.role? a = some role) :
    v.role? a = some role := by
  induction h with
  | refl => exact hr
  | tail _ h ih => exact h.role? ih

theorem Stirs.own (h : Stirs t u v) {a : TaskId} (ho : u.Own a) : v.Own a := by
  obtain ⟨role, hr, hown⟩ := ho
  exact ⟨role, h.role? hr, hown⟩

theorem lt_of_role? {role : Role} (h : w.role? t = some role) : t < w.tasks.length := by
  obtain ⟨task, ht, -⟩ := role?_eq_some.mp h
  exact (List.getElem?_eq_some_iff.mp ht).1

/-! ## Relays that were just made -/

theorem Made.relay {u : Overlay} {r : RelayId} {p : PeerAddress} (h : Made w u r p) :
    ∃ kind conn watcher, u.relays[r]? = some ⟨kind, p, conn, .live none, watcher⟩ := by
  cases h with
  | openTcp c conn hc =>
    exact ⟨.openTcp, some c, some w.tasks.length, by simp [addOpenRelay, spawn]⟩
  | push => exact ⟨.push, none, none, by simp [addPushRelay]⟩

theorem Made.manager {u : Overlay} {r : RelayId} {p : PeerAddress} (h : Made w u r p) :
    u.manager = w.manager := by
  cases h <;> rfl

theorem Made.role? {u : Overlay} {r : RelayId} {p : PeerAddress} (h : Made w u r p) {a : TaskId}
    {role : Role} (hr : w.role? a = some role) : u.role? a = some role := by
  cases h with
  | openTcp => exact role?_append hr
  | push => exact hr

/-! ## Attempts -/

/-- What is known of an attempt on its course: of the stages in which it waits, of how it ends
without an offer, and of whom it offers. -/
structure Course where
  stage : Overlay → AttemptStage → Prop
  ends : Exit → Prop
  offers : PeerAddress → Prop

/-- Nothing is known. -/
def Course.any : Course := ⟨fun _ _ => True, fun _ => True, fun _ => True⟩

/-- What is known of one stage of an attempt for `q` carries over to the next. -/
structure Course.Sound (k : Course) (t : TaskId) (q : PeerAddress) : Prop where
  stirs {w v : Overlay} {s : AttemptStage} (h : Stirs t w v) : k.stage w s → k.stage v s
  enter {w : Overlay} : k.stage w .entering →
    k.stage w (.connecting (w.behaviour q.id).connect.outcome)
  unconnected {w : Overlay} {o : Outcome} (h : o ≠ .succeed) :
    k.stage w (.connecting o) → ∀ e : Exit, e.isFailure = true → k.ends e
  connect {w : Overlay} {c : ConnId} (hc : w.conns[c]? = some ⟨q, true⟩) :
    k.stage w (.connecting .succeed) →
    k.stage w (.shaking c (w.behaviour q.id).handshake.outcome)
  unshaken {w : Overlay} {c : ConnId} {o : Outcome} (h : o ≠ .succeed) :
    k.stage w (.shaking c o) → ∀ e : Exit, e.isFailure = true → k.ends e
  keep {w : Overlay} {c : ConnId} (hk : w.manager.config.kind = .openTcp) :
    k.stage w (.shaking c .succeed) → k.offers (w.partner q)
  part {w v : Overlay} {c d : ConnId} {conn : Conn} (hk : w.manager.config.kind = .push)
    (hv : Stirs t w v) (hd : v.conns[d]? = some conn) (hp : conn.remote = w.partner q) :
    k.stage w (.shaking c .succeed) →
    k.stage v (.partingFrom d (w.behaviour conn.remote.id).close.outcome)
  unparted {w : Overlay} {c : ConnId} {text : String} :
    k.stage w (.partingFrom c (.crash text)) → ∀ e : Exit, e.isFailure = true → k.ends e
  parted {w : Overlay} {c : ConnId} {o : Outcome} {conn : Conn} (h : ∀ text, o ≠ .crash text)
    (hc : w.conns[c]? = some conn) : k.stage w (.partingFrom c o) → k.offers conn.remote
  discarded {w : Overlay} {r : RelayId} {o : Outcome} :
    k.stage w (.discarding r o) → ∀ e, k.ends e

/-- What an attempt does when it goes on. It makes a relay and offers it at most once, and nothing
but stirs come before and after that. -/
inductive Attempts (t : TaskId) (q : PeerAddress) (k : Course) : Overlay → Overlay → Prop
  | waits {w v w' : Overlay} {s : AttemptStage} {delay : Nat} (h : Stirs t w v)
      (hj : v.Refers t (.attempt q s)) (hk : k.stage v s) (hd : delay ≠ 0)
      (he : w' = v.sleep t (.attempt q s) delay) : Attempts t q k w w'
  | ends {w v w' : Overlay} {e : Exit} (h : Stirs t w v) (hk : k.ends e)
      (he : w' = v.finish t e) : Attempts t q k w w'
  | accept {w v u w' : Overlay} {r : RelayId} {p : PeerAddress} (h : Stirs t w v)
      (hm : Made v u r p) (hk : k.offers p) (ha : v.verdict p = some .added)
      (he : w' = (u.admitted r p).finish t .done) : Attempts t q k w w'
  | refuse {w v u w' : Overlay} {r : RelayId} {p : PeerAddress} (h : Stirs t w v)
      (hm : Made v u r p) (hk : k.offers p) (ha : v.verdict p ≠ some .added)
      (hq : Quiet t (u.refused r (v.verdict p)) w') : Attempts t q k w w'

variable {k : Course} {q : PeerAddress}

theorem Course.any_sound (t : TaskId) (q : PeerAddress) : Course.any.Sound t q where
  stirs _ _ := trivial
  enter _ := trivial
  unconnected _ _ _ _ := trivial
  connect _ _ := trivial
  unshaken _ _ _ _ := trivial
  keep _ _ := trivial
  part _ _ _ _ _ := trivial
  unparted _ _ _ := trivial
  parted _ _ _ := trivial
  discarded _ _ := trivial

theorem Stirs.attempts (h : Stirs t u v) (h' : Attempts t q k v w) : Attempts t q k u w := by
  cases h' with
  | waits hs hj hk hd he => exact .waits (h.trans hs) hj hk hd he
  | ends hs hk he => exact .ends (h.trans hs) hk he
  | accept hs hm hk ha he => exact .accept (h.trans hs) hm hk ha he
  | refuse hs hm hk ha hq => exact .refuse (h.trans hs) hm hk ha hq

theorem Attempts.turns (h : Attempts t q k u v) (hr : u.role? t = some (.attempt q)) :
    Turns t u v := by
  cases h with
  | waits hs hj hk hd he =>
    exact hs.turns ((Stir.sleep _ _ _ (hs.role? hr) hj hd).one.turns (he ▸ .refl _))
  | ends hs hk he => exact hs.turns (he ▸ .finish _ _)
  | accept hs hm hk ha he =>
    exact hs.turns ((Move.accept (hs.role? hr) hm ha).one.turns (he ▸ .finish _ _))
  | refuse hs hm hk ha hq =>
    exact hs.turns ((Move.refuse (hs.role? hr) hm ha).one.turns hq.turns)

end Overlay

end RelayUpkeep
