import RelayUpkeep.Proofs.Polls

/-! # Sound states

In every state that a run comes to, the tasks, the relays, the pool and the queues refer to each
other as they should. -/

namespace RelayUpkeep

/-! ## Pools -/

/-- A pool is within its capacity, and holds each relay and each peer once. -/
structure Pool.Sound (p : Pool) : Prop where
  bounded : p.len ≤ p.capacity
  relays : (p.members.map Member.relay).Nodup
  peers : (p.members.map fun m => m.address.id).Nodup

namespace Pool.Sound

variable {p : Pool}

theorem empty (capacity : Nat) : (Pool.empty capacity).Sound :=
  ⟨Nat.zero_le _, .nil, .nil⟩

theorem clear (p : Pool) : ({ p with members := [] } : Pool).Sound :=
  ⟨Nat.zero_le _, .nil, .nil⟩

theorem remove (h : p.Sound) (r : RelayId) : (p.remove r).1.Sound where
  bounded := Nat.le_trans (List.eraseP_sublist.length_le) h.bounded
  relays := h.relays.sublist (List.eraseP_sublist.map _)
  peers := h.peers.sublist (List.eraseP_sublist.map _)

theorem concat (h : p.Sound) {r : RelayId} {a : PeerAddress} (hr : r ∉ p.members.map Member.relay)
    (hroom : p.len < p.capacity) (ha : p.containsPeer a = false) :
    ({ p with members := p.members ++ [⟨r, a⟩] } : Pool).Sound where
  bounded := by
    simp only [len, List.length_append, List.length_singleton] at hroom ⊢
    omega
  relays := by
    rw [List.map_append]
    exact List.nodup_append.mpr ⟨h.relays, by simp, by
      rintro x hx y hy rfl
      rw [List.mem_singleton.mp hy] at hx
      exact hr hx⟩
  peers := by
    rw [List.map_append]
    refine List.nodup_append.mpr ⟨h.peers, by simp, ?_⟩
    rintro x hx y hy rfl
    obtain ⟨m, hm, hid⟩ := List.mem_map.mp hx
    have hfree := List.any_eq_false.mp ha m hm
    simp only [List.map_cons, List.map_nil, List.mem_singleton] at hy
    simp [PeerAddress.same, hid, hy] at hfree

end Pool.Sound

namespace Overlay

variable {t : TaskId} {u v w : Overlay}

theorem verdict_eq_added {p : PeerAddress} (h : w.verdict p = some .added) :
    w.manager.isShutDown = false ∧ w.manager.pool.len < w.manager.pool.capacity ∧
      w.manager.pool.containsPeer p = false := by
  unfold verdict at h
  split_ifs at h with h₁ h₂ h₃ <;> simp_all

/-! ## Inversion of a move -/

/-- All that a move can do to the pool. -/
inductive PoolMove (t : TaskId) (u v : Overlay) : Prop
  | same (h : v.manager.pool = u.manager.pool)
  | joined {q p : PeerAddress} (hr : u.role? t = some (.attempt q))
      (ha : u.verdict p = some .added)
      (h : v.manager.pool =
        { u.manager.pool with members := u.manager.pool.members ++ [⟨u.relays.length, p⟩] })
      (hv : ∃ relay, v.relays[u.relays.length]? = some relay ∧ relay.address = p)
  | lost {r : RelayId} (hr : u.role? t = some (.watch r))
      (h : v.manager.pool = (u.manager.pool.remove r).1)
  | cleared (hr : u.role? t = some .shutdown) (hs : v.manager.isShutDown = true)
      (h : v.manager.pool = { u.manager.pool with members := [] })

@[simp] theorem manager_wake (w : Overlay) (a : TaskId) : (w.wake a).manager = w.manager := by
  obtain ⟨rs, h, -⟩ := w.wake_eq a
  rw [h]

@[simp] theorem manager_cancel (w : Overlay) (a : TaskId) :
    (w.cancel a).manager = w.manager := by
  rcases w.cancel_eq a with ⟨-, h⟩ | ⟨-, rs, h, -⟩ <;> rw [h]

theorem manager_cancelAll (w : Overlay) (ts : List TaskId) :
    (ts.foldl cancel w).manager = w.manager := by
  obtain ⟨tasks, rs, h⟩ := w.cancelAll_eq ts
  rw [h]

@[simp] theorem manager_dropConn (w : Overlay) (c : ConnId) :
    (w.dropConn c).manager = w.manager := by
  rcases w.dropConn_eq c with ⟨-, h⟩ | ⟨-, rs, h, -⟩ <;> rw [h]

@[simp] theorem manager_finish (w : Overlay) (a : TaskId) (e : Exit) :
    (w.finish a e).manager = w.manager := by
  obtain ⟨rs, h, -⟩ := w.finish_eq a e
  rw [h]

@[simp] theorem manager_shutRelay (w : Overlay) (r : RelayId) :
    (w.shutRelay r).1.manager = w.manager := by
  obtain ⟨relays, tasks, ready, h⟩ := w.shutRelay_frame r
  rw [h]

theorem admitted_pool (w : Overlay) (r : RelayId) (p : PeerAddress) :
    (w.admitted r p).manager.pool =
      { w.manager.pool with members := w.manager.pool.members ++ [⟨r, p⟩] } := rfl

theorem admitted_relays (w : Overlay) (r : RelayId) (p : PeerAddress) :
    (w.admitted r p).relays =
      w.relays.modify r fun relay => { relay with signal := .live (some .manager) } := rfl

theorem pool_relayLost (w : Overlay) (r : RelayId) (address : PeerAddress) :
    (w.relayLost r address).1.manager.pool = (w.manager.pool.remove r).1 := by
  rcases w.relayLost_cases r address with ⟨hc, h⟩ | ⟨-, -, h⟩ | ⟨-, -, h⟩ <;> rw [h]
  · simp only [Pool.remove]
    have hn : ∀ m ∈ w.manager.pool.members, (m.relay == r) = false := by
      simpa [Pool.contains] using hc
    rw [List.eraseP_of_forall_not fun m hm => by simp [hn m hm]]
  · rfl
  · rw [tellAll_eq]
    rfl

theorem Made.id {r : RelayId} {p : PeerAddress} (h : Made u v r p) : r = u.relays.length := by
  cases h <;> rfl

theorem Stir.pool (h : Stir t u v) : v.manager.pool = u.manager.pool := by
  cases h with
  | rest | spawn | setJob | sleep | log | openConn | manage | grant => rfl
  | wake a => rw [manager_wake]
  | cancel a => rw [manager_cancel]
  | dropConn c => rw [manager_dropConn]

theorem Move.pool (h : Move t u v) : PoolMove t u v := by
  cases h with
  | stir h => exact .same h.pool
  | publish => exact .same rfl
  | @accept v r p q hr hm ha =>
    obtain ⟨kind, conn, watcher, hrel⟩ := hm.relay
    have hid := hm.id
    subst hid
    refine .joined hr ha ?_ ⟨⟨kind, p, conn, .live (some .manager), watcher⟩, ?_, rfl⟩
    · rw [admitted_pool, hm.manager]
    · simp [admitted_relays, hrel]
  | refuse hr hm ha => exact .same (by simp [refused, log, hm.manager])
  | shut r => exact .same (by simp)
  | lose r hr =>
    rcases u.lose_cases r with h | ⟨relay, -, h⟩
    · rw [h]
      exact .same rfl
    · generalize (u.lose r).1 = v at h
      cases h with
      | unheard | noted | ownerless => exact .same rfl
      | told => exact .lost hr (pool_relayLost _ _ _)
  | drain hr => exact .cleared hr rfl rfl

/-! ## Where tasks and relays come from -/

theorem getElem?_concat_eq_some {α : Type} {l : List α} {x y : α} {i : Nat}
    (h : (l ++ [x])[i]? = some y) : l[i]? = some y ∨ i = l.length ∧ y = x := by
  rcases Nat.lt_trichotomy i l.length with hi | hi | hi
  · rw [List.getElem?_append_left hi] at h
    exact .inl h
  · subst hi
    rw [List.getElem?_concat_length] at h
    exact .inr ⟨rfl, (Option.some.inj h).symm⟩
  · rw [List.getElem?_eq_none (by simp; omega)] at h
    simp at h

/-- Where a task comes from that is there after a move. -/
inductive Origin (t : TaskId) (u v : Overlay) (a : TaskId) (task : Task) : Prop
  | kept {before : Task} (h : u.tasks[a]? = some before) (hj : task.job = before.job)
      (hp : task.parent = before.parent)
  | turned {before : Task} (ha : a = t) (h : u.tasks[a]? = some before)
      (hr : task.job.role = before.job.role) (hp : task.parent = before.parent)
      (hj : v.Refers a task.job)
  | part (h : u.tasks.length ≤ a) (hj : u.Starts t task.job) (hp : task.parent = some t)
  | watcher {r : RelayId} {relay : Relay} (h : u.tasks.length ≤ a) (hj : task.job = .watch r)
      (hp : task.parent = none) (hr : v.relays[r]? = some relay) (hw : relay.watcher = some a)

theorem origin_setJob {job : Job} (h : w.role? t = some job.role) (hj : w.Refers t job)
    {a : TaskId} {task : Task} (ha : (w.setJob t job).tasks[a]? = some task) :
    Origin t w (w.setJob t job) a task := by
  simp only [setJob, List.getElem?_modify, Option.map_eq_map, Option.map_eq_some_iff] at ha
  obtain ⟨before, hb, rfl⟩ := ha
  by_cases hat : t = a
  · subst hat
    obtain ⟨task, ht, hr⟩ := role?_eq_some.mp h
    obtain rfl := Option.some.inj (ht.symm.trans hb)
    exact .turned rfl hb (by simp [hr]) (by simp) (by simpa using hj.mono (.setJob w h))
  · exact .kept hb (by simp [hat]) (by simp [hat])

/-- No task is new, and none has another job. -/
def Keeps (u v : Overlay) : Prop :=
  ∀ (a : TaskId) (task : Task), v.tasks[a]? = some task →
    ∃ before, u.tasks[a]? = some before ∧ task.job = before.job ∧ task.parent = before.parent

theorem Keeps.of_eq (h : v.tasks = u.tasks) : u.Keeps v :=
  fun _ task ha => ⟨task, h ▸ ha, rfl, rfl⟩

theorem Keeps.trans (h : u.Keeps v) (h' : v.Keeps w) : u.Keeps w := by
  intro a task ha
  obtain ⟨x, hx, hj, hp⟩ := h' a task ha
  obtain ⟨y, hy, hj', hp'⟩ := h a x hx
  exact ⟨y, hy, hj.trans hj', hp.trans hp'⟩

theorem Keeps.origin (h : u.Keeps v) {a : TaskId} {task : Task} (ha : v.tasks[a]? = some task) :
    Origin t u v a task := by
  obtain ⟨before, hb, hj, hp⟩ := h a task ha
  exact .kept hb hj hp

theorem keeps_wake (w : Overlay) (b : TaskId) : w.Keeps (w.wake b) := by
  obtain ⟨rs, h, -⟩ := w.wake_eq b
  exact .of_eq (by rw [h])

theorem keeps_cancel (w : Overlay) (b : TaskId) : w.Keeps (w.cancel b) := by
  rcases w.cancel_eq b with ⟨-, h⟩ | ⟨-, rs, h, -⟩
  · exact .of_eq (by rw [h])
  · intro a task ha
    rw [h] at ha
    simp only [List.getElem?_modify, Option.map_eq_map, Option.map_eq_some_iff] at ha
    obtain ⟨before, hb, rfl⟩ := ha
    exact ⟨before, hb, by split <;> rfl, by split <;> rfl⟩

theorem keeps_cancelAll (w : Overlay) (as : List TaskId) : w.Keeps (as.foldl cancel w) := by
  induction as generalizing w with
  | nil => exact .of_eq rfl
  | cons a as ih => exact (keeps_cancel w a).trans (ih (w.cancel a))

theorem keeps_dropConn (w : Overlay) (c : ConnId) : w.Keeps (w.dropConn c) := by
  rcases w.dropConn_eq c with ⟨-, h⟩ | ⟨-, rs, h, -⟩ <;> exact .of_eq (by rw [h])

theorem keeps_shutRelay (w : Overlay) (r : RelayId) : w.Keeps (w.shutRelay r).1 := by
  rcases w.shutRelay_cases r with h | ⟨relay, l, -, -, h⟩ <;> rw [h]
  · exact .of_eq rfl
  · have hs : w.Keeps (w.setSignal r .shutDown) := .of_eq rfl
    cases relay.watcher with
    | none => exact hs
    | some b => exact hs.trans (keeps_cancel _ b)

theorem keeps_lose (w : Overlay) (r : RelayId) : w.Keeps (w.lose r).1 := by
  obtain ⟨s, mine, pool, failed, journal, h, -⟩ := w.lose_frame r
  exact .of_eq (by rw [h]; rfl)

theorem Stir.origin (h : Stir t u v) {a : TaskId} {task : Task}
    (ha : v.tasks[a]? = some task) : Origin t u v a task := by
  cases h with
  | rest | log | openConn | manage | grant => exact .kept ha rfl rfl
  | wake b => exact (keeps_wake u b).origin ha
  | spawn job hj =>
    rcases getElem?_concat_eq_some ha with ha | ⟨rfl, rfl⟩
    · exact .kept ha rfl rfl
    · exact .part (Nat.le_refl _) hj rfl
  | setJob job h hj => exact origin_setJob h hj ha
  | sleep job delay h hj =>
    cases origin_setJob h hj ha with
    | kept h hj hp => exact .kept h hj hp
    | turned ha h hr hp hj => exact .turned ha h hr hp (hj.mono { Grows.refl _ with })
    | part h hj hp => exact .part h hj hp
    | watcher h hj hp hr hw => exact .watcher h hj hp hr hw
  | cancel b => exact (keeps_cancel u b).origin ha
  | dropConn c => exact (keeps_dropConn u c).origin ha

/-- A task that is called off ends. Nothing else changes than the lock, who is asked to end, and who
is ready. -/
theorem abandon_frame (w : Overlay) (t : TaskId) (job : Job) : ∃ tasks gate rs,
    w.Keeps { w with tasks } ∧ w.abandon t job = ({ w with
      tasks, manager := { w.manager with gate }, ready := rs } : Overlay).finish t .cancelled := by
  have hcancel : ∀ ts : List TaskId, ∃ tasks gate rs, w.Keeps { w with tasks } ∧
      (ts.foldl cancel w).finish t .cancelled = ({ w with
        tasks, manager := { w.manager with gate }, ready := rs } : Overlay).finish t .cancelled := by
    intro ts
    have hk := keeps_cancelAll w ts
    obtain ⟨tasks, rs, h⟩ := w.cancelAll_eq ts
    rw [h] at hk ⊢
    exact ⟨tasks, w.manager.gate, rs, hk, rfl⟩
  obtain ⟨gate, rs, hleave⟩ := w.leaveGate_frame t
  unfold abandon
  split
  · exact hcancel _
  · exact hcancel _
  · exact ⟨w.tasks, gate, rs, .of_eq rfl, by rw [hleave]⟩
  · exact ⟨w.tasks, gate, rs, .of_eq rfl, by rw [hleave]⟩
  · exact hcancel []

/-- The watcher of a relay that was just made is the only new task. -/
theorem Made.origin {r : RelayId} {p : PeerAddress} (hm : Made u v r p) {w : Overlay}
    (hg : v.Grows w) {a : TaskId} {task : Task} (ha : v.tasks[a]? = some task) :
    Origin t u w a task := by
  cases hm with
  | openTcp c conn hc =>
    rcases getElem?_concat_eq_some ha with ha | ⟨rfl, rfl⟩
    · exact .kept ha rfl rfl
    · obtain ⟨relay, hrel, hk⟩ := hg.relays u.relays.length _ (List.getElem?_concat_length)
      exact .watcher (Nat.le_refl _) rfl rfl hrel hk.watcher
  | push => exact .kept ha rfl rfl

theorem Move.origin (h : Move t u v) {a : TaskId} {task : Task}
    (ha : v.tasks[a]? = some task) : Origin t u v a task := by
  cases h with
  | stir h => exact h.origin ha
  | publish | drain => exact .kept ha rfl rfl
  | accept hr hm hadd => exact hm.origin (.admitted hm) ha
  | @refuse v r p q hr hm hadd =>
    have hg : v.Grows (v.refused r (u.verdict p)) := (Grows.log _ _).trans (.shutRelay _ _)
    obtain ⟨before, hb, hj, hp⟩ := keeps_shutRelay _ r a task ha
    cases hm.origin (t := t) hg hb with
    | kept h hj' hp' => exact .kept h (hj.trans hj') (hp.trans hp')
    | turned ha h hr hp' hj' => exact .turned ha h (hj ▸ hr) (hp.trans hp') (hj ▸ hj')
    | part h hj' hp' => exact .part h (hj ▸ hj') (hp.trans hp')
    | watcher h hj' hp' hr hw => exact .watcher h (hj.trans hj') (hp.trans hp') hr hw
  | shut r => exact (keeps_shutRelay u r).origin ha
  | lose r => exact (keeps_lose u r).origin ha

/-- An open-connection relay has a connection and a watcher of its own, a push relay neither. -/
def Tends (w : Overlay) (r : RelayId) (relay : Relay) : Prop :=
  match relay.kind with
  | .openTcp => ∃ c a, relay.conn = some c ∧ c < w.conns.length ∧ relay.watcher = some a ∧
      w.Plays a (.watch r) none
  | .push => relay.conn = none ∧ relay.watcher = none

theorem Tends.mono (hg : u.Grows v) {r : RelayId} {relay relay' : Relay} (hr : relay.Grows relay')
    (h : u.Tends r relay) : v.Tends r relay' := by
  unfold Tends at h ⊢
  rw [hr.kind, hr.conn, hr.watcher]
  split at h
  · obtain ⟨c, a, hc, hlt, hw, hp⟩ := h
    exact ⟨c, a, hc, Nat.lt_of_lt_of_le hlt hg.conns.length_le, hw, hp.mono hg⟩
  · exact h

theorem Made.tends {r : RelayId} {p : PeerAddress} (h : Made u v r p) :
    ∃ relay, v.relays[r]? = some relay ∧ v.Tends r relay := by
  cases h with
  | openTcp c conn hc =>
    refine ⟨_, List.getElem?_concat_length, c, u.tasks.length, rfl, ?_, rfl, ?_⟩
    · exact (List.getElem?_eq_some_iff.mp hc).1
    · exact ⟨_, List.getElem?_concat_length, rfl, rfl⟩
  | push => exact ⟨_, List.getElem?_concat_length, rfl, rfl⟩

theorem Made.length {r : RelayId} {p : PeerAddress} (h : Made u v r p) :
    v.relays.length = u.relays.length + 1 := by
  cases h <;> simp [addOpenRelay, addPushRelay, spawn]

@[simp] theorem relays_wake (w : Overlay) (a : TaskId) : (w.wake a).relays = w.relays := by
  obtain ⟨rs, h, -⟩ := w.wake_eq a
  rw [h]

@[simp] theorem relays_cancel (w : Overlay) (a : TaskId) : (w.cancel a).relays = w.relays := by
  rcases w.cancel_eq a with ⟨-, h⟩ | ⟨-, rs, h, -⟩ <;> rw [h]

@[simp] theorem relays_dropConn (w : Overlay) (c : ConnId) :
    (w.dropConn c).relays = w.relays := by
  rcases w.dropConn_eq c with ⟨-, h⟩ | ⟨-, rs, h, -⟩ <;> rw [h]

@[simp] theorem relays_finish (w : Overlay) (a : TaskId) (e : Exit) :
    (w.finish a e).relays = w.relays := by
  obtain ⟨rs, h, -⟩ := w.finish_eq a e
  rw [h]

@[simp] theorem tasks_finish (w : Overlay) (a : TaskId) (e : Exit) :
    (w.finish a e).tasks = w.tasks := by
  obtain ⟨rs, h, -⟩ := w.finish_eq a e
  rw [h]

theorem length_shutRelay (w : Overlay) (r : RelayId) :
    (w.shutRelay r).1.relays.length = w.relays.length := by
  rcases w.shutRelay_cases r with h | ⟨relay, l, -, -, h⟩ <;> rw [h]
  have hs : (w.setSignal r .shutDown).relays.length = w.relays.length := List.length_modify _ _ _
  cases relay.watcher with
  | none => exact hs
  | some a => simpa using hs

theorem length_lose (w : Overlay) (r : RelayId) :
    (w.lose r).1.relays.length = w.relays.length := by
  obtain ⟨s, mine, pool, failed, journal, h, -⟩ := w.lose_frame r
  rw [h]
  exact List.length_modify _ _ _

theorem Stir.relays (h : Stir t u v) : v.relays = u.relays := by
  cases h with
  | rest | spawn | setJob | sleep | log | openConn | manage | grant => rfl
  | wake a => exact relays_wake u a
  | cancel a => exact relays_cancel u a
  | dropConn c => exact relays_dropConn u c

/-- A move makes one relay at most, and one that is tended to. -/
theorem Move.relays (h : Move t u v) {r : RelayId} {relay : Relay}
    (hr : v.relays[r]? = some relay) (hnew : u.relays.length ≤ r) : v.Tends r relay := by
  have hlt := (List.getElem?_eq_some_iff.mp hr).1
  have hmade : ∀ {v' w : Overlay} {s : RelayId} {p : PeerAddress}, Made u v' s p → v'.Grows w →
      w.relays.length = v'.relays.length → w.relays[r]? = some relay → w.Tends r relay := by
    intro v' w s p hm hg hlen hr
    have hlt := (List.getElem?_eq_some_iff.mp hr).1
    have hle : r ≤ u.relays.length :=
      Nat.le_of_lt_succ (Nat.lt_of_lt_of_eq hlt (hlen.trans hm.length))
    obtain rfl : r = s := (Nat.le_antisymm hle hnew).trans hm.id.symm
    obtain ⟨relay', hr', ht⟩ := hm.tends
    obtain ⟨relay'', hr'', hk⟩ := hg.relays r relay' hr'
    obtain rfl := Option.some.inj (hr.symm.trans hr'')
    exact ht.mono hg hk
  cases h with
  | stir h =>
    rw [h.relays] at hlt
    omega
  | publish | drain => exact absurd hlt (Nat.not_lt.mpr hnew)
  | accept hrole hm hadd => exact hmade hm (.admitted hm) (List.length_modify _ _ _) hr
  | refuse hrole hm hadd =>
    exact hmade hm ((Grows.log _ _).trans (.shutRelay _ _)) (length_shutRelay _ _) hr
  | shut s =>
    rw [length_shutRelay] at hlt
    omega
  | lose s =>
    rw [length_lose] at hlt
    omega

theorem Move.gate (h : Move t u v) {a : TaskId} (ha : v.InGate a) : a = t ∨ u.InGate a := by
  cases h with
  | stir h =>
    cases h with
    | rest | spawn | setJob | sleep | log | openConn | grant => exact .inr ha
    | wake b => exact .inr (by simpa [InGate] using ha)
    | cancel b => exact .inr (by simpa [InGate] using ha)
    | dropConn c => exact .inr (by simpa [InGate] using ha)
    | manage gate creator failed hg hf _ => exact hg a ha
  | publish | drain => exact .inr ha
  | @accept v r p q hr hm hadd =>
    have hmg : (v.admitted r p).manager.gate = v.manager.gate := rfl
    exact .inr (by simpa [InGate, hmg, hm.manager] using ha)
  | refuse hr hm hadd => exact .inr (by simpa [InGate, refused, log, hm.manager] using ha)
  | shut r => exact .inr (by simpa [InGate] using ha)
  | lose r =>
    obtain ⟨s, mine, pool, failed, journal, h, -⟩ := u.lose_frame r
    rw [h] at ha
    exact .inr ha

/-! ## Who is asked to end -/

/-- The tasks that are asked to end between two states. -/
def CancelsOnly (P : TaskId → Prop) (u v : Overlay) : Prop :=
  ∀ (a : TaskId) (task : Task), v.tasks[a]? = some task → task.isCancelled = true →
    P a ∨ ∃ before, u.tasks[a]? = some before ∧ before.isCancelled = true

/-- A task watches a relay that is shut down. -/
def WatchedShut (w : Overlay) (a : TaskId) : Prop :=
  ∃ (r : RelayId) (relay : Relay),
    w.relays[r]? = some relay ∧ relay.watcher = some a ∧ relay.signal = .shutDown

theorem CancelsOnly.of_eq {P : TaskId → Prop} (h : v.tasks = u.tasks) : CancelsOnly P u v :=
  fun _ task ha hc => .inr ⟨task, h ▸ ha, hc⟩

theorem CancelsOnly.of_concat {P : TaskId → Prop} {job : Job} {parent : Option TaskId}
    (h : v.tasks = u.tasks ++ [⟨job, parent, false⟩]) : CancelsOnly P u v := by
  intro a task ha hc
  rw [h] at ha
  rcases getElem?_concat_eq_some ha with ha | ⟨-, rfl⟩
  · exact .inr ⟨task, ha, hc⟩
  · exact absurd hc (by simp)

theorem cancelsOnly_setJob {P : TaskId → Prop} (w : Overlay) (t : TaskId) (job : Job) :
    CancelsOnly P w (w.setJob t job) := by
  intro a task ha hc
  simp only [setJob, List.getElem?_modify, Option.map_eq_map, Option.map_eq_some_iff] at ha
  obtain ⟨before, hb, rfl⟩ := ha
  exact .inr ⟨before, hb, by split at hc <;> exact hc⟩

theorem cancelsOnly_cancel (w : Overlay) (b : TaskId) :
    CancelsOnly (· = b) w (w.cancel b) := by
  rcases w.cancel_eq b with ⟨-, h⟩ | ⟨-, rs, h, -⟩
  · exact .of_eq (by rw [h])
  · intro a task ha hc
    rw [h] at ha
    simp only [List.getElem?_modify, Option.map_eq_map, Option.map_eq_some_iff] at ha
    obtain ⟨before, hb, rfl⟩ := ha
    by_cases hba : b = a
    · exact .inl hba.symm
    · exact .inr ⟨before, hb, by simpa [hba] using hc⟩

theorem cancelsOnly_shutRelay (w : Overlay) (r : RelayId) :
    CancelsOnly (w.shutRelay r).1.WatchedShut w (w.shutRelay r).1 := by
  rcases w.shutRelay_cases r with h | ⟨relay, l, hr, hs, h⟩ <;> rw [h]
  · exact .of_eq rfl
  · cases hw : relay.watcher with
    | none => exact .of_eq rfl
    | some b =>
      intro a task ha hc
      rcases cancelsOnly_cancel (w.setSignal r .shutDown) b a task ha hc with rfl | h
      · refine .inl ⟨r, { relay with signal := .shutDown }, ?_, hw, rfl⟩
        simp [setSignal, hr]
      · exact .inr h

theorem Stir.cancels (h : Stir t u v) : CancelsOnly (u.Serves t) u v := by
  cases h with
  | rest | log | openConn | manage | grant => exact .of_eq rfl
  | wake a =>
    obtain ⟨rs, h, -⟩ := u.wake_eq a
    exact .of_eq (by rw [h])
  | spawn job => exact .of_concat rfl
  | setJob job => exact cancelsOnly_setJob u t job
  | sleep job delay => exact cancelsOnly_setJob u t job
  | cancel b hb =>
    intro a task ha hc
    rcases cancelsOnly_cancel u b a task ha hc with rfl | h
    · exact .inl hb
    · exact .inr h
  | dropConn c =>
    rcases u.dropConn_eq c with ⟨-, h⟩ | ⟨-, rs, h, -⟩ <;> exact .of_eq (by rw [h])

theorem Made.cancels {r : RelayId} {p : PeerAddress} (h : Made u v r p) :
    CancelsOnly (fun _ => False) u v := by
  cases h with
  | openTcp => exact .of_concat rfl
  | push => exact .of_eq rfl

/-- A move asks those that serve others to end, and the watchers of what it shuts down. -/
theorem Move.cancels (h : Move t u v) :
    CancelsOnly (fun a => u.Serves t a ∨ v.WatchedShut a) u v := by
  intro a task ha hc
  cases h with
  | stir h => exact (h.cancels a task ha hc).imp .inl id
  | publish | drain => exact .inr ⟨task, ha, hc⟩
  | accept hr hm hadd => exact (hm.cancels a task ha hc).imp False.elim id
  | @refuse v r p q hr hm hadd =>
    rcases cancelsOnly_shutRelay (v.log (.offer r (u.verdict p))) r a task ha hc with h | h
    · exact .inl (.inr h)
    · obtain ⟨before, hb, hbc⟩ := h
      exact (hm.cancels a before hb hbc).imp False.elim id
  | shut r => exact (cancelsOnly_shutRelay u r a task ha hc).imp .inr id
  | lose r =>
    obtain ⟨s, mine, pool, failed, journal, h, -⟩ := u.lose_frame r
    exact .inr ⟨task, by rw [h] at ha; exact ha, hc⟩

/-! ## Links between tasks, relays and the pool -/

structure Linked (w : Overlay) : Prop where
  capacity : w.manager.pool.capacity = w.manager.config.maxRelays
  ttl : w.manager.failed.ttl = w.manager.config.failedWait
  refers : ∀ (a : TaskId) (task : Task), w.tasks[a]? = some task → w.Refers a task.job
  parents : ∀ (a : TaskId) (task : Task) (p : TaskId), w.tasks[a]? = some task →
    task.parent = some p → p < a ∧ ∃ role, w.role? p = some role ∧ role.leads task.job.role = true
  gate : w.GateInRange
  watches : ∀ a r, w.role? a = some (.watch r) →
    ∃ relay, w.relays[r]? = some relay ∧ relay.watcher = some a
  tends : ∀ (r : RelayId) (relay : Relay), w.relays[r]? = some relay → w.Tends r relay
  pool : w.manager.pool.Sound
  pooled : ∀ m ∈ w.manager.pool.members,
    ∃ relay, w.relays[m.relay]? = some relay ∧ relay.address = m.address

theorem linked_start (config : RelayConfig) (address : PeerAddress) :
    (start config address).Linked where
  capacity := rfl
  ttl := rfl
  refers := by simp [start]
  parents := by simp [start]
  gate := by
    rintro a (ha | ha)
    · exact absurd ha (by simp [start, Manager.new, FairLock.free])
    · exact absurd ha (by simp [start, Manager.new, FairLock.free])
  watches := by simp [start, role?]
  tends := by simp [start]
  pool := .empty _
  pooled := by simp [start, Manager.new, Pool.empty]

theorem Linked.addresses_views (h : w.Linked) :
    (w.views w.pooled).map RelayView.address = w.manager.pool.addresses := by
  rw [views, Overlay.pooled, Pool.addresses, List.filterMap_map, List.map_filterMap,
    ← List.filterMap_eq_map]
  refine List.filterMap_congr fun m hm => ?_
  obtain ⟨relay, hr, ha⟩ := h.pooled m hm
  simp [view?, hr, ha]

theorem Linked.role?_watcher (h : w.Linked) {r : RelayId} {relay : Relay} {a : TaskId}
    (hr : w.relays[r]? = some relay) (hw : relay.watcher = some a) :
    w.role? a = some (.watch r) := by
  have ht := h.tends r relay hr
  unfold Tends at ht
  split at ht
  · obtain ⟨c, b, -, -, hb, hp⟩ := ht
    obtain rfl := Option.some.inj (hb.symm.trans hw)
    exact hp.role?
  · exact absurd (ht.2.symm.trans hw) (by simp)

theorem Linked.not_pooled_new (h : w.Linked) :
    w.relays.length ∉ w.manager.pool.members.map Member.relay := by
  intro hmem
  obtain ⟨m, hm, he⟩ := List.mem_map.mp hmem
  obtain ⟨relay, hr, -⟩ := h.pooled m hm
  exact absurd (List.getElem?_eq_some_iff.mp hr).1 (by simp [he])

/-! ### Each part of it is kept -/

theorem Linked.refers_move (h : u.Linked) (hm : Move t u v) {a : TaskId} {task : Task}
    (ha : v.tasks[a]? = some task) : v.Refers a task.job := by
  cases hm.origin ha with
  | kept hb hj _ => exact hj ▸ (h.refers a _ hb).mono (.move hm)
  | turned _ _ _ _ hj => exact hj
  | part _ hj _ => exact hj.refers v a
  | watcher _ hj _ _ _ => exact hj ▸ trivial

/-- A task is younger than the one that started it, also if it was started just now. -/
theorem Linked.parents_move (h : u.Linked) (hm : Move t u v) (ht : t < u.tasks.length)
    {a p : TaskId} {task : Task} (ha : v.tasks[a]? = some task) (hpar : task.parent = some p) :
    p < a ∧ ∃ role, v.role? p = some role ∧ role.leads task.job.role = true := by
  have hg := Grows.move hm
  cases hm.origin ha with
  | kept hb hj hp =>
    obtain ⟨hlt, role, hr, hlead⟩ := h.parents a _ p hb (hp ▸ hpar)
    exact ⟨hlt, role, hg.role? hr, hj ▸ hlead⟩
  | turned _ hb hr' hp _ =>
    obtain ⟨hlt, role, hr, hlead⟩ := h.parents a _ p hb (hp ▸ hpar)
    exact ⟨hlt, role, hg.role? hr, hr' ▸ hlead⟩
  | part hnew hj hp =>
    obtain rfl := Option.some.inj (hp.symm.trans hpar)
    obtain ⟨role, hr, hs⟩ := hj
    exact ⟨Nat.lt_of_lt_of_le ht hnew, role, hg.role? hr, Role.leads_of_starts hs⟩
  | watcher _ _ hp _ _ => exact absurd (hp.symm.trans hpar) (by simp)

theorem Linked.watches_move (h : u.Linked) (hm : Move t u v) {a : TaskId} {r : RelayId}
    (hrole : v.role? a = some (.watch r)) :
    ∃ relay, v.relays[r]? = some relay ∧ relay.watcher = some a := by
  obtain ⟨task, ha, hr⟩ := role?_eq_some.mp hrole
  have hold : ∀ before, u.tasks[a]? = some before → before.job.role = .watch r →
      ∃ relay, v.relays[r]? = some relay ∧ relay.watcher = some a := by
    intro before hb hr
    obtain ⟨relay, hrel, hw⟩ := h.watches a r (role?_eq_some.mpr ⟨before, hb, hr⟩)
    obtain ⟨relay', hrel', hk⟩ := (Grows.move hm).relays r relay hrel
    exact ⟨relay', hrel', hk.watcher.trans hw⟩
  cases hm.origin ha with
  | kept hb hj _ => exact hold _ hb (hj ▸ hr)
  | turned _ hb hr' _ _ => exact hold _ hb (hr' ▸ hr)
  | part _ hj _ =>
    obtain ⟨role, -, hj⟩ := hj
    cases hjob : task.job <;> simp [hjob, Job.role] at hr
    simp [hjob, Role.starts] at hj
  | watcher _ hj _ hrel hw =>
    rw [hj] at hr
    cases hr
    exact ⟨_, hrel, hw⟩

theorem Linked.tends_move (h : u.Linked) (hm : Move t u v) {r : RelayId} {relay : Relay}
    (hr : v.relays[r]? = some relay) : v.Tends r relay := by
  by_cases hnew : u.relays.length ≤ r
  · exact hm.relays hr hnew
  · have hg := Grows.move hm
    have hb := List.getElem?_eq_getElem (Nat.lt_of_not_le hnew)
    obtain ⟨relay', hr', hk⟩ := hg.relays r _ hb
    obtain rfl := Option.some.inj (hr.symm.trans hr')
    exact (h.tends r _ hb).mono hg hk

theorem Linked.pool_move (h : u.Linked) (hm : Move t u v) : v.manager.pool.Sound := by
  cases hm.pool with
  | same hp => exact hp ▸ h.pool
  | joined hr ha hp hv =>
    obtain ⟨-, hroom, hfree⟩ := verdict_eq_added ha
    exact hp ▸ h.pool.concat h.not_pooled_new hroom hfree
  | lost hr hp => exact hp ▸ h.pool.remove _
  | cleared hr hs hp => exact hp ▸ .clear _

/-- A member stands for a relay with its address, which is in its place also if it joins now. -/
theorem Linked.pooled_move (h : u.Linked) (hm : Move t u v) {m : Member}
    (hmem : m ∈ v.manager.pool.members) :
    ∃ relay, v.relays[m.relay]? = some relay ∧ relay.address = m.address := by
  have hold : m ∈ u.manager.pool.members →
      ∃ relay, v.relays[m.relay]? = some relay ∧ relay.address = m.address := by
    intro hmem
    obtain ⟨relay, hr, ha⟩ := h.pooled m hmem
    obtain ⟨relay', hr', hk⟩ := (Grows.move hm).relays _ relay hr
    exact ⟨relay', hr', hk.address.trans ha⟩
  cases hm.pool with
  | same hp => exact hold (hp ▸ hmem)
  | joined hr ha hp hv =>
    rw [hp] at hmem
    rcases List.mem_append.mp hmem with hmem | hmem
    · exact hold hmem
    · obtain rfl := List.mem_singleton.mp hmem
      exact hv
  | lost hr hp =>
    rw [hp] at hmem
    exact hold (List.mem_of_mem_eraseP hmem)
  | cleared hr hs hp => simp [hp] at hmem

theorem Linked.move (h : u.Linked) (hm : Move t u v) (ht : t < u.tasks.length) : v.Linked where
  capacity := by rw [(Grows.move hm).capacity, (Grows.move hm).config, h.capacity]
  ttl := by rw [(Grows.move hm).ttl, (Grows.move hm).config, h.ttl]
  refers _ _ := h.refers_move hm
  parents _ _ _ := h.parents_move hm ht
  gate a ha := by
    have hle := (Grows.move hm).tasks.length_le
    rcases hm.gate ha with rfl | ha
    · exact Nat.lt_of_lt_of_le ht hle
    · exact Nat.lt_of_lt_of_le (h.gate a ha) hle
  watches _ _ := h.watches_move hm
  tends _ _ := h.tends_move hm
  pool := h.pool_move hm
  pooled _ := h.pooled_move hm

end Overlay

end RelayUpkeep
