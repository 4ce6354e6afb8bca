import RelayUpkeep.Proofs.Fairness

/-! # The line for the reservation lock

Whoever waits for the lock is in its queue, and its holder goes on some time. A task that goes on
leaves the line, or is in it and waits; whoever else is in it stays where they are. -/

namespace RelayUpkeep

/-- The task has asked for the lock and not gone on with it. -/
def Job.isQueued : Job → Bool
  | .setup _ _ .queued | .shutdown (.queued _) => true
  | _ => false

/-- The task holds the lock and waits for channels. -/
def Job.isReserving : Job → Bool
  | .setup _ _ (.reserving _) => true
  | _ => false

/-- The task has not gone on yet. -/
def Job.isFresh : Job → Bool
  | .setup _ _ .entering | .shutdown .entering | .guardAttempt _ _ none | .attempt _ .entering
  | .watch _ | .closeRelay _ none | .releaseCreator _ none => true
  | _ => false

namespace FairLock

variable {α : Type} {l l' : FairLock α} {a b : α}

/-- The one who holds the lock, and behind it those who wait. -/
def line (l : FairLock α) : List α := l.holder.toList ++ l.waiting

/-- Nobody waits for a lock that is free. -/
def Ordered (l : FairLock α) : Prop := l.holder = none → l.waiting = []

theorem Ordered.head_line (h : l.Ordered) : l.line.head? = l.holder := by
  unfold line
  cases hh : l.holder with
  | none => simp [h hh]
  | some b => simp

/-- When `b` joins a line at its end, or stays in it, whoever else came first still does. -/
theorem Ordered.holder_iff (h : l.Ordered) (h' : l'.Ordered)
    (hl : b ∈ l.line ∧ l'.line = l.line ∨ b ∉ l.line ∧ l'.line = l.line ++ [b]) (hab : a ≠ b) :
    l'.holder = some a ↔ l.holder = some a := by
  rw [← h.head_line, ← h'.head_line]
  rcases hl with ⟨-, hl⟩ | ⟨-, hl⟩ <;> rw [hl]
  cases l.line with
  | nil => simp [Ne.symm hab]
  | cons => simp

theorem Ordered.acquire (h : l.Ordered) (a : α) : (l.acquire a).1.Ordered ∧
    (l.acquire a).1.line = l.line ++ [a] ∧ (l.acquire a).2 = l.line.isEmpty := by
  unfold FairLock.acquire line Ordered
  cases hh : l.holder with
  | none => simp [h hh]
  | some b => simp

theorem ordered_release (l : FairLock α) : l.release.Ordered := by
  unfold release Ordered
  cases l.waiting <;> simp

theorem Ordered.leave [DecidableEq α] (h : l.Ordered) (a : α) : (l.leave a).Ordered := by
  unfold FairLock.leave
  split
  · exact ordered_release l
  · intro hh
    change l.waiting.erase a = []
    rw [h hh]
    rfl

/-- Whoever leaves makes room for those behind. -/
theorem line_leave [DecidableEq α] (l : FairLock α) (a : α) :
    (l.leave a).line = l.line.erase a := by
  unfold FairLock.leave line
  cases hh : l.holder with
  | none => simp
  | some b =>
    by_cases hb : b = a
    · subst hb
      cases hw : l.waiting <;> simp [release, hw]
    · simp [hb]

theorem leave_holder [DecidableEq α] (h : l.holder = some a) : l.leave a = l.release := if_pos h

theorem holder_leave [DecidableEq α] (h : l.holder ≠ some a) : (l.leave a).holder = l.holder := by
  rw [FairLock.leave, if_neg h]

end FairLock

namespace Overlay

variable {t a : TaskId} {u v w : Overlay}

/-! ## What others do -/

theorem Stir.gate_eq (h : Stir t u v) (ho : ¬u.Own t) : v.manager.gate = u.manager.gate ∧
    v.manager.creator = u.manager.creator := by
  cases h with
  | rest | spawn | setJob | sleep | log | openConn | grant => exact ⟨rfl, rfl⟩
  | wake | cancel | dropConn => simp
  | manage gate creator failed _ _ h => exact h.resolve_right ho

/-- Only setups and shutdowns have to do with the lock and the channels. -/
theorem Move.gate_eq (h : Move t u v) (ho : ¬u.Own t) : v.manager.gate = u.manager.gate ∧
    v.manager.creator = u.manager.creator := by
  cases h with
  | stir h => exact h.gate_eq ho
  | publish => exact ⟨rfl, rfl⟩
  | @accept v r p q hr hm ha =>
    have hmg : (v.admitted r p).manager.gate = v.manager.gate ∧
        (v.admitted r p).manager.creator = v.manager.creator := ⟨rfl, rfl⟩
    rwa [hm.manager] at hmg
  | refuse hr hm ha => simp [refused, log, hm.manager]
  | shut r => simp
  | lose r =>
    obtain ⟨s, mine, pool, failed, journal, h, -⟩ := u.lose_frame r
    rw [h]
    exact ⟨rfl, rfl⟩
  | drain hr => exact absurd ⟨_, hr, rfl⟩ ho

theorem Turns.gate_eq (h : Turns t u v) (hlt : t < u.tasks.length) (ho : ¬u.Own t) :
    v.manager.gate = u.manager.gate ∧ v.manager.creator = u.manager.creator := by
  refine h.keep (P := fun x => x.manager.gate = u.manager.gate ∧
    x.manager.creator = u.manager.creator) hlt ⟨rfl, rfl⟩ (fun x y hx hrole hm => ?_) ?_
  · obtain ⟨hg, hc⟩ := hm.gate_eq fun ⟨role, hr, hown⟩ => ho ⟨role, hrole ▸ hr, hown⟩
    exact ⟨hg.trans hx.1, hc.trans hx.2⟩
  · exact fun x e hx => by simpa using hx

/-- Task `a` has not ended, and its job is of a kind. -/
def Doing (P : Job → Bool) (w : Overlay) (a : TaskId) : Prop :=
  w.isFinished a = false ∧ ∃ task : Task, w.tasks[a]? = some task ∧ P task.job = true

/-- Whoever is new and was not started by another task is a call that has not gone on yet. -/
theorem act_called {x : Act} (hp : x.isPoll = false) {task : Task}
    (ha : (w.act x).tasks[a]? = some task) (hnew : w.tasks.length ≤ a) : task.parent = none ∧
      (task.job = .shutdown .entering ∨ (∃ ps n, task.job = .setup ps n .entering) ∨
        ∃ r, task.job = .closeRelay r none) := by
  have hold : ∀ {P : Prop}, w.tasks[a]? = some task → P := fun hw =>
    absurd (List.getElem?_eq_some_iff.mp hw).1 (Nat.not_lt.mpr hnew)
  cases x with
  | poll => exact absurd hp (by simp [Act.isPoll])
  | elapse ms =>
    obtain ⟨rs, he, -⟩ := w.advanceTo_eq (w.clock + ms)
    rw [Overlay.act, he] at ha
    exact hold ha
  | setUp ps n =>
    rcases getElem?_concat_eq_some ha with ha | ⟨-, rfl⟩
    · exact hold ha
    · exact ⟨rfl, .inr (.inl ⟨ps, n, rfl⟩)⟩
  | shutDown =>
    rcases getElem?_concat_eq_some ha with ha | ⟨-, rfl⟩
    · exact hold ha
    · exact ⟨rfl, .inl rfl⟩
  | closeRelay r =>
    simp only [Overlay.act] at ha
    split at ha
    · rcases getElem?_concat_eq_some ha with ha | ⟨-, rfl⟩
      · exact hold ha
      · exact ⟨rfl, .inr (.inr ⟨r, rfl⟩)⟩
    · exact hold ha
  | cancel t =>
    have hlen : (w.act (.cancel t)).tasks.length = w.tasks.length := by
      simp only [Overlay.act]
      split
      · rcases w.cancel_eq t with ⟨-, he⟩ | ⟨-, rs, he, -⟩ <;> rw [he]
        exact List.length_modify _ _ _
      · rfl
    exact absurd (hlen ▸ (List.getElem?_eq_some_iff.mp ha).1) (Nat.not_lt.mpr hnew)
  | listen r label nested =>
    obtain ⟨relays, more, he, -⟩ := w.listen_note_frame r label nested
    rw [Overlay.act, he] at ha
    exact hold ha
  | dropConn c =>
    rw [Overlay.act] at ha
    rcases w.dropConn_eq c with ⟨-, he⟩ | ⟨-, rs, he, -⟩ <;> rw [he] at ha <;> exact hold ha
  | observe | behave | learn | nodeDown | reservation | hold | dropManager | moveTo => exact hold ha

theorem act_new {x : Act} (hp : x.isPoll = false) {task : Task}
    (ha : (w.act x).tasks[a]? = some task) (hnew : w.tasks.length ≤ a) :
    task.parent = none ∧ task.job.isFresh = true := by
  obtain ⟨hparent, hjob⟩ := act_called hp ha hnew
  refine ⟨hparent, ?_⟩
  rcases hjob with hj | ⟨_, _, hj⟩ | ⟨_, hj⟩ <;> rw [hj] <;> rfl

/-- Whoever is new has not gone on yet. -/
theorem Sound.fresh_act (h : w.Sound) {x : Act} {task : Task} (ha : (w.act x).tasks[a]? = some task)
    (hnew : w.tasks.length ≤ a) : task.job.isFresh = true := by
  rcases w.poll_cases x with ⟨t, ht, rfl, hv⟩ | ⟨t, -, rfl, hv⟩ | hp
  · rw [hv] at ha
    rcases Turns.fresh (h.poll_turns t) (h.ready t ht) ha hnew with ⟨r, hj⟩ | ⟨role, -, hs⟩
    · rw [hj]
      rfl
    · rcases Role.starts_cases hs with ⟨_, _, hj⟩ | ⟨_, hj⟩ | ⟨_, hj⟩ | ⟨_, hj⟩ <;> rw [hj] <;> rfl
  · rw [hv] at ha
    exact absurd (List.getElem?_eq_some_iff.mp ha).1 (Nat.not_lt.mpr hnew)
  · exact (act_new hp ha hnew).2

/-- Who does not go on does the same as before, and whoever is new has not gone on. -/
theorem Sound.doing_act (h : w.Sound) {x : Act} (hx : x ≠ .poll a) {P : Job → Bool}
    (hP : ∀ job, P job = true → job.isFresh = false) : (w.act x).Doing P a ↔ w.Doing P a := by
  by_cases hlt : a < w.tasks.length
  · obtain ⟨hjob, hexit⟩ := h.still_act hx hlt
    have hf : (w.act x).isFinished a = w.isFinished a := by rw [isFinished, isFinished, hexit]
    have hv := List.getElem?_eq_getElem (Nat.lt_of_lt_of_le hlt (h.grows_act x).tasks.length_le)
    obtain ⟨before, hb, hj⟩ := hjob _ hv
    rw [Doing, Doing, hf]
    refine and_congr_right fun _ => ⟨?_, ?_⟩
    · rintro ⟨task, ht, hp⟩
      obtain rfl := Option.some.inj (hv.symm.trans ht)
      exact ⟨before, hb, hj ▸ hp⟩
    · rintro ⟨task, ht, hp⟩
      obtain rfl := Option.some.inj (hb.symm.trans ht)
      exact ⟨_, hv, hj ▸ hp⟩
  · constructor
    · rintro ⟨-, task, ht, hp⟩
      exact absurd (h.fresh_act ht (Nat.le_of_not_lt hlt)) (by simp [hP _ hp])
    · rintro ⟨-, task, ht, -⟩
      exact absurd (List.getElem?_eq_some_iff.mp ht).1 hlt

theorem Job.isFresh_of_isQueued {job : Job} (h : job.isQueued = true) : job.isFresh = false := by
  unfold Job.isQueued at h
  split at h <;> first | rfl | exact absurd h (by simp)

theorem Job.isFresh_of_isReserving {job : Job} (h : job.isReserving = true) :
    job.isFresh = false := by
  unfold Job.isReserving at h
  split at h <;> first | rfl | exact absurd h (by simp)

theorem Job.isReserving_of_isQueued {job : Job} (h : job.isQueued = true) :
    job.isReserving = false := by
  unfold Job.isQueued at h
  split at h <;> first | rfl | exact absurd h (by simp)

theorem Doing.not_reserving (h : w.Doing Job.isQueued a) : ¬w.Doing Job.isReserving a := by
  rintro ⟨-, task, ht, hp⟩
  obtain ⟨-, task', ht', hq⟩ := h
  obtain rfl := Option.some.inj (ht.symm.trans ht')
  exact absurd hp (by simp [Job.isReserving_of_isQueued hq])

/-! ## The invariant -/

/-- Those who ask for the lock or hold it stand in its line. The first of them holds it, and nobody
else waits for channels. -/
structure Lined (w : Overlay) : Prop where
  ordered : w.manager.gate.Ordered
  once : w.manager.gate.line.Nodup
  line : ∀ a, a ∈ w.manager.gate.line ↔ w.Doing Job.isQueued a ∨ w.Doing Job.isReserving a
  reserving : ∀ a, w.Doing Job.isReserving a → w.manager.gate.holder = some a

/-- The one who holds the lock goes on some time. -/
structure Gated (w : Overlay) : Prop extends w.Lined where
  goes : ∀ a, w.manager.gate.holder = some a → ∃ due, w.Waits a due

theorem gated_start (config : RelayConfig) (address : PeerAddress) :
    (start config address).Gated where
  ordered _ := rfl
  once := List.nodup_nil
  line a := by simp [Doing, start, Manager.new, FairLock.free, FairLock.line]
  reserving a h := by simp [Doing, start] at h
  goes a h := by simp [start, Manager.new, FairLock.free] at h

/-- Task `a` has nothing to do with the lock. -/
def Aloof (w : Overlay) (a : TaskId) : Prop :=
  ¬w.Doing Job.isQueued a ∧ ¬w.Doing Job.isReserving a

theorem Lined.not_mem_line (h : w.Lined) (ha : w.Aloof a) : a ∉ w.manager.gate.line :=
  fun hm => ((h.line a).mp hm).elim ha.1 ha.2

theorem Lined.mem_of_holder (h : w.Lined) (ha : w.manager.gate.holder = some a) :
    a ∈ w.manager.gate.line :=
  List.mem_of_mem_head? (h.ordered.head_line.trans ha)

theorem FairLock.leave_of_not_mem {l : FairLock TaskId} (h : a ∉ l.line) : l.leave a = l := by
  have hh : l.holder ≠ some a := by
    intro hh
    exact h (by simp [FairLock.line, hh])
  have hw : a ∉ l.waiting := fun hw => h (by simp [FairLock.line, hw])
  rw [FairLock.leave, if_neg hh, List.erase_of_not_mem hw]

/-- What becomes of the lock when task `t` goes on: it leaves the line, or it is in the line and
waits for its turn, or for the channels. -/
inductive Queues (t : TaskId) (u v : Overlay) : Prop
  | leaves (hg : v.manager.gate = u.manager.gate.leave t) (ht : v.Aloof t)
      (hw : u.manager.gate.holder = some t → ∀ a, v.manager.gate.holder = some a →
        ∃ due, v.Waits a due)
  | waits (ho : v.manager.gate.Ordered) (hl : t ∈ u.manager.gate.line ∧
        v.manager.gate.line = u.manager.gate.line ∨ t ∉ u.manager.gate.line ∧
        v.manager.gate.line = u.manager.gate.line ++ [t])
      (ht : v.Doing Job.isQueued t ∧ v.manager.gate.holder ≠ some t ∨
        v.Doing Job.isReserving t ∧ v.manager.gate.holder = some t ∧ ∃ due, v.Waits t due)

/-- Whoever is not `t` waits for its turn, has the channels reserved and holds the lock as before. -/
structure Abides (t : TaskId) (u v : Overlay) : Prop where
  queued : ∀ a ≠ t, (v.Doing Job.isQueued a ↔ u.Doing Job.isQueued a)
  reserving : ∀ a ≠ t, (v.Doing Job.isReserving a ↔ u.Doing Job.isReserving a)
  goes : ∀ a ≠ t, u.manager.gate.holder = some a → ∃ due, v.Waits a due

/-- The lock is in order when `t` has left the line. -/
theorem Gated.left (h : u.Gated) (hab : Abides t u v)
    (hg : v.manager.gate = u.manager.gate.leave t) (ht : v.Aloof t)
    (hw : u.manager.gate.holder = some t → ∀ a, v.manager.gate.holder = some a →
      ∃ due, v.Waits a due) : v.Gated := by
  have hline : v.manager.gate.line = u.manager.gate.line.erase t := by
    rw [hg, FairLock.line_leave]
  refine ⟨⟨hg ▸ h.ordered.leave t, hline ▸ h.once.erase t, fun a => ?_, fun a ha => ?_⟩,
    fun a ha => ?_⟩
  · rw [hline]
    by_cases hat : a = t
    · subst hat
      exact iff_of_false h.once.not_mem_erase (not_or.mpr ht)
    · rw [List.mem_erase_of_ne hat, h.line a, hab.queued a hat, hab.reserving a hat]
  · by_cases hat : a = t
    · exact absurd (hat ▸ ha) ht.2
    · have hu := h.reserving a ((hab.reserving a hat).mp ha)
      rw [hg, FairLock.holder_leave fun hh => hat (Option.some.inj (hu.symm.trans hh)), hu]
  · by_cases hh : u.manager.gate.holder = some t
    · exact hw hh a ha
    · rw [hg, FairLock.holder_leave hh] at ha
      exact hab.goes a (fun hat => hh (hat ▸ ha)) ha

/-- The lock is in order when `t` is in the line, be it that it has just joined. -/
theorem Gated.lined (h : u.Gated) (hab : Abides t u v) (ho : v.manager.gate.Ordered)
    (hl : t ∈ u.manager.gate.line ∧ v.manager.gate.line = u.manager.gate.line ∨
      t ∉ u.manager.gate.line ∧ v.manager.gate.line = u.manager.gate.line ++ [t])
    (ht : v.Doing Job.isQueued t ∧ v.manager.gate.holder ≠ some t ∨
      v.Doing Job.isReserving t ∧ v.manager.gate.holder = some t ∧ ∃ due, v.Waits t due) :
    v.Gated := by
  have hholder : ∀ a ≠ t, (v.manager.gate.holder = some a ↔ u.manager.gate.holder = some a) :=
    fun _ hat => h.ordered.holder_iff ho hl hat
  have hothers : ∀ a ≠ t, (a ∈ v.manager.gate.line ↔ a ∈ u.manager.gate.line) := by
    intro a hat
    rcases hl with ⟨-, hl⟩ | ⟨-, hl⟩ <;> rw [hl]
    simp [hat]
  have honce : v.manager.gate.line.Nodup := by
    rcases hl with ⟨-, hl⟩ | ⟨hn, hl⟩ <;> rw [hl]
    · exact h.once
    · exact List.nodup_append.mpr ⟨h.once, by simp, by simp; exact fun b hb hbt => hn (hbt ▸ hb)⟩
  refine ⟨⟨ho, honce, fun a => ?_, fun a ha => ?_⟩, fun a ha => ?_⟩ <;> by_cases hat : a = t
  · subst hat
    refine iff_of_true ?_ (ht.imp (·.1) (·.1))
    rcases hl with ⟨hm, hl⟩ | ⟨-, hl⟩ <;> rw [hl]
    · exact hm
    · simp
  · rw [hothers a hat, h.line a, hab.queued a hat, hab.reserving a hat]
  · subst hat
    rcases ht with ⟨hq, -⟩ | ⟨-, hh, -⟩
    · exact absurd ha hq.not_reserving
    · exact hh
  · exact (hholder a hat).mpr (h.reserving a ((hab.reserving a hat).mp ha))
  · subst hat
    rcases ht with ⟨-, hh⟩ | ⟨-, -, hdue⟩
    · exact absurd ha hh
    · exact hdue
  · exact hab.goes a hat ((hholder a hat).mp ha)

/-- When one task goes on and all others do what they did, the lock is in order again. -/
theorem Gated.queues (h : u.Gated) (hq : Queues t u v)
    (hd : ∀ a ≠ t, ∀ P : Job → Bool, (∀ job, P job = true → job.isFresh = false) →
      (v.Doing P a ↔ u.Doing P a))
    (hw : ∀ a ≠ t, u.isFinished a = false → u.Leaves a v) : v.Gated := by
  have hab : Abides t u v :=
    { queued := fun a ha => hd a ha _ fun _ => Job.isFresh_of_isQueued
      reserving := fun a ha => hd a ha _ fun _ => Job.isFresh_of_isReserving
      goes := by
        intro a ha hh
        obtain ⟨due, hdue⟩ := h.goes a hh
        refine ⟨due, hw a ha ?_ due hdue⟩
        exact ((h.line a).mp (h.mem_of_holder hh)).elim (·.1) (·.1) }
  cases hq with
  | leaves hg ht hwake => exact h.left hab hg ht hwake
  | waits ho hl ht => exact h.lined hab ho hl ht

end Overlay

end RelayUpkeep
