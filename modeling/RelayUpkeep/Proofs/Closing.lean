import RelayUpkeep.Proofs.Parts

/-! # A shutdown from its first step to its last

A shutdown waits for the lock, starts its parts when it holds it, and waits for the last of them.
Nobody else has parts of its own among them. -/

namespace RelayUpkeep

/-- The parts that a shutdown has started. -/
def Job.parts : Job → List TaskId
  | shutdown (.closing _ parts) => parts
  | _ => []

/-- A shutdown has taken its first step. -/
def Job.isClosing : Job → Bool
  | shutdown (.queued _) | shutdown (.closing ..) => true
  | _ => false

namespace Overlay

variable {t s x : TaskId} {u v w : Overlay} {acts : Nat → Act} {drained : List RelayId}
  {hadRelays : Bool} {parts : List TaskId}

/-! ## One step -/

/-- The numbers of the parts that a shutdown starts. -/
def partNumbers (w : Overlay) (drained : List RelayId) : List TaskId :=
  List.range' w.tasks.length (w.shutdownParts drained).length

/-- Shutdown `t` holds the lock and starts its parts. -/
def Closes (t : TaskId) (drained : List RelayId) (u v : Overlay) : Prop :=
  ∃ manager ready, manager.creator = u.manager.creator ∧
    v = ({ u with manager, ready } : Overlay).closeAll t drained

/-- What a shutdown does in one step. -/
inductive Proceeds (t : TaskId) (u : Overlay) : ShutdownStage → Overlay → Prop
  | queues (manager : Manager) (ready : List TaskId) (hc : manager.creator = u.manager.creator) :
      Proceeds t u .entering
        (({ u with manager, ready } : Overlay).setJob t (.shutdown (.queued u.pooled)))
  | closes {stage : ShutdownStage} {drained : List RelayId} {v : Overlay}
      (hd : stage = .entering ∧ drained = u.pooled ∧ u.manager.gate.holder = none ∨
        stage = .queued drained ∧ u.manager.gate.holder = some t)
      (h : u.Closes t drained v) : Proceeds t u stage v
  | lines (drained : List RelayId) (hh : u.manager.gate.holder ≠ some t) :
      Proceeds t u (.queued drained) { u with ready := u.ready.erase t }
  | waits (hadRelays : Bool) (parts : List TaskId) (a : TaskId) (ha : a ∈ parts)
      (hf : u.isFinished a = false) :
      Proceeds t u (.closing hadRelays parts) { u with ready := u.ready.erase t }
  | ends (hadRelays : Bool) (parts : List TaskId) (hall : ∀ a ∈ parts, u.isFinished a = true) :
      Proceeds t u (.closing hadRelays parts)
        (({ u with ready := u.ready.erase t } : Overlay).concludeShutdown t hadRelays parts)

theorem FairLock.holder_of_acquire {l : FairLock TaskId} {a : TaskId}
    (h : (l.acquire a).2 = true) : l.holder = none := by
  unfold FairLock.acquire at h
  split at h
  · next hh => exact hh
  · exact absurd h (by simp)

theorem proceeds_poll {task : Task} {stage : ShutdownStage} (ht : w.tasks[t]? = some task)
    (hf : w.isFinished t = false) (hc : task.isCancelled = false)
    (hj : task.job = .shutdown stage) : w.Proceeds t stage (w.poll t) := by
  rw [poll_resume ht hf hc, hj]
  cases stage with
  | entering =>
    simp only [resume, pollShutdown, enterShutdown_eq]
    split
    · next hheld =>
      refine .closes (.inl ⟨rfl, rfl, ?_⟩) ⟨(w.stopped t).manager, w.ready.erase t, rfl, rfl⟩
      exact FairLock.holder_of_acquire hheld
    · exact .queues (w.stopped t).manager (w.ready.erase t) rfl
  | queued drained =>
    simp only [resume, pollShutdown]
    split
    · next hh => exact .closes (.inr ⟨rfl, hh⟩) ⟨w.manager, w.ready.erase t, rfl, rfl⟩
    · next hh => exact .lines drained hh
  | closing hadRelays parts =>
    simp only [resume, pollShutdown]
    split
    · next hall => exact .ends hadRelays parts fun a ha => List.all_eq_true.mp hall a ha
    · next hall =>
      obtain ⟨a, ha, hfa⟩ := List.all_eq_false.mp (Bool.eq_false_iff.mpr hall)
      exact .waits hadRelays parts a ha (Bool.eq_false_iff.mpr hfa)

@[simp] theorem tasks_concludeShutdown (w : Overlay) (t : TaskId) (hadRelays : Bool)
    (parts : List TaskId) : (w.concludeShutdown t hadRelays parts).tasks = w.tasks := by
  obtain ⟨e, h⟩ := concludeShutdown_eq w t hadRelays parts
  rw [h, tasks_finish]
  split <;> rfl

theorem partsStarted_frame (w : Overlay) (t : TaskId) (drained : List RelayId) :
    (w.partsStarted t drained).2 = w.partNumbers drained ∧ ∃ gate rs,
      (w.partsStarted t drained).1 = { w with
        manager := { w.manager with creator := none, gate }
        tasks := w.tasks ++ (w.shutdownParts drained).map (⟨·, some t, false⟩)
        ready := rs ++ w.partNumbers drained } := by
  obtain ⟨rs, h⟩ := (w.withManager fun m => { m with creator := none }).releaseGate_frame
  simp only [partsStarted, h, spawnAll_eq]
  exact ⟨rfl, _, rs, rfl⟩

/-- The parts are started, or there are none and the shutdown ends at once. -/
theorem closeAll_cases (w : Overlay) (t : TaskId) (drained : List RelayId) :
    w.shutdownParts drained = [] ∧
      w.closeAll t drained = (w.partsStarted t drained).1.finish t .done ∨
    w.shutdownParts drained ≠ [] ∧ w.closeAll t drained = (w.partsStarted t drained).1.setJob t
      (.shutdown (.closing (!drained.isEmpty) (w.partNumbers drained))) := by
  have hps := (w.partsStarted_frame t drained).1
  have hall : w.closeAll t drained = if (w.partsStarted t drained).2.isEmpty then
      (w.partsStarted t drained).1.concludeShutdown t false [] else
      (w.partsStarted t drained).1.setJob t
        (.shutdown (.closing (!drained.isEmpty) (w.partsStarted t drained).2)) := rfl
  rw [hall, hps]
  cases hp : w.shutdownParts drained with
  | nil =>
    refine .inl ⟨rfl, ?_⟩
    simp [partNumbers, hp, concludeShutdown, exitsOf]
  | cons job jobs =>
    refine .inr ⟨by simp, if_neg ?_⟩
    simp [partNumbers, hp, List.range'_succ]

theorem Closes.effect (h : u.Closes t drained v) : v.journal = u.journal ∧ v.relays = u.relays ∧
    v.manager.creator = none ∧
    (u.shutdownParts drained = [] ∧ v.tasks = u.tasks ∧ v.exits = u.exits ++ [(t, .done)] ∨
    u.shutdownParts drained ≠ [] ∧ v.exits = u.exits ∧
      v.tasks = (u.tasks ++ (u.shutdownParts drained).map fun job =>
        Task.mk job (some t) false).modify t (fun task => { task with
          job := .shutdown (.closing (!drained.isEmpty) (u.partNumbers drained)) }) ∧
      ∀ a ∈ u.partNumbers drained, a ∈ v.ready) := by
  obtain ⟨manager, ready, hc, rfl⟩ := h
  have hparts : ({ u with manager, ready } : Overlay).shutdownParts drained =
      u.shutdownParts drained := by simp only [shutdownParts, hc]
  have hnumbers : ({ u with manager, ready } : Overlay).partNumbers drained =
      u.partNumbers drained := by simp only [partNumbers, hparts]
  obtain ⟨-, gate, rs, hstart⟩ :=
    ({ u with manager, ready } : Overlay).partsStarted_frame t drained
  rw [hparts, hnumbers] at hstart
  rcases ({ u with manager, ready } : Overlay).closeAll_cases t drained with ⟨hp, he⟩ | ⟨hp, he⟩
  · rw [hparts] at hp
    obtain ⟨qs, hfin, -⟩ :=
      (({ u with manager, ready } : Overlay).partsStarted t drained).1.finish_eq t .done
    rw [he, hfin, hstart]
    exact ⟨rfl, rfl, rfl, .inl ⟨hp, by simp [hp], rfl⟩⟩
  · rw [hparts] at hp
    rw [he, hstart, hnumbers]
    refine ⟨rfl, rfl, rfl, .inr ⟨hp, rfl, rfl, fun a ha => ?_⟩⟩
    exact List.mem_append_right _ ha

/-! ## Who asks whom to end -/

/-- Nobody has asked task `a` to end. -/
abbrev Steady (a : TaskId) (w : Overlay) : Prop := w.Uncancelled fun b _ => b = a

theorem Steady.task (h : w.Steady s) {task : Task} (ht : w.tasks[s]? = some task) :
    task.isCancelled = false := h s task ht rfl

theorem Steady.of_tasks (h : u.Steady s) (ht : v.tasks = u.tasks) : v.Steady s :=
  fun b task hb hbs => h b task (ht ▸ hb) hbs

theorem Steady.moves {role : Role} (h : u.Steady x) (hs : u.Sound) (hm : Moves s u v)
    (hlt : s < u.tasks.length) (hf : u.isFinished s = false) (hx : u.Plays x role (some t))
    (hst : s ≠ t) : v.Steady x := by
  induction hm with
  | refl => exact h
  | @tail y z hy hz ih =>
    have hpar : ∀ {role' parent'}, z.Plays x role' parent' → parent' = some t := by
      rintro role' parent' ⟨task, ht, -, hp⟩
      obtain ⟨task', ht', -, hp'⟩ := hx.mono (Grows.moves (hy.tail hz))
      obtain rfl := Option.some.inj (ht.symm.trans ht')
      exact hp.symm.trans hp'
    refine ih.only (.move hz) hz.cancels ?_
    rintro b (hserves | ⟨r, relay, hr, hw, -⟩) role' - rfl
    · have hself : ∀ {role'}, y.Plays b role' (some s) → False := fun hp =>
        hst (Option.some.inj (hpar (hp.mono (.move hz))))
      rcases hserves with ⟨slot, p, hp⟩ | ⟨r, hp⟩ | ⟨k, hp⟩ <;> exact hself hp
    · have ht := (hs.moves (hy.tail hz) hlt hf).tends r relay hr
      unfold Tends at ht
      split at ht
      · obtain ⟨c, a, -, -, ha, hp⟩ := ht
        obtain rfl := Option.some.inj (ha.symm.trans hw)
        exact absurd (hpar hp) (by simp)
      · exact absurd (ht.2.symm.trans hw) (by simp)

theorem Linked.not_call {role : Role} (h : w.Linked) (hx : w.Plays x role (some t)) :
    w.isCall x = false := by
  obtain ⟨⟨job, parent, cancelled⟩, ht, -, rfl⟩ := hx
  obtain ⟨-, lead, -, hlead⟩ := h.parents x _ t ht rfl
  simp only [isCall, ht]
  cases job with
  | setup | shutdown => cases lead <;> exact absurd hlead (by simp [Job.role, Role.leads])
  | guardAttempt | attempt | watch | closeRelay | releaseCreator => rfl

/-- Only the one who started a task asks it to end. -/
theorem Steady.act {role : Role} (h : w.Steady x) (hs : w.Sound) (hx : w.Plays x role (some t))
    {y : Act} (hy : y ≠ .poll t) : (w.act y).Steady x := by
  rcases w.poll_cases y with ⟨s, hready, rfl, hact⟩ | ⟨s, -, rfl, hact⟩ | hp
  · rw [hact]
    have hst : s ≠ t := fun hst => hy (by rw [hst])
    cases hf : w.isFinished s with
    | true => exact h.of_tasks (by rw [poll_finished hf])
    | false =>
      obtain ⟨v, hv, he⟩ := hs.poll_turns s
      have hsteady := h.moves hs hv (hs.ready s hready) hf hx hst
      rcases he with he | ⟨e, he⟩ <;> rw [he]
      · exact hsteady
      · exact hsteady.of_tasks (tasks_finish _ _ _)
  · rwa [hact]
  · refine h.only (hs.grows_act y) (act_cancels hp) ?_
    rintro b ⟨-, hcall⟩ role' - rfl
    exact absurd (hcall.symm.trans (hs.not_call hx)) (by simp)

/-- A call ends early only if its caller gives it up. -/
theorem Sound.steady_act (hs : w.Sound) (h : w.Steady t) {role : Role} (hr : w.role? t = some role)
    (hfirm : role.isFirm = true) {y : Act} (hy : y ≠ .cancel t) : (w.act y).Steady t := by
  have hu : w.Uncancelled fun b role' => b = t ∧ role' = role :=
    fun b task hb hp => h b task hb hp.1
  have hv := hu.act hs (x := y) (fun _ role hp => by rw [hp.2]; exact hfirm) ?_
  · intro b task hb hbt
    refine hv b task hb ⟨hbt, ?_⟩
    have hr' := (hs.grows_act y).role? hr
    rw [← hbt] at hr'
    obtain ⟨task', hb', hrole⟩ := role?_eq_some.mp hr'
    obtain rfl := Option.some.inj (hb.symm.trans hb')
    exact hrole
  · rintro b rfl - role - ⟨rfl, -⟩
    exact hy rfl

/-! ## Whose parts they are -/

/-- Whoever was started by a shutdown is among its parts. -/
def Tallied (w : Overlay) : Prop :=
  ∀ (t : TaskId) (task : Task), w.tasks[t]? = some task → task.job.role = .shutdown →
    ∀ (x : TaskId) (child : Task), w.tasks[x]? = some child → child.parent = some t →
      x ∈ task.job.parts

theorem Moves.parent_new (h : Moves s u v) (hlt : s < u.tasks.length) {task : Task}
    (hx : v.tasks[x]? = some task) (hnew : u.tasks.length ≤ x) :
    task.parent = none ∨ task.parent = some s := by
  induction h generalizing task with
  | refl => exact absurd (List.getElem?_eq_some_iff.mp hx).1 (Nat.not_lt.mpr hnew)
  | tail _ hy ih =>
    cases hy.origin hx with
    | kept hb _ hp => exact hp ▸ ih hb
    | turned hxs => exact absurd hlt (Nat.not_lt.mpr (hxs ▸ hnew))
    | part _ _ hp => exact .inr hp
    | watcher _ _ hp => exact .inl hp

/-- Whoever is new was started by the task that went on, or by nobody. -/
theorem Sound.parent_new (h : w.Sound) {y : Act} {task : Task}
    (hx : (w.act y).tasks[x]? = some task) (hnew : w.tasks.length ≤ x) :
    task.parent = none ∨ ∃ s ∈ w.ready, y = .poll s ∧ task.parent = some s := by
  rcases w.poll_cases y with ⟨s, hs, rfl, hact⟩ | ⟨s, -, rfl, hact⟩ | hp
  · rw [hact] at hx
    obtain ⟨v, hv, he⟩ := h.poll_turns s
    have htasks : (w.poll s).tasks = v.tasks := by
      rcases he with he | ⟨e, he⟩ <;> rw [he]
      exact tasks_finish _ _ _
    rw [htasks] at hx
    exact (Moves.parent_new hv (h.ready s hs) hx hnew).imp id fun hp => ⟨s, hs, rfl, hp⟩
  · rw [hact] at hx
    exact absurd (List.getElem?_eq_some_iff.mp hx).1 (Nat.not_lt.mpr hnew)
  · exact .inl (act_new hp hx hnew).1

theorem keeps_abandon (w : Overlay) (t : TaskId) (job : Job) : w.Keeps (w.abandon t job) := by
  obtain ⟨tasks, gate, rs, hk, h⟩ := w.abandon_frame t job
  rw [h]
  exact hk.trans (.of_eq (tasks_finish _ _ _))

theorem parts_setJob {job : Job} {child : Task} (hx : (w.setJob t job).tasks[x]? = some child) :
    ∃ before : Task, w.tasks[x]? = some before ∧ before.parent = child.parent := by
  simp only [setJob, List.getElem?_modify, Option.map_eq_map, Option.map_eq_some_iff] at hx
  obtain ⟨before, hb, rfl⟩ := hx
  exact ⟨before, hb, by split <;> rfl⟩

/-- A shutdown starts nobody but its parts. -/
theorem Tallied.proceeds (h : u.Tallied) {before : Task} {stage : ShutdownStage}
    (hb : u.tasks[t]? = some before) (hj : before.job = .shutdown stage)
    (hp : u.Proceeds t stage v) {task : Task} (ht : v.tasks[t]? = some task) {child : Task}
    (hx : v.tasks[x]? = some child) (hpar : child.parent = some t) : x ∈ task.job.parts := by
  have hold : ∀ {c : Task}, u.tasks[x]? = some c → c.parent = some t → x ∈ before.job.parts :=
    fun hc hpc => h t before hb (by rw [hj]; rfl) x _ hc hpc
  have hsame : v.tasks = u.tasks → x ∈ task.job.parts := by
    intro he
    rw [he] at ht hx
    obtain rfl := Option.some.inj (hb.symm.trans ht)
    exact hold hx hpar
  cases hp with
  | queues manager ready hc =>
    obtain ⟨c, hc, hcp⟩ := parts_setJob hx
    exact absurd (hold hc (hcp.trans hpar)) (by simp [hj, Job.parts])
  | closes hd hcl =>
    obtain ⟨-, -, -, ⟨-, he, -⟩ | ⟨-, -, he, -⟩⟩ := hcl.effect
    · exact hsame he
    · have hnone : before.job.parts = [] := by
        rcases hd with ⟨rfl, -, -⟩ | ⟨rfl, -⟩ <;> rw [hj] <;> rfl
      rw [he, List.getElem?_modify_eq,
        List.getElem?_append_left (List.getElem?_eq_some_iff.mp hb).1, hb] at ht
      obtain rfl := Option.some.inj ht
      rw [he, List.getElem?_modify, Option.map_eq_map, Option.map_eq_some_iff] at hx
      obtain ⟨c, hc, rfl⟩ := hx
      have hcp : c.parent = some t := by split at hpar <;> exact hpar
      by_cases hlt : x < u.tasks.length
      · rw [List.getElem?_append_left hlt] at hc
        exact absurd (hold hc hcp) (by simp [hnone])
      · have hxlt := (List.getElem?_eq_some_iff.mp hc).1
        rw [List.length_append, List.length_map] at hxlt
        exact List.mem_range'_1.mpr ⟨Nat.le_of_not_lt hlt, hxlt⟩
  | lines | waits => exact hsame rfl
  | ends => exact hsame (tasks_concludeShutdown _ _ _ _)

theorem Tallied.poll_self (h : w.Tallied) {before : Task} (hb : w.tasks[t]? = some before)
    (hr : before.job.role = .shutdown) {task : Task} (ht : (w.poll t).tasks[t]? = some task)
    {child : Task} (hx : (w.poll t).tasks[x]? = some child) (hpar : child.parent = some t) :
    x ∈ task.job.parts := by
  have hkeep : w.Keeps (w.poll t) → x ∈ task.job.parts := by
    intro hk
    obtain ⟨before', hb', hj, -⟩ := hk t task ht
    obtain ⟨c, hc, -, hcp⟩ := hk x child hx
    obtain rfl := Option.some.inj (hb.symm.trans hb')
    rw [hj]
    exact h t _ hb hr x c hc (hcp ▸ hpar)
  cases hf : w.isFinished t with
  | true => exact hkeep (.of_eq (by rw [poll_finished hf]))
  | false =>
    cases hc : before.isCancelled with
    | true =>
      refine hkeep ?_
      rw [poll_abandon hb hf hc]
      exact keeps_abandon _ _ _
    | false =>
      obtain ⟨stage, hj⟩ : ∃ stage, before.job = .shutdown stage := by
        cases hj : before.job with
        | shutdown stage => exact ⟨stage, rfl⟩
        | _ => exact absurd hr (by simp [hj, Job.role])
      exact h.proceeds hb hj (proceeds_poll hb hf hc hj) ht hx hpar

theorem Tallied.act (h : w.Tallied) (hs : w.Sound) (y : Act) : (w.act y).Tallied := by
  intro t task ht hr x child hx hpar
  have hv := hs.act y
  by_cases hlt : t < w.tasks.length
  · have hb := List.getElem?_eq_getElem hlt
    obtain ⟨task', ht', hk⟩ := (hs.grows_act y).tasks t _ hb
    obtain rfl := Option.some.inj (ht.symm.trans ht')
    by_cases hself : y = .poll t ∧ t ∈ w.ready
    · obtain ⟨rfl, hready⟩ := hself
      rw [Overlay.act, if_pos hready] at ht hx
      exact h.poll_self hb (hk.role.symm.trans hr) ht hx hpar
    · have hjob : task.job = w.tasks[t].job := by
        by_cases hy : y = .poll t
        · subst hy
          rw [Overlay.act, if_neg fun hready => hself ⟨rfl, hready⟩] at ht
          obtain rfl := Option.some.inj (ht.symm.trans hb)
          rfl
        · obtain ⟨before, hb', hj⟩ := (hs.still_act hy hlt).1 task ht
          obtain rfl := Option.some.inj (hb.symm.trans hb')
          exact hj
      by_cases hxlt : x < w.tasks.length
      · have hxb := List.getElem?_eq_getElem hxlt
        obtain ⟨child', hx', hk'⟩ := (hs.grows_act y).tasks x _ hxb
        obtain rfl := Option.some.inj (hx.symm.trans hx')
        rw [hjob]
        exact h t _ hb (hk.role.symm.trans hr) x _ hxb (hk'.parent.symm.trans hpar)
      · rcases hs.parent_new hx (Nat.le_of_not_lt hxlt) with hp | ⟨s, hready, hy, hp⟩
        · exact absurd (hp.symm.trans hpar) (by simp)
        · obtain rfl := Option.some.inj (hp.symm.trans hpar)
          exact absurd ⟨hy, hready⟩ hself
  · -- whoever is new has started nobody yet
    have hlt' := (hv.parents x child t hx hpar).1
    rcases hs.parent_new hx (Nat.le_trans (Nat.le_of_not_lt hlt) (Nat.le_of_lt hlt')) with
      hp | ⟨s, hready, -, hp⟩
    · exact absurd (hp.symm.trans hpar) (by simp)
    · obtain rfl := Option.some.inj (hp.symm.trans hpar)
      exact absurd (hs.ready s hready) hlt

/-- Shutdown `t` has drained the pool and waits for the lock, and nobody has asked it to end. -/
structure Queueing (t : TaskId) (drained : List RelayId) (w : Overlay) : Prop where
  going : w.isFinished t = false
  task : ∃ task : Task, w.tasks[t]? = some task ∧ task.job = .shutdown (.queued drained)
  steady : w.Steady t

/-- Shutdown `t` has started its parts, and nobody has asked it or any of them to end. -/
structure Tending (t : TaskId) (hadRelays : Bool) (parts : List TaskId) (w : Overlay) : Prop where
  task : ∃ task : Task, w.tasks[t]? = some task ∧ task.job = .shutdown (.closing hadRelays parts)
  steady : w.Steady t
  parts : ∀ a ∈ parts, w.Steady a

/-- Who does not go on keeps its job. -/
theorem Sound.job_act (h : w.Sound) {y : Act} (hy : y = .poll x → x ∉ w.ready) {task : Task}
    (hx : w.tasks[x]? = some task) :
    (∃ task' : Task, (w.act y).tasks[x]? = some task' ∧ task'.job = task.job) ∧
      (w.act y).isFinished x = w.isFinished x := by
  by_cases hyx : y = .poll x
  · subst hyx
    rw [Overlay.act, if_neg (hy rfl)]
    exact ⟨⟨task, hx, rfl⟩, rfl⟩
  · have hlt := (List.getElem?_eq_some_iff.mp hx).1
    obtain ⟨task', hx', -⟩ := (h.grows_act y).tasks x task hx
    obtain ⟨hjob, hexit⟩ := h.still_act hyx hlt
    obtain ⟨before, hb, hj⟩ := hjob task' hx'
    obtain rfl := Option.some.inj (hx.symm.trans hb)
    exact ⟨⟨task', hx', hj⟩, by rw [isFinished, isFinished, hexit]⟩

/-- A task that does not go on keeps its job, and does not end. -/
theorem Sound.idle_act (h : w.Sound) {y : Act} (hlt : x < w.tasks.length)
    (hy : ¬(y = .poll x ∧ x ∈ w.ready ∧ w.isFinished x = false)) :
    (∀ task : Task, (w.act y).tasks[x]? = some task →
      ∃ before : Task, w.tasks[x]? = some before ∧ task.job = before.job) ∧
      (w.act y).exit? x = w.exit? x := by
  by_cases hyx : y = .poll x
  · subst hyx
    by_cases hr : x ∈ w.ready
    · have hf : w.isFinished x = true := by
        by_contra hf
        exact hy ⟨rfl, hr, by simpa using hf⟩
      rw [Overlay.act, if_pos hr, poll_finished hf]
      exact ⟨fun task ht => ⟨task, ht, rfl⟩, rfl⟩
    · rw [Overlay.act, if_neg hr]
      exact ⟨fun task ht => ⟨task, ht, rfl⟩, rfl⟩
  · exact h.still_act hyx hlt

/-- Nobody ends in the moment of being started. -/
theorem Sound.new_act (h : w.Sound) (y : Act) (hnew : w.tasks.length ≤ x) :
    (w.act y).isFinished x = false := by
  have hf := not_isFinished_of_le h.exits hnew
  rcases w.poll_cases y with ⟨t, ht, rfl, he⟩ | ⟨t, -, rfl, he⟩ | hp
  · have hxt : x ≠ t := Nat.ne_of_gt (Nat.lt_of_lt_of_le (h.ready t ht) hnew)
    rwa [he, isFinished, (Frame.turns (h.poll_turns t)).exits x hxt]
  · rwa [he]
  · rwa [isFinished_of_exits (Overlay.exits_act hp)]

/-- A shutdown that waits for the lock drains nothing more, and is told of nothing until it holds
the lock. -/
theorem Queueing.act (h : w.Queueing t drained) (hs : w.Sound) {y : Act} (hy : y ≠ .cancel t)
    (hno : ¬(y = .poll t ∧ t ∈ w.ready ∧ w.manager.gate.holder = some t)) :
    (w.act y).Queueing t drained ∧ (y = .poll t → (w.act y).journal = w.journal) := by
  obtain ⟨task, ht, hj⟩ := h.task
  have hsteady := hs.steady_act h.steady (role?_eq_some.mpr ⟨task, ht, by rw [hj]⟩) (by rfl) hy
  by_cases hself : y = .poll t ∧ t ∈ w.ready
  · obtain ⟨rfl, hready⟩ := hself
    rw [Overlay.act, if_pos hready] at hsteady ⊢
    have hp := proceeds_poll ht h.going (h.steady.task ht) hj
    generalize w.poll t = v at hp hsteady
    cases hp with
    | closes hd =>
      rcases hd with ⟨hd, -, -⟩ | ⟨-, hh⟩
      · exact absurd hd (by simp)
      · exact absurd ⟨rfl, hready, hh⟩ hno
    | lines => exact ⟨⟨h.going, ⟨task, ht, hj⟩, hsteady⟩, fun _ => rfl⟩
  · have hy' : y = .poll t → t ∉ w.ready := fun he hready => hself ⟨he, hready⟩
    obtain ⟨⟨task', ht', hj'⟩, hf⟩ := hs.job_act hy' ht
    refine ⟨⟨hf.trans h.going, ⟨task', ht', hj'.trans hj⟩, hsteady⟩, ?_⟩
    rintro rfl
    rw [Overlay.act, if_neg (hy' rfl)]

/-- A shutdown that waits for its parts goes on waiting until the last of them has ended. -/
theorem Tending.act (h : w.Tending t hadRelays parts) (hs : w.Sound) {y : Act}
    (hy : y ≠ .cancel t) : (w.act y).Tending t hadRelays parts ∧
      (w.isFinished t = false → (y = .poll t → t ∈ w.ready → ∃ a ∈ parts, w.isFinished a = false) →
        (w.act y).isFinished t = false) := by
  obtain ⟨task, ht, hj⟩ := h.task
  have hsteady := hs.steady_act h.steady (role?_eq_some.mpr ⟨task, ht, by rw [hj]⟩) (by rfl) hy
  by_cases hself : y = .poll t ∧ t ∈ w.ready
  · obtain ⟨rfl, hready⟩ := hself
    rw [Overlay.act, if_pos hready] at hsteady ⊢
    have hsame : ∀ {v : Overlay}, v.tasks = w.tasks → v.Steady t → v.Tending t hadRelays parts :=
      fun hv hst => ⟨⟨task, hv ▸ ht, hj⟩, hst, fun a ha => (h.parts a ha).of_tasks hv⟩
    cases hf : w.isFinished t with
    | true =>
      rw [poll_finished hf] at hsteady ⊢
      exact ⟨hsame rfl hsteady, fun hgo => absurd hgo (by simp)⟩
    | false =>
      have hp := proceeds_poll ht hf (h.steady.task ht) hj
      generalize w.poll t = v at hp hsteady
      cases hp with
      | closes hd =>
        rcases hd with ⟨hd, -, -⟩ | ⟨hd, -⟩ <;> exact absurd hd (by simp)
      | waits hr ps a ha hfa => exact ⟨hsame rfl hsteady, fun _ _ => hf⟩
      | ends hr ps hall =>
        refine ⟨hsame (tasks_concludeShutdown _ _ _ _) hsteady, fun _ hsome => ?_⟩
        obtain ⟨a, ha, hfa⟩ := hsome rfl hready
        exact absurd (hfa.symm.trans (hall a ha)) (by simp)
  · have hy' : y = .poll t → t ∉ w.ready := fun he hready => hself ⟨he, hready⟩
    obtain ⟨⟨task', ht', hj'⟩, hf⟩ := hs.job_act hy' ht
    refine ⟨⟨⟨task', ht', hj'.trans hj⟩, hsteady, fun a ha => ?_⟩, fun hgo _ => hf.trans hgo⟩
    by_cases hyt : y = .poll t
    · refine (h.parts a ha).of_tasks ?_
      subst hyt
      rw [Overlay.act, if_neg (hy' rfl)]
    · have hrefers := hs.refers t task ht
      rw [hj] at hrefers
      rcases hrefers a ha with ⟨r, hp⟩ | ⟨k, hp⟩
      · exact (h.parts a ha).act hs hp hyt
      · exact (h.parts a ha).act hs hp hyt

/-- The parts that a shutdown has just started are ready to go on, and nobody has asked them to
end. -/
theorem Closes.starts (h : u.Closes t drained v) (hlt : t < u.tasks.length) {i : Nat}
    (hi : i < (u.shutdownParts drained).length) :
    u.tasks.length + i ∈ v.ready ∧ v.tasks[u.tasks.length + i]? =
      some ⟨(u.shutdownParts drained)[i], some t, false⟩ := by
  obtain ⟨-, -, -, ⟨hp, -⟩ | ⟨-, -, he, hready⟩⟩ := h.effect
  · exact absurd hi (by simp [hp])
  · refine ⟨hready _ (List.mem_range'_1.mpr ⟨Nat.le_add_right _ _, ?_⟩), ?_⟩
    · exact Nat.add_lt_add_left hi _
    · have hne : t ≠ u.tasks.length + i := Nat.ne_of_lt (Nat.lt_add_right i hlt)
      simp [he, hne, hi]

theorem Closes.tending (h : u.Closes t drained v) (hsteady : u.Steady t)
    (hlt : t < u.tasks.length) (hne : u.shutdownParts drained ≠ []) :
    v.Tending t (!drained.isEmpty) (u.partNumbers drained) := by
  obtain ⟨-, -, -, ⟨hp, -⟩ | ⟨-, -, he, -⟩⟩ := h.effect
  · exact absurd hp hne
  · have ht := List.getElem?_eq_getElem hlt
    have htask : v.tasks[t]? = some { u.tasks[t] with
        job := .shutdown (.closing (!drained.isEmpty) (u.partNumbers drained)) } := by
      rw [he, List.getElem?_modify_eq, List.getElem?_append_left hlt, ht]
      rfl
    refine ⟨⟨_, htask, rfl⟩, ?_, fun a ha => ?_⟩
    · have hc := hsteady.task ht
      rintro b task hb rfl
      obtain rfl := Option.some.inj (htask.symm.trans hb)
      exact hc
    · obtain ⟨h₁, h₂⟩ := List.mem_range'_1.mp ha
      obtain ⟨i, rfl⟩ := Nat.exists_eq_add_of_le h₁
      rintro b task hb rfl
      have hstart := (h.starts hlt (Nat.lt_of_add_lt_add_left h₂)).2
      obtain rfl := Option.some.inj (hb.symm.trans hstart)
      rfl

end Overlay

end RelayUpkeep
