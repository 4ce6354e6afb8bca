import RelayUpkeep.Proofs.Lined

/-! # The reservation lock

In every run whoever waits for the lock is in its line, and its holder goes on some time and gives
it up or waits for the channels. -/

namespace RelayUpkeep.Overlay

variable {t a : TaskId} {u v w : Overlay} {manual : List PeerAddress} {maxFail : Nat}

/-! ## Polls -/

theorem aloof_of_job (h : ∀ task : Task, w.tasks[a]? = some task →
    task.job.isQueued = false ∧ task.job.isReserving = false) : w.Aloof a := by
  constructor <;> rintro ⟨-, task, ht, hp⟩
  · exact absurd hp (by simp [(h task ht).1])
  · exact absurd hp (by simp [(h task ht).2])

theorem aloof_of_role {role : Role} (hr : w.role? a = some role) (h : role.isOwn = false) :
    w.Aloof a := by
  refine aloof_of_job fun task ht => ?_
  obtain ⟨task', ht', rfl⟩ := role?_eq_some.mp hr
  obtain rfl := Option.some.inj (ht.symm.trans ht')
  cases hj : task.job <;>
    first | exact ⟨rfl, rfl⟩ | exact absurd h (by simp [hj, Job.role, Role.isOwn])

theorem aloof_of_isFinished (h : w.isFinished a = true) : w.Aloof a :=
  ⟨fun hd => absurd (hd.1.symm.trans h) (by simp), fun hd => absurd (hd.1.symm.trans h) (by simp)⟩

theorem aloof_finish (w : Overlay) (a : TaskId) (e : Exit) : (w.finish a e).Aloof a :=
  aloof_of_isFinished (isFinished_finish w a e)

theorem aloof_setJob {job : Job} (hq : job.isQueued = false) (hr : job.isReserving = false) :
    (w.setJob a job).Aloof a := by
  refine aloof_of_job fun task ht => ?_
  rw [job_of_setJob ht]
  exact ⟨hq, hr⟩

theorem doing_setJob {P : Job → Bool} {job : Job} (hf : w.isFinished a = false)
    (hlt : a < w.tasks.length) (hp : P job = true) : (w.setJob a job).Doing P a :=
  ⟨hf, { w.tasks[a] with job }, by simp [setJob, hlt], hp⟩

theorem gate_releaseGate (w : Overlay) :
    w.releaseGate.manager.gate = w.manager.gate.release ∧ w.releaseGate.exits = w.exits := by
  obtain ⟨rs, h⟩ := w.releaseGate_frame
  rw [h]
  exact ⟨rfl, rfl⟩

/-- Whoever is handed the lock is ready. -/
theorem ready_releaseGate (ha : w.manager.gate.release.holder = some a)
    (hf : w.isFinished a = false) : a ∈ w.releaseGate.ready := by
  have hh : w.manager.gate.waiting.head? = some a := ha
  obtain ⟨rs, h, hr⟩ := (w.withManager fun m => { m with gate := m.gate.release }).wake_eq a
  rw [releaseGate_eq, hh]
  simp only [Option.elim, h]
  exact hr.wakes a (List.mem_singleton_self a) hf

theorem gate_takeTurn (w : Overlay) (t : TaskId) (manual : List PeerAddress) (maxFail : Nat)
    (r : Round) :
    (w.takeTurn t manual maxFail r).manager.gate = w.manager.gate ∧
      (w.takeTurn t manual maxFail r).Aloof t := by
  rw [takeTurn_eq]
  split_ifs
  · exact ⟨by rw [manager_finish]; rfl, aloof_finish _ _ _⟩
  · exact ⟨by rw [manager_finish]; rfl, aloof_finish _ _ _⟩
  · exact ⟨by rw [manager_staffed], aloof_setJob rfl rfl⟩

theorem gate_collect (w : Overlay) (t : TaskId) (manual : List PeerAddress) (maxFail : Nat) :
    (w.collect t manual maxFail).manager.gate = w.manager.gate ∧
      (w.collect t manual maxFail).Aloof t := by
  obtain ⟨failed, more, h, -⟩ := w.collected_eq t manual
  have hg : (w.collected t manual).manager.gate = w.manager.gate := by rw [h]
  rw [collect_eq, ← hg]
  simp only [startRound]
  split
  · split <;> exact ⟨by rw [manager_finish], aloof_finish _ _ _⟩
  · exact gate_takeTurn _ t _ _ _

/-- The lock has passed from `t` to whoever comes next. -/
structure Passes (t : TaskId) (u v : Overlay) : Prop where
  gate : v.manager.gate = u.manager.gate.release
  aloof : v.Aloof t
  wakes : ∀ a ≠ t, v.manager.gate.holder = some a → u.isFinished a = false → ∃ due, v.Waits a due

theorem Passes.of_turns (he : u.exits = w.exits) (hg : u.manager.gate = w.manager.gate)
    (hm : Turns t u.releaseGate v) (hv : v.manager.gate = u.releaseGate.manager.gate)
    (ht : v.Aloof t) : Passes t w v where
  gate := by rw [hv, (gate_releaseGate u).1, hg]
  aloof := ht
  wakes a hat ha hf := by
    rw [hv, (gate_releaseGate u).1] at ha
    have hready := ready_releaseGate ha ((isFinished_of_exits he a).trans hf)
    exact ⟨0, Turns.leaves hm hat 0 (.inl hready)⟩

/-- The one who holds the lock waits for channels, or passes the lock on. -/
def Hands (t : TaskId) (u v : Overlay) : Prop :=
  v.manager.gate = u.manager.gate ∧ v.Doing Job.isReserving t ∧ (∃ due, v.Waits t due) ∨
    Passes t u v

theorem passes_reserved (hr : w.role? t = some (.setup manual maxFail)) (o : Outcome) :
    Passes t w (w.reserved t manual maxFail o) := by
  have hend : ∀ e, Passes t w (w.releaseGate.finish t e) := fun e =>
    .of_turns rfl rfl (.finish _ e) (by rw [manager_finish]) (aloof_finish _ _ e)
  unfold reserved
  split
  · exact hend _
  · exact hend _
  · obtain ⟨hg, ha⟩ := gate_collect
      ((({ w with granted := w.granted + 1 } : Overlay).log (.granted w.granted)).withManager
        fun m => { m with creator := some w.granted }).releaseGate t manual maxFail
    refine Passes.of_turns ?_ ?_ (turns_collect ?_) hg ha
    · rfl
    · rfl
    · rw [role?_releaseGate]
      exact hr

theorem hands_reserve (hr : w.role? t = some (.setup manual maxFail))
    (hf : w.isFinished t = false) : Hands t w (w.reserve t manual maxFail) := by
  unfold reserve
  split
  · obtain ⟨hg, ha⟩ := gate_collect w.releaseGate t manual maxFail
    exact .inr (.of_turns rfl rfl (turns_collect ((role?_releaseGate w t).trans hr)) hg ha)
  · split
    · exact .inr (.of_turns rfl rfl (.finish _ _) (by rw [manager_finish]) (aloof_finish _ _ _))
    · unfold play
      split
      · have hr' : (w.log (.reserve t 0 w.manager.config.maxRelays)).role? t =
            some (.setup manual maxFail) := hr
        have hp := passes_reserved hr' w.reserveScript.outcome
        exact .inr ⟨hp.gate, hp.aloof, hp.wakes⟩
      · refine .inl ⟨rfl, doing_setJob hf (lt_of_role? hr) rfl, w.clock + w.reserveScript.delay, ?_⟩
        exact .inr (List.mem_append_right _ (List.mem_singleton_self _))

theorem passes_closeAll (hr : w.role? t = some .shutdown) (drained : List RelayId) :
    Passes t w (w.closeAll t drained) := by
  have hr' : (w.withManager fun m => { m with creator := none }).releaseGate.role? t =
      some .shutdown := (role?_releaseGate _ t).trans hr
  have hs : Stirs t (w.withManager fun m => { m with creator := none }).releaseGate
      (w.partsStarted t drained).1 := by
    refine stirs_spawnAll hr' _ fun job hj => ?_
    rcases List.mem_append.mp hj with hj | hj <;> obtain ⟨_, -, rfl⟩ := List.mem_map.mp hj <;> rfl
  have hg : (w.partsStarted t drained).1.manager.gate =
      (w.withManager fun m => { m with creator := none }).releaseGate.manager.gate := by
    simp only [partsStarted, spawnAll_eq]
  change Passes t w (if (w.partsStarted t drained).2.isEmpty then
    (w.partsStarted t drained).1.concludeShutdown t false [] else
    (w.partsStarted t drained).1.setJob t
      (.shutdown (.closing (!drained.isEmpty) (w.partsStarted t drained).2)))
  split
  · have he : (w.partsStarted t drained).1.concludeShutdown t false [] =
        (w.partsStarted t drained).1.finish t .done := by
      simp [concludeShutdown, exitsOf]
    rw [he]
    exact .of_turns (u := w.withManager fun m => { m with creator := none }) rfl rfl
      (hs.turns (.finish _ _)) (by rw [manager_finish, hg]) (aloof_finish _ _ _)
  · refine .of_turns (u := w.withManager fun m => { m with creator := none }) rfl rfl
      (hs.turns ((Stir.setJob _ _ (hs.role? hr') ?_).one.turns (.refl _))) hg
      (aloof_setJob rfl rfl)
    exact refers_partsStarted drained _

theorem Queues.of_aloof (h : u.Lined) (hu : u.Aloof t) (hg : v.manager.gate = u.manager.gate)
    (ht : v.Aloof t) : Queues t u v := by
  refine .leaves (hg.trans (FairLock.leave_of_not_mem (h.not_mem_line hu)).symm) ht fun hh => ?_
  exact absurd (h.mem_of_holder hh) (h.not_mem_line hu)

theorem Queues.of_passes (h : u.Lined) (hh : u.manager.gate.holder = some t) (hp : Passes t u v) :
    Queues t u v := by
  have hline := FairLock.line_leave u.manager.gate t
  rw [FairLock.leave_holder hh] at hline
  refine .leaves (hp.gate.trans (FairLock.leave_holder hh).symm) hp.aloof fun _ a ha => ?_
  have hmem : a ∈ u.manager.gate.release.line := by
    rw [hp.gate] at ha
    exact List.mem_of_mem_head? ((FairLock.ordered_release _).head_line.trans ha)
  rw [hline] at hmem
  have hat : a ≠ t := fun hat => h.once.not_mem_erase (hat ▸ hmem)
  refine hp.wakes a hat ha ?_
  exact ((h.line a).mp (List.mem_of_mem_erase hmem)).elim (·.1) (·.1)

/-- The one who holds the lock keeps it and waits for channels, or passes it on. -/
theorem Queues.of_hands (h : u.Lined) (hh : u.manager.gate.holder = some t) (hp : Hands t u v) :
    Queues t u v := by
  rcases hp with ⟨hg, hd, hw⟩ | hp
  · refine .waits (hg ▸ h.ordered) (.inl ⟨h.mem_of_holder hh, by rw [hg]⟩) (.inr ⟨hd, ?_, hw⟩)
    rw [hg, hh]
  · exact .of_passes h hh hp

/-- Whoever asks for the lock and finds it taken waits behind all others. -/
theorem Lined.joins (h : u.Lined) (hu : u.Aloof t)
    (hg : v.manager.gate = (u.manager.gate.acquire t).1)
    (hheld : (u.manager.gate.acquire t).2 = false) (hv : v.Doing Job.isQueued t) :
    Queues t u v := by
  obtain ⟨ho, hl, he⟩ := h.ordered.acquire t
  have hn := h.not_mem_line hu
  refine .waits (hg ▸ ho) (.inr ⟨hn, by rw [hg, hl]⟩) (.inl ⟨hv, ?_⟩)
  rw [hg, ← ho.head_line, hl]
  rw [he] at hheld
  cases hline : u.manager.gate.line with
  | nil => exact absurd hheld (by simp [hline])
  | cons b l =>
    rw [hline] at hn
    simp only [List.cons_append, List.head?_cons, ne_eq, Option.some.injEq]
    exact fun hb => hn (by simp [hb])

/-- Whoever asks for the lock and finds it free holds it. -/
theorem Lined.acquires (h : u.Lined) (hu : u.Aloof t) {x : Overlay}
    (hx : x.manager.gate = (u.manager.gate.acquire t).1)
    (hheld : (u.manager.gate.acquire t).2 = true) (hp : Hands t x v) : Queues t u v := by
  obtain ⟨ho, hl, he⟩ := h.ordered.acquire t
  have hn := h.not_mem_line hu
  have hempty : u.manager.gate.line = [] := by simpa [he] using hheld
  have hhead : u.manager.gate.holder = none := by rw [← h.ordered.head_line, hempty]; rfl
  have hxh : x.manager.gate.holder = some t := by rw [hx, ← ho.head_line, hl, hempty]; rfl
  rcases hp with ⟨hg, hd, hw⟩ | hp
  · exact .waits (hg ▸ hx ▸ ho) (.inr ⟨hn, by rw [hg, hx, hl]⟩) (.inr ⟨hd, by rw [hg, hxh], hw⟩)
  · refine .of_aloof h hu ?_ hp.aloof
    have hwaiting := h.ordered hhead
    rw [hp.gate, hx]
    cases hgate : u.manager.gate with
    | mk holder waiting =>
      rw [hgate] at hhead hwaiting
      subst hhead hwaiting
      rfl

theorem gate_judge (w : Overlay) (t : TaskId) (manual : List PeerAddress) (maxFail : Nat)
    (r : Round) (as : List TaskId) :
    (w.judge t manual maxFail r as).manager.gate = w.manager.gate ∧
      (w.judge t manual maxFail r as).Aloof t := by
  unfold judge
  simp only
  split
  · exact ⟨by rw [manager_finish]; rfl, aloof_finish _ _ _⟩
  · split
    · exact ⟨by rw [manager_finish], aloof_finish _ _ _⟩
    · exact gate_takeTurn w t _ _ _

theorem gate_concludeShutdown (w : Overlay) (t : TaskId) (hadRelays : Bool) (parts : List TaskId) :
    (w.concludeShutdown t hadRelays parts).manager.gate = w.manager.gate ∧
      (w.concludeShutdown t hadRelays parts).Aloof t := by
  unfold concludeShutdown
  cases hadRelays <;> simp only [Bool.false_eq_true, if_false, if_true] <;> split <;>
    exact ⟨by rw [manager_finish]; try rfl, aloof_finish _ _ _⟩

/-- What becomes of the lock when a setup goes on. -/
theorem Lined.queues_pollSetup (h : w.Lined) {task : Task} {stage : SetupStage}
    (ht : w.tasks[t]? = some task) (hj : task.job = .setup manual maxFail stage)
    (hf : w.isFinished t = false) : Queues t w (w.pollSetup t manual maxFail stage) := by
  have hr : w.role? t = some (.setup manual maxFail) :=
    role?_eq_some.mpr ⟨task, ht, by rw [hj]; rfl⟩
  have hlt := lt_of_role? hr
  have haloof : stage.isEarly = false ∨ stage = .entering → w.Aloof t := by
    intro hs
    refine aloof_of_job fun task' ht' => ?_
    obtain rfl := Option.some.inj (ht.symm.trans ht')
    rw [hj]
    cases stage with
    | entering | settling => exact ⟨rfl, rfl⟩
    | queued | reserving => exact absurd hs (by simp [SetupStage.isEarly])
  cases stage with
  | entering =>
    have ha := haloof (.inr rfl)
    simp only [pollSetup, enterSetup]
    split
    · exact .of_aloof h ha (by rw [manager_finish]) (aloof_finish _ _ _)
    · split
      · next hheld => exact h.acquires ha rfl hheld (hands_reserve hr hf)
      · next hheld =>
        refine h.joins ha rfl (Bool.eq_false_iff.mpr hheld) (doing_setJob ?_ ?_ rfl)
        · exact hf
        · exact hlt
  | queued =>
    simp only [pollSetup]
    split
    · next hh => exact .of_hands h hh (hands_reserve hr hf)
    · next hh =>
      have hd : w.Doing Job.isQueued t := ⟨hf, task, ht, by rw [hj]; rfl⟩
      exact .waits h.ordered (.inl ⟨(h.line t).mpr (.inl hd), rfl⟩) (.inl ⟨hd, hh⟩)
  | reserving o =>
    exact .of_passes h (h.reserving t ⟨hf, task, ht, by rw [hj]; rfl⟩) (passes_reserved hr o)
  | settling r as =>
    have ha := haloof (.inl rfl)
    simp only [pollSetup]
    split
    · obtain ⟨hg, hv⟩ := gate_judge w t manual maxFail r as
      exact .of_aloof h ha hg hv
    · exact .of_aloof h ha rfl ha

/-- What becomes of the lock when a shutdown goes on. -/
theorem Lined.queues_pollShutdown (h : w.Lined) {task : Task} {stage : ShutdownStage}
    (ht : w.tasks[t]? = some task) (hj : task.job = .shutdown stage)
    (hf : w.isFinished t = false) : Queues t w (w.pollShutdown t stage) := by
  have hr : w.role? t = some .shutdown := role?_eq_some.mpr ⟨task, ht, by rw [hj]; rfl⟩
  have hlt := lt_of_role? hr
  have haloof : (∀ drained, stage ≠ .queued drained) → w.Aloof t := by
    intro hs
    refine aloof_of_job fun task' ht' => ?_
    obtain rfl := Option.some.inj (ht.symm.trans ht')
    rw [hj]
    cases stage with
    | entering | closing => exact ⟨rfl, rfl⟩
    | queued drained => exact absurd rfl (hs drained)
  cases stage with
  | entering =>
    have ha := haloof (by simp)
    rw [pollShutdown, enterShutdown_eq]
    split
    · next hheld =>
      exact h.acquires (x := w.stopped t) ha rfl hheld
        (.inr (passes_closeAll (w := w.stopped t) hr _))
    · next hheld =>
      refine h.joins ha rfl (Bool.eq_false_iff.mpr hheld) (doing_setJob ?_ ?_ rfl)
      · exact hf
      · exact hlt
  | queued drained =>
    simp only [pollShutdown]
    split
    · next hh => exact .of_passes h hh (passes_closeAll hr drained)
    · next hh =>
      have hd : w.Doing Job.isQueued t := ⟨hf, task, ht, by rw [hj]; rfl⟩
      exact .waits h.ordered (.inl ⟨(h.line t).mpr (.inl hd), rfl⟩) (.inl ⟨hd, hh⟩)
  | closing hadRelays parts =>
    have ha := haloof (by simp)
    simp only [pollShutdown]
    split
    · obtain ⟨hg, hv⟩ := gate_concludeShutdown w t hadRelays parts
      exact .of_aloof h ha hg hv
    · exact .of_aloof h ha rfl ha

/-- Whoever is called off leaves the line. -/
theorem Lined.queues_abandon (h : w.Lined) {task : Task} (ht : w.tasks[t]? = some task) :
    Queues t w (w.abandon t task.job) := by
  have haloof : task.job.isQueued = false → task.job.isReserving = false → w.Aloof t := by
    intro hq hr
    refine aloof_of_job fun task' ht' => ?_
    obtain rfl := Option.some.inj (ht.symm.trans ht')
    exact ⟨hq, hr⟩
  have hleave : Queues t w ((w.leaveGate t).finish t .cancelled) := by
    unfold leaveGate
    split
    · next hh =>
      refine .of_passes h hh (.of_turns rfl rfl (.finish _ _) ?_ (aloof_finish _ _ _))
      rw [manager_finish]
    · next hh =>
      refine .leaves ?_ (aloof_finish _ _ _) fun hh' => absurd hh' hh
      rw [manager_finish]
      rfl
  have hstay : ∀ ts : List TaskId, w.Aloof t →
      Queues t w ((ts.foldl cancel w).finish t .cancelled) := by
    intro ts ha
    refine .of_aloof h ha ?_ (aloof_finish _ _ _)
    rw [manager_finish, manager_cancelAll]
  cases hj : task.job with
  | setup manual maxFail stage =>
    cases stage with
    | settling r as => exact hstay as (haloof (by rw [hj]; rfl) (by rw [hj]; rfl))
    | entering | queued | reserving => exact hleave
  | shutdown stage =>
    cases stage with
    | closing hadRelays parts => exact hstay parts (haloof (by rw [hj]; rfl) (by rw [hj]; rfl))
    | entering | queued => exact hleave
  | guardAttempt | attempt | watch | closeRelay | releaseCreator =>
    exact hstay [] (haloof (by rw [hj]; rfl) (by rw [hj]; rfl))

theorem Queues.of_rest (h : Queues t ({ w with ready := w.ready.erase t } : Overlay) v) :
    Queues t w v := by
  cases h with
  | leaves hg ht hw => exact .leaves hg ht hw
  | waits ho hl ht => exact .waits ho hl ht

/-- What becomes of the lock in one poll. -/
theorem Lined.queues_poll (h : w.Lined) (hs : w.Sound) (ht : t ∈ w.ready) :
    Queues t w (w.poll t) := by
  have hlt := hs.ready t ht
  obtain ⟨task, htask⟩ : ∃ task, w.tasks[t]? = some task := ⟨_, List.getElem?_eq_getElem hlt⟩
  have hr : w.role? t = some task.job.role := role?_eq_some.mpr ⟨task, htask, rfl⟩
  cases hf : w.isFinished t with
  | true =>
    have ha := aloof_of_isFinished hf
    rw [poll_finished hf]
    exact .of_aloof h ha rfl ha
  | false =>
    have hrest : ({ w with ready := w.ready.erase t } : Overlay).Lined := { h with }
    cases hc : task.isCancelled with
    | true =>
      rw [poll_abandon htask hf hc]
      exact (hrest.queues_abandon htask).of_rest
    | false =>
      cases hj : task.job with
      | setup manual maxFail stage =>
        rw [poll_resume htask hf hc, hj]
        exact (hrest.queues_pollSetup htask hj hf).of_rest
      | shutdown stage =>
        rw [poll_resume htask hf hc, hj]
        exact (hrest.queues_pollShutdown htask hj hf).of_rest
      | guardAttempt | attempt | watch | closeRelay | releaseCreator =>
        have hown : task.job.role.isOwn = false := by rw [hj]; rfl
        have hturn := hs.poll_turns t
        have hgate := (Turns.gate_eq hturn hlt fun ⟨role, hrole, ho⟩ => by
          obtain rfl := Option.some.inj (hr.symm.trans hrole)
          exact absurd ho (by simp [hown])).1
        exact .of_aloof h (aloof_of_role hr hown) hgate
          (aloof_of_role ((Grows.turns hturn).role? hr) hown)

/-! ## Every act -/

theorem Gated.keep (h : u.Gated) (hg : v.manager.gate = u.manager.gate)
    (hd : ∀ a, ∀ P : Job → Bool, (∀ job, P job = true → job.isFresh = false) →
      (v.Doing P a ↔ u.Doing P a))
    (hw : ∀ a, u.isFinished a = false → u.Leaves a v) : v.Gated := by
  have hdq := fun a => hd a _ fun _ => Job.isFresh_of_isQueued
  have hdr := fun a => hd a _ fun _ => Job.isFresh_of_isReserving
  refine ⟨⟨hg ▸ h.ordered, hg ▸ h.once, fun a => ?_, fun a ha => ?_⟩, fun a ha => ?_⟩
  · rw [hg, h.line a, hdq a, hdr a]
  · rw [hg]
    exact h.reserving a ((hdr a).mp ha)
  · rw [hg] at ha
    obtain ⟨due, hdue⟩ := h.goes a ha
    exact ⟨due, hw a (((h.line a).mp (h.mem_of_holder ha)).elim (·.1) (·.1)) due hdue⟩

/-- From outside the manager is given observers, and nothing else. -/
theorem manager_act {x : Act} (hp : x.isPoll = false) :
    ∃ observers, (w.act x).manager = { w.manager with observers } := by
  have hsame : (w.act x).manager = w.manager →
      ∃ observers, (w.act x).manager = { w.manager with observers } := fun h => ⟨_, h⟩
  cases x with
  | poll => exact absurd hp (by simp [Act.isPoll])
  | elapse ms =>
    obtain ⟨rs, he, -⟩ := w.advanceTo_eq (w.clock + ms)
    exact hsame (by rw [Overlay.act, he])
  | closeRelay r => exact hsame (by simp only [Overlay.act]; split <;> rfl)
  | cancel t => exact hsame (by simp only [Overlay.act]; split <;> simp)
  | listen r label nested =>
    obtain ⟨relays, more, he, -⟩ := w.listen_note_frame r label nested
    exact hsame (by rw [Overlay.act, he])
  | dropConn c => exact hsame (by simp [Overlay.act])
  | observe o => exact ⟨_, rfl⟩
  | setUp | shutDown | behave | learn | nodeDown | reservation | hold | dropManager | moveTo =>
    exact hsame rfl

theorem gate_act {x : Act} (hp : x.isPoll = false) :
    (w.act x).manager.gate = w.manager.gate := by
  obtain ⟨observers, h⟩ := manager_act (w := w) hp
  rw [h]

/-- The lock is in order after each act. -/
theorem Gated.act (h : w.Gated) (hs : w.Sound) (x : Act) : (w.act x).Gated := by
  rcases w.poll_cases x with ⟨t, ht, rfl, hv⟩ | ⟨t, -, rfl, hv⟩ | hp
  · have hne : ∀ a ≠ t, Act.poll t ≠ .poll a := fun a hat he => hat (Act.poll.inj he).symm
    refine h.queues (t := t) ?_ (fun a ha P hP => hs.doing_act (hne a ha) hP)
      fun a ha hf => hs.leaves_act hf (hne a ha)
    rw [hv]
    exact h.toLined.queues_poll hs ht
  · rwa [hv]
  · exact h.keep (gate_act hp) (fun a P hP => hs.doing_act (Act.ne_poll hp a) hP)
      fun a hf => hs.leaves_act hf (Act.ne_poll hp a)

theorem Gated.run (h : w.Gated) (hs : w.Sound) (acts : List Act) : (w.run acts).Gated := by
  induction acts generalizing w with
  | nil => exact h
  | cons x acts ih => exact ih (h.act hs x) (hs.act x)

theorem Gated.after (h : w.Gated) (hs : w.Sound) (acts : Nat → Act) (n : Nat) :
    (w.after acts n).Gated := by
  rw [after_eq_run]
  exact h.run hs _

theorem gated_run (config : RelayConfig) (mine : PeerAddress) (acts : List Act) :
    ((start config mine).run acts).Gated :=
  (gated_start config mine).run (sound_start config mine) acts

end RelayUpkeep.Overlay
