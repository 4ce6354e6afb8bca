import RelayUpkeep.Proofs.Line
import RelayUpkeep.Proofs.Mirror

/-! # The reserved channels

Nobody waits for channels while some are reserved, so that none are ever forgotten. A shutdown takes
those that are, and from then on none are reserved. -/

namespace RelayUpkeep.Overlay

variable {t a : TaskId} {w : Overlay} {manual : List PeerAddress} {maxFail : Nat}

/-! ## Parts of a poll -/

@[simp] theorem creator_releaseGate (w : Overlay) :
    w.releaseGate.manager.creator = w.manager.creator := by
  obtain ⟨rs, h⟩ := w.releaseGate_frame
  rw [h]

theorem manager_takeTurn (w : Overlay) (t : TaskId) (manual : List PeerAddress) (maxFail : Nat)
    (r : Round) : (w.takeTurn t manual maxFail r).manager = w.manager := by
  rw [takeTurn_eq]
  split_ifs
  · exact manager_finish _ _ _
  · exact manager_finish _ _ _
  · exact manager_staffed _ _ _ _ _

theorem manager_judge (w : Overlay) (t : TaskId) (manual : List PeerAddress) (maxFail : Nat)
    (r : Round) (as : List TaskId) : (w.judge t manual maxFail r as).manager = w.manager := by
  rw [judge_eq]
  split_ifs
  · exact manager_finish _ _ _
  · exact manager_finish _ _ _
  · exact manager_takeTurn _ _ _ _ _

theorem creator_collect (w : Overlay) (t : TaskId) (manual : List PeerAddress) (maxFail : Nat) :
    (w.collect t manual maxFail).manager.creator = w.manager.creator := by
  obtain ⟨failed, more, h, -⟩ := w.collected_eq t manual
  have hc : (w.collected t manual).manager.creator = w.manager.creator := by rw [h]
  rw [collect_eq, ← hc]
  simp only [startRound]
  split
  · split <;> rw [manager_finish]
  · rw [manager_takeTurn]

theorem creator_concludeShutdown (w : Overlay) (t : TaskId) (hadRelays : Bool)
    (parts : List TaskId) :
    (w.concludeShutdown t hadRelays parts).manager.creator = w.manager.creator := by
  obtain ⟨e, h⟩ := concludeShutdown_eq w t hadRelays parts
  rw [h, manager_finish]
  split <;> rfl

theorem creator_closeAll (w : Overlay) (t : TaskId) (drained : List RelayId) :
    (w.closeAll t drained).manager.creator = none := by
  have hp : (w.partsStarted t drained).1.manager.creator = none := by
    simp [partsStarted, spawnAll_eq, withManager]
  change (if (w.partsStarted t drained).2.isEmpty then
    (w.partsStarted t drained).1.concludeShutdown t false [] else
    (w.partsStarted t drained).1.setJob t
      (.shutdown (.closing (!drained.isEmpty) (w.partsStarted t drained).2))).manager.creator = none
  split
  · rw [creator_concludeShutdown, hp]
  · exact hp

/-- Channels that are reserved stay so, and none are reserved once the manager is shut down. -/
theorem reserve_settled (h : w.manager.creator ≠ none ∨ w.manager.isShutDown = true) :
    (w.reserve t manual maxFail).manager.creator = w.manager.creator ∧
      (w.reserve t manual maxFail).Aloof t := by
  unfold reserve
  split
  · refine ⟨?_, (gate_collect _ _ _ _).2⟩
    rw [creator_collect, creator_releaseGate]
  · next hc =>
    rw [if_pos (h.resolve_left (by simp [hc]))]
    exact ⟨by rw [manager_finish, creator_releaseGate], aloof_finish _ _ _⟩

/-- Whoever waits for channels found none reserved. -/
theorem reserve_waits (hr : w.role? t = some (.setup manual maxFail))
    (h : (w.reserve t manual maxFail).Doing Job.isReserving t) :
    (w.reserve t manual maxFail).manager.creator = none := by
  cases hc : w.manager.creator with
  | some c => exact absurd h (reserve_settled (.inl (by simp [hc]))).2.2
  | none =>
    cases hsd : w.manager.isShutDown with
    | true => exact absurd h (reserve_settled (.inr hsd)).2.2
    | false =>
      unfold reserve at h ⊢
      simp only [hc, hsd, Bool.false_eq_true, if_false, play] at h ⊢
      split
      · next hd =>
        rw [if_pos hd] at h
        have hr' : (w.log (.reserve t 0 w.manager.config.maxRelays)).role? t =
            some (.setup manual maxFail) := hr
        exact absurd h (passes_reserved hr' w.reserveScript.outcome).aloof.2
      · exact hc

/-! ## Setups and shutdowns -/

/-- A setup that does not wait for channels leaves those alone that are reserved, and does not
come to wait for them either. -/
theorem pollSetup_settled (h : w.manager.creator ≠ none ∨ w.manager.isShutDown = true)
    {task : Task} {stage : SetupStage} (ht : w.tasks[t]? = some task)
    (hj : task.job = .setup manual maxFail stage) (hn : ∀ o, stage ≠ .reserving o) :
    (w.pollSetup t manual maxFail stage).manager.creator = w.manager.creator ∧
      ¬(w.pollSetup t manual maxFail stage).Doing Job.isReserving t := by
  have hstay : ¬w.Doing Job.isReserving t := by
    rintro ⟨-, task', ht', hp⟩
    obtain rfl := Option.some.inj (ht.symm.trans ht')
    rw [hj] at hp
    cases stage with
    | reserving o => exact hn o rfl
    | _ => exact absurd hp (by simp [Job.isReserving])
  cases stage with
  | reserving o => exact absurd rfl (hn o)
  | entering =>
    simp only [pollSetup, enterSetup]
    split
    · exact ⟨by rw [manager_finish], (aloof_finish _ _ _).2⟩
    · split
      · obtain ⟨hc, ha⟩ := reserve_settled (w := w.withManager fun m =>
          { m with gate := (m.gate.acquire t).1 }) (t := t) h
        exact ⟨hc, ha.2⟩
      · refine ⟨rfl, ?_⟩
        rintro ⟨-, task', ht', hp⟩
        simp only [setJob, withManager, List.getElem?_modify_eq, ht] at ht'
        obtain rfl := Option.some.inj ht'
        exact absurd hp (by simp [Job.isReserving])
  | queued =>
    simp only [pollSetup]
    split
    · obtain ⟨hc, ha⟩ := reserve_settled (t := t) h
      exact ⟨hc, ha.2⟩
    · exact ⟨rfl, hstay⟩
  | settling r as =>
    simp only [pollSetup]
    split
    · exact ⟨by rw [manager_judge], (gate_judge w t manual maxFail r as).2.2⟩
    · exact ⟨rfl, hstay⟩

/-- Whoever does not hold the lock leaves the channels alone. -/
theorem Lined.creator_resume (h : w.Lined) (ha : w.manager.gate.holder = some a) (hat : a ≠ t)
    {task : Task} (ht : w.tasks[t]? = some task) (hf : w.isFinished t = false)
    (hown : task.job.role.isOwn = true) :
    (w.resume t task.job).manager.creator = w.manager.creator := by
  have hheld : (w.manager.gate.acquire t).2 = false := by simp [FairLock.acquire, ha]
  have hne : w.manager.gate.holder ≠ some t := fun hh => hat (Option.some.inj (ha.symm.trans hh))
  cases hj : task.job with
  | setup manual maxFail stage =>
    cases stage with
    | entering =>
      simp only [resume, pollSetup, enterSetup, hheld, Bool.false_eq_true, if_false]
      split
      · rw [manager_finish]
      · rfl
    | queued => simp only [resume, pollSetup, if_neg hne]
    | reserving o =>
      exact absurd (h.reserving t ⟨hf, task, ht, by rw [hj]; rfl⟩) hne
    | settling r as =>
      simp only [resume, pollSetup]
      split
      · rw [manager_judge]
      · rfl
  | shutdown stage =>
    cases stage with
    | entering =>
      simp only [resume, pollShutdown, enterShutdown_eq, hheld, Bool.false_eq_true, if_false]
      rfl
    | queued drained => simp only [resume, pollShutdown, if_neg hne]
    | closing hadRelays parts =>
      simp only [resume, pollShutdown]
      split
      · rw [creator_concludeShutdown]
      · rfl
  | guardAttempt | attempt | watch | closeRelay | releaseCreator =>
    exact absurd hown (by simp [hj, Job.role, Role.isOwn])

theorem creator_abandon (w : Overlay) (t : TaskId) (job : Job) :
    (w.abandon t job).manager.creator = w.manager.creator := by
  obtain ⟨tasks, gate, rs, -, h⟩ := w.abandon_frame t job
  rw [h, manager_finish]

/-- A shutdown takes the channels or leaves them alone. -/
theorem creator_pollShutdown (w : Overlay) (t : TaskId) (stage : ShutdownStage) :
    (w.pollShutdown t stage).manager.creator = w.manager.creator ∨
      (w.pollShutdown t stage).manager.creator = none := by
  cases stage with
  | entering =>
    simp only [pollShutdown, enterShutdown_eq]
    split
    · exact .inr (creator_closeAll _ _ _)
    · exact .inl rfl
  | queued drained =>
    simp only [pollShutdown]
    split
    · exact .inr (creator_closeAll _ _ _)
    · exact .inl rfl
  | closing hadRelays parts =>
    simp only [pollShutdown]
    split
    · exact .inl (creator_concludeShutdown _ _ _ _)
    · exact .inl rfl

/-! ## Polls -/

/-- What is known of a task that goes on. -/
theorem Sound.task_of_ready (h : w.Sound) (ht : t ∈ w.ready) : ∃ task, w.tasks[t]? = some task :=
  ⟨_, List.getElem?_eq_getElem (h.ready t ht)⟩

theorem Sound.creator_poll_of_not_own (h : w.Sound) (ht : t ∈ w.ready) {task : Task}
    (htask : w.tasks[t]? = some task) (hown : task.job.role.isOwn = false) :
    (w.poll t).manager.creator = w.manager.creator := by
  refine (Turns.gate_eq (h.poll_turns t) (h.ready t ht) ?_).2
  rintro ⟨role, hr, ho⟩
  obtain ⟨task', ht', rfl⟩ := role?_eq_some.mp hr
  obtain rfl := Option.some.inj (htask.symm.trans ht')
  exact absurd ho (by simp [hown])

/-- Whoever does not hold the lock leaves the channels alone. -/
theorem Lined.creator_poll (h : w.Lined) (hs : w.Sound) (hr : t ∈ w.ready)
    (ha : w.manager.gate.holder = some a) (hat : a ≠ t) :
    (w.poll t).manager.creator = w.manager.creator := by
  obtain ⟨task, ht⟩ := hs.task_of_ready hr
  cases hown : task.job.role.isOwn with
  | false => exact hs.creator_poll_of_not_own hr ht hown
  | true =>
    cases hf : w.isFinished t with
    | true => rw [poll_finished hf]
    | false =>
      cases hc : task.isCancelled with
      | true =>
        rw [poll_abandon ht hf hc]
        exact creator_abandon _ _ _
      | false =>
        rw [poll_resume ht hf hc]
        exact Lined.creator_resume (w := { w with ready := w.ready.erase t }) { h with }
          ha hat ht hf hown

/-- Channels that are reserved are left alone, but for a shutdown that takes them; and none are
reserved once the manager is shut down. -/
theorem Sound.poll_settled (hs : w.Sound) (hr : t ∈ w.ready)
    (h : w.manager.creator ≠ none ∨ w.manager.isShutDown = true)
    (hn : ¬w.Doing Job.isReserving t) :
    ((w.poll t).manager.creator = w.manager.creator ∨
      w.role? t = some .shutdown ∧ (w.poll t).manager.creator = none) ∧
      ¬(w.poll t).Doing Job.isReserving t := by
  obtain ⟨task, ht⟩ := hs.task_of_ready hr
  cases hown : task.job.role.isOwn with
  | false =>
    refine ⟨.inl (hs.creator_poll_of_not_own hr ht hown), ?_⟩
    have hrole := (Grows.turns (hs.poll_turns t)).role? (role?_eq_some.mpr ⟨task, ht, rfl⟩)
    exact (aloof_of_role hrole hown).2
  | true =>
    cases hf : w.isFinished t with
    | true =>
      rw [poll_finished hf]
      exact ⟨.inl rfl, hn⟩
    | false =>
      cases hc : task.isCancelled with
      | true =>
        rw [poll_abandon ht hf hc]
        exact ⟨.inl (creator_abandon _ _ _), (aloof_finish _ _ _).2⟩
      | false =>
        cases hj : task.job with
        | setup manual maxFail stage =>
          have hp := pollSetup_settled (w := { w with ready := w.ready.erase t }) h ht hj
            fun o ho => hn ⟨hf, task, ht, by rw [hj, ho]; rfl⟩
          rw [poll_resume ht hf hc, hj]
          exact ⟨.inl hp.1, hp.2⟩
        | shutdown stage =>
          have hrole : w.role? t = some .shutdown := role?_eq_some.mpr ⟨task, ht, by rw [hj]; rfl⟩
          refine ⟨?_, ?_⟩
          · rw [poll_resume ht hf hc, hj]
            refine (creator_pollShutdown _ t stage).imp id fun hnone => ⟨hrole, ?_⟩
            exact hnone
          · rintro ⟨-, task', ht', hp⟩
            have hrole' := (Grows.turns (hs.poll_turns t)).role? hrole
            obtain ⟨task'', ht'', hr''⟩ := role?_eq_some.mp hrole'
            obtain rfl := Option.some.inj (ht'.symm.trans ht'')
            cases hj' : task'.job <;> simp [hj', Job.role, Job.isReserving] at hr'' hp
        | guardAttempt | attempt | watch | closeRelay | releaseCreator =>
          exact absurd hown (by simp [hj, Job.role, Role.isOwn])

/-! ## The invariants -/

/-- Nobody waits for channels while some are reserved. -/
def Thrifty (w : Overlay) : Prop := ∀ a, w.Doing Job.isReserving a → w.manager.creator = none

/-- A setup that comes to wait for channels while none are reserved leaves it at that. -/
theorem pollSetup_waits {stage : SetupStage} (hr : w.role? t = some (.setup manual maxFail))
    (hn : w.manager.creator = none)
    (h : (w.pollSetup t manual maxFail stage).Doing Job.isReserving t) :
    (w.pollSetup t manual maxFail stage).manager.creator = none := by
  cases stage with
  | entering =>
    simp only [pollSetup, enterSetup] at h ⊢
    split at h
    · exact absurd h (aloof_finish _ _ _).2
    · next hsd =>
      rw [if_neg hsd]
      split at h
      · next hheld =>
        rw [if_pos hheld]
        exact reserve_waits (w := w.withManager fun m => { m with gate := (m.gate.acquire t).1 }) hr h
      · next hheld =>
        rw [if_neg hheld]
        exact hn
  | queued =>
    simp only [pollSetup] at h ⊢
    split at h
    · next hh =>
      rw [if_pos hh]
      exact reserve_waits hr h
    · next hh =>
      rw [if_neg hh]
      exact hn
  | reserving o => exact absurd h (passes_reserved hr o).aloof.2
  | settling r as =>
    simp only [pollSetup] at h ⊢
    split
    · rw [manager_judge]
      exact hn
    · exact hn

/-- Whoever comes to wait for channels found none reserved. -/
theorem Sound.waits_poll (hs : w.Sound) (hr : t ∈ w.ready)
    (h : (w.poll t).Doing Job.isReserving t) : (w.poll t).manager.creator = none := by
  obtain ⟨task, ht⟩ := hs.task_of_ready hr
  have hrole : w.role? t = some task.job.role := role?_eq_some.mpr ⟨task, ht, rfl⟩
  have hf := (Grows.turns (hs.poll_turns t)).unfinished h.1
  by_cases hsettled : w.manager.creator ≠ none ∨ w.manager.isShutDown = true
  · by_cases hres : w.Doing Job.isReserving t
    · exact absurd h hres.aloof_poll.2
    · exact absurd h (hs.poll_settled hr hsettled hres).2
  rw [not_or, not_not] at hsettled
  cases hc : task.isCancelled with
  | true =>
    rw [poll_abandon ht hf hc, creator_abandon]
    exact hsettled.1
  | false =>
    cases hj : task.job with
    | setup manual maxFail stage =>
      rw [hj] at hrole
      rw [poll_resume ht hf hc, hj] at h ⊢
      exact pollSetup_waits (w := { w with ready := w.ready.erase t }) hrole hsettled.1 h
    | shutdown stage =>
      rw [poll_resume ht hf hc, hj]
      refine (creator_pollShutdown _ t stage).elim (fun he => he.trans ?_) id
      exact hsettled.1
    | guardAttempt | attempt | watch | closeRelay | releaseCreator =>
      rw [hs.creator_poll_of_not_own hr ht (by rw [hj]; rfl)]
      exact hsettled.1

theorem creator_act {x : Act} (hp : x.isPoll = false) :
    (w.act x).manager.creator = w.manager.creator := by
  obtain ⟨observers, h⟩ := manager_act (w := w) hp
  rw [h]

theorem thrifty_start (config : RelayConfig) (address : PeerAddress) :
    (start config address).Thrifty := fun _ h => by simp [Doing, start] at h

theorem Thrifty.act (h : w.Thrifty) (hl : w.Lined) (hs : w.Sound) (x : Act) :
    (w.act x).Thrifty := by
  intro a ha
  have hold : x ≠ .poll a → w.Doing Job.isReserving a := fun hx =>
    (hs.doing_act hx fun _ => Job.isFresh_of_isReserving).mp ha
  rcases w.poll_cases x with ⟨t, ht, rfl, he⟩ | ⟨t, -, rfl, he⟩ | hp
  · by_cases hat : a = t
    · subst hat
      rw [he] at ha ⊢
      exact hs.waits_poll ht ha
    · have hd := hold (by simpa using Ne.symm hat)
      rw [he, hl.creator_poll hs ht (hl.reserving a hd) hat]
      exact h a hd
  · rw [he] at ha ⊢
    exact h a ha
  · rw [creator_act hp]
    exact h a (hold (Act.ne_poll hp a))

/-- The manager is shut down, no channels are reserved, and nobody waits for any. -/
structure Emptied (w : Overlay) : Prop where
  down : w.manager.isShutDown = true
  creator : w.manager.creator = none
  idle : ∀ a, ¬w.Doing Job.isReserving a

/-- Once a shutdown has taken the channels, none are ever reserved again. -/
theorem Emptied.act (h : w.Emptied) (hs : w.Sound) (x : Act) : (w.act x).Emptied := by
  have hold : ∀ a, x ≠ .poll a → ¬(w.act x).Doing Job.isReserving a := fun a hx ha =>
    h.idle a ((hs.doing_act hx fun _ => Job.isFresh_of_isReserving).mp ha)
  refine ⟨(hs.grows_act x).shutDown h.down, ?_, fun a => ?_⟩
  · rcases w.poll_cases x with ⟨t, ht, rfl, hv⟩ | ⟨t, -, rfl, hv⟩ | hp
    · rw [hv]
      rcases (hs.poll_settled ht (.inr h.down) (h.idle t)).1 with he | ⟨-, he⟩
      · rw [he, h.creator]
      · exact he
    · rw [hv, h.creator]
    · rw [creator_act hp, h.creator]
  · by_cases hx : x = .poll a
    · subst hx
      simp only [Overlay.act]
      split
      · next ht => exact (hs.poll_settled ht (.inr h.down) (h.idle a)).2
      · exact h.idle a
    · exact hold a hx

end RelayUpkeep.Overlay
