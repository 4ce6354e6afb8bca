import RelayUpkeep.Proofs.Lone

/-! # The turns of a setup that runs alone

When a setup goes on that has nobody beside it, it starts the crew of a round, judges one that has
ended, or ends itself and leaves no crew behind. -/

namespace RelayUpkeep.Overlay

variable {t t₀ : TaskId} {u v w : Overlay} {r : Round} {manual : List PeerAddress} {maxFail : Nat}

/-! ## Polls of the setup itself -/

/-- Once a setup has ended it has no say any more. -/
theorem Staff.ended (hu : w.Unstaffed) (hf : w.isFinished t₀ = true) : w.Staff t₀ :=
  .none hu fun h => absurd (hf.symm.trans h) (by simp)

theorem Unstaffed.finish (hu : w.Unstaffed) (t : TaskId) (e : Exit) :
    (w.finish t e).Unstaffed :=
  hu.mono (.finish w t e) fun _ _ ha _ => by
    rw [tasks_finish] at ha
    exact (List.getElem?_eq_some_iff.mp ha).1

theorem Staff.finish (hu : w.Unstaffed) (hf : w.isFinished t₀ = false) (e : Exit) :
    (w.finish t₀ e).Staff t₀ :=
  .ended (hu.finish t₀ e) (isFinished_of_exit? (exit?_finish_self hf e))

/-- The next turn of a round finds its staff, or ends the setup. -/
theorem staff_takeTurn (hu : w.Unstaffed) (hf : w.isFinished t₀ = false)
    (hexits : ∀ x ∈ w.exits, x.1 < w.tasks.length)
    (hr : w.role? t₀ = some (.setup manual maxFail)) (hup : w.manager.isShutDown = false)
    (hp : w.Poised r) : (w.takeTurn t₀ manual maxFail r).Staff t₀ := by
  have hpub : w.publish.Unstaffed := hu
  rw [takeTurn_eq]
  split_ifs
  · exact .finish hpub hf _
  · exact .finish hpub hf _
  · refine .crew _ _ _ (crewed_staffed hu hexits hr hup hp) fun _ task ht => ?_
    exact ⟨manual, maxFail, job_of_setJob ht⟩

theorem staff_startRound (hu : w.Unstaffed) (hf : w.isFinished t₀ = false)
    (hexits : ∀ x ∈ w.exits, x.1 < w.tasks.length) (hpool : w.manager.pool.Sound)
    (hr : w.role? t₀ = some (.setup manual maxFail)) (hup : w.manager.isShutDown = false)
    {candidates : List PeerAddress} (hn : (candidates.map PeerAddress.id).Nodup)
    (hfree : ∀ p ∈ candidates, w.manager.pool.containsPeer p = false) :
    (w.startRound t₀ manual maxFail candidates).Staff t₀ := by
  simp only [startRound]
  split_ifs
  · exact .finish hu hf _
  · exact .finish hu hf _
  · exact staff_takeTurn hu hf hexits hr hup (poised_start hpool hn hfree maxFail)

/-- Neither a task nor the pool changed. -/
structure Kept (u v : Overlay) : Prop where
  tasks : v.tasks = u.tasks
  exits : v.exits = u.exits
  pool : v.manager.pool = u.manager.pool
  up : v.manager.isShutDown = u.manager.isShutDown
  config : v.manager.config = u.manager.config

theorem Reserves.kept (h : u.Reserves v) : u.Kept v := by
  obtain ⟨gate, creator, granted, more, ready, rfl, -⟩ := h
  exact ⟨rfl, rfl, rfl, rfl, rfl⟩

theorem kept_collected (w : Overlay) (t : TaskId) (manual : List PeerAddress) :
    w.Kept (w.collected t manual) := by
  obtain ⟨failed, more, hv, -, -⟩ := w.collected_eq t manual
  rw [hv]
  exact ⟨rfl, rfl, rfl, rfl, rfl⟩

namespace Kept

theorem trans (h : u.Kept v) (h' : v.Kept w) : u.Kept w :=
  ⟨h'.tasks.trans h.tasks, h'.exits.trans h.exits, h'.pool.trans h.pool, h'.up.trans h.up,
    h'.config.trans h.config⟩

theorem role? (h : u.Kept v) (a : TaskId) : v.role? a = u.role? a := by
  simp only [Overlay.role?, h.tasks]

theorem isFinished (h : u.Kept v) (a : TaskId) : v.isFinished a = u.isFinished a :=
  isFinished_of_exits h.exits a

theorem unstaffed (h : u.Kept v) (hu : u.Unstaffed) : v.Unstaffed := by
  intro a role hr hw
  rw [h.role?] at hr
  rw [h.isFinished]
  exact hu a role hr hw

theorem ends (h : u.Kept v) (hx : ∀ x ∈ u.exits, x.1 < u.tasks.length) :
    ∀ x ∈ v.exits, x.1 < v.tasks.length := by
  rw [h.exits, h.tasks]
  exact hx

end Kept

theorem staff_collect (hu : w.Unstaffed) (hf : w.isFinished t₀ = false)
    (hexits : ∀ x ∈ w.exits, x.1 < w.tasks.length) (hpool : w.manager.pool.Sound)
    (hr : w.role? t₀ = some (.setup manual maxFail)) (hup : w.manager.isShutDown = false) :
    (w.collect t₀ manual maxFail).Staff t₀ := by
  have hk := w.kept_collected t₀ manual
  obtain ⟨hn, hfree⟩ := w.found_spec manual
  rw [collect_eq]
  exact staff_startRound (hk.unstaffed hu) ((hk.isFinished t₀).trans hf)
    (hk.ends hexits) (hk.pool ▸ hpool) ((hk.role? t₀).trans hr) (hk.up.trans hup) hn
    (hk.pool ▸ hfree)

/-- Before its round has started a setup has no staff. -/
theorem Opens.staff (h : w.Opens t₀ manual maxFail v) (hu : w.Unstaffed)
    (hf : w.isFinished t₀ = false) (hexits : ∀ x ∈ w.exits, x.1 < w.tasks.length)
    (hpool : w.manager.pool.Sound) {stage : SetupStage} {task : Task}
    (ht : w.tasks[t₀]? = some task) (hj : task.job = .setup manual maxFail stage)
    (hearly : stage.isEarly = true) (hup : stage = .entering ∨ w.manager.isShutDown = false) :
    v.Staff t₀ := by
  have hr : w.role? t₀ = some (.setup manual maxFail) :=
    role?_eq_some.mpr ⟨task, ht, by rw [hj]; rfl⟩
  have hfin : ∀ {x : Overlay}, w.Kept x → x.isFinished t₀ = false :=
    fun hk => (hk.isFinished t₀).trans hf
  have hwait : ∀ {x : Overlay} (s : SetupStage), w.Kept x → s.isEarly = true →
      w.manager.isShutDown = false → (x.setJob t₀ (.setup manual maxFail s)).Unstaffed ∧
        ∀ task : Task, (x.setJob t₀ (.setup manual maxFail s)).tasks[t₀]? = some task →
          task.job = .setup manual maxFail s := by
    intro x s hk hs hsd
    refine ⟨(hk.unstaffed hu).mono (.setJob x ((hk.role? t₀).trans hr)) fun a task ha _ => ?_, ?_⟩
    · simp only [setJob] at ha
      simpa using (List.getElem?_eq_some_iff.mp ha).1
    · exact fun task => job_of_setJob
  cases h with
  | stays h =>
    refine .none (h.kept.unstaffed hu) fun _ x hx => ?_
    rw [h.kept.tasks, ht] at hx
    obtain rfl := Option.some.inj hx
    exact ⟨manual, maxFail, stage, hj, hearly, hup.imp id h.kept.up.trans⟩
  | waits s h hs hsd =>
    obtain ⟨hu', hjob⟩ := hwait s h.kept hs hsd
    exact .none hu' fun _ x hx =>
      ⟨manual, maxFail, s, hjob x hx, hs, .inr (h.kept.up.trans hsd)⟩
  | sleeps o delay h hsd =>
    obtain ⟨hu', hjob⟩ := hwait (.reserving o) h.kept rfl hsd
    exact .none hu' fun _ x hx =>
      ⟨manual, maxFail, .reserving o, hjob x hx, rfl, .inr (h.kept.up.trans hsd)⟩
  | ends e h he => exact .finish (h.kept.unstaffed hu) (hfin h.kept) e
  | collects h hsd =>
    exact staff_collect (h.kept.unstaffed hu) (hfin h.kept) (h.kept.ends hexits)
      (h.kept.pool ▸ hpool) ((h.kept.role? t₀).trans hr) (h.kept.up.trans hsd)

/-- When a crew has ended its round is judged. -/
theorem staff_judge {as : List TaskId} {draws : List (Nat × PeerAddress)}
    (h : w.Crewed t₀ r as draws) (hs : w.Sound) (hf : w.isFinished t₀ = false)
    (hr : w.role? t₀ = some (.setup manual maxFail)) (hall : ∀ g ∈ as, w.isFinished g = true) :
    (w.judge t₀ manual maxFail r as).Staff t₀ := by
  have hu := h.unstaffed hf hall
  have hpub : w.publish.Unstaffed := hu
  rw [judge_eq]
  split_ifs
  · exact .finish hpub hf _
  · exact .finish hu hf _
  · exact staff_takeTurn hu hf hs.exits hr h.up (h.poised hs hf hall _)

/-- A setup that is called off asks its crew to end, and leaves it in place. -/
theorem Crewed.called_off {as : List TaskId} {draws : List (Nat × PeerAddress)}
    (h : w.Crewed t₀ r as draws) (hf : w.isFinished t₀ = false) :
    ((as.foldl cancel w).finish t₀ .cancelled).Crewed t₀ r as draws := by
  have hx : Stirs t₀ w (as.foldl cancel w) := stirs_cancelAll as fun a ha => by
    obtain ⟨d, -, hplays⟩ := h.draw ha
    exact .inl ⟨d.1, d.2, hplays⟩
  have hg : w.Grows ((as.foldl cancel w).finish t₀ .cancelled) :=
    (Grows.stirs hx).trans (.finish _ t₀ .cancelled)
  have hkeeps := keeps_cancelAll w as
  have hfx := (hx.isFinished t₀).trans hf
  have hended := isFinished_finish (as.foldl cancel w) t₀ .cancelled
  refine h.keep (.of_jobs hg ?_ ?_ ?_ ?_) ?_ ?_ ?_
  · intro g x slot p hb _
    obtain ⟨y, hy, -⟩ := hg.tasks g x hb
    rw [tasks_finish] at hy
    obtain ⟨before, hb', hjy, -⟩ := hkeeps g y hy
    obtain rfl := Option.some.inj (hb.symm.trans hb')
    exact ⟨y, by rwa [tasks_finish], hjy⟩
  · intro a x hx' _
    rw [tasks_finish] at hx'
    obtain ⟨before, hb, -⟩ := hkeeps a x hx'
    exact (List.getElem?_eq_some_iff.mp hb).1
  · rw [manager_finish, Stirs.isShutDown hx]
  · exact fun hn => absurd (hended.symm.trans hn) (by simp)
  · rw [manager_finish, (Calm.stirs hx).pool]
  · intro g a q _ hsucc
    have hat : a ≠ t₀ := by
      rintro rfl
      rw [succeeded, exit?_finish_self hfx] at hsucc
      exact absurd hsucc (by simp [Exit.isFailure])
    rwa [succeeded, (Frame.finish _ _).exits a hat, Overlay.exit?, Moves.exits hx.moves] at hsucc
  · exact fun hn => absurd (hended.symm.trans hn) (by simp)

/-- A setup that is called off ends, and keeps the staff that it has. -/
theorem staff_abandon (hst : w.Staff t₀) (hf : w.isFinished t₀ = false) {task : Task}
    (ht : w.tasks[t₀]? = some task) : (w.abandon t₀ task.job).Staff t₀ := by
  cases hst with
  | none hu hj =>
    obtain ⟨manual, maxFail, stage, hjob, hearly, -⟩ := hj hf task ht
    have hk : w.Kept (w.leaveGate t₀) := by
      obtain ⟨gate, rs, h⟩ := w.leaveGate_frame t₀
      rw [h]
      exact ⟨rfl, rfl, rfl, rfl, rfl⟩
    have hv : w.abandon t₀ task.job = (w.leaveGate t₀).finish t₀ .cancelled := by
      rw [hjob]
      cases stage with
      | settling => exact absurd hearly (by simp [SetupStage.isEarly])
      | entering | queued | reserving => rfl
    rw [hv]
    exact .finish (hk.unstaffed hu) ((hk.isFinished t₀).trans hf) _
  | crew r as draws hc hj =>
    obtain ⟨manual, maxFail, hjob⟩ := hj hf task ht
    have hv : w.abandon t₀ task.job = (as.foldl cancel w).finish t₀ .cancelled := by
      rw [hjob]
      rfl
    rw [hv]
    refine .crew r as draws (hc.called_off hf) fun hn => ?_
    exact absurd ((isFinished_finish _ _ _).symm.trans hn) (by simp)

theorem Staff.rest (h : w.Staff t₀) (t : TaskId) :
    ({ w with ready := w.ready.erase t } : Overlay).Staff t₀ := by
  cases h with
  | none hu hj => exact .none hu hj
  | crew r as draws hc hj => exact .crew r as draws { hc with } hj

theorem staff_resume (hst : w.Staff t₀) (hs : w.Sound) (hf : w.isFinished t₀ = false)
    {task : Task} (ht : w.tasks[t₀]? = some task) : (w.resume t₀ task.job).Staff t₀ := by
  cases hst with
  | none hu hj =>
    obtain ⟨manual, maxFail, stage, hjob, hearly, hup⟩ := hj hf task ht
    rw [hjob]
    exact (opens_pollSetup hearly hup).staff hu hf hs.exits hs.pool ht hjob hearly hup
  | crew r as draws hc hj =>
    obtain ⟨manual, maxFail, hjob⟩ := hj hf task ht
    rw [hjob]
    simp only [resume, pollSetup]
    split
    · next hall =>
      refine staff_judge hc hs hf ?_ (List.all_eq_true.mp hall)
      exact role?_eq_some.mpr ⟨task, ht, by rw [hjob]; rfl⟩
    · exact .crew r as draws hc hj

theorem Lone.poll_setup (h : w.Lone t₀) (hs : w.Sound) (hf : w.isFinished t₀ = false) :
    (w.poll t₀).Lone t₀ := by
  have hm := hs.poll_turns t₀
  obtain ⟨manual, maxFail, hr⟩ := h.call
  obtain ⟨task, ht, -⟩ := role?_eq_some.mp hr
  refine h.turns hm h.lt ?_ ?_
  · intro task q s htask hj _
    exact absurd ((Grows.turns hm).role_of_job hr htask hj) (by simp [Job.role])
  · cases hc : task.isCancelled with
    | true =>
      rw [poll_abandon ht hf hc]
      exact staff_abandon (h.staff.rest t₀) hf ht
    | false =>
      rw [poll_resume ht hf hc]
      exact staff_resume (h.staff.rest t₀) (hs.rest t₀) hf ht

/-- Whatever is polled, a setup that runs alone stays so, and no relay is refused. -/
theorem Lone.poll (h : w.Lone t₀) (hs : w.Sound) (ht : t ∈ w.ready) :
    (w.poll t).Lone t₀ ∧ w.Welcomes (w.poll t) := by
  cases hf : w.isFinished t with
  | true =>
    rw [poll_finished hf]
    exact ⟨⟨h.call, h.honest, h.course, h.alone, h.staff.rest t⟩, .of_eq rfl⟩
  | false =>
    have hlt := hs.ready t ht
    have hm := hs.poll_turns t
    obtain ⟨role, hr⟩ : ∃ role, w.role? t = some role :=
      ⟨_, role?_eq_some.mpr ⟨_, List.getElem?_eq_getElem hlt, rfl⟩⟩
    have hquiet : (∀ q, role ≠ .attempt q) → w.Welcomes (w.poll t) := by
      intro hne
      refine .of_eq (Turns.offers hm hlt fun q hq => ?_)
      exact hne q (Option.some.inj (hr.symm.trans hq))
    cases role with
    | setup manual maxFail =>
      obtain rfl := h.alone t _ hr rfl hf
      exact ⟨h.poll_setup hs hf, hquiet (by simp)⟩
    | shutdown =>
      obtain rfl := h.alone t _ hr rfl hf
      obtain ⟨manual, maxFail, hc⟩ := h.call
      exact absurd (hr.symm.trans hc) (by simp)
    | guard slot p => exact ⟨h.poll_guard hs hf hr, hquiet (by simp)⟩
    | attempt q => exact h.poll_attempt hs hf hr
    | watch | close | release =>
      exact ⟨h.poll_solitary hs hf hr rfl rfl, hquiet (by simp)⟩

end RelayUpkeep.Overlay
