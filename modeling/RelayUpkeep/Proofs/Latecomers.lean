import RelayUpkeep.Proofs.Closing

/-! # Rounds that begin late

A setup looks whether the manager is shut down before it waits for channels, and not again when it
has them. So one that was waiting when a shutdown began may still draw candidates, once. No other
setup does. -/

namespace RelayUpkeep

/-- The setup waits for the reservation lock or for channels. -/
def Job.awaitsChannels : Job → Bool
  | .setup _ _ .queued | .setup _ _ (.reserving _) => true
  | _ => false

theorem Job.isFresh_of_awaitsChannels {job : Job} (h : job.awaitsChannels = true) :
    job.isFresh = false := by
  unfold Job.awaitsChannels at h
  split at h <;> first | rfl | exact absurd h (by simp)

theorem Job.awaitsChannels_cases {job : Job} (h : job.awaitsChannels = true) :
    ∃ manual maxFail, job = .setup manual maxFail .queued ∨
      ∃ o, job = .setup manual maxFail (.reserving o) := by
  unfold Job.awaitsChannels at h
  split at h
  · exact ⟨_, _, .inl rfl⟩
  · exact ⟨_, _, .inr ⟨_, rfl⟩⟩
  · exact absurd h (by simp)

theorem Job.awaitsChannels_of_setup {job : Job} {manual : List PeerAddress} {maxFail : Nat}
    (hr : job.role = .setup manual maxFail)
    (h : job.isQueued = true ∨ job.isReserving = true) : job.awaitsChannels = true := by
  cases job with
  | setup manual maxFail stage =>
    cases stage with
    | queued | reserving => rfl
    | entering | settling => exact absurd h (by simp [Job.isQueued, Job.isReserving])
  | shutdown | guardAttempt | attempt | watch | closeRelay | releaseCreator =>
    simp [Job.role] at hr

namespace Overlay

variable {t s : TaskId} {u v w : Overlay} {manual : List PeerAddress} {maxFail : Nat}

/-- Setup `s` draws a candidate: whoever guards the attempt is new. -/
def Draws (s : TaskId) (u v : Overlay) : Prop :=
  ∃ a slot p, u.tasks.length ≤ a ∧ v.Plays a (.guard slot p) (some s)

theorem Keeps.not_draws (h : u.Keeps v) : ¬Draws s u v := by
  rintro ⟨a, slot, p, hnew, task, ha, -⟩
  obtain ⟨before, hb, -⟩ := h a task ha
  exact absurd (List.getElem?_eq_some_iff.mp hb).1 (Nat.not_lt.mpr hnew)

theorem Aloof.not_awaits (h : w.Aloof s) : ¬w.Doing Job.awaitsChannels s := by
  rintro ⟨hf, task, ht, hp⟩
  obtain ⟨manual, maxFail, hj | ⟨o, hj⟩⟩ := Job.awaitsChannels_cases hp
  · exact h.1 ⟨hf, task, ht, by rw [hj]; rfl⟩
  · exact h.2 ⟨hf, task, ht, by rw [hj]; rfl⟩

theorem aloof_of_not_awaits (hr : w.role? s = some (.setup manual maxFail))
    (h : ¬w.Doing Job.awaitsChannels s) : w.Aloof s := by
  obtain ⟨task, ht, hrole⟩ := role?_eq_some.mp hr
  constructor <;> rintro ⟨hf, task', ht', hp⟩ <;>
    obtain rfl := Option.some.inj (ht.symm.trans ht')
  · exact h ⟨hf, task, ht, Job.awaitsChannels_of_setup hrole (.inl hp)⟩
  · exact h ⟨hf, task, ht, Job.awaitsChannels_of_setup hrole (.inr hp)⟩

theorem Doing.role?_awaits (h : w.Doing Job.awaitsChannels s) :
    ∃ manual maxFail, w.role? s = some (.setup manual maxFail) := by
  obtain ⟨-, task, ht, hp⟩ := h
  obtain ⟨manual, maxFail, hj | ⟨o, hj⟩⟩ := Job.awaitsChannels_cases hp <;>
    exact ⟨manual, maxFail, role?_eq_some.mpr ⟨task, ht, by rw [hj]; rfl⟩⟩

/-! ## One step -/

/-- Guards work for setups. -/
theorem Sound.guarded (h : w.Sound) {g : TaskId} {slot : Nat} {p : PeerAddress}
    (hp : w.Plays g (.guard slot p) (some s)) :
    ∃ manual maxFail, w.role? s = some (.setup manual maxFail) := by
  obtain ⟨task, hg, hrole, hpar⟩ := hp
  obtain ⟨-, role, hr, hlead⟩ := h.parents g task s hg hpar
  rw [hrole] at hlead
  cases role with
  | setup manual maxFail => exact ⟨manual, maxFail, hr⟩
  | shutdown | guard | attempt | watch | close | release => exact absurd hlead (by simp [Role.leads])

/-- Only a setup that goes on draws candidates. -/
theorem Sound.draws (h : w.Sound) {x : Act} (hd : Draws s w (w.act x)) :
    x = .poll s ∧ s ∈ w.ready ∧ ∃ manual maxFail, w.role? s = some (.setup manual maxFail) := by
  obtain ⟨a, slot, p, hnew, task, ha, hrole, hp⟩ := hd
  rcases h.parent_new ha hnew with hp' | ⟨s', hs', hx, hp'⟩
  · exact absurd (hp.symm.trans hp') (by simp)
  obtain rfl := Option.some.inj (hp.symm.trans hp')
  obtain ⟨manual, maxFail, hr⟩ := (h.act x).guarded ⟨task, ha, hrole, hp⟩
  rw [(h.grows_act x).role?_eq (h.ready s hs')] at hr
  exact ⟨hx, hs', manual, maxFail, hr⟩

/-- Once the manager is shut down, a setup that does not wait for channels starts nobody, and does
not come to wait for them. -/
theorem poll_down (hdown : w.manager.isShutDown = true)
    (hr : w.role? s = some (.setup manual maxFail)) (hn : ¬w.Doing Job.awaitsChannels s) :
    (w.poll s).Aloof s ∧ w.Keeps (w.poll s) := by
  have hstay : ({ w with ready := w.ready.erase s } : Overlay).Aloof s := aloof_of_not_awaits hr hn
  have hend : ∀ (v : Overlay) (e : Exit), v.tasks = w.tasks →
      (v.finish s e).Aloof s ∧ w.Keeps (v.finish s e) := fun v e hv =>
    ⟨aloof_finish v s e, .of_eq ((tasks_finish v s e).trans hv)⟩
  obtain ⟨task, ht, hrole⟩ := role?_eq_some.mp hr
  cases hf : w.isFinished s with
  | true =>
    rw [poll_finished hf]
    exact ⟨hstay, .of_eq rfl⟩
  | false =>
    cases hc : task.isCancelled with
    | true =>
      rw [poll_abandon ht hf hc]
      exact ⟨aloof_finish _ _ _, keeps_abandon _ _ _⟩
    | false =>
      rw [poll_resume ht hf hc]
      cases hj : task.job with
      | setup manual maxFail stage =>
        cases stage with
        | entering =>
          rw [resume, pollSetup, enterSetup, if_pos hdown]
          exact hend _ _ rfl
        | queued | reserving => exact absurd ⟨hf, task, ht, by rw [hj]; rfl⟩ hn
        | settling r as =>
          simp only [resume, pollSetup, judge_eq]
          split_ifs with hall hsat hdead
          · exact hend _ _ rfl
          · exact hend _ _ rfl
          · exact absurd (by simp [isTornDown, hdown]) hdead
          · exact ⟨hstay, .of_eq rfl⟩
      | shutdown | guardAttempt | attempt | watch | closeRelay | releaseCreator =>
        simp [hj, Job.role] at hrole

/-- A setup that waits for channels goes on waiting, or starts its round and waits no more. -/
theorem Doing.poll_down (hd : w.Doing Job.awaitsChannels s)
    (hdown : w.manager.isShutDown = true) : (w.poll s).Aloof s ∨ w.Keeps (w.poll s) := by
  obtain ⟨hf, task, ht, hp⟩ := hd
  cases hc : task.isCancelled with
  | true =>
    rw [poll_abandon ht hf hc]
    exact .inl (aloof_finish _ _ _)
  | false =>
    rw [poll_resume ht hf hc]
    obtain ⟨manual, maxFail, hj | ⟨o, hj⟩⟩ := Job.awaitsChannels_cases hp
    · simp only [hj, resume, pollSetup]
      split
      · exact .inl (reserve_settled (w := { w with ready := w.ready.erase s }) (.inr hdown)).2
      · exact .inr (.of_eq rfl)
    · have hr : ({ w with ready := w.ready.erase s } : Overlay).role? s =
          some (.setup manual maxFail) := role?_eq_some.mpr ⟨task, ht, by rw [hj]; rfl⟩
      rw [hj]
      exact .inl (passes_reserved hr o).aloof

/-- Whoever draws a candidate after the manager was shut down was waiting for channels, and does
not wait for them any more. -/
theorem Sound.draws_down (h : w.Sound) (hdown : w.manager.isShutDown = true) {x : Act}
    (hd : Draws s w (w.act x)) :
    x = .poll s ∧ w.Doing Job.awaitsChannels s ∧ (w.act x).Aloof s := by
  obtain ⟨rfl, hready, manual, maxFail, hr⟩ := h.draws hd
  rw [Overlay.act, if_pos hready] at hd ⊢
  have haw : w.Doing Job.awaitsChannels s := by
    by_contra hn
    exact (poll_down hdown hr hn).2.not_draws hd
  exact ⟨rfl, haw, (haw.poll_down hdown).resolve_right fun hk => hk.not_draws hd⟩

/-- Nobody comes to wait for channels once the manager is shut down. -/
theorem Sound.awaits_act (h : w.Sound) (hdown : w.manager.isShutDown = true) {x : Act}
    (hd : (w.act x).Doing Job.awaitsChannels s) : w.Doing Job.awaitsChannels s := by
  by_cases hx : x = .poll s
  · subst hx
    simp only [Overlay.act] at hd
    split at hd
    · next hready =>
      by_contra hn
      obtain ⟨manual, maxFail, hr⟩ := hd.role?_awaits
      rw [(Grows.turns (h.poll_turns s)).role?_eq (h.ready s hready)] at hr
      exact (poll_down hdown hr hn).1.not_awaits hd
    · exact hd
  · exact (h.doing_act hx fun _ => Job.isFresh_of_awaitsChannels).mp hd

theorem Sound.awaits_run (h : w.Sound) (hdown : w.manager.isShutDown = true) (acts : List Act)
    (hd : (w.run acts).Doing Job.awaitsChannels s) : w.Doing Job.awaitsChannels s := by
  induction acts generalizing w with
  | nil => exact hd
  | cons x acts ih =>
    exact h.awaits_act hdown (ih (h.act x) ((h.grows_act x).shutDown hdown) hd)

/-! ## Whole runs -/

/-- From the first step of a shutdown on, whoever draws candidates is a setup that was waiting for
channels before that step. It draws them when it has waited, and never again. -/
theorem only_waiting_setups_draw (config : RelayConfig) (mine : PeerAddress) (before : List Act)
    (t : TaskId) (h : ((start config mine).run before).begins t = true) (more : List Act) (x : Act)
    (s : TaskId) :
    let u := (start config mine).run before
    let w := (u.act (.poll t)).run more
    Draws s w (w.act x) → x = .poll s ∧ u.Doing Job.awaitsChannels s ∧
      ∀ rest y, ¬Draws s ((w.act x).run rest) (((w.act x).run rest).act y) := by
  intro u w hd
  have hu : u.Sound := sound_run (sound_start config mine) before
  have hv := hu.act (.poll t)
  have hstop := (hu.stopped_of_begins h).1
  have hw : w.Sound := sound_run hv more
  have hdown : w.manager.isShutDown = true := (hv.run_stopped hstop more).1.down
  obtain ⟨hx, haw, haloof⟩ := hw.draws_down hdown hd
  refine ⟨hx, ?_, fun rest y hd' => ?_⟩
  · have hd₀ := hv.awaits_run hstop.down more haw
    have hst : (.poll t : Act) ≠ .poll s := by
      rintro ⟨⟩
      obtain ⟨-, -, task, ht, hj, -⟩ := begins_iff.mp h
      obtain ⟨manual, maxFail, hr⟩ := hd₀.role?_awaits
      rw [(hu.grows_act _).role? (role?_eq_some.mpr ⟨task, ht, by rw [hj]⟩)] at hr
      exact absurd hr (by simp [Job.role])
    exact (hu.doing_act hst fun _ => Job.isFresh_of_awaitsChannels).mp hd₀
  · have hdown' := (hw.grows_act x).shutDown hdown
    have hrest := grows_run (hw.act x) rest
    have haw' := ((sound_run (hw.act x) rest).draws_down (hrest.shutDown hdown') hd').2.1
    exact haloof.not_awaits ((hw.act x).awaits_run hdown' rest haw')

/-- A setup waits for channels when the manager is shut down, and another one for the lock behind
it. -/
theorem only_waiting_setups_draw_sample :
    let before : List Act := [.reservation ⟨50, .succeed⟩ {}, .setUp [.sample 2] 0, .poll 0,
      .setUp [.sample 3] 0, .poll 1, .shutDown]
    let u := (start {} (.sample 1)).run before
    let w := (u.act (.poll 2)).run [.elapse 50, .poll 0]
    u.begins 2 = true ∧ Draws 1 w (w.act (.poll 1)) ∧ u.Doing Job.awaitsChannels 1 := by
  intro before u w
  have hb : u.begins 2 = true := by decide +kernel
  have hd : Draws 1 w (w.act (.poll 1)) := ⟨4, 0, .sample 3, by decide +kernel,
    ⟨.guardAttempt 0 (.sample 3) none, some 1, false⟩, by decide +kernel, rfl, rfl⟩
  exact ⟨hb, hd,
    (only_waiting_setups_draw {} (.sample 1) before 2 hb [.elapse 50, .poll 0] (.poll 1) 1 hd).2.1⟩

/-- A shutdown begins while a setup waits for channels; when they are there, the setup draws a
candidate all the same. -/
theorem waiting_setup_draws :
    let u := (start {} (.sample 1)).run [.reservation ⟨50, .succeed⟩ {}, .setUp [.sample 2] 0,
      .poll 0, .shutDown]
    let w := (u.act (.poll 1)).run [.elapse 50]
    u.begins 1 = true ∧ w.manager.isShutDown = true ∧ Draws 0 w (w.act (.poll 0)) := by
  refine ⟨by decide +kernel, by decide +kernel, 2, 0, .sample 2, by decide +kernel,
    ⟨.guardAttempt 0 (.sample 2) none, some 0, false⟩, by decide +kernel, rfl, rfl⟩

end Overlay

end RelayUpkeep
