import RelayUpkeep.Proofs.Answers

/-! # Attempts whose call was given up

When a setup is given up, those who guard its attempts are asked to end, and no further attempt is
made for it. The attempts themselves go on, and each comes to its end: an error makes its candidate
count as failed, and a relay is offered to the pool. Only a crash is not remembered any more, since
whoever would have heard of it has gone. -/

namespace RelayUpkeep.Overlay

variable {t g a : TaskId} {u v w : Overlay} {manual : List PeerAddress} {maxFail slot due : Nat}
  {p q : PeerAddress} {c : ConnId} {s : AttemptStage} {acts : List Act} {y : Act} {e : Exit}
  {i : Nat}

/-! ## No further attempts -/

/-- Those who guard the attempts of a setup that was given up have ended, or are to. -/
def Dismissed (w : Overlay) : Prop :=
  ∀ t g slot p, w.exit? t = some .cancelled → w.Plays g (.guard slot p) (some t) →
    w.isFinished g = true ∨ ∃ task : Task, w.tasks[g]? = some task ∧ task.isCancelled = true

theorem dismissed_start (config : RelayConfig) (address : PeerAddress) :
    (start config address).Dismissed := by
  rintro t g slot p he -
  exact absurd he (by simp [start, exit?])

/-- A setup that goes on does not end as one that was given up. -/
theorem Cause.ne_cancelled {stage : SetupStage} (h : w.Cause t manual stage e) :
    e ≠ .cancelled := by
  cases h <;> simp

theorem Dismissed.act (h : w.Dismissed) (hs : w.Sound) (hm : w.Mustered) (y : Act) :
    (w.act y).Dismissed := by
  intro t g slot p he hp
  have hg := hs.grows_act y
  have hlt : t < w.tasks.length := Nat.lt_of_not_le fun hnew => hs.untended hnew hp
  obtain ⟨manual, maxFail, hr⟩ := (hs.act y).guarded hp
  rw [hg.role?_eq hlt] at hr
  -- only the step in which the setup is given up asks its guards to end
  rcases goes_act hlt y with hy | ⟨rfl, job, hgo⟩ | ⟨rfl, ⟨hready, hf⟩, hk, -, task, ht, hc⟩
  · have ha := hs.aside hlt hy
    rcases h t g slot p (ha.exit.symm.trans he) (ha.back hg hp) with hfin | ⟨task, ht, hc⟩
    · exact .inl (hg.isFinished hfin)
    · obtain ⟨task', ht', hkept⟩ := hg.tasks g task ht
      exact .inr ⟨task', ht', hkept.cancelled hc⟩
  · obtain ⟨stage, rfl⟩ := Job.eq_setup (Option.some.inj ((role?_of_going hgo).symm.trans hr))
    have hcause := ((advances_act hgo).ended (going?_eq_some.mp hgo).2.1 he).1
    exact absurd rfl hcause.ne_cancelled
  · cases hfg : (w.act (.poll t)).isFinished g with
    | true => exact .inl rfl
    | false =>
      have hold := hk.back hg hp
      obtain ⟨task', ht', -⟩ := hp
      exact .inr ⟨task', ht', hm.dismisses hr hready hf ht hc hold (hg.unfinished hfg) ht'⟩

theorem dismissed_run (config : RelayConfig) (mine : PeerAddress) (acts : List Act) :
    ((start config mine).run acts).Dismissed := by
  induction acts using List.reverseRecOn with
  | nil => exact dismissed_start config mine
  | append_singleton acts y ih =>
    exact run_concat _ acts y ▸ ih.act (sound_run (sound_start config mine) acts)
      (mustered_run config mine acts) y

/-- Whoever guarded an attempt of a setup that was given up does not go on. -/
theorem Dismissed.going (h : w.Dismissed) (he : w.exit? t = some .cancelled)
    (hp : w.Plays g (.guard slot p) (some t)) : w.going? g = none := by
  refine Option.eq_none_iff_forall_ne_some.mpr fun job hgo => ?_
  obtain ⟨-, hf, task, ht, hc, -⟩ := going?_eq_some.mp hgo
  rcases h t g slot p he hp with hfin | ⟨task', ht', hc'⟩
  · exact absurd (hf.symm.trans hfin) (by simp)
  · obtain rfl := Option.some.inj (ht.symm.trans ht')
    exact absurd (hc.symm.trans hc') (by simp)

/-- No attempt is new that is made for a setup that was given up. -/
theorem Dismissed.old_act (h : w.Dismissed) (hs : w.Sound) (he : w.exit? t = some .cancelled)
    (hr : (w.act y).role? a = some (.attempt q)) (hc : (w.act y).client? a = some t) :
    w.role? a = some (.attempt q) ∧ w.client? a = some t := by
  have hlt : a < w.tasks.length := by
    -- a new attempt would have been started by a guard that went on
    by_contra hnew
    obtain ⟨g, hpar, hg⟩ := Option.bind_eq_some_iff.mp hc
    obtain ⟨task, ht, hrole⟩ := role?_eq_some.mp hr
    have hplays : (w.act y).Plays a (.attempt q) (some g) :=
      ⟨task, ht, hrole, by simpa [parent?, ht] using hpar⟩
    obtain ⟨rfl, -, slot, hgo, -⟩ := hs.engages hplays (Nat.le_of_not_lt hnew)
    obtain ⟨-, -, guard, hguard, -, hj⟩ := going?_eq_some.mp hgo
    obtain ⟨guard', hguard', -, hsame, -⟩ := (hs.grows_act (.poll g)).tasks g guard hguard
    have hparent : guard.parent = some t := by
      rw [← hsame]
      simpa [parent?, hguard'] using hg
    have hnone := h.going he ⟨guard, hguard, by rw [hj]; rfl, hparent⟩
    exact absurd (hnone.symm.trans hgo) (by simp)
  exact ⟨(hs.grows_act y).role?_eq hlt ▸ hr, hs.client?_act hlt ▸ hc⟩

/-! ## Attempts come to an end -/

/-- Attempts that have not ended are ready, or will be at some moment. -/
def Underway (w : Overlay) : Prop :=
  ∀ a q g, w.Plays a (.attempt q) (some g) → w.isFinished a = false → ∃ due, w.Waits a due

theorem underway_start (config : RelayConfig) (address : PeerAddress) :
    (start config address).Underway := by
  rintro a q g ⟨task, ht, -⟩
  exact absurd ht (by simp [start])

theorem Underway.pends (h : w.Underway) (hp : w.Plays a (.attempt q) (some g))
    (hf : w.isFinished a = false) : ∃ s due, w.Pends a (.attempt q s) due := by
  obtain ⟨due, hw⟩ := h a q g hp hf
  obtain ⟨task, ht, hrole, -⟩ := hp
  obtain ⟨s, hj⟩ := Job.eq_attempt hrole
  exact ⟨s, due, ⟨task, ht, hj⟩, hf, hw⟩

theorem Underway.act (h : w.Underway) (hs : w.Sound) (y : Act) : (w.act y).Underway := by
  intro a q g hp hf
  have hg := hs.grows_act y
  by_cases hlt : a < w.tasks.length
  swap
  · exact ⟨0, .inl (hs.entering_new hp (Nat.le_of_not_lt hlt)).1⟩
  obtain ⟨s, due, hpends⟩ := h.pends (hp.back hg hlt) (hg.unfinished hf)
  by_cases hy : y = .poll a ∧ a ∈ w.ready
  · obtain ⟨rfl, hready⟩ := hy
    have hnears := hpends.nears
    rw [Overlay.act, if_pos hready] at hf ⊢
    rcases hnears with hend | ⟨s', due', -, -, hw⟩
    · exact absurd (hf.symm.trans hend) (by simp)
    · exact ⟨due', hw⟩
  · exact ⟨due, (hpends.act hs fun hya hx => hy ⟨hya, hx⟩).waits⟩

theorem underway_run (config : RelayConfig) (mine : PeerAddress) (acts : List Act) :
    ((start config mine).run acts).Underway := by
  induction acts using List.reverseRecOn with
  | nil => exact underway_start config mine
  | append_singleton acts y ih =>
    exact run_concat _ acts y ▸ ih.act (sound_run (sound_start config mine) acts) y

/-- In a fair run each attempt that there is comes to its end. -/
theorem Underway.ends (h : w.Underway) (hs : w.Sound) (hp : w.Plays a (.attempt q) (some g))
    {acts : Nat → Act} (hfair : w.Fair acts) : ∃ n, (w.after acts n).isFinished a = true := by
  cases hf : w.isFinished a with
  | true => exact ⟨0, hf⟩
  | false =>
    obtain ⟨s, due, hpends⟩ := h.pends hp hf
    obtain ⟨n, -, hend⟩ :=
      hfair.attempt_ends hs (show (w.after acts 0).Pends a (.attempt q s) due from hpends)
    exact ⟨n, hend⟩

/-! ## Cancelled setups -/

theorem dismissed_while (config : RelayConfig) (mine : PeerAddress) (before during : List Act)
    (he : ((start config mine).run before).exit? t = some .cancelled)
    (hr : ((start config mine).run (before ++ during)).role? a = some (.attempt q))
    (hc : ((start config mine).run (before ++ during)).client? a = some t) :
    ((start config mine).run before).role? a = some (.attempt q) ∧
      ((start config mine).run before).client? a = some t := by
  induction during using List.reverseRecOn with
  | nil =>
    rw [List.append_nil] at hr hc
    exact ⟨hr, hc⟩
  | append_singleton during y ih =>
    have hs := sound_run (sound_start config mine) (before ++ during)
    have hgrows := grows_run (sound_run (sound_start config mine) before) during
    rw [← run_append] at hgrows
    rw [← List.append_assoc, run_concat] at hr hc
    obtain ⟨hr', hc'⟩ := (dismissed_run config mine (before ++ during)).old_act hs
      (hgrows.exit? he) hr hc
    exact ih hr' hc'

/-- What becomes of attempt `a` on `q` of a run, whether its setup goes on or was given up. -/
structure SeenThrough (w : Overlay) (acts : List Act) (a : TaskId) (q : PeerAddress) : Prop where
  /-- However the run is continued, as long as that is fair, the attempt ends. -/
  ends : ∀ more, (w.run acts).Fair more → ∃ n, ((w.run acts).after more n).isFinished a = true
  /-- It ends with the error that it was answered with, or with a connection and an offer, or it
  has crashed. -/
  accounted : ∀ e, (w.run acts).exit? a = some e →
    (∃ error i, e = .failed error ∧ w.AnsweredAt acts a q (.error error) i) ∨
      (∃ c i j, e = .done ∧ w.AnsweredAt acts a q (.ok c) i ∧ w.OffersAt acts a c j) ∨
      ∃ crash, e = .crashed crash
  /-- With a connection it makes its offer, unless it crashes as it closes the connection for a
  relay to push to. -/
  offered : ∀ c i, w.AnsweredAt acts a q (.ok c) i → (w.run acts).isFinished a = true →
    (∃ j, w.OffersAt acts a c j) ∨ w.manager.config.kind = .push ∧
      ∃ text, (w.run acts).exit? a = some (.crashed (.collaborator text))
  /-- With an error its candidate fails. -/
  failed : ∀ error i, w.AnsweredAt acts a q (.error error) i → w.FailsAt acts q i
  /-- As long as the clock does not overflow, the candidate then counts as failed until the wait
  time has passed. -/
  remembered : w.Along (fun w _ => w.InTime) acts →
    ∀ error i, w.AnsweredAt acts a q (.error error) i →
      ∀ later, (w.run acts).now ≤ later →
        later ≤ (w.run (acts.take i)).now + w.manager.config.failedWait.nanos →
          (w.run acts).manager.failed.contains q later = true
  /-- Nobody fails in the step in which it crashes. -/
  unheard : ∀ y text, (w.run acts).isFinished a = false →
    ((w.run acts).act y).exit? a = some (.crashed (.collaborator text)) →
      (w.run acts).failing? y = none

theorem seenThrough_run (config : RelayConfig) (mine : PeerAddress) (acts : List Act)
    (hp : ((start config mine).run acts).Plays a (.attempt q) (some g)) :
    (start config mine).SeenThrough acts a q where
  ends _ hfair := (underway_run config mine acts).ends (sound_run (sound_start config mine) acts)
    hp hfair
  accounted _ he := (fares_run config mine acts hp).accounted he
  offered c i ha hf := by
    rcases answered_run config mine acts ha with ho | ⟨hk, ⟨hf', -⟩ | hcrash⟩
    · exact .inl ho
    · exact absurd (hf'.symm.trans hf) (by simp)
    · exact .inr ⟨hk, hcrash⟩
  failed _ _ ha := ha.fails
  remembered halong _ i ha _ hnow hlater :=
    (contains_run config mine halong q hnow).mpr ⟨i, q, ha.fails, rfl, hlater⟩
  unheard _ _ hf he := (recent_run config mine acts).crash_unheard hp.role? hf he

/-- After a setup was given up no candidate is drawn for it, there is no attempt for it that was not
there then, and those who guard its attempts do not go on. Its attempts are seen through: they
end, connections lead to offers, and errors to candidates that count as failed. A crash does not,
since nobody hears of it any more. -/
theorem cancelled_setups_keep_attempts (config : RelayConfig) (mine : PeerAddress)
    (before during : List Act) (t : TaskId) (manual : List PeerAddress) (maxFail : Nat) :
    let u := (start config mine).run before
    let v := (start config mine).run (before ++ during)
    u.role? t = some (.setup manual maxFail) → u.exit? t = some .cancelled →
      v.drawn t = u.drawn t ∧
      (∀ a q, v.role? a = some (.attempt q) → v.client? a = some t →
        u.role? a = some (.attempt q) ∧ u.client? a = some t) ∧
      (∀ g slot p, v.Plays g (.guard slot p) (some t) → v.going? g = none) ∧
      ∀ a q, u.role? a = some (.attempt q) → u.client? a = some t →
        (start config mine).SeenThrough (before ++ during) a q := by
  intro u v hrole hexit
  have hs : u.Sound := sound_run (sound_start config mine) before
  have hv : v = u.run during := run_append ..
  have hg : u.Grows v := hv ▸ grows_run hs during
  refine ⟨?_, fun a q => dismissed_while config mine before during hexit, fun g slot p hp =>
    (dismissed_run config mine _).going (hg.exit? hexit) hp, fun a q hr hc => ?_⟩
  · rw [hv]
    exact hs.drawn_ended hrole (isFinished_of_exit? hexit) during
  · obtain ⟨g, hparent, -⟩ := Option.bind_eq_some_iff.mp hc
    obtain ⟨task, ht, hj⟩ := role?_eq_some.mp hr
    have hp : u.Plays a (.attempt q) (some g) :=
      ⟨task, ht, hj, by simpa [parent?, ht] using hparent⟩
    exact seenThrough_run config mine _ (hp.mono hg)

/-- A setup is given up while its attempt shakes hands. The attempt goes on, and its relay is
pooled. -/
theorem cancelled_setups_keep_attempts_sample :
    let before : List Act := [.behave [.sample 2] ⟨{}, ⟨50, .succeed⟩, {}, false, none⟩,
      .setUp [.sample 2] 0, .poll 0, .poll 1, .poll 2, .cancel 0, .poll 0]
    let during : List Act := [.poll 1, .elapse 50, .poll 2]
    let u := (start {} (.sample 1)).run before
    let v := (start {} (.sample 1)).run (before ++ during)
    u.exit? 0 = some .cancelled ∧ u.isFinished 2 = false ∧
      (start {} (.sample 1)).SeenThrough (before ++ during) 2 (.sample 2) ∧
      v.exit? 2 = some .done ∧ v.pooled = [0] := by
  refine ⟨by decide +kernel, by decide +kernel, ?_, by decide +kernel, by decide +kernel⟩
  refine (cancelled_setups_keep_attempts {} (.sample 1) _ _ 0 [.sample 2] 0 ?_ ?_).2.2.2 2
    (.sample 2) ?_ ?_ <;> decide +kernel

/-- A setup is given up while its attempt shakes hands. The attempt crashes then, and its candidate
does not count as failed. -/
theorem crashed_orphans_are_forgotten :
    let before : List Act := [.behave [.sample 2] ⟨{}, ⟨50, .crash "handshake"⟩, {}, false, none⟩,
      .setUp [.sample 2] 0, .poll 0, .poll 1, .poll 2, .cancel 0, .poll 0]
    let during : List Act := [.poll 1, .elapse 50, .poll 2]
    let u := (start {} (.sample 1)).run before
    let v := (start {} (.sample 1)).run (before ++ during)
    u.exit? 0 = some .cancelled ∧ u.role? 2 = some (.attempt (.sample 2)) ∧
      u.client? 2 = some 0 ∧ u.isFinished 2 = false ∧
      v.exit? 2 = some (.crashed (.collaborator "handshake")) ∧
      v.manager.failed.contains (.sample 2) v.now = false := by
  decide +kernel

end RelayUpkeep.Overlay
