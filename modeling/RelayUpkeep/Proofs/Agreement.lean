import RelayUpkeep.Proofs.Gate
import RelayUpkeep.Proofs.Solo

/-! # A setup agrees with its reference

A setup that has the manager for itself is never kept waiting for the lock. In a fair run it comes
to collect its candidates unless its reservation fails, and each of its iterations comes to an end.
So it ends, and with the result that its reference tells. -/

namespace RelayUpkeep.Overlay

variable {t₀ : TaskId} {v w : Overlay} {acts : Nat → Act} {n : Nat} {r : Round} {as : List TaskId}
  {manual : List PeerAddress} {maxFail : Nat} {succeeds : PeerAddress → Bool} {goal : SetupResult}

/-! ## The start -/

/-- A setup that starts when nobody works for the manager and the node is up runs alone. -/
theorem solo_setUp (hs : w.Sound) (hi : w.isIdle = true) (hh : w.Honest)
    (hup : w.node.isDown = false) (manual : List PeerAddress) (maxFail : Nat) :
    (w.act (.setUp manual maxFail)).Solo w.tasks.length w.yields := by
  have hl := lone_setUp hi hh manual maxFail
  have hself : (w.act (.setUp manual maxFail)).tasks[w.tasks.length]? =
      some ⟨.setup manual maxFail .entering, none, false⟩ := List.getElem?_concat_length
  have hlast : ∀ {a : TaskId} {task : Task},
      (w.act (.setUp manual maxFail)).tasks[a]? = some task → a ≤ w.tasks.length := by
    intro a task ha
    have hlt := (List.getElem?_eq_some_iff.mp ha).1
    have hlen : (w.act (.setUp manual maxFail)).tasks.length = w.tasks.length + 1 :=
      List.length_append
    rw [hlen] at hlt
    exact Nat.le_of_lt_succ hlt
  have hgo : (w.act (.setUp manual maxFail)).isFinished w.tasks.length = false :=
    not_isFinished_of_le hs.exits (Nat.le_refl _)
  have hun : (w.act (.setUp manual maxFail)).Unstaffed := by
    cases hl.staff with
    | none hu => exact hu
    | crew r as draws _ hj =>
      obtain ⟨manual', maxFail', he⟩ := hj hgo _ hself
      exact absurd he (by simp)
  refine ⟨hl, hgo, hup, rfl, ?_, ?_, ?_⟩
  · rintro a task ha ⟨-, hat⟩
    obtain rfl : a = w.tasks.length :=
      hat.elim id fun hlt => absurd (hlast ha) (Nat.not_le.mpr hlt.1)
    obtain rfl := Option.some.inj (hself.symm.trans ha)
    rfl
  · intro a task q s ha hj hf
    have hfin := hun a _ (role?_eq_some.mpr ⟨task, ha, rfl⟩) (by rw [hj]; rfl)
    exact absurd (hf.symm.trans hfin) (by simp)
  · intro a q hlt hr
    obtain ⟨task, ha, -⟩ := role?_eq_some.mp hr
    exact absurd (hlast ha) (Nat.not_le.mpr hlt)

/-! ## The lock and the channels -/

/-- Whoever waits for the lock or holds it is the setup itself. -/
theorem Solo.line_eq (h : w.Solo t₀ succeeds) (hl : w.Lined) (ha : w.Aloof t₀) :
    w.manager.gate.line = [] := by
  refine List.eq_nil_iff_forall_not_mem.mpr fun a hm => ?_
  have hdoing := (hl.line a).mp hm
  obtain ⟨hf, task, ht, hown⟩ : w.isFinished a = false ∧ ∃ task : Task, w.tasks[a]? = some task ∧
      task.job.role.isOwn = true := by
    rcases hdoing with ⟨hf, task, ht, hp⟩ | ⟨hf, task, ht, hp⟩ <;> refine ⟨hf, task, ht, ?_⟩
    · cases hj : task.job <;> first | rfl | exact absurd hp (by simp [hj, Job.isQueued])
    · cases hj : task.job <;> first | rfl | exact absurd hp (by simp [hj, Job.isReserving])
  obtain rfl := h.lone.alone a _ (role?_eq_some.mpr ⟨task, ht, rfl⟩) hown hf
  exact hdoing.elim ha.1 ha.2

/-- A setup that runs alone does not find the manager shut down later. -/
theorem Solo.isShutDown_act (h : w.Solo t₀ succeeds) (hs : w.Sound) (x : Act) :
    (w.act x).manager.isShutDown = w.manager.isShutDown := by
  rcases w.poll_cases x with ⟨t, ht, rfl, he⟩ | ⟨t, -, rfl, he⟩ | hp
  · rw [he]
    cases hf : w.isFinished t with
    | true => rw [poll_finished hf]
    | false =>
      refine Turns.isShutDown (hs.poll_turns t) (hs.ready t ht) fun hr => ?_
      obtain rfl := h.lone.alone t _ hr rfl hf
      obtain ⟨manual, maxFail, hcall⟩ := h.lone.call
      exact absurd (hr.symm.trans hcall) (by simp)
  · rw [he]
  · rcases outside_or_moves (w := w) hp with ⟨address, rfl⟩ | ho
    · rfl
    · exact ho.up

/-- If the reservation succeeds, the one who holds the lock collects its candidates at once, or
waits for the channels. -/
theorem reserve_succeed (hup : w.manager.isShutDown = false)
    (hres : w.manager.creator = none → w.reserveScript.outcome = .succeed) (t : TaskId)
    (manual : List PeerAddress) (maxFail : Nat) :
    (∃ y : Overlay, w.Reserves y ∧ w.reserve t manual maxFail = y.collect t manual maxFail) ∨
      ∃ (y : Overlay) (delay : Nat), w.Reserves y ∧ w.reserve t manual maxFail =
        y.sleep t (.setup manual maxFail (.reserving .succeed)) delay := by
  unfold reserve
  split
  · exact .inl ⟨_, .releaseGate w, rfl⟩
  · next hc =>
    rw [if_neg (by simp [hup])]
    unfold play
    rw [hres hc]
    split
    · obtain ⟨y, hy, he⟩ :=
        reserved_succeed (w.log (.reserve t 0 w.manager.config.maxRelays)) t manual maxFail
      exact .inl ⟨y, (Reserves.log w rfl).trans hy, he⟩
    · exact .inr ⟨_, _, .log w rfl, rfl⟩

/-! ## Collecting -/

/-- In a fair run the setup goes on with the job that it has, and not before all is about it as it
was. -/
theorem Fair.solo_goes (h : w.Fair acts) (hs : w.Sound)
    (ha : ∀ n, (acts n).isAside t₀ = true) (hn : (w.after acts n).Solo t₀ succeeds)
    (hup : (w.after acts n).manager.isShutDown = false) {job : Job} {due : Nat}
    (hp : (w.after acts n).Pends t₀ job due) :
    ∃ m, n ≤ m ∧ acts m = .poll t₀ ∧ t₀ ∈ (w.after acts m).ready ∧
      (w.after acts m).Solo t₀ succeeds ∧ (w.after acts m).manager.isShutDown = false ∧
      (w.after acts m).Pends t₀ job due ∧
      ∀ k, n ≤ k → k < m → ¬(acts k = .poll t₀ ∧ t₀ ∈ (w.after acts k).ready) := by
  obtain ⟨m, hm, hpoll, hready, hpends, ⟨hsolo, hupm⟩, hfirst⟩ := h.goes_first hs hp
    (P := fun v => v.Solo t₀ succeeds ∧ v.manager.isShutDown = false) ⟨hn, hup⟩
    fun k _ ⟨hsk, huk⟩ hno => ⟨(hsk.still (hs.after acts k) (ha k) hno).1,
      (hsk.isShutDown_act (hs.after acts k) (acts k)).trans huk⟩
  exact ⟨m, hm, hpoll, hready, hsolo, hupm, hpends, hfirst⟩

/-- At moment `m` the setup goes on and collects its candidates. -/
def CollectsAt (w : Overlay) (acts : Nat → Act) (t₀ : TaskId) (manual : List PeerAddress)
    (maxFail m : Nat) : Prop :=
  acts m = .poll t₀ ∧ t₀ ∈ (w.after acts m).ready ∧
    (w.after acts m).Collects t₀ manual maxFail

/-- The lock is free for a setup that runs alone, since nobody else could hold it. -/
theorem Solo.poll_entering (h : w.Solo t₀ succeeds) (hl : w.Lined) {task : Task}
    (ht : w.tasks[t₀]? = some task) (hj : task.job = .setup manual maxFail .entering)
    (hup : w.manager.isShutDown = false)
    (hres : w.manager.creator = none → w.reserveScript.outcome = .succeed) :
    (∃ z : Overlay, w.Reserves z ∧ w.poll t₀ = z.collect t₀ manual maxFail) ∨
      ∃ (z : Overlay) (delay : Nat), w.Reserves z ∧
        w.poll t₀ = z.sleep t₀ (.setup manual maxFail (.reserving .succeed)) delay := by
  have hline : w.manager.gate.line = [] := by
    refine h.line_eq hl (aloof_of_job fun task' ht' => ?_)
    obtain rfl := Option.some.inj (ht.symm.trans ht')
    rw [hj]
    exact ⟨rfl, rfl⟩
  obtain ⟨-, -, hheld⟩ := hl.ordered.acquire t₀
  rw [hline, List.isEmpty_nil] at hheld
  let y := ({ w with ready := w.ready.erase t₀ } : Overlay).withManager
    fun m => { m with gate := (m.gate.acquire t₀).1 }
  have hy : w.Reserves y := .of_ready w _ _ _ _
  have hv : w.poll t₀ = y.reserve t₀ manual maxFail := by
    rw [h.resume ht, hj, Overlay.resume, pollSetup, enterSetup, if_neg (by simp [hup])]
    exact if_pos hheld
  rcases y.reserve_succeed hup hres t₀ manual maxFail with ⟨z, hz, he⟩ | ⟨z, delay, hz, he⟩
  · exact .inl ⟨z, hy.trans hz, hv.trans he⟩
  · exact .inr ⟨z, delay, hy.trans hz, hv.trans he⟩

/-- If its reservation succeeds, a setup that runs alone comes to collect its candidates. -/
theorem Fair.collects (h : w.Fair acts) (hs : w.Sound) (hg : w.Gated)
    (ha : ∀ n, (acts n).isAside t₀ = true) (hsolo : w.Solo t₀ succeeds)
    (hup : w.manager.isShutDown = false)
    (hp : w.Pends t₀ (.setup manual maxFail .entering) 0)
    (hres : ∀ n, (w.after acts n).manager.creator = none →
      (w.after acts n).reserveScript.outcome = .succeed) :
    ∃ m, w.CollectsAt acts t₀ manual maxFail m ∧
      (∀ k < m, ¬w.CollectsAt acts t₀ manual maxFail k) ∧ (w.after acts m).Solo t₀ succeeds ∧
      (w.after acts m).Opening t₀ manual maxFail := by
  obtain ⟨m, -, hpoll, hready, hsm, hum, hpm, hfirst⟩ := h.solo_goes hs ha (n := 0) hsolo hup hp
  obtain ⟨task, ht, hj⟩ := hpm.task
  have hlined := (hg.after hs acts m).toLined
  rcases hsm.poll_entering hlined ht hj hum (hres m) with ⟨z, hz, he⟩ | ⟨z, delay, hz, he⟩
  · refine ⟨m, ⟨hpoll, hready, hum, z, hz, he⟩, ?_, hsm, ⟨task, .entering, ht, hj, rfl⟩⟩
    exact fun k hk hc => hfirst k (Nat.zero_le k) hk ⟨hc.1, hc.2.1⟩
  -- the channels take their time
  have hnext : w.after acts (m + 1) = (w.after acts m).poll t₀ := after_poll hpoll hready
  have hz₀ : z.isFinished t₀ = false :=
    (hz.kept.isFinished t₀).trans hsm.going
  have hpends : (w.after acts (m + 1)).Pends t₀ (.setup manual maxFail (.reserving .succeed))
      (z.clock + delay) := by
    rw [hnext, he]
    exact pends_sleep (hz.kept.tasks ▸ hsm.lone.lt) hz₀ _ _
  have hsolo' : (w.after acts (m + 1)).Solo t₀ succeeds :=
    hnext ▸ hsm.poll_self (hs.after acts m) (hnext ▸ hpends.going)
  have hup' : (w.after acts (m + 1)).manager.isShutDown = false := by
    have hsame := hsm.isShutDown_act (hs.after acts m) (.poll t₀)
    rw [Overlay.act, if_pos hready, ← hnext] at hsame
    exact hsame.trans hum
  obtain ⟨k, hk, hpollk, hreadyk, hsk, huk, hpk, hfirst'⟩ := h.solo_goes hs ha hsolo' hup' hpends
  obtain ⟨task', ht', hj'⟩ := hpk.task
  obtain ⟨v, hrv, hev⟩ := reserved_succeed
    ({ w.after acts k with ready := (w.after acts k).ready.erase t₀ } : Overlay) t₀ manual maxFail
  refine ⟨k, ⟨hpollk, hreadyk, huk, v, ?_, ?_⟩, fun i hi hc => ?_, hsk, ⟨task', _, ht', hj', rfl⟩⟩
  · exact Reserves.trans (.of_ready _ _ _ _ _) hrv
  · rw [hsk.resume ht', hj']
    exact hev
  · rcases Nat.lt_trichotomy i m with hlt | rfl | hgt
    · exact hfirst i (Nat.zero_le i) hlt ⟨hc.1, hc.2.1⟩
    · obtain ⟨-, -, -, z', -, he'⟩ := hc
      refine (he' ▸ (gate_collect z' t₀ manual maxFail).2).2 ⟨hnext ▸ hpends.going, ?_⟩
      obtain ⟨task, ht, hj⟩ := hpends.task
      exact ⟨task, hnext ▸ ht, by rw [hj]; rfl⟩
    · exact hfirst' i hgt hi ⟨hc.1, hc.2.1⟩

/-! ## Iterations -/

/-- In a fair run, whoever has just started a crew goes on when the last of it has ended. -/
theorem Fair.waits_for_crew (h : w.Fair acts) (hs : w.Sound) {t : TaskId} {P : Overlay → Prop}
    (hn : P (w.after acts n)) (hf : (w.after acts n).Fresh as)
    (hkeep : ∀ m, n ≤ m → P (w.after acts m) → (acts m = .poll t → t ∈ (w.after acts m).ready →
      ∃ a ∈ as, (w.after acts m).isFinished a = false) → P (w.after acts (m + 1)))
    (hgo : ∀ v, P v → v.isFinished t = false)
    (hcrew : ∀ v, P v → ∃ r draws, v.Assigned t r as draws) :
    ∃ m, n ≤ m ∧ acts m = .poll t ∧ t ∈ (w.after acts m).ready ∧ P (w.after acts m) ∧
      ∀ a ∈ as, (w.after acts m).isFinished a = true := by
  refine h.waits_for hs hn hkeep hgo ?_ ?_ ?_
  · intro v hv g hg
    obtain ⟨r, draws, hassigned⟩ := hcrew v hv
    obtain ⟨d, -, hplays⟩ := exists_zip_of_mem hassigned.crew hg
    exact ⟨_, hplays⟩
  · intro g hg
    obtain ⟨slot, p, hpends⟩ := hf.2 g hg
    exact h.guard_ends hs hpends
  · obtain ⟨g, hg⟩ := List.exists_mem_of_ne_nil as hf.1
    obtain ⟨slot, p, hpends⟩ := hf.2 g hg
    exact ⟨g, hg, hpends.going⟩

/-- In a fair run, the setup goes on when its crew has ended. -/
theorem Fair.round_settles (h : w.Fair acts) (hs : w.Sound)
    (ha : ∀ n, (acts n).isAside t₀ = true) (hn : (w.after acts n).Solo t₀ succeeds)
    (hp : (w.after acts n).Pursues t₀ succeeds goal r as) (hf : (w.after acts n).Fresh as) :
    ∃ m, n ≤ m ∧ acts m = .poll t₀ ∧ t₀ ∈ (w.after acts m).ready ∧
      (w.after acts m).Solo t₀ succeeds ∧ (w.after acts m).Pursues t₀ succeeds goal r as ∧
      ∀ g ∈ as, (w.after acts m).isFinished g = true := by
  obtain ⟨m, hm, hpoll, hready, ⟨hsm, hpm⟩, hall⟩ := h.waits_for_crew hs (t := t₀)
    (P := fun v => v.Solo t₀ succeeds ∧ v.Pursues t₀ succeeds goal r as) ⟨hn, hp⟩ hf
    (fun m _ ⟨hsm, hpm⟩ hno => hsm.waits (hs.after acts m) hpm (ha m) hno)
    (fun v ⟨hsv, _⟩ => hsv.going)
    (fun v ⟨_, draws, hcrew, _⟩ => ⟨r, draws, hcrew.assigned⟩)
  exact ⟨m, hm, hpoll, hready, hsm, hpm, hall⟩

/-- The setup ends in a step after moment `n`, and tells its result. -/
def Concludes (w : Overlay) (acts : Nat → Act) (t₀ : TaskId) (goal : SetupResult) (n : Nat) :
    Prop :=
  ∃ m, n ≤ m ∧ acts m = .poll t₀ ∧ (w.after acts m).isFinished t₀ = false ∧
    (w.after acts (m + 1)).Ended t₀ goal

/-- In a fair run, a round that is under way comes to its result: each iteration leaves fewer
candidates. -/
theorem Fair.round_concludes (h : w.Fair acts) (hs : w.Sound)
    (ha : ∀ n, (acts n).isAside t₀ = true) (hn : (w.after acts n).Solo t₀ succeeds)
    (hp : (w.after acts n).Pursues t₀ succeeds goal r as) (hf : (w.after acts n).Fresh as) :
    w.Concludes acts t₀ goal n := by
  induction hleft : r.candidates.length using Nat.strong_induction_on generalizing n r as with
  | _ left ih =>
    obtain ⟨m, hm, hpoll, hready, hsm, hpm, hall⟩ := h.round_settles hs ha hn hp hf
    have hnext := after_poll hpoll hready
    have hreach := hsm.judges (hs.after acts m) hpm hall
    rcases hreach with hend | ⟨hgo, r', as', hlt, hfresh, hpursues⟩
    · exact ⟨m, hm, hpoll, hsm.going, hnext ▸ hend⟩
    · have hsolo := hsm.poll_self (hs.after acts m) hgo
      rw [← hnext] at hfresh hpursues hsolo
      obtain ⟨k, hk, hend⟩ := ih _ (hleft ▸ hlt) hsolo hpursues hfresh rfl
      exact ⟨k, Nat.le_trans (Nat.le_succ_of_le hm) hk, hend⟩

/-! ## The whole call -/

/-- A setup that runs alone comes to collect its candidates if its reservation succeeds. If it finds
candidates and room, it ends with the result that the reference tells of the candidates found. -/
theorem setup_agrees_with_reference (config : RelayConfig) (mine : PeerAddress)
    (before : List Act) (manual : List PeerAddress) (maxFail : Nat) (acts : Nat → Act) :
    let v := (start config mine).run before
    let w := v.act (.setUp manual maxFail)
    v.isIdle = true → v.Honest → v.node.isDown = false → v.manager.isShutDown = false →
    w.Fair acts → (∀ n, (acts n).isAside v.tasks.length = true) →
    (∀ n, (w.after acts n).manager.creator = none →
      (w.after acts n).reserveScript.outcome = .succeed) →
    ∃ m, w.CollectsAt acts v.tasks.length manual maxFail m ∧
      (∀ k < m, ¬w.CollectsAt acts v.tasks.length manual maxFail k) ∧
      ((w.after acts m).found manual ≠ [] → 0 < (w.after acts m).manager.pool.remaining →
        w.Concludes acts v.tasks.length ((w.after acts m).prospect manual maxFail) m) := by
  intro v w hidle hhonest hnode hup hfair haside hres
  have hv : v.Sound := sound_run (sound_start config mine) before
  have hs : w.Sound := hv.act _
  have hg : w.Gated := (gated_run config mine before).act hv _
  have hsolo : w.Solo v.tasks.length v.yields := solo_setUp hv hidle hhonest hnode manual maxFail
  have hpends : w.Pends v.tasks.length (.setup manual maxFail .entering) 0 := by
    refine ⟨⟨_, List.getElem?_concat_length, rfl⟩, hsolo.going, .inl ?_⟩
    exact List.mem_append_right _ (List.mem_singleton_self _)
  obtain ⟨m, hcollects, hfirst, hsm, hopen⟩ :=
    hfair.collects hs hg haside hsolo hup hpends hres
  refine ⟨m, hcollects, hfirst, fun hfound hroom => ?_⟩
  obtain ⟨hpoll, hready, hcollects⟩ := hcollects
  have hreach := hsm.collect (hs.after acts m) hopen hcollects hfound hroom
  have hnext := after_poll hpoll hready
  rcases hreach with hend | ⟨hgo, r, as, -, hfresh, hpursues⟩
  · exact ⟨m, Nat.le_refl m, hpoll, hsm.going, hnext ▸ hend⟩
  · have hsolo' := hsm.poll_self (hs.after acts m) hgo
    rw [← hnext] at hfresh hpursues hsolo'
    obtain ⟨k, hk, hend⟩ := hfair.round_concludes hs haside hsolo' hpursues hfresh
    exact ⟨k, Nat.le_trans (Nat.le_succ m) hk, hend⟩

theorem Sound.reserveScript_act (h : w.Sound) {x : Act} (hx : x.isSchedule = true) :
    (w.act x).reserveScript = w.reserveScript := by
  cases x with
  | poll t =>
    simp only [Overlay.act]
    split
    · exact (Frame.turns (h.poll_turns t)).reserveScript
    · rfl
  | elapse ms =>
    obtain ⟨rs, he, -⟩ := w.advanceTo_eq (w.clock + ms)
    rw [Overlay.act, he]
  | _ => exact absurd hx (by simp [Act.isSchedule])

/-- Both of two relays are required. One of the first two candidates fails after a while, and the
third one takes its place. -/
theorem setup_agrees_with_reference_sample :
    let before : List Act :=
      [.behave [.sample 3] { handshake := ⟨2, .fail (.transport "refused")⟩ }]
    let manual : List PeerAddress := [.sample 2, .sample 3, .sample 4]
    let v := (start { maxRelays := 2, joinPolicy := .allSucceed } (.sample 1)).run before
    let w := v.act (.setUp manual 1)
    w.CollectsAt roundRobin 0 manual 1 2 ∧ w.Concludes roundRobin 0 .satisfied 2 := by
  intro before manual v w
  have hv : v.Sound := sound_run (sound_start _ _) before
  have hhonest : v.Honest := by
    intro x hx other ho
    have hb : v.behaviours = [((PeerAddress.sample 3).id,
        { handshake := ⟨2, .fail (.transport "refused")⟩ })] := by decide +kernel
    rw [hb, List.mem_singleton] at hx
    rw [hx] at ho
    exact absurd ho (by simp)
  have haside : ∀ n, (roundRobin n).isAside 0 = true := by
    intro n
    unfold roundRobin
    split <;> rfl
  have hscript : ∀ n, (w.after roundRobin n).reserveScript = w.reserveScript := by
    intro n
    induction n with
    | zero => rfl
    | succ n ih =>
      refine (((hv.act _).after roundRobin n).reserveScript_act ?_).trans ih
      unfold roundRobin
      split <;> rfl
  obtain ⟨m, hm, hfirst, hresult⟩ := setup_agrees_with_reference
    { maxRelays := 2, joinPolicy := .allSucceed } (.sample 1) before manual 1 roundRobin
    (by decide +kernel) hhonest (by decide +kernel) (by decide +kernel)
    (fair_roundRobin (hv.act _)) haside fun n _ => by rw [hscript]; decide +kernel
  have hcollects : w.CollectsAt roundRobin 0 manual 1 2 := by
    refine ⟨by decide +kernel, by decide +kernel, by decide +kernel,
      { w.after roundRobin 2 with
        manager := { (w.after roundRobin 2).manager with creator := some 0 }
        granted := 1
        journal := [⟨2, .reserve 0 0 2⟩, ⟨2, .granted 0⟩]
        ready := [] }, ⟨_, _, _, [⟨2, .reserve 0 0 2⟩, ⟨2, .granted 0⟩], _, rfl, ?_⟩, ?_⟩
    · simp [Event.isPlain]
    · decide +kernel
  obtain rfl : m = 2 := by
    have hle : m ≤ 2 := Nat.le_of_not_lt fun hlt => hfirst 2 hlt hcollects
    have hne : ∀ k < 2, roundRobin k ≠ .poll 0 := by decide +kernel
    by_contra hm₂
    exact hne m (by omega) hm.1
  have hgoal : (w.after roundRobin 2).prospect manual 1 = .satisfied := by
    decide +kernel
  exact ⟨hm, hgoal ▸ hresult (by decide +kernel) (by decide +kernel)⟩

end RelayUpkeep.Overlay
