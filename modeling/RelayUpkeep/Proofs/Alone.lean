import RelayUpkeep.Proofs.LoneTurns

/-! # Runs of a setup alone

In a run in which nobody else sets up or shuts down, the setup finds room for all that its attempts
bring. So each offer is answered as the pool has to answer it, and none is refused. -/

namespace RelayUpkeep.Overlay

variable {t t₀ : TaskId} {v w : Overlay} {r : Round} {manual : List PeerAddress} {maxFail : Nat}

/-! ## Runs -/

/-- Nobody else sets up or shuts down, and every peer answers for itself. -/
def Alone (_ : Overlay) : Act → Prop
  | .setUp .. | .shutDown => False
  | .behave peers b => ∀ p ∈ peers, ∀ other, b.standIn = some other → other.id = p.id
  | _ => True

/-- From outside only closings are started. -/
theorem Alone.fresh {a : Act} (h : w.Alone a) (hp : a.isPoll = false) {b : TaskId} {task : Task}
    (hb : (w.act a).tasks[b]? = some task) :
    b < w.tasks.length ∨ ∃ r, task.job.role = .close r := by
  have hlt : ∀ {v : Overlay}, v.tasks.length = w.tasks.length → v.tasks[b]? = some task →
      b < w.tasks.length := fun hv hb => hv ▸ (List.getElem?_eq_some_iff.mp hb).1
  cases a with
  | poll => exact absurd hp (by simp [Act.isPoll])
  | setUp | shutDown => exact absurd h (by simp [Alone])
  | closeRelay r =>
    simp only [Overlay.act] at hb
    split at hb
    · rcases getElem?_concat_eq_some hb with hb | ⟨-, rfl⟩
      · exact .inl (List.getElem?_eq_some_iff.mp hb).1
      · exact .inr ⟨r, rfl⟩
    · exact .inl (hlt rfl hb)
  | elapse ms =>
    obtain ⟨rs, he, -⟩ := w.advanceTo_eq (w.clock + ms)
    exact .inl (hlt (by simp only [Overlay.act, he]) hb)
  | cancel t =>
    simp only [Overlay.act] at hb
    split at hb
    · obtain ⟨before, hb', -⟩ := keeps_cancel w t b task hb
      exact .inl (List.getElem?_eq_some_iff.mp hb').1
    · exact .inl (hlt rfl hb)
  | listen r label nested =>
    obtain ⟨relays, more, he, -⟩ := w.listen_note_frame r label nested
    exact .inl (hlt (by simp only [Overlay.act, he]) hb)
  | dropConn c =>
    obtain ⟨before, hb', -⟩ := keeps_dropConn w c b task hb
    exact .inl (List.getElem?_eq_some_iff.mp hb').1
  | observe | behave | learn | nodeDown | reservation | hold | dropManager | moveTo =>
    exact .inl (hlt rfl hb)

theorem Alone.honest {a : Act} (h : w.Alone a) (hw : w.Honest) (hp : a.isPoll = false) :
    (w.act a).Honest := by
  cases a with
  | poll => exact absurd hp (by simp [Act.isPoll])
  | setUp | shutDown => exact absurd h (by simp [Alone])
  | behave peers b =>
    intro x hx other hother
    rcases List.mem_append.mp hx with hx | hx
    · obtain ⟨p, hpeer, rfl⟩ := List.mem_map.mp hx
      exact h p hpeer other hother
    · exact hw x hx other hother
  | elapse ms =>
    obtain ⟨rs, he, -⟩ := w.advanceTo_eq (w.clock + ms)
    exact hw.of_eq (by simp only [Overlay.act, he])
  | closeRelay r =>
    simp only [Overlay.act]
    split
    · exact hw
    · exact hw
  | cancel t =>
    simp only [Overlay.act]
    split
    · exact hw.of_eq (Frame.cancel (t := t) w t).behaviours
    · exact hw
  | listen r label nested =>
    obtain ⟨relays, more, he, -⟩ := w.listen_note_frame r label nested
    exact hw.of_eq (by simp only [Overlay.act, he])
  | dropConn c => exact hw.of_eq (Frame.dropConn (t := 0) w c).behaviours
  | observe | learn | nodeDown | reservation | hold | dropManager | moveTo => exact hw

/-- What happens from outside leaves the crew in place. -/
theorem Crewed.outside (h : w.Crewed t₀ r as draws) (hs : w.Sound) {a : Act} (ha : w.Alone a)
    (hp : a.isPoll = false) (ho : w.Outside (w.act a)) : (w.act a).Crewed t₀ r as draws := by
  refine h.keep (.of_jobs (hs.grows_act a) ?_ ?_ ho.up ?_) ?_ ?_ ?_
  · intro g task slot p hb _
    obtain ⟨task', ht', hj⟩ := ho.jobs g task hb
    exact ⟨task', ht', hj⟩
  · intro b task hb hw
    refine (ha.fresh hp hb).resolve_right ?_
    rintro ⟨x, hx⟩
    exact absurd hw (by simp [hx, Role.works])
  · intro _ g hg task hb hc
    rcases act_cancels hp g task hb hc with ⟨-, hcall⟩ | hbefore
    · obtain ⟨slot, p, hr⟩ := h.staff hg
      obtain ⟨⟨job, parent, cancelled⟩, ht, hj⟩ := role?_eq_some.mp hr
      rw [isCall, ht] at hcall
      cases job <;> simp [Job.role] at hj hcall
    · exact hbefore
  · rw [ho.toCalm.pool]
  · intro g b q _ hsucc
    rwa [succeeded, Overlay.exit?, ho.exits] at hsucc
  · intro _ g _ hf hf'
    rw [isFinished_of_exits ho.exits, hf] at hf'
    exact absurd hf' (by simp)

/-- From outside no attempt is started, and none comes to another stage. -/
theorem Alone.attempt {a : Act} (h : w.Alone a) (hs : w.Sound) (hp : a.isPoll = false)
    {b : TaskId} {task : Task} {q : PeerAddress} {s : AttemptStage}
    (hb : (w.act a).tasks[b]? = some task) (hj : task.job = .attempt q s) :
    ∃ before : Task, w.tasks[b]? = some before ∧ before.job = .attempt q s := by
  have hlt : b < w.tasks.length := by
    refine (h.fresh hp hb).resolve_right ?_
    rintro ⟨x, hx⟩
    exact absurd hx (by simp [hj, Job.role])
  obtain ⟨before, hbefore, he⟩ := (hs.still_act (Act.ne_poll hp b) hlt).1 task hb
  exact ⟨before, hbefore, he ▸ hj⟩

theorem Lone.outside (h : w.Lone t₀) (hs : w.Sound) {a : Act} (ha : w.Alone a)
    (hp : a.isPoll = false) (ho : w.Outside (w.act a)) : (w.act a).Lone t₀ := by
  have hg := hs.grows_act a
  have hh := ha.honest h.honest hp
  have hold : ∀ {b : TaskId}, b < w.tasks.length → ∀ task : Task,
      (w.act a).tasks[b]? = some task →
      ∃ before : Task, w.tasks[b]? = some before ∧ task.job = before.job :=
    fun hlt => (hs.still_act (Act.ne_poll hp _) hlt).1
  refine ⟨?_, hh, ?_, ?_, ?_⟩
  · obtain ⟨manual, maxFail, hc⟩ := h.call
    exact ⟨manual, maxFail, hg.role? hc⟩
  · exact h.course.keep hg (fun _ _ _ _ => ha.attempt hs hp) fun _ _ => honestCourse_mono hg hh
  · intro b role hr hown hf
    obtain ⟨task, hb, rfl⟩ := role?_eq_some.mp hr
    have hlt : b < w.tasks.length := by
      refine (ha.fresh hp hb).resolve_right ?_
      rintro ⟨x, hx⟩
      exact absurd hown (by simp [hx, Role.isOwn])
    rw [hg.role?_eq hlt] at hr
    exact h.alone b _ hr hown (hg.unfinished hf)
  · refine h.staff.same hg (hold h.lt) ho.up (fun hu => ?_)
      fun hc => hc.outside hs ha hp ho
    refine hu.mono hg fun b task hb hw => (ha.fresh hp hb).resolve_right ?_
    rintro ⟨x, hx⟩
    exact absurd hw (by simp [hx, Role.works])

theorem Lone.act (h : w.Lone t₀) (hs : w.Sound) {a : Act} (ha : w.Alone a) :
    (w.act a).Lone t₀ ∧ w.Welcomes (w.act a) := by
  rcases w.poll_cases a with ⟨t, ht, rfl, he⟩ | ⟨t, -, rfl, he⟩ | hp
  · rw [he]
    exact h.poll hs ht
  · rw [he]
    exact ⟨h, .of_eq rfl⟩
  · rcases outside_or_moves (w := w) hp with ⟨address, rfl⟩ | ho
    · refine ⟨⟨h.call, h.honest, h.course, h.alone, ?_⟩, .of_eq rfl⟩
      cases h.staff with
      | none hu hj => exact .none hu hj
      | crew r as draws hc hj => exact .crew r as draws { hc with } hj
    · exact ⟨h.outside hs ha hp ho, .of_eq ho.toCalm.offers⟩

/-- A setup that runs alone never has a relay refused. -/
theorem Lone.run (h : w.Lone t₀) (hs : w.Sound) (acts : List Act) (ha : w.Along Alone acts) :
    w.Welcomes (w.run acts) := by
  have hrun : (w.run acts).Lone t₀ ∧ (w.run acts).Sound ∧ w.Welcomes (w.run acts) := by
    refine run_induction (P := fun v => v.Lone t₀ ∧ v.Sound ∧ w.Welcomes v)
      ⟨h, hs, .of_eq rfl⟩ ?_ acts ha
    rintro v a ⟨hl, hsv, hw⟩ hallowed
    obtain ⟨hl', hw'⟩ := hl.act hsv hallowed
    exact ⟨hl', hsv.act a, hw.trans hw'⟩
  exact hrun.2.2

/-- Nobody works for the manager. -/
def isIdle (w : Overlay) : Bool := w.running.all fun (_, task) => !Job.isManagers task.job

/-- A setup that starts when nobody works for the manager runs alone. -/
theorem lone_setUp (hi : w.isIdle = true) (hh : w.Honest) (manual : List PeerAddress)
    (maxFail : Nat) : (w.act (.setUp manual maxFail)).Lone w.tasks.length := by
  have hidle : ∀ (a : TaskId) (task : Task), w.tasks[a]? = some task →
      Job.isManagers task.job = true → w.isFinished a = true := by
    intro a task ha hm
    by_contra hf
    have hall := List.all_eq_true.mp hi (a, task) (mem_running.mpr ⟨ha, by simpa using hf⟩)
    simp [hm] at hall
  have hnew : ∀ {a : TaskId} {task : Task},
      (w.act (.setUp manual maxFail)).tasks[a]? = some task →
      w.tasks[a]? = some task ∨
        a = w.tasks.length ∧ task.job = .setup manual maxFail .entering := by
    intro a task ha
    rcases getElem?_concat_eq_some ha with ha | ⟨rfl, rfl⟩
    · exact .inl ha
    · exact .inr ⟨rfl, rfl⟩
  have hself : (w.act (.setUp manual maxFail)).tasks[w.tasks.length]? =
      some ⟨.setup manual maxFail .entering, none, false⟩ := List.getElem?_concat_length
  refine ⟨⟨manual, maxFail, role?_eq_some.mpr ⟨_, hself, rfl⟩⟩, hh, ?_, ?_, .none ?_ ?_⟩
  · intro a task q s ha hj hf
    rcases hnew ha with ha | ⟨-, hjob⟩
    · exact absurd ((hidle a task ha (by rw [hj]; rfl)).symm.trans hf) (by simp)
    · exact absurd (hj.symm.trans hjob) (by simp)
  · intro a role hr hown hf
    obtain ⟨task, ha, rfl⟩ := role?_eq_some.mp hr
    rcases hnew ha with ha | ⟨rfl, -⟩
    · refine absurd ((hidle a task ha ?_).symm.trans hf) (by simp)
      cases hj : task.job <;> first | rfl | exact absurd hown (by simp [hj, Job.role, Role.isOwn])
    · rfl
  · intro a role hr hw
    obtain ⟨task, ha, rfl⟩ := role?_eq_some.mp hr
    rcases hnew ha with ha | ⟨-, hjob⟩
    · refine hidle a task ha ?_
      cases hj : task.job <;> first | rfl | exact absurd hw (by simp [hj, Job.role, Role.works])
    · exact absurd hw (by simp [hjob, Job.role, Role.works])
  · intro _ task ht
    obtain rfl := Option.some.inj (hself.symm.trans ht)
    exact ⟨manual, maxFail, .entering, rfl, rfl, .inl rfl⟩

/-! ## All offers -/

/-- The pool is never overfull and never holds a peer twice, and each offer is answered as the pool
calls for. What was offered is pooled or the pool is full, as long as nothing was lost; and a setup
that runs alone never has a relay refused. -/
theorem offers_answered (config : RelayConfig) (mine : PeerAddress) (acts : List Act) :
    let w := (start config mine).run acts
    w.manager.pool.len ≤ config.maxRelays ∧
    (w.manager.pool.addresses.map PeerAddress.id).Nodup ∧
    (∀ a, w.Answers (w.act a)) ∧
    (w.hasLoss = false → w.manager.isShutDown = false →
      w.manager.pool.len = config.maxRelays ∨ ∀ x ∈ w.offers, ∃ relay,
        w.relays[x.1]? = some relay ∧ w.manager.pool.containsPeer relay.address = true) ∧
    (w.isIdle = true → w.Honest → ∀ manual maxFail more,
      (w.act (.setUp manual maxFail)).Along Alone more →
        w.Welcomes ((w.act (.setUp manual maxFail)).run more)) := by
  intro w
  have hs : w.Sound := sound_run (sound_start config mine) acts
  have hcap : w.manager.pool.capacity = config.maxRelays :=
    (grows_run (sound_start config mine) acts).capacity
  refine ⟨hcap ▸ hs.pool.bounded, ?_, hs.answers_act, ?_, ?_⟩
  · rw [Pool.addresses, List.map_map]
    exact hs.pool.peers
  · intro hl hd
    rw [← hcap]
    exact absorbed_run config mine acts hl hd
  · intro hi hh manual maxFail more halong
    exact (lone_setUp hi hh manual maxFail).run (hs.act _) more halong

/-- A second setup leaves out the peer that is pooled and brings the other one. -/
theorem offers_answered_sample :
    let acts : List Act := [.setUp [.sample 2] 0, .poll 0, .poll 1, .poll 2, .poll 1, .poll 0]
    let w := (start {} (.sample 1)).run acts
    let more : List Act := [.poll 4, .poll 5, .poll 6]
    let v := (w.act (.setUp [.sample 2, .sample 3] 0)).run more
    w.manager.pool.len = 1 ∧ v.offers = [(0, some .added), (1, some .added)] ∧
      (∀ x ∈ w.offers, ∃ relay, w.relays[x.1]? = some relay ∧
        w.manager.pool.containsPeer relay.address = true) ∧ w.Welcomes v := by
  intro acts w more v
  have h := offers_answered {} (.sample 1) acts
  have hlen : w.manager.pool.len = 1 := by decide +kernel
  have hhonest : w.Honest := by
    have hb : w.behaviours = [] := by decide +kernel
    intro x hx
    rw [hb] at hx
    exact absurd hx (by simp)
  refine ⟨hlen, by decide +kernel, ?_, ?_⟩
  · refine (h.2.2.2.1 (by decide +kernel) (by decide +kernel)).resolve_left ?_
    exact fun hfull => absurd (hlen.symm.trans hfull) (by decide)
  · exact h.2.2.2.2 (by decide +kernel) hhonest _ 0 more ⟨trivial, trivial, trivial, trivial⟩

end RelayUpkeep.Overlay
