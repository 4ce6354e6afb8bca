import RelayUpkeep.Proofs.Openings

/-! # A setup that runs alone

As long as nobody else sets up or shuts down and peers answer for themselves, the pool has room for
each relay that the attempts of a setup bring, and none of them is a twin. Whoever else goes on
leaves it so. -/

namespace RelayUpkeep.Overlay

variable {t t₀ : TaskId} {u v w : Overlay} {r : Round} {manual : List PeerAddress} {maxFail : Nat}

/-! ## Peers that answer for themselves -/

/-- Whoever stands in for a peer goes by the same name. -/
def Honest (w : Overlay) : Prop :=
  ∀ x ∈ w.behaviours, ∀ other, x.2.standIn = some other → other.id = x.1

theorem Honest.partner (h : w.Honest) (q : PeerAddress) : (w.partner q).id = q.id := by
  unfold Overlay.partner behaviour
  cases hl : w.behaviours.lookup q.id with
  | none => rfl
  | some b =>
    obtain ⟨l₁, l₂, hb, -⟩ := List.lookup_eq_some_iff.mp hl
    cases hs : b.standIn with
    | none => simp [hs]
    | some other =>
      have hid := h (q.id, b) (by rw [hb]; simp) other hs
      simpa [hs] using hid

theorem Honest.of_eq (h : u.Honest) (hb : v.behaviours = u.behaviours) : v.Honest := by
  unfold Honest
  rw [hb]
  exact h

/-- An attempt on a peer that answers for itself: the relay that it offers is of that peer. -/
def honestCourse (q : PeerAddress) : Course where
  stage w s := w.Honest ∧
    match s with
    | .partingFrom c _ => ∃ conn, w.conns[c]? = some conn ∧ conn.remote.id = q.id
    | .discarding .. => False
    | _ => True
  ends e := e.isFailure = true
  offers p := p.id = q.id

theorem honestCourse_mono {q : PeerAddress} {s : AttemptStage} (hg : u.Grows v) (hh : v.Honest)
    (h : (honestCourse q).stage u s) : (honestCourse q).stage v s := by
  refine ⟨hh, ?_⟩
  cases s with
  | partingFrom c o =>
    obtain ⟨conn, hc, hid⟩ := h.2
    obtain ⟨conn', hc', hk⟩ := hg.conns c conn hc
    exact ⟨conn', hc', hk.remote ▸ hid⟩
  | discarding => exact h.2
  | entering | connecting | shaking => trivial

theorem honestCourse_sound (t : TaskId) (q : PeerAddress) : (honestCourse q).Sound t q where
  stirs h hk := honestCourse_mono (.stirs h) (hk.1.of_eq (Frame.stirs h).behaviours) hk
  enter hk := ⟨hk.1, trivial⟩
  unconnected _ _ _ he := he
  connect _ hk := ⟨hk.1, trivial⟩
  unshaken _ _ _ he := he
  keep _ hk := hk.1.partner q
  part _ hv hd hp hk :=
    ⟨hk.1.of_eq (Frame.stirs hv).behaviours, _, hd, by rw [hp]; exact hk.1.partner q⟩
  unparted _ _ he := he
  parted _ hc hk := by
    obtain ⟨-, conn', hc', hid⟩ := hk
    obtain rfl := Option.some.inj (hc.symm.trans hc')
    exact hid
  discarded hk := absurd hk.2 (by simp)

/-! ## The invariant -/

/-- Who works for setup `t₀`: nobody before its round has started, and then a crew. -/
inductive Staff (t₀ : TaskId) (w : Overlay) : Prop
  | none (h : w.Unstaffed) (hj : w.isFinished t₀ = false → ∀ task : Task,
      w.tasks[t₀]? = some task → ∃ manual maxFail stage, task.job = .setup manual maxFail stage ∧
        stage.isEarly = true ∧ (stage = .entering ∨ w.manager.isShutDown = false))
  | crew (r : Round) (as : List TaskId) (draws : List (Nat × PeerAddress))
      (h : w.Crewed t₀ r as draws) (hj : w.isFinished t₀ = false → ∀ task : Task,
        w.tasks[t₀]? = some task →
        ∃ manual maxFail, task.job = .setup manual maxFail (.settling r as))

/-- What is known of the attempts that are under way. -/
def OnCourse (k : PeerAddress → Course) (w : Overlay) : Prop :=
  ∀ (a : TaskId) (task : Task) q s, w.tasks[a]? = some task → task.job = .attempt q s →
    w.isFinished a = false → (k q).stage w s

/-- Setup `t₀` has the manager for itself. -/
structure Lone (t₀ : TaskId) (w : Overlay) : Prop where
  call : ∃ manual maxFail, w.role? t₀ = some (.setup manual maxFail)
  honest : w.Honest
  course : w.OnCourse honestCourse
  alone : ∀ a role, w.role? a = some role → role.isOwn = true → w.isFinished a = false → a = t₀
  staff : w.Staff t₀

theorem Unstaffed.mono (h : u.Unstaffed) (hg : u.Grows v)
    (hnew : ∀ (a : TaskId) (task : Task), v.tasks[a]? = some task →
      task.job.role.works = true → a < u.tasks.length) : v.Unstaffed := by
  intro a role hr hw
  obtain ⟨task, ht, rfl⟩ := role?_eq_some.mp hr
  rw [hg.role?_eq (hnew a task ht hw)] at hr
  exact hg.isFinished (h a _ hr hw)

/-- A poll keeps what is known of the attempts if that holds of the one who went on. -/
theorem OnCourse.turns {k : PeerAddress → Course} (h : u.OnCourse k) (hm : Turns t u v)
    (hlt : t < u.tasks.length) (hmono : ∀ q s, (k q).stage u s → (k q).stage v s)
    (henter : ∀ q, (k q).stage v .entering)
    (hself : ∀ (task : Task) q s, v.tasks[t]? = some task → task.job = .attempt q s →
      v.isFinished t = false → (k q).stage v s) : v.OnCourse k := by
  intro a task q s ha hj hf
  by_cases hat : a = t
  · exact hself task q s (hat ▸ ha) hj (hat ▸ hf)
  · by_cases hnew : u.tasks.length ≤ a
    · rcases Turns.fresh hm hlt ha hnew with ⟨r, hw⟩ | ⟨role, -, hs⟩
      · exact absurd (hj.symm.trans hw) (by simp)
      · rcases Role.starts_cases hs with ⟨_, _, h'⟩ | ⟨q', h'⟩ | ⟨_, h'⟩ | ⟨_, h'⟩ <;>
          rw [hj] at h' <;> cases h'
        exact henter q
    · have hb := List.getElem?_eq_getElem (Nat.lt_of_not_le hnew)
      obtain ⟨task', ha', hj'⟩ := (Frame.turns hm).jobs a _ hb
      obtain rfl := Option.some.inj (ha.symm.trans ha')
      have hjob := (hj'.resolve_left hat).symm.trans hj
      exact hmono q s (h a _ q s hb hjob ((Grows.turns hm).unfinished hf))

/-- What is known of the attempts is kept as long as none is started or comes to another stage. -/
theorem OnCourse.keep {k : PeerAddress → Course} (h : u.OnCourse k) (hg : u.Grows v)
    (hold : ∀ (a : TaskId) (task : Task) q s, v.tasks[a]? = some task → task.job = .attempt q s →
      ∃ before : Task, u.tasks[a]? = some before ∧ before.job = .attempt q s)
    (hmono : ∀ q s, (k q).stage u s → (k q).stage v s) : v.OnCourse k := by
  intro a task q s ha hj hf
  obtain ⟨before, hb, hjob⟩ := hold a task q s ha hj
  exact hmono q s (h a before q s hb hjob (hg.unfinished hf))

/-- A poll keeps what is known of peers, attempts and calls. -/
theorem Lone.turns (h : u.Lone t₀) (hm : Turns t u v) (hlt : t < u.tasks.length)
    (hself : ∀ (task : Task) q s, v.tasks[t]? = some task → task.job = .attempt q s →
      v.isFinished t = false → (honestCourse q).stage v s)
    (hst : v.Staff t₀) : v.Lone t₀ := by
  have hg := Grows.turns hm
  have hh : v.Honest := h.honest.of_eq (Frame.turns hm).behaviours
  refine ⟨?_, hh, ?_, ?_, hst⟩
  · obtain ⟨manual, maxFail, hc⟩ := h.call
    exact ⟨manual, maxFail, hg.role? hc⟩
  · exact h.course.turns hm hlt (fun q s => honestCourse_mono hg hh) (fun _ => ⟨hh, trivial⟩) hself
  · intro a role hr ho hf
    by_cases hnew : u.tasks.length ≤ a
    · obtain ⟨task, ha, rfl⟩ := role?_eq_some.mp hr
      rcases Turns.fresh hm hlt ha hnew with ⟨r, hw⟩ | ⟨role, -, hs⟩
      · rw [hw] at ho
        exact absurd ho (by simp [Job.role, Role.isOwn])
      · rcases Role.starts_cases hs with ⟨_, _, h'⟩ | ⟨_, h'⟩ | ⟨_, h'⟩ | ⟨_, h'⟩ <;>
          rw [h'] at ho <;> exact absurd ho (by simp [Job.role, Role.isOwn])
    · rw [hg.role?_eq (Nat.lt_of_not_le hnew)] at hr
      exact h.alone a role hr ho (hg.unfinished hf)

/-! ## Polls of others -/

/-- The staff of a call that nobody called off is what its job says. -/
theorem Staff.same (h : u.Staff t₀) (hg : u.Grows v)
    (hjob : ∀ task : Task, v.tasks[t₀]? = some task →
      ∃ before : Task, u.tasks[t₀]? = some before ∧ task.job = before.job)
    (hup : v.manager.isShutDown = u.manager.isShutDown)
    (hnone : u.Unstaffed → v.Unstaffed)
    (hcrew : ∀ {r as draws}, u.Crewed t₀ r as draws → v.Crewed t₀ r as draws) : v.Staff t₀ := by
  cases h with
  | none h hj =>
    refine .none (hnone h) fun hf task ht => ?_
    obtain ⟨before, hb, he⟩ := hjob task ht
    rw [he, hup]
    exact hj (hg.unfinished hf) before hb
  | crew r as draws h hj =>
    refine .crew r as draws (hcrew h) fun hf task ht => ?_
    obtain ⟨before, hb, he⟩ := hjob task ht
    rw [he]
    exact hj (hg.unfinished hf) before hb

theorem Lone.ne (h : w.Lone t₀) {role : Role} (hr : w.role? t = some role)
    (ho : role.isOwn = false) : t₀ ≠ t := by
  rintro rfl
  obtain ⟨manual, maxFail, hc⟩ := h.call
  obtain rfl := Option.some.inj (hr.symm.trans hc)
  exact absurd ho (by simp [Role.isOwn])

theorem Lone.lt (h : w.Lone t₀) : t₀ < w.tasks.length := by
  obtain ⟨manual, maxFail, hc⟩ := h.call
  exact lt_of_role? hc

/-- What a watcher or a part of a shutdown does is no matter for a setup that runs alone. -/
theorem Lone.poll_solitary (h : w.Lone t₀) (hs : w.Sound) (hf : w.isFinished t = false)
    {role : Role} (hr : w.role? t = some role) (hsol : role.isSolitary = true)
    (hw : role.works = false) : (w.poll t).Lone t₀ := by
  have hlt := lt_of_role? hr
  have hm := hs.poll_turns t
  have hg := Grows.turns hm
  have hne : t₀ ≠ t := by
    refine h.ne hr ?_
    cases role <;> first | rfl | exact absurd hsol (by simp [Role.isSolitary])
  have hsd : w.role? t ≠ some .shutdown := by
    rintro hq
    obtain rfl := Option.some.inj (hr.symm.trans hq)
    exact absurd hsol (by simp [Role.isSolitary])
  refine h.turns hm hlt ?_ (h.staff.same hg (fun task => (Frame.turns hm).job hne h.lt)
    (Turns.isShutDown hm hlt hsd) ?_ fun hc => hc.turns hs hm hf hr hsol hw)
  · intro task q s ht hj _
    obtain rfl : Role.attempt q = role := hg.role_of_job hr ht hj
    exact absurd hw (by simp [Role.works])
  · refine fun hu => hu.mono hg fun a task ha hworks => ?_
    by_contra hnew
    rcases Turns.fresh hm hlt ha (Nat.le_of_not_lt hnew) with ⟨x, hx⟩ | ⟨role', hr', hst⟩
    · rw [hx] at hworks
      exact absurd hworks (by simp [Job.role, Role.works])
    · obtain rfl := Option.some.inj (hr.symm.trans hr')
      exact absurd hst (by simp [Role.starts_of_isSolitary hsol])

/-- A task that guards or attempts something is one of the crew. -/
theorem Lone.crewed (h : w.Lone t₀) {role : Role} (hr : w.role? t = some role)
    (hw : role.works = true) (hf : w.isFinished t = false) : ∃ r as draws,
    w.Crewed t₀ r as draws ∧ (w.isFinished t₀ = false → ∀ task : Task, w.tasks[t₀]? = some task →
      ∃ manual maxFail, task.job = .setup manual maxFail (.settling r as)) := by
  cases h.staff with
  | none hu => exact absurd (hu t role hr hw) (by simp [hf])
  | crew r as draws hc hj => exact ⟨r, as, draws, hc, hj⟩

theorem Lone.poll_guard (h : w.Lone t₀) (hs : w.Sound) (hf : w.isFinished t = false)
    {slot : Nat} {p : PeerAddress} (hr : w.role? t = some (.guard slot p)) :
    (w.poll t).Lone t₀ := by
  have hm := hs.poll_turns t
  have hg := Grows.turns hm
  obtain ⟨r, as, draws, hc, hj⟩ := h.crewed hr rfl hf
  refine h.turns hm (lt_of_role? hr) ?_ (.crew r as draws (hc.poll_guard hs hr hf) ?_)
  · intro task q s ht hj _
    exact absurd (hg.role_of_job hr ht hj) (by simp [Job.role])
  · intro hft task ht
    obtain ⟨before, hb, he⟩ := (Frame.turns hm).job (h.ne hr rfl) h.lt ht
    rw [he]
    exact hj (hg.unfinished hft) before hb

theorem Lone.poll_attempt (h : w.Lone t₀) (hs : w.Sound) (hf : w.isFinished t = false)
    {q : PeerAddress} (hr : w.role? t = some (.attempt q)) :
    (w.poll t).Lone t₀ ∧ w.Welcomes (w.poll t) := by
  have hm := hs.poll_turns t
  have hg := Grows.turns hm
  obtain ⟨r, as, draws, hc, hj⟩ := h.crewed hr rfl hf
  have hk := honestCourse_sound t q
  have ha := hs.attempts_poll hk hr hf (fun _ _ _ => rfl) fun task s ht hjob =>
    h.course t task q s ht hjob hf
  have hcv := hc.attempt hs hr hf (fun _ hp => hp) ha fun _ he => he
  refine ⟨h.turns hm (lt_of_role? hr) ?_ (.crew r as draws hcv ?_),
    hc.welcomes hs hr hf (fun _ hp => hp) ha⟩
  · intro task q' s ht hjob hft
    obtain rfl : q' = q := Role.attempt.inj (hg.role_of_job hr ht hjob)
    exact hc.stage hs hr hf (fun _ hp => hp) ha hk ht hjob hft
  · intro hft task ht
    obtain ⟨before, hb, he⟩ := (Frame.turns hm).job (h.ne hr rfl) h.lt ht
    rw [he]
    exact hj (hg.unfinished hft) before hb

end RelayUpkeep.Overlay
