import RelayUpkeep.Proofs.Advancing
import RelayUpkeep.Proofs.Latecomers

/-! # Who works for a setup

While a setup goes on, it waits for each of its guards that has not ended. Only a setup that was
given up asks them to end. A guard that ends otherwise has heard how its attempt ended. -/

namespace RelayUpkeep.Overlay

variable {t g a : TaskId} {u v w x : Overlay} {manual : List PeerAddress} {maxFail : Nat}
  {stage : SetupStage} {r : Round} {as : List TaskId} {p q : PeerAddress} {slot : Nat} {y : Act}

/-! ## One act and one setup -/

/-- A setup waits where it is, and draws nobody. -/
structure Aside (t : TaskId) (u v : Overlay) : Prop where
  job : v.job? t = u.job? t
  exit : v.exit? t = u.exit? t
  idle : ¬Draws t u v

/-- What others do leaves a setup aside. -/
theorem Sound.aside (h : w.Sound) (hlt : t < w.tasks.length)
    (hy : ¬(y = .poll t ∧ t ∈ w.ready ∧ w.isFinished t = false)) : w.Aside t (w.act y) := by
  obtain ⟨hjob, hexit⟩ := h.idle_act hlt hy
  refine ⟨?_, hexit, fun hd => ?_⟩
  · obtain ⟨task, ht, -⟩ := (h.grows_act y).tasks t _ (List.getElem?_eq_getElem hlt)
    obtain ⟨before, hb, hj⟩ := hjob task ht
    simp [job?, ht, hb, hj]
  · obtain ⟨rfl, hready, -⟩ := h.draws hd
    have hf : w.isFinished t = true := by
      by_contra hf
      exact hy ⟨rfl, hready, by simpa using hf⟩
    rw [Overlay.act, if_pos hready, poll_finished hf] at hd
    exact (Keeps.of_eq rfl : w.Keeps { w with ready := w.ready.erase t }).not_draws hd

theorem Keeps.job? (h : u.Keeps v) (hg : u.Grows v) (hlt : t < u.tasks.length) :
    v.job? t = u.job? t := by
  have hb := List.getElem?_eq_getElem hlt
  obtain ⟨task, ht, -⟩ := hg.tasks t _ hb
  obtain ⟨before, hb', hj, -⟩ := h t task ht
  simp [Overlay.job?, ht, hb', hj]

theorem Keeps.length_le (h : u.Keeps v) : v.tasks.length ≤ u.tasks.length := by
  by_contra hlt
  obtain ⟨before, hb, -⟩ := h u.tasks.length _ (List.getElem?_eq_getElem (Nat.lt_of_not_le hlt))
  exact absurd (List.getElem?_eq_some_iff.mp hb).1 (Nat.lt_irrefl _)

theorem exit?_abandon {job : Job} (hf : w.isFinished t = false) :
    (w.abandon t job).exit? t = some .cancelled := by
  obtain ⟨tasks, gate, rs, -, h⟩ := w.abandon_frame t job
  rw [h]
  refine exit?_finish_self ?_ _
  exact hf

/-- A task is left as it is, goes on, or ends because it was given up. -/
theorem goes_act (hlt : t < w.tasks.length) (y : Act) :
    ¬(y = .poll t ∧ t ∈ w.ready ∧ w.isFinished t = false) ∨
    (y = .poll t ∧ ∃ job, w.going? t = some job) ∨
    y = .poll t ∧ (t ∈ w.ready ∧ w.isFinished t = false) ∧ w.Keeps (w.act y) ∧
      (w.act y).exit? t = some .cancelled ∧
      ∃ task : Task, w.tasks[t]? = some task ∧ task.isCancelled = true := by
  by_cases hy : y = .poll t ∧ t ∈ w.ready ∧ w.isFinished t = false
  swap
  · exact .inl hy
  obtain ⟨rfl, hready, hf⟩ := hy
  have ht := List.getElem?_eq_getElem hlt
  cases hc : (w.tasks[t]).isCancelled with
  | true =>
    refine .inr (.inr ⟨rfl, ⟨hready, hf⟩, ?_, ?_, _, ht, hc⟩) <;>
      rw [Overlay.act, if_pos hready, poll_abandon ht hf hc]
    · exact keeps_abandon { w with ready := w.ready.erase t } t _
    · exact exit?_abandon hf
  | false => exact .inr (.inl ⟨rfl, _, going?_eq_some.mpr ⟨hready, hf, _, ht, hc, rfl⟩⟩)

theorem Job.eq_setup {job : Job} (h : job.role = .setup manual maxFail) :
    ∃ stage, job = .setup manual maxFail stage := by
  cases job <;> simp only [Job.role, Role.setup.injEq, reduceCtorEq] at h
  exact ⟨_, by rw [h.1, h.2]⟩

theorem Job.eq_guardAttempt {job : Job} (h : job.role = .guard slot p) :
    ∃ attempt, job = .guardAttempt slot p attempt := by
  cases job <;> simp only [Job.role, Role.guard.injEq, reduceCtorEq] at h
  exact ⟨_, by rw [h.1, h.2]⟩

/-- A setup is left aside, goes on, or ends because it was given up. -/
theorem Sound.setup_act (h : w.Sound) (hr : w.role? t = some (.setup manual maxFail)) (y : Act) :
    w.Aside t (w.act y) ∨
    (y = .poll t ∧ ∃ stage, w.going? t = some (.setup manual maxFail stage)) ∨
    y = .poll t ∧ w.Keeps (w.act y) ∧ (w.act y).exit? t = some .cancelled := by
  have hlt := lt_of_role? hr
  rcases goes_act hlt y with hy | ⟨hy, job, hg⟩ | ⟨hy, -, hk, he, -⟩
  · exact .inl (h.aside hlt hy)
  · obtain ⟨stage, rfl⟩ := Job.eq_setup (Option.some.inj ((role?_of_going hg).symm.trans hr))
    exact .inr (.inl ⟨hy, stage, hg⟩)
  · exact .inr (.inr ⟨hy, hk, he⟩)

/-! ## What a step leaves -/

/-- A setup that goes on asks nobody to end. -/
theorem Advances.steady (h : u.Advances t manual maxFail stage v) (hgt : g ≠ t)
    (hs : u.Steady g) (hlt : g < u.tasks.length) : v.Steady g := by
  rintro a task ha rfl
  cases h with
  | rests hk => exact hs.task (hk.tasks ▸ ha)
  | waits s _ _ ht =>
    rw [ht, setJob, List.getElem?_modify_ne _ _ hgt.symm] at ha
    exact hs.task ha
  | ends hk =>
    rw [tasks_finish, hk.tasks] at ha
    exact hs.task ha
  | draws hk =>
    rw [staffed_tasks _ _ _ _ _ _ hgt, hk.tasks, List.getElem?_append_left hlt] at ha
    exact hs.task ha

/-- Who guards an attempt for the setup after a step is new in a draw, or did before. -/
theorem Advances.guards (h : u.Advances t manual maxFail stage v)
    (hr : u.role? t = some (.setup manual maxFail)) (hv : u.Grows v)
    (hg : v.Plays g (.guard slot p) (some t)) :
    u.Plays g (.guard slot p) (some t) ∨ ∃ x r, v = x.staffed t manual maxFail r ∧ u.Kept x ∧
      g ∈ List.range' u.tasks.length r.draws.length := by
  have hlt := lt_of_role? hr
  have hgt : g ≠ t := by
    rintro rfl
    exact absurd ((hv.role? hr).symm.trans hg.role?) (by simp)
  obtain ⟨task, ht, hrole, hp⟩ := hg
  cases h with
  | rests hk => exact .inl ⟨task, hk.tasks ▸ ht, hrole, hp⟩
  | waits s _ _ htasks =>
    rw [htasks, setJob, List.getElem?_modify_ne _ _ (Ne.symm hgt)] at ht
    exact .inl ⟨task, ht, hrole, hp⟩
  | ends hk =>
    rw [tasks_finish, hk.tasks] at ht
    exact .inl ⟨task, ht, hrole, hp⟩
  | @draws x r hk =>
    by_cases hold : g < u.tasks.length
    · rw [staffed_tasks _ _ _ _ _ _ hgt, hk.tasks, List.getElem?_append_left hold] at ht
      exact .inl ⟨task, ht, hrole, hp⟩
    · have hle := Nat.le_of_not_lt hold
      obtain ⟨d, hd, -⟩ := staffed_new (hk.tasks ▸ hlt) ht (hk.tasks ▸ hle)
      refine .inr ⟨x, r, rfl, hk, List.mem_range'_1.mpr ⟨hle, ?_⟩⟩
      rw [hk.tasks] at hd
      exact (Nat.sub_lt_iff_lt_add' hle).mp (List.getElem?_eq_some_iff.mp hd).1

/-- Where a setup is after a step: where it was, still before its round, or in a new iteration. -/
theorem Advances.job (h : u.Advances t manual maxFail stage v)
    (hj : u.job? t = some (.setup manual maxFail stage)) :
    v.job? t = some (.setup manual maxFail stage) ∨
    (stage.isEarly = true ∧ ∃ s : SetupStage, s.isEarly = true ∧
      v.job? t = some (.setup manual maxFail s)) ∨
    ∃ x r, v = x.staffed t manual maxFail r ∧ u.Kept x ∧ u.Next t manual maxFail stage r ∧
      v.job? t = some (.setup manual maxFail (.settling
        { r with candidates := r.candidates.drop r.draws.length }
        (List.range' u.tasks.length r.draws.length))) := by
  have hlt := lt_of_role? (role?_of_job? hj)
  cases h with
  | rests hk => exact .inl (by rw [job?, hk.tasks]; exact hj)
  | waits s hs hearly ht =>
    refine .inr (.inl ⟨hearly, s, hs, ?_⟩)
    rw [job?, ht]
    exact job?_setJob hlt _
  | ends hk => exact .inl (by rw [job?, tasks_finish, hk.tasks]; exact hj)
  | @draws x r hk hr =>
    refine .inr (.inr ⟨x, r, rfl, hk, hr, ?_⟩)
    rw [job?_staffed (hk.tasks ▸ hlt), hk.tasks]

/-! ## Who works for whom -/

/-- Each guard works for a setup that waits for it, and each attempt for a guard that does. -/
structure Mustered (w : Overlay) : Prop where
  early : ∀ t manual maxFail stage, w.job? t = some (.setup manual maxFail stage) →
    stage.isEarly = true → ∀ g slot p, ¬w.Plays g (.guard slot p) (some t)
  crew : ∀ t manual maxFail r as, w.job? t = some (.setup manual maxFail (.settling r as)) →
    w.isFinished t = false → ∀ g slot p, w.Plays g (.guard slot p) (some t) →
      g ∈ as ∨ w.isFinished g = true
  steady : ∀ t g slot p, w.Plays g (.guard slot p) (some t) →
    w.exit? t = some .cancelled ∨ w.Steady g
  paired : ∀ g a q, w.Plays a (.attempt q) (some g) → w.Guards g a q
  told : ∀ t g slot p, w.Plays g (.guard slot p) (some t) → w.isFinished g = true →
    w.exit? t = some .cancelled ∨ ∃ a, w.Guards g a p ∧ w.isFinished a = true
  done : ∀ t e, w.exit? t = some e → e ≠ .cancelled → ∀ g slot p,
    w.Plays g (.guard slot p) (some t) → w.isFinished g = true

theorem mustered_start (config : RelayConfig) (address : PeerAddress) :
    (start config address).Mustered := by
  have hnone : ∀ a role parent, ¬(start config address).Plays a role parent := by
    rintro a role parent ⟨task, ht, -⟩
    simp [start] at ht
  exact ⟨fun t _ _ _ _ _ g _ _ => hnone g _ _, fun t _ _ _ _ _ _ g _ _ hp => absurd hp (hnone g _ _),
    fun t g _ _ hp => absurd hp (hnone g _ _), fun g a _ hp => absurd hp (hnone a _ _),
    fun t g _ _ hp => absurd hp (hnone g _ _), fun t e _ _ g _ _ hp => absurd hp (hnone g _ _)⟩

/-- Only a guard that goes on for the first time starts an attempt. -/
theorem Sound.engages (h : w.Sound) (hp : (w.act y).Plays a (.attempt q) (some g))
    (hnew : w.tasks.length ≤ a) : y = .poll g ∧ a = w.tasks.length ∧
      ∃ slot, w.going? g = some (.guardAttempt slot q none) ∧ (w.act y).Guards g a q := by
  obtain ⟨task, ht, hrole, hpar⟩ := hp
  rcases h.parent_new ht hnew with hnone | ⟨s, hready, rfl, hs⟩
  · exact absurd (hpar.symm.trans hnone) (by simp)
  obtain rfl := Option.some.inj (hpar.symm.trans hs)
  have hlt := h.ready _ hready
  obtain ⟨-, role, hr, hlead⟩ := (h.act (.poll _)).parents a task _ ht hpar
  rw [(h.grows_act _).role?_eq hlt] at hr
  have hle : ¬(w.act (.poll _)).tasks.length ≤ w.tasks.length := fun hle =>
    absurd (List.getElem?_eq_some_iff.mp ht).1 (Nat.not_lt.mpr (Nat.le_trans hle hnew))
  cases role with
  | guard slot p =>
    rw [hrole] at hlead
    obtain rfl : p = q := by simpa [Role.leads] using hlead
    rcases goes_act hlt (.poll g) with hy | ⟨-, job, hg⟩ | ⟨-, -, hk, -⟩
    · have hf : w.isFinished g = true := by
        by_contra hf
        exact hy ⟨rfl, hready, by simpa using hf⟩
      rw [Overlay.act, if_pos hready, poll_finished hf] at hle
      exact absurd (Nat.le_refl _) hle
    · obtain ⟨attempt, rfl⟩ :=
        Job.eq_guardAttempt (Option.some.inj ((role?_of_going hg).symm.trans hr))
      rw [act_of_going hg, resume] at ht hle ⊢
      cases attempt with
      | none =>
        obtain ⟨-, -, before, hb, -, -⟩ := going?_eq_some.mp hg
        obtain rfl := (engaged_lt ht).resolve_left (Nat.not_lt.mpr hnew)
        exact ⟨rfl, rfl, slot, hg, engaged_guards (w := { w with ready := w.ready.erase _ }) hb⟩
      | some b =>
        rw [tasks_pollGuard_some] at hle
        exact absurd (Nat.le_refl _) hle
    · exact absurd hk.length_le hle
  | setup | shutdown | attempt | watch | close | release =>
    rw [hrole] at hlead
    exact absurd hlead (by simp [Role.leads])

/-- A guard that ends of itself has heard how its attempt ended. -/
theorem Sound.hears_end (h : w.Sound) (hf : w.isFinished g = false)
    (hp : w.Plays g (.guard slot p) (some t)) (hend : (w.act y).isFinished g = true) :
    (∃ a, w.Guards g a p ∧ w.isFinished a = true) ∨
      ∃ task : Task, w.tasks[g]? = some task ∧ task.isCancelled = true := by
  have hlt := lt_of_role? hp.role?
  rcases goes_act hlt y with hy | ⟨rfl, job, hg⟩ | ⟨-, -, -, -, htask⟩
  · rw [isFinished, (h.idle_act hlt hy).2] at hend
    exact absurd (hf.symm.trans hend) (by simp)
  · obtain ⟨attempt, rfl⟩ :=
      Job.eq_guardAttempt (Option.some.inj ((role?_of_going hg).symm.trans hp.role?))
    obtain ⟨-, -, task, ht, -, hj⟩ := going?_eq_some.mp hg
    rw [act_of_going hg, resume] at hend
    cases attempt with
    | none => exact absurd (hf.symm.trans hend) (by simp)
    | some a =>
      refine .inl ⟨a, ⟨task, slot, ht, hj⟩, ?_⟩
      by_contra hfa
      have hnone : w.exit? a = none := by simpa [isFinished] using hfa
      have hnone : ({ w with ready := w.ready.erase g } : Overlay).exit? a = none := hnone
      simp only [pollGuard, hnone] at hend
      exact absurd (hf.symm.trans hend) (by simp)
  · exact .inr htask

/-- Where nobody is drawn, who guards an attempt for the setup did before. -/
theorem Aside.back (h : Aside t u v) (hg : u.Grows v)
    (hp : v.Plays g (.guard slot p) (some t)) : u.Plays g (.guard slot p) (some t) :=
  hp.back hg (by by_contra hlt; exact h.idle ⟨g, slot, p, Nat.le_of_not_lt hlt, hp⟩)

theorem Keeps.back (h : u.Keeps v) (hg : u.Grows v) {role : Role} {parent : Option TaskId}
    (hp : v.Plays g role parent) : u.Plays g role parent :=
  hp.back hg (Nat.lt_of_lt_of_le (lt_of_role? hp.role?) h.length_le)

theorem job?_of_going {job : Job} (h : w.going? t = some job) : w.job? t = some job := by
  obtain ⟨-, -, task, ht, -, hj⟩ := going?_eq_some.mp h
  exact job?_eq_some.mpr ⟨task, ht, hj⟩

/-- Nobody works for a setup that has just been called. -/
theorem Sound.untended (h : w.Sound) (hnew : w.tasks.length ≤ t) :
    ¬(w.act y).Plays g (.guard slot p) (some t) := by
  rintro ⟨task, hg, -, hp⟩
  by_cases hold : g < w.tasks.length
  · obtain ⟨task', hg', -, hpar, -⟩ := (h.grows_act y).tasks g _ (List.getElem?_eq_getElem hold)
    obtain rfl := Option.some.inj (hg.symm.trans hg')
    obtain ⟨hlt, -⟩ := h.parents g _ t (List.getElem?_eq_getElem hold) (hpar ▸ hp)
    exact absurd (Nat.lt_trans hlt hold) (Nat.not_lt.mpr hnew)
  · rcases h.parent_new hg (Nat.le_of_not_lt hold) with hnone | ⟨s, hready, -, hs⟩
    · exact absurd (hp.symm.trans hnone) (by simp)
    · obtain rfl := Option.some.inj (hp.symm.trans hs)
      exact absurd (h.ready _ hready) (Nat.not_lt.mpr hnew)

theorem Mustered.early_act (h : w.Mustered) (hs : w.Sound)
    (hj : (w.act y).job? t = some (.setup manual maxFail stage)) (hearly : stage.isEarly = true) :
    ¬(w.act y).Plays g (.guard slot p) (some t) := by
  intro hp
  have hg := hs.grows_act y
  by_cases hlt : t < w.tasks.length
  swap
  · exact hs.untended (Nat.le_of_not_lt hlt) hp
  have hr : w.role? t = some (.setup manual maxFail) := by
    rw [← hg.role?_eq hlt, role?_of_job? hj]
    rfl
  rcases hs.setup_act hr y with ha | ⟨rfl, s, hgo⟩ | ⟨-, hk, -⟩
  · exact h.early t manual maxFail stage (ha.job ▸ hj) hearly g slot p (ha.back hg hp)
  · have hadv := advances_act hgo
    have hj₀ := job?_of_going hgo
    have hold : s.isEarly = true := by
      rcases hadv.job hj₀ with hsame | ⟨hs, -⟩ | ⟨x, r, -, -, -, hset⟩
      · obtain ⟨-, -, rfl⟩ := Job.setup.inj (Option.some.inj (hj.symm.trans hsame))
        exact hearly
      · exact hs
      · obtain ⟨-, -, rfl⟩ := Job.setup.inj (Option.some.inj (hj.symm.trans hset))
        simp [SetupStage.isEarly] at hearly
    rcases hadv.guards hr hg hp with hb | ⟨x, r, hv, hk, -⟩
    · exact h.early t manual maxFail s hj₀ hold g slot p hb
    · rw [hv, job?_staffed (hk.tasks ▸ hlt)] at hj
      obtain ⟨-, -, rfl⟩ := Job.setup.inj (Option.some.inj hj)
      simp [SetupStage.isEarly] at hearly
  · exact h.early t manual maxFail stage ((hk.job? hg hlt) ▸ hj) hearly g slot p (hk.back hg hp)

theorem Mustered.crew_act (h : w.Mustered) (hs : w.Sound)
    (hj : (w.act y).job? t = some (.setup manual maxFail (.settling r as)))
    (hf : (w.act y).isFinished t = false) (hp : (w.act y).Plays g (.guard slot p) (some t)) :
    g ∈ as ∨ (w.act y).isFinished g = true := by
  have hg := hs.grows_act y
  by_cases hlt : t < w.tasks.length
  swap
  · exact absurd hp (hs.untended (Nat.le_of_not_lt hlt))
  have hr : w.role? t = some (.setup manual maxFail) := by
    rw [← hg.role?_eq hlt, role?_of_job? hj]
    rfl
  have hf₀ := hg.unfinished hf
  rcases hs.setup_act hr y with ha | ⟨rfl, s, hgo⟩ | ⟨-, -, he⟩
  · exact (h.crew t manual maxFail r as (ha.job ▸ hj) hf₀ g slot p (ha.back hg hp)).imp id
      hg.isFinished
  · have hadv := advances_act hgo
    have hj₀ := job?_of_going hgo
    rcases hadv.guards hr hg hp with hb | ⟨x, r', hv, hk, hmem⟩
    · rcases hadv.job hj₀ with hsame | ⟨-, s', hs', hwait⟩ | ⟨x, r', -, -, hnext, -⟩
      · obtain ⟨-, -, rfl⟩ := Job.setup.inj (Option.some.inj (hj.symm.trans hsame))
        exact (h.crew t manual maxFail r as hj₀ hf₀ g slot p hb).imp id hg.isFinished
      · obtain ⟨-, -, rfl⟩ := Job.setup.inj (Option.some.inj (hj.symm.trans hwait))
        simp [SetupStage.isEarly] at hs'
      · cases hnext with
        | first hs' => exact absurd hb (h.early t manual maxFail s hj₀ hs' g slot p)
        | again r₀ as₀ hfails =>
          refine .inr (hg.isFinished ?_)
          exact (h.crew t manual maxFail r₀ as₀ hj₀ hf₀ g slot p hb).elim (hfails.ended g) id
    · rw [hv, job?_staffed (hk.tasks ▸ hlt), hk.tasks] at hj
      obtain ⟨-, -, hset⟩ := Job.setup.inj (Option.some.inj hj)
      obtain ⟨-, rfl⟩ := SetupStage.settling.inj hset
      exact .inl hmem
  · exact absurd (isFinished_of_exit? he) (by simp [hf])

/-- Only its setup, going on, asks a guard to end. -/
theorem Steady.aside {role : Role} (h : w.Steady g) (hs : w.Sound) (hp : w.Plays g role (some t))
    (hy : ¬(y = .poll t ∧ t ∈ w.ready ∧ w.isFinished t = false)) : (w.act y).Steady g := by
  by_cases hpoll : y = .poll t
  swap
  · exact h.act hs hp hpoll
  subst hpoll
  rw [Overlay.act]
  split_ifs with hready
  · have hf : w.isFinished t = true := by
      by_contra hf
      exact hy ⟨rfl, hready, by simpa using hf⟩
    rw [poll_finished hf]
    exact h.of_tasks rfl
  · exact h

/-- Nobody has asked a guard to end when it is drawn. -/
theorem Sound.steady_new (h : w.Sound) (hnew : w.tasks.length ≤ g)
    (hp : (w.act y).Plays g (.guard slot p) (some t)) : (w.act y).Steady g := by
  obtain ⟨rfl, -, manual, maxFail, hr⟩ := h.draws ⟨g, slot, p, hnew, hp⟩
  rcases h.setup_act hr (.poll t) with ha | ⟨-, s, hgo⟩ | ⟨-, hk, -⟩
  · exact absurd ⟨g, slot, p, hnew, hp⟩ ha.idle
  · rcases (advances_act hgo).guards hr (h.grows_act _) hp with hold | ⟨x, r, hv, hk, -⟩
    · exact absurd (lt_of_role? hold.role?) (Nat.not_lt.mpr hnew)
    · rintro b task hb rfl
      rw [hv] at hb
      obtain ⟨d, -, rfl⟩ := staffed_new (hk.tasks ▸ lt_of_role? hr) hb (hk.tasks ▸ hnew)
      rfl
  · exact absurd ⟨g, slot, p, hnew, hp⟩ hk.not_draws

theorem Mustered.steady_act (h : w.Mustered) (hs : w.Sound)
    (hp : (w.act y).Plays g (.guard slot p) (some t)) :
    (w.act y).exit? t = some .cancelled ∨ (w.act y).Steady g := by
  have hg := hs.grows_act y
  by_cases hlt : g < w.tasks.length
  swap
  · exact .inr (hs.steady_new (Nat.le_of_not_lt hlt) hp)
  have hp₀ := hp.back hg hlt
  refine (h.steady t g slot p hp₀).elim (fun he => .inl (hg.exit? he)) fun hst => ?_
  obtain ⟨manual, maxFail, hr⟩ := hs.guarded hp₀
  rcases goes_act (lt_of_role? hr) y with hy | ⟨rfl, job, hgo⟩ | ⟨-, -, -, he, -⟩
  · exact .inr (hst.aside hs hp₀ hy)
  · obtain ⟨s, rfl⟩ := Job.eq_setup (Option.some.inj ((role?_of_going hgo).symm.trans hr))
    refine .inr ((advances_act hgo).steady ?_ hst hlt)
    rintro rfl
    exact absurd (hr.symm.trans hp₀.role?) (by simp)
  · exact .inl he

/-- A setup that ends has its cause, and starts nothing. -/
theorem Advances.ended (h : u.Advances t manual maxFail stage v) (hf : u.isFinished t = false)
    {e : Exit} (he : v.exit? t = some e) : u.Cause t manual stage e ∧ v.tasks = u.tasks := by
  have hsame : v.exits = u.exits → u.Cause t manual stage e ∧ v.tasks = u.tasks := fun hx => by
    rw [isFinished, exit?, ← hx, ← exit?, he] at hf
    exact absurd hf (by simp)
  cases h with
  | rests hk => exact hsame hk.exits
  | waits s _ _ _ hx => exact hsame hx
  | draws hk => exact hsame ((exits_staffed _ _ _ _ _).trans hk.exits)
  | ends hk hc =>
    rw [exit?_finish_self ((hk.isFinished t).trans hf)] at he
    exact ⟨Option.some.inj he ▸ hc, (tasks_finish _ _ _).trans hk.tasks⟩

theorem Mustered.done_act (h : w.Mustered) (hs : w.Sound) {e : Exit}
    (he : (w.act y).exit? t = some e) (hne : e ≠ .cancelled)
    (hp : (w.act y).Plays g (.guard slot p) (some t)) : (w.act y).isFinished g = true := by
  have hg := hs.grows_act y
  by_cases hlt : t < w.tasks.length
  swap
  · exact absurd hp (hs.untended (Nat.le_of_not_lt hlt))
  obtain ⟨manual, maxFail, hr⟩ := (hs.act y).guarded hp
  rw [hg.role?_eq hlt] at hr
  rcases hs.setup_act hr y with ha | ⟨rfl, s, hgo⟩ | ⟨-, -, hx⟩
  · exact hg.isFinished (h.done t e (ha.exit ▸ he) hne g slot p (ha.back hg hp))
  · obtain ⟨-, hf, -⟩ := going?_eq_some.mp hgo
    have hadv := advances_act hgo
    have hc := (hadv.ended hf he).1
    rcases hadv.guards hr hg hp with hb | ⟨x, r, hv, hk, -⟩
    · have hearly : s.isEarly = true → (w.act (.poll t)).isFinished g = true := fun hs' =>
        absurd hb (h.early t manual maxFail s (job?_of_going hgo) hs' g slot p)
      have hlate : ∀ r as, s = .settling r as → (∀ a ∈ as, w.isFinished a = true) →
          (w.act (.poll t)).isFinished g = true := by
        rintro r as rfl hall
        exact hg.isFinished ((h.crew t manual maxFail r as (job?_of_going hgo) hf g slot p
          hb).elim (hall g) id)
      -- it ends before anybody guards for it, or from a round whose attempts have all ended
      cases hc with
      | shutDown hs' | crashed _ hs' | unavailable _ hs' | nobody hs' | full hs' => exact hearly hs'
      | satisfied r as _ hall => exact hlate r as rfl hall
      | race r as hfails | tooMany r as hfails | exhausted r as hfails =>
        exact hlate r as rfl hfails.ended
    · have hx : (w.act (.poll t)).isFinished t = false := by
        rw [hv, isFinished_staffed, hk.isFinished, hf]
      exact absurd (isFinished_of_exit? he) (by simp [hx])
  · exact absurd (Option.some.inj (he.symm.trans hx)) hne

theorem Mustered.act (h : w.Mustered) (hs : w.Sound) (y : Act) : (w.act y).Mustered := by
  have hg := hs.grows_act y
  refine ⟨fun t manual maxFail stage hj hearly g slot p => h.early_act hs hj hearly,
    fun t manual maxFail r as hj hf g slot p => h.crew_act hs hj hf,
    fun t g slot p => h.steady_act hs, ?_, ?_, fun t e he hne g slot p => h.done_act hs he hne⟩
  · intro g a q hp
    by_cases hlt : a < w.tasks.length
    · exact hs.guards_act (h.paired g a q (hp.back hg hlt)) y
    · exact (hs.engages hp (Nat.le_of_not_lt hlt)).2.2.choose_spec.2
  · intro t g slot p hp hf
    by_cases hlt : g < w.tasks.length
    swap
    · exact absurd (hs.new_act y (Nat.le_of_not_lt hlt)) (by simp [hf])
    have hp₀ := hp.back hg hlt
    have hheard : (∃ a, w.Guards g a p ∧ w.isFinished a = true) →
        ∃ a, (w.act y).Guards g a p ∧ (w.act y).isFinished a = true := by
      rintro ⟨a, hga, hfa⟩
      exact ⟨a, hs.guards_act hga y, hg.isFinished hfa⟩
    cases hf₀ : w.isFinished g with
    | true => exact (h.told t g slot p hp₀ hf₀).imp hg.exit? hheard
    | false =>
      rcases hs.hears_end hf₀ hp₀ hf with hh | ⟨task, ht, hc⟩
      · exact .inr (hheard hh)
      · refine (h.steady t g slot p hp₀).imp hg.exit? fun hst => ?_
        exact absurd (hst.task ht) (by simp [hc])

theorem mustered_run (config : RelayConfig) (mine : PeerAddress) (acts : List Act) :
    ((start config mine).run acts).Mustered := by
  induction acts using List.reverseRecOn with
  | nil => exact mustered_start config mine
  | append_singleton acts y ih =>
    rw [run_concat]
    exact ih.act (sound_run (sound_start config mine) acts) y

end RelayUpkeep.Overlay
