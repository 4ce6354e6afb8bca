import RelayUpkeep.Proofs.Agreement
import RelayUpkeep.Proofs.Candidates
import RelayUpkeep.Proofs.Trials

/-! # The fates of candidates

What becomes of a setup that has collected its candidates is a matter of which of them succeed. It
depends neither on who else works for the manager, nor on when the attempts end: in a fair run each
iteration comes to its end, and is judged as it is foreseen. -/

namespace RelayUpkeep

/-- What the caller of a setup learns of its result. -/
def Exit.result? : Exit → Option SetupResult
  | .relays _ => some .satisfied
  | .failed (.maxFailuresExceeded _) => some .maxFailExceeded
  | .failed (.noCandidates _) => some .noCandidates
  | _ => none

theorem Exit.result?_eq_satisfied {e : Exit} :
    e.result? = some .satisfied ↔ ∃ views, e = .relays views := by
  constructor
  · intro h
    unfold Exit.result? at h
    split at h
    · exact ⟨_, rfl⟩
    all_goals exact absurd h (by simp)
  · rintro ⟨views, rfl⟩
    rfl

/-- The error that is told of a task that failed. A crash is told as one. -/
def Exit.mishap? : Exit → Option RelayError
  | .done | .relays _ => none
  | .failed e => some e
  | .crashed c => some (.transport ("attempt aborted: " ++ c.report))
  | .cancelled => some (.transport ("attempt aborted: " ++ cancellationReport))

theorem Exit.isSome_mishap? (e : Exit) : e.mishap?.isSome = e.isFailure := by
  cases e <;> rfl

/-- How a guard ends whose attempt has ended. -/
def Exit.retold (e : Exit) : Exit := (e.mishap?.map Exit.failed).getD e

theorem Exit.isFailure_retold (e : Exit) : e.retold.isFailure = e.isFailure := by
  cases e <;> rfl

namespace Overlay

variable {t g a : TaskId} {u v w x : Overlay} {p q : PeerAddress} {slot n : Nat} {y : Act}
  {manual : List PeerAddress} {maxFail left : Nat} {stage : SetupStage} {r : Round}
  {as : List TaskId} {draws : List (Nat × PeerAddress)} {acts : Nat → Act}
  {succeeds : PeerAddress → Bool} {goal : SetupResult} {whom : List PeerAddress}

/-! ## Guards -/

/-- Guard `g` has ended as its attempt did, with a crash told as an error, unless it crashed when it
remembered the failure. -/
def Retold (w : Overlay) (g : TaskId) : Prop :=
  ∃ a q e, w.Guards g a q ∧ w.exit? a = some e ∧ (w.exit? g = some e.retold ∨
    e.isFailure = true ∧ w.exit? g = some (.crashed .clockOverflow))

theorem Retold.told (h : w.Retold g) : w.Told g := by
  obtain ⟨a, q, e, hga, hea, heg⟩ := h
  refine ⟨a, q, hga, isFinished_of_exit? hea, ?_⟩
  rcases heg with heg | ⟨hfail, heg⟩
  · simp [succeeded, hea, heg, e.isFailure_retold]
  · rw [succeeded, succeeded, hea, heg, Option.any_some, Option.any_some, hfail]
    rfl

theorem Retold.act (h : w.Retold g) (hs : w.Sound) (y : Act) : (w.act y).Retold g := by
  obtain ⟨a, q, e, hga, hea, heg⟩ := h
  have hg := hs.grows_act y
  exact ⟨a, q, e, hs.guards_act hga y, hg.exit? hea, heg.imp hg.exit? (And.imp_right hg.exit?)⟩

theorem exit?_pollGuard {a : TaskId} {e : Exit} (hf : w.isFinished g = false)
    (he : w.exit? a = some e) : (w.pollGuard g slot p (some a)).exit? g = some e.retold ∨
      e.isFailure = true ∧
        (w.pollGuard g slot p (some a)).exit? g = some (.crashed .clockOverflow) := by
  cases e with
  | done | relays | failed =>
    left
    simp only [pollGuard, he]
    exact exit?_finish_self hf _
  | crashed | cancelled =>
    simp only [pollGuard, he]
    exact (exit?_failAttempt hf _).imp id fun hover => ⟨rfl, hover⟩

/-- A guard that was not asked to end tells how its attempt ended. -/
theorem Sound.retells (h : w.Sound) (hf : w.isFinished g = false)
    (hp : w.Plays g (.guard slot p) (some t)) (hst : w.Steady g)
    (hend : (w.act y).isFinished g = true) : (w.act y).Retold g := by
  have hlt := lt_of_role? hp.role?
  rcases goes_act hlt y with hy | ⟨rfl, job, hgo⟩ | ⟨-, -, -, -, task, ht, hc⟩
  · rw [isFinished, (h.idle_act hlt hy).2] at hend
    exact absurd (hf.symm.trans hend) (by simp)
  · obtain ⟨attempt, rfl⟩ :=
      Job.eq_guardAttempt (Option.some.inj ((role?_of_going hgo).symm.trans hp.role?))
    obtain ⟨-, -, task, ht, -, hj⟩ := going?_eq_some.mp hgo
    have hact := act_of_going hgo
    rw [resume] at hact
    cases attempt with
    | none =>
      rw [hact] at hend
      exact absurd (hf.symm.trans hend) (by simp)
    | some a =>
      have hga : w.Guards g a p := ⟨task, slot, ht, hj⟩
      cases hea : w.exit? a with
      | none =>
        have hnone : ({ w with ready := w.ready.erase g } : Overlay).exit? a = none := hea
        rw [hact] at hend
        simp only [pollGuard, hnone] at hend
        exact absurd (hf.symm.trans hend) (by simp)
      | some e =>
        refine ⟨a, p, e, h.guards_act hga _, (h.grows_act _).exit? hea, ?_⟩
        rw [hact]
        exact exit?_pollGuard (w := { w with ready := w.ready.erase g }) hf hea
  · exact absurd (hst.task ht) (by simp [hc])

/-- Each guard that has ended has retold how its attempt ended, unless its setup was given up. -/
def Truthful (w : Overlay) : Prop :=
  ∀ t g slot p, w.Plays g (.guard slot p) (some t) → w.isFinished g = true →
    w.exit? t = some .cancelled ∨ w.Retold g

theorem truthful_start (config : RelayConfig) (mine : PeerAddress) :
    (start config mine).Truthful := by
  rintro t g slot p ⟨task, ht, -⟩
  simp [start] at ht

theorem Truthful.act (h : w.Truthful) (hs : w.Sound) (hm : w.Mustered) (y : Act) :
    (w.act y).Truthful := by
  intro t g slot p hp hf
  have hg := hs.grows_act y
  by_cases hlt : g < w.tasks.length
  swap
  · exact absurd (hs.new_act y (Nat.le_of_not_lt hlt)) (by simp [hf])
  have hp₀ := hp.back hg hlt
  cases hf₀ : w.isFinished g with
  | true => exact (h t g slot p hp₀ hf₀).imp hg.exit? fun hr => hr.act hs y
  | false =>
    exact (hm.steady t g slot p hp₀).imp hg.exit? fun hst => hs.retells hf₀ hp₀ hst hf

theorem truthful_run (config : RelayConfig) (mine : PeerAddress) (acts : List Act) :
    ((start config mine).run acts).Truthful := by
  induction acts using List.reverseRecOn with
  | nil => exact truthful_start config mine
  | append_singleton acts y ih =>
    rw [run_concat]
    exact ih.act (sound_run (sound_start config mine) acts) (mustered_run config mine acts) y

/-- Each guard has told how its attempt ended when it ends, unless its setup was given up. -/
def Candid (w : Overlay) : Prop :=
  ∀ t g slot p, w.Plays g (.guard slot p) (some t) → w.isFinished g = true →
    w.exit? t = some .cancelled ∨ w.Told g

theorem candid_run (config : RelayConfig) (mine : PeerAddress) (acts : List Act) :
    ((start config mine).run acts).Candid := fun t g slot p hp hf =>
  (truthful_run config mine acts t g slot p hp hf).imp id Retold.told

/-! ## A round that is under way -/

/-- Task `a` tries `q` for setup `t`. -/
def TriesFor (w : Overlay) (t a : TaskId) (q : PeerAddress) : Prop :=
  ∃ g slot, w.Plays g (.guard slot q) (some t) ∧ w.Plays a (.attempt q) (some g)

theorem TriesFor.mono (h : u.TriesFor t a q) (hg : u.Grows v) : v.TriesFor t a q := by
  obtain ⟨g, slot, hguard, hp⟩ := h
  exact ⟨g, slot, hguard.mono hg, hp.mono hg⟩

theorem TriesFor.back (h : v.TriesFor t a q) (hl : v.Linked) (hg : u.Grows v)
    (hlt : a < u.tasks.length) : u.TriesFor t a q := by
  obtain ⟨g, slot, hguard, hp⟩ := h
  have hga : g < a := by
    obtain ⟨task, ht, -, hpar⟩ := hp
    exact (hl.parents a task g ht hpar).1
  exact ⟨g, slot, hguard.back hg (Nat.lt_trans hga hlt), hp.back hg hlt⟩

theorem TriesFor.role? (h : w.TriesFor t a q) : w.role? a = some (.attempt q) := by
  obtain ⟨_, _, -, hp⟩ := h
  exact hp.role?

/-- Each attempt for setup `t` that has ended succeeded if and only if its candidate is one that
`succeeds`. -/
def Fated (t : TaskId) (succeeds : PeerAddress → Bool) (w : Overlay) : Prop :=
  ∀ a q, w.TriesFor t a q → w.isFinished a = true → w.succeeded a = succeeds q

/-- Setup `t` has ended with its result, and `whom` are those whom it has tried. -/
def HasCome (w : Overlay) (t : TaskId) (goal : SetupResult) (whom : List PeerAddress) : Prop :=
  ∃ e, w.exit? t = some e ∧ e.result? = some goal ∧ w.drawn t = whom

/-- A round of setup `t` is under way that comes to its result, and tries `whom` in all. -/
structure Bound (t : TaskId) (manual : List PeerAddress) (maxFail : Nat)
    (succeeds : PeerAddress → Bool) (goal : SetupResult) (whom : List PeerAddress) (r : Round)
    (as : List TaskId) (draws : List (Nat × PeerAddress)) (w : Overlay) : Prop where
  job : w.job? t = some (.setup manual maxFail (.settling r as))
  going : w.isFinished t = false
  steady : w.Steady t
  assigned : w.Assigned t r as draws
  wanting : 0 < r.wanted
  goal : r.awaits draws succeeds (w.manager.config.joinPolicy.required r.wanted) = goal
  whom : w.drawn t ++ r.ahead draws succeeds (w.manager.config.joinPolicy.required r.wanted) = whom

/-- The setup has ended with its result, or has fewer candidates left. -/
def ComesNearer (w : Overlay) (t : TaskId) (manual : List PeerAddress) (maxFail : Nat)
    (succeeds : PeerAddress → Bool) (goal : SetupResult) (whom : List PeerAddress) (left : Nat) :
    Prop :=
  w.HasCome t goal whom ∨ ∃ r as draws, r.candidates.length < left ∧ w.Fresh as ∧
    w.Bound t manual maxFail succeeds goal whom r as draws

theorem Bound.going? (h : w.Bound t manual maxFail succeeds goal whom r as draws)
    (hready : t ∈ w.ready) : w.going? t = some (.setup manual maxFail (.settling r as)) := by
  obtain ⟨task, ht, hj⟩ := job?_eq_some.mp h.job
  exact going?_eq_some.mpr ⟨hready, h.going, task, ht, h.steady.task ht, hj⟩

/-- A setup waits for its crew, whatever others do. -/
theorem Bound.waits (h : w.Bound t manual maxFail succeeds goal whom r as draws) (hs : w.Sound)
    (hy : y ≠ .cancel t)
    (hwait : y = .poll t → t ∈ w.ready → ∃ g ∈ as, w.isFinished g = false) :
    (w.act y).Bound t manual maxFail succeeds goal whom r as draws := by
  have hr : w.role? t = some (.setup manual maxFail) := role?_of_job? h.job
  have hg := hs.grows_act y
  by_cases hself : y = .poll t ∧ t ∈ w.ready ∧ w.isFinished t = false
  · obtain ⟨rfl, hready, -⟩ := hself
    obtain ⟨g, hgas, hgf⟩ := hwait rfl hready
    have hall : (as.all ({ w with ready := w.ready.erase t } : Overlay).isFinished) = false :=
      List.all_eq_false.mpr ⟨g, hgas, Bool.eq_false_iff.mp hgf⟩
    rw [act_of_going (h.going? hready), resume, pollSetup, hall]
    exact ⟨h.job, h.going, h.steady, h.assigned.mono { Grows.refl w with }, h.wanting, h.goal,
      h.whom⟩
  · have ha := hs.aside (lt_of_role? hr) hself
    refine ⟨ha.job.trans h.job, ?_, hs.steady_act h.steady hr rfl hy, h.assigned.mono hg,
      h.wanting, ?_, ?_⟩
    · rw [isFinished, ha.exit]
      exact h.going
    · rw [hg.config]
      exact h.goal
    · rw [hg.config, ha.drawn hs]
      exact h.whom

/-! ## Turns -/

/-- A turn that the setup takes brings it nearer to the result of the round. -/
theorem Sound.takes_turn (h : w.Sound) (succeeds : PeerAddress → Bool) (hk : w.Kept x)
    (hr : w.role? t = some (.setup manual maxFail)) (hf : w.isFinished t = false)
    (hst : w.Steady t) (hv : w.act (.poll t) = x.takeTurn t manual maxFail r) (hw : 0 < r.wanted) :
    (w.act (.poll t)).ComesNearer t manual maxFail succeeds
      (r.result succeeds (w.manager.config.joinPolicy.required r.wanted))
      (w.drawn t ++ r.whom succeeds (w.manager.config.joinPolicy.required r.wanted))
      r.candidates.length := by
  have hfx : x.publish.isFinished t = false := (hk.isFinished t).trans hf
  have hsteady := h.steady_act hst hr rfl (show Act.poll t ≠ .cancel t by simp)
  have hends : ∀ e, ((x.publish).finish t e).drawn t = w.drawn t := fun e =>
    (drawn_congr (tasks_finish _ _ _) t).trans (drawn_congr hk.tasks t)
  rw [takeTurn_eq] at hv
  rw [r.result_eq, r.whom_eq]
  split_ifs at hv ⊢ with _ hd
  · rw [hv, List.append_nil]
    exact .inl ⟨_, exit?_finish_self hfx _, rfl, hends _⟩
  · rw [hv, List.append_nil]
    exact .inl ⟨_, exit?_finish_self hfx _, rfl, hends _⟩
  · have ht : t < x.tasks.length := hk.tasks ▸ lt_of_role? hr
    have hdrawn := h.drawn_staffed hk hr hv
    have hconfig : (w.act (.poll t)).manager.config = w.manager.config := (h.grows_act _).config
    rw [hv] at hsteady hdrawn hconfig ⊢
    refine .inr ⟨_, _, _, ?_, fresh_staffed (hk.ends h.exits) ht hd, job?_staffed ht,
      (x.isFinished_staffed _ _ _ _ t).trans ((hk.isFinished t).trans hf), hsteady,
      assigned_staffed manual maxFail ht, hw, ?_, ?_⟩
    · exact Round.length_drop_draws_lt hd
    · rw [hconfig]
      rfl
    · rw [hconfig, hdrawn, List.append_assoc]
      rfl

/-- When the crew has ended, the setup judges its round as it is foreseen. -/
theorem Bound.judges (h : w.Bound t manual maxFail succeeds goal whom r as draws) (hs : w.Sound)
    (hup : w.isTornDown = false) (hready : t ∈ w.ready) (hfate : w.Fated t succeeds)
    (hall : ∀ g ∈ as, w.isFinished g = true) (htold : ∀ g ∈ as, w.Told g) :
    (w.act (.poll t)).ComesNearer t manual maxFail succeeds goal whom r.candidates.length := by
  have hgo := h.going? hready
  obtain ⟨hjob, hgoing, hsteady, hassigned, hw, rfl, rfl⟩ := h
  have hr : w.role? t = some (.setup manual maxFail) := role?_of_job? hjob
  have hact : w.act (.poll t) =
      ({ w with ready := w.ready.erase t } : Overlay).judge t manual maxFail r as := by
    have hall' : as.all ({ w with ready := w.ready.erase t } : Overlay).isFinished = true :=
      List.all_eq_true.mpr hall
    rw [act_of_going hgo, resume, pollSetup, if_pos hall']
  have hcount : as.countP w.hasJoined = (draws.map Prod.snd).countP succeeds := by
    refine hassigned.countP_hasJoined htold fun g hg a q hga hfa => ?_
    obtain ⟨d, -, hplays⟩ := exists_zip_of_mem hassigned.crew hg
    obtain ⟨slot, hrole⟩ := hga.role?
    obtain ⟨-, rfl⟩ : d.1 = slot ∧ d.2 = q := by simpa [hplays.role?] using hrole
    exact hfate a d.2 ⟨g, d.1, hplays, hs.toLinked.attempt_of_guards hga⟩ hfa
  have hfilled := hassigned.filled_settle hs htold
  rw [hcount] at hfilled
  have hwanted := r.wanted_settle (w.endings as)
  rw [Round.awaits_eq hfilled (s := w.grievance r as),
    Round.ahead_eq hfilled (s := w.grievance r as)]
  rw [judge_eq] at hact
  have hends : ({ w with ready := w.ready.erase t } : Overlay).endings as = w.endings as := rfl
  have hreason : ({ w with ready := w.ready.erase t } : Overlay).grievance r as =
    w.grievance r as := rfl
  have hdown : ({ w with ready := w.ready.erase t } : Overlay).isTornDown = false := hup
  have hfp : ({ w with ready := w.ready.erase t } : Overlay).publish.isFinished t = false := hgoing
  simp only [hends, hreason, hdown, Round.isSatisfied, JoinPolicy.isSatisfied, hwanted, hw,
    decide_true, Bool.true_and, decide_eq_true_eq, Bool.false_eq_true, if_false] at hact
  split_ifs at hact ⊢
  · rw [hact, List.append_nil]
    refine .inl ⟨_, exit?_finish_self hfp _, rfl, ?_⟩
    exact drawn_congr (tasks_finish _ _ _) t
  · have hnext : ((r.settle (w.endings as)).retry (w.grievance r as)).wanted = r.wanted := hwanted
    have hturn := hs.takes_turn succeeds (w.kept_rest _) hr hgoing hsteady hact
      (hnext ▸ hw)
    rw [hnext] at hturn
    exact r.candidates_settle _ ▸ hturn

/-- When the crew has ended, each of its guards has told how its attempt ended. -/
theorem Bound.told (h : w.Bound t manual maxFail succeeds goal whom r as draws) (hcandid : w.Candid)
    (hall : ∀ g ∈ as, w.isFinished g = true) : ∀ g ∈ as, w.Told g := by
  intro g hg
  obtain ⟨d, -, hplays⟩ := exists_zip_of_mem h.assigned.crew hg
  refine (hcandid t g d.1 d.2 hplays (hall g hg)).resolve_left fun he => ?_
  exact absurd (isFinished_of_exit? he) (by simp [h.going])

/-- In each step a round goes on or comes to its result. -/
theorem Bound.act (h : w.Bound t manual maxFail succeeds goal whom r as draws) (hs : w.Sound)
    (hcandid : w.Candid) (hy : y ≠ .cancel t) (hup : w.isTornDown = false)
    (hfate : w.Fated t succeeds) : (w.act y).HasCome t goal whom ∨ ∃ r as draws,
      (w.act y).Bound t manual maxFail succeeds goal whom r as draws := by
  by_cases hself : y = .poll t ∧ t ∈ w.ready ∧ ∀ g ∈ as, w.isFinished g = true
  · obtain ⟨rfl, hready, hall⟩ := hself
    refine (h.judges hs hup hready hfate hall (h.told hcandid hall)).imp id ?_
    rintro ⟨r', as', draws', -, -, hb⟩
    exact ⟨r', as', draws', hb⟩
  · refine .inr ⟨r, as, draws, h.waits hs hy fun he hready => ?_⟩
    by_contra hno
    refine hself ⟨he, hready, fun g hg => ?_⟩
    by_contra hf
    exact hno ⟨g, hg, by simpa using hf⟩

/-- A setup that has come to its result stays with it. -/
theorem HasCome.act (h : w.HasCome t goal whom) (hs : w.Sound)
    (hr : w.role? t = some (.setup manual maxFail)) (y : Act) :
    (w.act y).HasCome t goal whom := by
  obtain ⟨e, he, hresult, hdrawn⟩ := h
  have haside : w.Aside t (w.act y) :=
    hs.aside (lt_of_role? hr) (by simp [isFinished_of_exit? he])
  exact ⟨e, (hs.grows_act y).exit? he, hresult, (haside.drawn hs).trans hdrawn⟩

/-! ## Collecting -/

/-- What a setup comes to that collects its candidates now. -/
def outlook (w : Overlay) (succeeds : PeerAddress → Bool) (manual : List PeerAddress)
    (maxFail : Nat) : SetupResult :=
  foreseen succeeds w.manager.config.joinPolicy maxFail w.manager.pool.remaining
    (w.eligible manual)

/-- Whom such a setup tries. -/
def tour (w : Overlay) (succeeds : PeerAddress → Bool) (manual : List PeerAddress)
    (maxFail : Nat) : List PeerAddress :=
  foreseenTrials succeeds w.manager.config.joinPolicy maxFail w.manager.pool.remaining
    (w.eligible manual)

/-- A setup that starts its round is on the way to what is foreseen of it, be it that there is
nobody to try or no room. -/
theorem Sound.starts_nearer (h : w.Sound) (succeeds : PeerAddress → Bool) {x : Overlay}
    (hk : w.Kept x) (hr : w.role? t = some (.setup manual maxFail))
    (hf : w.isFinished t = false) (hst : w.Steady t) (hnone : w.drawn t = [])
    (hv : w.act (.poll t) = x.startRound t manual maxFail (w.eligible manual)) :
    (w.act (.poll t)).ComesNearer t manual maxFail succeeds (w.outlook succeeds manual maxFail)
      (w.tour succeeds manual maxFail) (w.eligible manual).length := by
  have hfx : x.isFinished t = false := (hk.isFinished t).trans hf
  have hends : ∀ e, (x.finish t e).drawn t = [] := fun e => by
    rw [drawn_congr (tasks_finish _ _ _), drawn_congr hk.tasks, hnone]
  have hremain : x.manager.pool.remaining = w.manager.pool.remaining := by rw [hk.pool]
  have hwanted := Round.wanted_start w.manager.pool.remaining (w.eligible manual) maxFail
  simp only [startRound, hremain, hwanted] at hv
  unfold outlook tour foreseen foreseenTrials
  by_cases hw : min w.manager.pool.remaining (w.eligible manual).length = 0
  · have htrials : (w.eligible manual).take
        (min w.manager.pool.remaining (w.eligible manual).length - 0) = [] := by
      rw [hw]
      rfl
    rw [if_pos hw] at hv
    rw [trials_of_draws_nil htrials]
    by_cases hnobody : w.eligible manual = []
    · rw [hnobody, List.isEmpty_nil, if_pos rfl] at hv
      rw [if_pos hnobody, hv]
      exact .inl ⟨_, exit?_finish_self hfx _, rfl, hends _⟩
    · have hfull : w.manager.pool.remaining = 0 := by
        have hpos := List.length_pos_iff.mpr hnobody
        omega
      rw [if_neg (by simpa using hnobody)] at hv
      rw [if_neg hnobody, if_pos hfull, hv]
      exact .inl ⟨_, exit?_finish_self hfx _, rfl, hends _⟩
  · have hne : w.eligible manual ≠ [] := by
      rintro hnil
      exact hw (by simp [hnil])
    have hroom : w.manager.pool.remaining ≠ 0 := by
      rintro hzero
      exact hw (by simp [hzero])
    rw [if_neg hw] at hv
    rw [if_neg hne, if_neg hroom]
    have hturn := h.takes_turn succeeds hk hr hf hst hv (hwanted ▸ Nat.pos_of_ne_zero hw)
    rw [hnone, List.nil_append] at hturn
    simp only [Round.result, Round.whom, hwanted, Round.filled_start] at hturn
    exact hturn

/-- A setup that collects its candidates is on the way to what is foreseen of it. -/
theorem Sound.collects_nearer (h : w.Sound) (succeeds : PeerAddress → Bool) (hm : w.Mustered)
    (hst : w.Steady t) (hr : w.role? t = some (.setup manual maxFail)) (hup : w.isTornDown = false)
    (hc : w.collects t = true) : (w.act (.poll t)).ComesNearer t manual maxFail succeeds
      (w.outlook succeeds manual maxFail) (w.tour succeeds manual maxFail)
      (w.eligible manual).length := by
  obtain ⟨manual', maxFail', stage, hgo, hsupplied⟩ := collects_eq_true.mp hc
  obtain ⟨rfl, rfl⟩ := Role.setup.inj (Option.some.inj ((role?_of_going hgo).symm.trans hr))
  have hearly := isEarly_of_supplied hsupplied
  have hshut : w.manager.isShutDown = false := by
    simp only [isTornDown, Bool.or_eq_false_iff] at hup
    exact hup.1
  obtain ⟨-, hf, -⟩ := going?_eq_some.mp hgo
  obtain ⟨x, hx, hv⟩ := (prepares_act hgo hearly).collects hsupplied hshut
  have hk : w.Kept (x.collected t manual') := hx.kept.trans (x.kept_collected t manual')
  rw [collect_eq, hx.found, found_eq] at hv
  exact h.starts_nearer succeeds hk hr hf hst (hm.drawn_early (job?_of_going hgo) hearly) hv

/-! ## Fair runs -/

/-- In a fair run the setup goes on when its crew has ended. -/
theorem Fair.bound_settles (h : w.Fair acts) (hs : w.Sound) (hno : ∀ n, acts n ≠ .cancel t)
    (hb : (w.after acts n).Bound t manual maxFail succeeds goal whom r as draws)
    (hf : (w.after acts n).Fresh as) :
    ∃ m, n ≤ m ∧ acts m = .poll t ∧ t ∈ (w.after acts m).ready ∧
      (w.after acts m).Bound t manual maxFail succeeds goal whom r as draws ∧
      ∀ g ∈ as, (w.after acts m).isFinished g = true :=
  h.waits_for_crew hs hb hf (fun m _ hm hwait => hm.waits (hs.after acts m) (hno m) hwait)
    (fun _ hv => hv.going) fun _ hv => ⟨r, draws, hv.assigned⟩

/-- In a fair run a round comes to its result: each iteration leaves fewer candidates. -/
theorem Fair.bound_comes (h : w.Fair acts) (hs : w.Sound) (hno : ∀ n, acts n ≠ .cancel t)
    (hcandid : ∀ n, (w.after acts n).Candid)
    (hup : ∀ n, (w.after acts n).isFinished t = false → (w.after acts n).isTornDown = false)
    (hfate : ∀ n, (w.after acts n).isFinished t = false → (w.after acts n).Fated t succeeds)
    (hn : (w.after acts n).ComesNearer t manual maxFail succeeds goal whom left) :
    ∃ m, n ≤ m ∧ (w.after acts m).HasCome t goal whom := by
  induction left using Nat.strong_induction_on generalizing n with
  | _ left ih =>
    rcases hn with hcome | ⟨r, as, draws, hlt, hfresh, hb⟩
    · exact ⟨n, Nat.le_refl n, hcome⟩
    · obtain ⟨m, hm, hpoll, hready, hbm, hall⟩ := h.bound_settles hs hno hb hfresh
      have hnext := hbm.judges (hs.after acts m) (hup m hbm.going) hready (hfate m hbm.going) hall
        (hbm.told (hcandid m) hall)
      rw [← hpoll] at hnext
      obtain ⟨k, hk, hcome⟩ := ih _ hlt (n := m + 1) hnext
      exact ⟨k, Nat.le_trans (Nat.le_succ_of_le hm) hk, hcome⟩

end Overlay

end RelayUpkeep
