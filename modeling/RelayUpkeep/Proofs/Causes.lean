import RelayUpkeep.Proofs.Ownership
import RelayUpkeep.Proofs.Reservations

/-! # Why setups fail

A setup that fails has a cause, and its error tells which: the manager was shut down, the
reservation failed, the failures exceeded the budget, or the candidates ran out. What a candidate
fails with is not seen by the caller. A setup that fails before its round leaves everything as it
was, and one that fails later leaves the relays that it has brought in the pool. -/

namespace RelayUpkeep

/-- Whatever reservations fail with, it is told as a lack of resources. -/
theorem RelayError.asResourceUnavailable_eq (e : RelayError) :
    ∃ reason, e.asResourceUnavailable = .resourceUnavailable reason := by
  cases e <;> exact ⟨_, rfl⟩

namespace FailedCache

variable {now later : Instant}

theorem prune_afterLookup (c : FailedCache) (p : PeerAddress) (h : now ≤ later) :
    (c.afterLookup p now).prune later = c.prune later := by
  simp only [afterLookup, prune, List.filter_filter, FailedCache.mk.injEq, true_and]
  refine List.filter_congr fun e _ => ?_
  by_cases hl : isLive later e = true
  · have hnow : isLive now e = true := decide_eq_true (Nat.le_trans h (of_decide_eq_true hl))
    simp [hl, hnow]
  · simp [hl]

theorem prune_removeFailed (c : FailedCache) (ps : List PeerAddress) (h : now ≤ later) :
    (c.removeFailed now ps).2.prune later = c.prune later := by
  induction ps generalizing c with
  | nil => rfl
  | cons p ps ih => exact (ih (c.afterLookup p now)).trans (c.prune_afterLookup p h)

end FailedCache

theorem Manager.prune_candidates (m : Manager) (me : PeerAddress) (manual known : List PeerAddress)
    {now later : Instant} (h : now ≤ later) :
    (m.candidates now me manual known).2.failed.prune later = m.failed.prune later := by
  unfold candidates
  simp only
  split
  · exact FailedCache.prune_removeFailed _ _ h
  · rfl

namespace Overlay

variable {t s : TaskId} {u v w x : Overlay} {manual : List PeerAddress} {maxFail n : Nat}
  {stage : SetupStage} {r : Round} {as : List TaskId} {acts : List Act} {y : Act} {i : Nat}
  {o : Outcome} {e : Exit}

/-! ## What the reservation came to -/

/-- Setup `t` asks for channels in step `i` of a run, and is going to hear `o`. -/
def AsksAt (w : Overlay) (acts : List Act) (t : TaskId) (i : Nat) (o : Outcome) : Prop :=
  acts[i]? = some (.poll t) ∧ (w.run (acts.take i)).reserveScript.outcome = o ∧
    ∃ manual maxFail stage, (w.run (acts.take i)).going? t = some (.setup manual maxFail stage) ∧
      (w.run (acts.take i)).asks t stage = true

theorem AsksAt.append (h : w.AsksAt acts t i o) (more : List Act) :
    w.AsksAt (acts ++ more) t i o :=
  ⟨getElem?_append_of_eq_some h.1 more, take_append_of_eq_some h.1 more ▸ h.2⟩

/-- A setup comes to wait for an answer when it asks for channels. -/
theorem Prepares.reserving (h : u.Prepares t manual maxFail stage v) (hs : stage.isEarly = true)
    (hj : u.job? t = some (.setup manual maxFail stage))
    (hv : v.job? t = some (.setup manual maxFail (.reserving o))) :
    stage = .reserving o ∨ u.asks t stage = true ∧ u.reserveScript.outcome = o := by
  have hsame : v.tasks = u.tasks → stage = .reserving o := fun he => by
    rw [job?, he] at hv
    simpa using hj.symm.trans hv
  have hlt : t < u.tasks.length := by
    obtain ⟨task, ht, -⟩ := job?_eq_some.mp hj
    exact (List.getElem?_eq_some_iff.mp ht).1
  have hcollect : ∀ {x : Overlay}, u.Reserves x → u.supplied t stage = true →
      v = x.collect t manual maxFail → stage = .reserving o := by
    rintro x hx hsup rfl
    have hadv : u.Advances t manual maxFail stage _ := advances_collect hx hs hsup
    generalize x.collect t manual maxFail = v at hadv hv hsame
    cases hadv with
    | rests _ hn | waits _ _ _ _ _ hn => exact absurd (hn.symm.trans hsup) (by simp)
    | ends hk => exact hsame ((tasks_finish _ _ _).trans hk.tasks)
    | draws hk => exact absurd ((job?_staffed (hk.tasks ▸ hlt)).symm.trans hv) (by simp)
  cases h with
  | refused | denied | crashes | fails => exact .inl (hsame (tasks_finish _ _ _))
  | lines => exact .inl (hsame rfl)
  | queues gate ready hup hh =>
    have he := (job?_setJob (w := u.passing gate ready []) hlt (.setup manual maxFail .queued))
    exact absurd (he.symm.trans hv) (by simp)
  | reuses gate ready h hc =>
    exact .inl (hcollect (u.reserves_passing gate ready (by simp)) (by simp [supplied, h, hc]) rfl)
  | waits gate ready h hd =>
    have he := (job?_setJob (w := u.passing gate ready [u.asking t]) hlt
      (.setup manual maxFail (.reserving u.reserveScript.outcome)))
    exact .inr ⟨h, by simpa using he.symm.trans hv⟩
  | gains gate ready h =>
    exact .inl (hcollect (u.reserves_granting gate ready h.plain) (supplied_of_hears h.hears?) rfl)

theorem Called.asked (h : w.Called t manual maxFail)
    (hj : w.job? t = some (.setup manual maxFail .entering)) (acts : List Act)
    (hv : (w.run acts).job? t = some (.setup manual maxFail (.reserving o))) :
    ∃ i, w.AsksAt acts t i o := by
  induction acts using List.reverseRecOn with
  | nil => exact absurd (hj.symm.trans hv) (by simp)
  | append_singleton acts y ih =>
    have hr := h.run acts
    rw [run_concat] at hv
    have hold : (w.run acts).job? t = some (.setup manual maxFail (.reserving o)) →
        ∃ i, w.AsksAt (acts ++ [y]) t i o := fun he => by
      obtain ⟨i, hi⟩ := ih he
      exact ⟨i, hi.append [y]⟩
    rcases hr.sound.setup_act hr.role y with ha | ⟨rfl, stage, hg⟩ | ⟨-, hk, -⟩
    · exact hold (ha.job.symm.trans hv)
    · have hcur := job?_of_going hg
      cases hs : stage.isEarly with
      | true =>
        rcases (prepares_act hg hs).reserving hs hcur hv with rfl | ⟨hasks, ho⟩
        · exact hold hcur
        · refine ⟨acts.length, List.getElem?_concat_length, ?_⟩
          rw [List.take_left]
          exact ⟨ho, _, _, stage, hg, hasks⟩
      | false =>
        rcases (advances_act hg).job hcur with he | ⟨he, -⟩ | ⟨x, r, -, -, -, he⟩
        · exact hold (hcur.trans (he.symm.trans hv))
        · exact absurd (hs.symm.trans he) (by simp)
        · exact absurd (he.symm.trans hv) (by simp)
    · exact hold ((hk.job? (hr.sound.grows_act y) (lt_of_role? hr.role)).symm.trans hv)

/-! ## Failed iterations -/

/-- Whether setup `t` finds in this step that an iteration of its round has failed. -/
def failsIteration (w : Overlay) (t : TaskId) : Bool :=
  match w.going? t with
  | some (.setup _ _ (.settling r as)) => as.all w.isFinished &&
      !(r.settle (w.endings as)).isSatisfied w.manager.config.joinPolicy
  | _ => false

/-- How many iterations of the round of setup `t` fail in a run. -/
def failedIterations (w : Overlay) (t : TaskId) : List Act → Nat
  | [] => 0
  | y :: acts =>
    (if y = .poll t ∧ w.failsIteration t = true then 1 else 0) + (w.act y).failedIterations t acts

theorem failsIteration_eq_true : w.failsIteration t = true ↔ ∃ manual maxFail r as,
    w.going? t = some (.setup manual maxFail (.settling r as)) ∧ w.FailsRound r as := by
  unfold failsIteration
  split
  · next manual maxFail r as h =>
    simp only [Bool.and_eq_true, List.all_eq_true, Bool.not_eq_eq_eq_not, Bool.not_true]
    constructor
    · exact fun hr => ⟨manual, maxFail, r, as, h, hr.1, hr.2⟩
    · rintro ⟨manual', maxFail', r', as', h', hr⟩
      obtain ⟨-, -, hs⟩ := Job.setup.inj (Option.some.inj (h.symm.trans h'))
      obtain ⟨rfl, rfl⟩ := SetupStage.settling.inj hs
      exact ⟨hr.ended, hr.unsatisfied⟩
  · next h =>
    refine iff_of_false (by simp) ?_
    rintro ⟨manual', maxFail', r', as', h', -⟩
    exact h _ _ _ _ h'

theorem failedIterations_append (w : Overlay) (t : TaskId) (acts more : List Act) :
    w.failedIterations t (acts ++ more) =
      w.failedIterations t acts + (w.run acts).failedIterations t more := by
  induction acts generalizing w with
  | nil => simp [failedIterations]
  | cons y acts ih => simp only [List.cons_append, failedIterations, ih, run_cons, Nat.add_assoc]

/-- How many iterations of the round of setup `t` fail in a step. -/
theorem failedIterations_concat (w : Overlay) (t : TaskId) (acts : List Act) (y : Act) :
    w.failedIterations t (acts ++ [y]) = w.failedIterations t acts +
      if y = .poll t ∧ (w.run acts).failsIteration t = true then 1 else 0 := by
  simp [failedIterations_append, failedIterations]

/-- A setup whose iteration fails goes on from a round whose attempts have all ended. -/
theorem round_of_failsIteration (hg : w.going? t = some (.setup manual maxFail stage))
    (hf : w.failsIteration t = true) : ∃ r as, stage = .settling r as ∧ w.FailsRound r as := by
  obtain ⟨_, _, r, as, hg', hfails⟩ := failsIteration_eq_true.mp hf
  obtain ⟨-, -, rfl⟩ := Job.setup.inj (Option.some.inj (hg.symm.trans hg'))
  exact ⟨r, as, rfl, hfails⟩

theorem not_failsIteration (h : w.isFinished t = true) : w.failsIteration t = false := by
  by_contra hn
  obtain ⟨_, _, _, _, hg, -⟩ := failsIteration_eq_true.mp (by simpa using hn)
  obtain ⟨-, hf, -⟩ := going?_eq_some.mp hg
  exact absurd (h.symm.trans hf) (by simp)

theorem failedIterations_ended (hs : w.Sound) (h : w.isFinished t = true) (acts : List Act) :
    w.failedIterations t acts = 0 := by
  induction acts generalizing w with
  | nil => rfl
  | cons y acts ih =>
    rw [failedIterations, not_failsIteration h, ih (hs.act y) ((hs.grows_act y).isFinished h)]
    simp

/-- A round that has candidates on the way, after `n` failed iterations. -/
structure Tried (maxFail n : Nat) (r : Round) : Prop where
  budget : r.maxFail = maxFail
  failures : r.failures = n
  within : n ≤ maxFail
  wanted : 0 < r.wanted

/-- Setup `t` has not drawn anybody, or it goes on with its round, after `n` failed iterations. -/
def Trying (w : Overlay) (t : TaskId) (manual : List PeerAddress) (maxFail n : Nat) : Prop :=
  w.isFinished t = true ∨
  (∃ stage, w.job? t = some (.setup manual maxFail stage) ∧ stage.isEarly = true ∧ n = 0) ∨
  ∃ r as, w.job? t = some (.setup manual maxFail (.settling r as)) ∧ Tried maxFail n r ∧
    w.drawn t ≠ []

theorem wanted_of_draws (h : r.draws ≠ []) : 0 < r.wanted := by
  have hlen := List.length_pos_iff.mpr h
  rw [Round.length_draws] at hlen
  omega

/-- A setup that draws goes on with its round. -/
theorem Sound.trying_draws (h : w.Sound) (hr : w.role? t = some (.setup manual maxFail))
    (hk : w.Kept x) (hv : w.act y = x.staffed t manual maxFail r) (hd : r.draws ≠ [])
    (hbudget : r.maxFail = maxFail) (hm : r.failures ≤ r.maxFail) :
    (w.act y).Trying t manual maxFail r.failures := by
  have hwanted : 0 < r.wanted := wanted_of_draws hd
  refine .inr (.inr ⟨{ r with candidates := r.candidates.drop r.draws.length }, _, by
    rw [hv]; exact job?_staffed (hk.tasks ▸ lt_of_role? hr),
    ⟨hbudget, rfl, hbudget ▸ hm, hwanted⟩, ?_⟩)
  rw [h.drawn_staffed hk hr hv]
  simp [hd]

/-- A setup that has not drawn anybody has not failed an iteration either. -/
theorem Trying.early (h : w.Trying t manual maxFail n)
    (hg : w.going? t = some (.setup manual maxFail stage)) (he : stage.isEarly = true) :
    n = 0 ∧ w.failsIteration t = false := by
  obtain ⟨-, hunf, -⟩ := going?_eq_some.mp hg
  constructor
  · rcases h.resolve_left (by simp [hunf]) with ⟨_, -, -, hn⟩ | ⟨r, as, hj, -⟩
    · exact hn
    · obtain rfl : stage = .settling r as := by simpa using (job?_of_going hg).symm.trans hj
      exact absurd he (by simp [SetupStage.isEarly])
  · by_contra hn
    obtain ⟨r, as, rfl, -⟩ := round_of_failsIteration hg (by simpa using hn)
    exact absurd he (by simp [SetupStage.isEarly])

/-- A setup with a round has candidates on the way. -/
theorem Trying.tried (h : w.Trying t manual maxFail n)
    (hg : w.going? t = some (.setup manual maxFail (.settling r as))) : Tried maxFail n r := by
  obtain ⟨-, hunf, -⟩ := going?_eq_some.mp hg
  have hcur := job?_of_going hg
  rcases h.resolve_left (by simp [hunf]) with ⟨stage, hj, he, -⟩ | ⟨r', as', hj, htried, -⟩
  · obtain rfl : stage = .settling r as := by simpa using hj.symm.trans hcur
    exact absurd he (by simp [SetupStage.isEarly])
  · obtain ⟨rfl, rfl⟩ : r' = r ∧ as' = as := by simpa using hj.symm.trans hcur
    exact htried

theorem Tried.retried (h : Tried maxFail n r) (w : Overlay) (as : List TaskId) :
    (w.retried r as).maxFail = maxFail ∧ (w.retried r as).failures = n + 1 := by
  rw [maxFail_retried, failures_retried, h.budget, h.failures]
  exact ⟨rfl, rfl⟩

theorem Trying.going (h : w.Trying t manual maxFail n) (hs : w.Sound)
    (hg : w.going? t = some (.setup manual maxFail stage)) :
    (w.act (.poll t)).Trying t manual maxFail
      (n + if w.failsIteration t = true then 1 else 0) := by
  have hr := role?_of_going hg
  obtain ⟨-, hunf, -⟩ := going?_eq_some.mp hg
  have hadv := advances_act hg
  generalize hv : w.act (.poll t) = v at hadv
  cases hadv with
  | rests hk _ hw =>
    have hno : w.failsIteration t = false := by
      by_contra hn
      obtain ⟨r, as, hstage, hfails⟩ := round_of_failsIteration hg (by simpa using hn)
      obtain ⟨a, ha, hfa⟩ := hw r as hstage
      exact absurd ((hfails.ended a ha).symm.trans hfa) (by simp)
    have hj : v.job? t = w.job? t := by rw [job?, hk.tasks, job?]
    rw [Trying, hj, drawn_congr hk.tasks, hno]
    exact .inr (h.resolve_left (by simp [hunf]))
  | waits s hs' he ht =>
    obtain ⟨hn, hno⟩ := h.early hg he
    have hj : v.job? t = some (.setup manual maxFail s) := by
      rw [job?, ht]
      exact job?_setJob (lt_of_role? hr) _
    exact .inr (.inl ⟨s, hj, hs', by simp [hn, hno]⟩)
  | ends => exact .inl (isFinished_finish _ _ _)
  | draws hk hn hm hd =>
    cases hn with
    | first he =>
      obtain ⟨hn, hno⟩ := h.early hg he
      rw [hn, hno, ← hv]
      exact hs.trying_draws hr hk hv hd rfl hm
    | again r as hfails =>
      obtain ⟨hbudget, hfailures⟩ := (h.tried hg).retried w as
      have hyes : w.failsIteration t = true := failsIteration_eq_true.mpr ⟨_, _, r, as, hg, hfails⟩
      rw [hyes, if_pos rfl, ← hfailures, ← hv]
      exact hs.trying_draws hr hk hv hd hbudget hm

theorem Trying.act (h : w.Trying t manual maxFail n) (hs : w.Sound)
    (hr : w.role? t = some (.setup manual maxFail)) (y : Act) :
    (w.act y).Trying t manual maxFail
      (n + if y = .poll t ∧ w.failsIteration t = true then 1 else 0) := by
  by_cases hgo : y = .poll t ∧ ∃ stage, w.going? t = some (.setup manual maxFail stage)
  · obtain ⟨rfl, stage, hg⟩ := hgo
    simpa using h.going hs hg
  have hno : ¬(y = .poll t ∧ w.failsIteration t = true) := by
    rintro ⟨rfl, hf⟩
    obtain ⟨manual', maxFail', r, as, hg, -⟩ := failsIteration_eq_true.mp hf
    obtain ⟨rfl, rfl⟩ := Role.setup.inj (Option.some.inj ((role?_of_going hg).symm.trans hr))
    exact hgo ⟨rfl, _, hg⟩
  rw [if_neg hno, Nat.add_zero]
  rcases hs.setup_act hr y with ha | hg | ⟨-, -, he⟩
  · rw [Trying, isFinished, ha.exit, ha.job, ha.drawn hs]
    exact h
  · exact absurd hg hgo
  · exact .inl (isFinished_of_exit? he)

theorem Called.trying (h : w.Called t manual maxFail)
    (hj : w.job? t = some (.setup manual maxFail .entering)) (acts : List Act) :
    (w.run acts).Trying t manual maxFail (w.failedIterations t acts) := by
  induction acts using List.reverseRecOn with
  | nil => exact .inr (.inl ⟨_, hj, rfl, rfl⟩)
  | append_singleton acts y ih =>
    have hr := h.run acts
    rw [run_concat, failedIterations_concat]
    exact ih.act hr.sound hr.role y

/-! ## The step in which a setup ends -/

/-- Setup `t` ends by itself in step `i` of a run. -/
def EndsAt (w : Overlay) (acts : List Act) (t : TaskId) (e : Exit) (i : Nat) : Prop :=
  acts[i]? = some (.poll t) ∧ (∃ job, (w.run (acts.take i)).going? t = some job) ∧
    (w.run (acts.take (i + 1))).exit? t = some e

theorem EndsAt.append (h : w.EndsAt acts t e i) (more : List Act) :
    w.EndsAt (acts ++ more) t e i := by
  refine ⟨getElem?_append_of_eq_some h.1 more, ?_⟩
  rw [take_append_of_eq_some h.1, take_succ_append_of_eq_some h.1]
  exact h.2

namespace Called

theorem ends (h : w.Called t manual maxFail) (hgo : w.isFinished t = false)
    (he : (w.run acts).exit? t = some e) (hne : e ≠ .cancelled) : ∃ i, w.EndsAt acts t e i := by
  induction acts using List.reverseRecOn with
  | nil => exact absurd (isFinished_of_exit? he) (by simp [hgo])
  | append_singleton acts y ih =>
    have hr := h.run acts
    cases hold : (w.run acts).exit? t with
    | some e' =>
      have hkept := (hr.sound.grows_act y).exit? hold
      obtain rfl := Option.some.inj (hkept.symm.trans (run_concat w acts y ▸ he))
      obtain ⟨i, hi⟩ := ih hold
      exact ⟨i, hi.append [y]⟩
    | none =>
      rcases hr.sound.setup_act hr.role y with ha | ⟨rfl, stage, hg⟩ | ⟨-, -, hc⟩
      · rw [run_concat, ha.exit, hold] at he
        exact absurd he (by simp)
      · refine ⟨acts.length, List.getElem?_concat_length, ?_⟩
        rw [List.take_left, List.take_of_length_le (by simp)]
        exact ⟨⟨_, hg⟩, he⟩
      · rw [run_concat, hc] at he
        exact absurd (Option.some.inj he).symm hne

/-- The cause for which a setup ends. It draws nobody in that step. -/
theorem cause (h : w.Called t manual maxFail) (he : w.EndsAt acts t e i) :
    (w.run (acts.take (i + 1))).drawn t = (w.run (acts.take i)).drawn t ∧
      ∃ stage, (w.run (acts.take i)).going? t = some (.setup manual maxFail stage) ∧
        (w.run (acts.take i)).Cause t manual stage e := by
  obtain ⟨hact, ⟨job, hg⟩, hend⟩ := he
  rw [run_take_succ hact] at hend ⊢
  obtain ⟨stage, rfl⟩ :=
    Job.eq_setup (Option.some.inj ((role?_of_going hg).symm.trans (h.run _).role))
  obtain ⟨hc, htasks⟩ := (advances_act hg).ended (going?_eq_some.mp hg).2.1 hend
  exact ⟨drawn_congr htasks t, stage, hg, hc⟩

end Called

/-! ## Cause and error -/

/-- Setup `t`, which ends in step `i` of a run, has cause to fail with an error. -/
def Warranted (w : Overlay) (acts : List Act) (t : TaskId) (manual : List PeerAddress)
    (maxFail i : Nat) : RelayError → Prop
  | .shutDown => (w.run (acts.take i)).manager.isShutDown = true
  | .resourceUnavailable reason => ∃ e j, j ≤ i ∧ w.AsksAt acts t j (.fail e) ∧
      e.asResourceUnavailable = .resourceUnavailable reason
  | .shutDownRace _ => (w.run (acts.take i)).failsIteration t = true ∧
      (w.run (acts.take i)).isTornDown = true
  | .maxFailuresExceeded _ => w.failedIterations t acts = maxFail + 1
  | .noCandidates _ => ∃ j, j ≤ i ∧ w.FindsAt acts t j ∧
      (w.run (acts.take i)).drawn t = (w.run (acts.take j)).eligible manual
  | .handshakeRejected .. | .connectFailed .. | .transport _ | .invalidConfig _ | .config _ => False

/-- A round that is not satisfied and draws nobody has no candidates. -/
theorem FailsRound.candidates (h : u.FailsRound r as) (hw : 0 < r.wanted)
    (hd : (u.retried r as).draws = []) : r.candidates = [] := by
  have hfilled : (u.retried r as).filled = (r.settle (u.endings as)).filled := rfl
  have hunsat := h.unsatisfied
  have hle := u.manager.config.joinPolicy.required_le r.wanted
  have hlen := congrArg List.length hd
  rw [Round.length_draws, candidates_retried, wanted_retried, hfilled, List.length_nil] at hlen
  simp only [Round.isSatisfied, JoinPolicy.isSatisfied, Round.wanted_settle, hw, decide_true,
    Bool.true_and, decide_eq_false_iff_not] at hunsat
  exact List.eq_nil_of_length_eq_zero (by omega)

namespace Called

theorem settling (h : w.Called t manual maxFail)
    (hj : w.job? t = some (.setup manual maxFail .entering)) (hu : w.Uncollected t)
    (hg : (w.run acts).going? t = some (.setup manual maxFail (.settling r as))) :
    Tried maxFail (w.failedIterations t acts) r ∧ ∃ j, j < acts.length ∧ w.FindsAt acts t j ∧
      (w.run acts).drawn t ++ r.candidates = (w.run (acts.take j)).eligible manual := by
  obtain ⟨-, hf, -⟩ := going?_eq_some.mp hg
  have hcur := job?_of_going hg
  constructor
  · exact (h.trying hj acts).tried hg
  · -- there is no round before the step in which the setup finds its candidates
    obtain ⟨j, hfinds⟩ : ∃ j, w.FindsAt acts t j := by
      by_contra hno
      have hend := (h.uncollected_run hu acts fun j hj => hno ⟨j, hj⟩).2
      obtain ⟨_, _, stage, hstage, hearly⟩ := hend.resolve_left (by simp [hf])
      obtain ⟨-, -, rfl⟩ := Job.setup.inj (Option.some.inj (hstage.symm.trans hcur))
      exact absurd hearly (by simp [SetupStage.isEarly])
    have hlt := (List.getElem?_eq_some_iff.mp hfinds.1).1
    obtain ⟨left, hleft, hend⟩ := h.drawsFrom_after hfinds hlt
    rw [List.take_length] at hleft hend
    obtain ⟨_, _, r', as', hj', rfl⟩ := hend.resolve_left (by simp [hf])
    obtain ⟨-, -, hs⟩ := Job.setup.inj (Option.some.inj (hj'.symm.trans hcur))
    obtain ⟨rfl, rfl⟩ := SetupStage.settling.inj hs
    exact ⟨j, hlt, hfinds, hleft⟩

/-- A setup that ends with an error has cause to. -/
theorem warranted (h : w.Called t manual maxFail)
    (hj : w.job? t = some (.setup manual maxFail .entering)) (hu : w.Uncollected t) {e : RelayError}
    (he : w.EndsAt acts t (.failed e) i) : w.Warranted acts t manual maxFail i e := by
  obtain ⟨-, stage, hg, hc⟩ := h.cause he
  obtain ⟨hact, -, hend⟩ := he
  have hlt := (List.getElem?_eq_some_iff.mp hact).1
  have hlen : (acts.take i).length = i := List.length_take_of_le (Nat.le_of_lt hlt)
  cases hc with
  | shutDown _ hdown => exact hdown
  | unavailable e hs hh =>
    obtain ⟨reason, hreason⟩ := e.asResourceUnavailable_eq
    rw [hreason]
    rcases reserving_or_asks hh with rfl | hasks
    · obtain ⟨j, hasked⟩ := h.asked hj (acts.take i) (job?_of_going hg)
      have hj := (List.getElem?_eq_some_iff.mp hasked.1).1
      refine ⟨e, j, by omega, ?_, hreason⟩
      exact List.take_append_drop i acts ▸ hasked.append (acts.drop i)
    · refine ⟨e, i, Nat.le_refl i, ⟨hact, ?_, _, _, stage, hg, hasks⟩, hreason⟩
      rw [hears?_of_seizes (seizes_of_asks hasks).1, if_pos hasks] at hh
      exact (Script.immediate?_eq_some.mp hh).2
  | nobody hs hsup hnobody =>
    refine ⟨i, Nat.le_refl i, ⟨hact, collects_eq_true.mpr ⟨_, _, stage, hg, hsup⟩⟩, ?_⟩
    rw [hnobody]
    exact (h.run _).mustered.drawn_early (job?_of_going hg) hs
  | race r as hf hdown => exact ⟨failsIteration_eq_true.mpr ⟨_, _, r, as, hg, hf⟩, hdown⟩
  | tooMany r as hf hm =>
    have htried := (h.settling hj hu hg).1
    obtain ⟨hbudget, hfailures⟩ := htried.retried (w.run (acts.take i)) as
    rw [hbudget, hfailures] at hm
    have hwithin := htried.within
    have hyes : (w.run (acts.take i)).failsIteration t = true :=
      failsIteration_eq_true.mpr ⟨_, _, r, as, hg, hf⟩
    have hrest : (w.run (acts.take (i + 1))).failedIterations t (acts.drop (i + 1)) = 0 :=
      failedIterations_ended (h.run _).sound (isFinished_of_exit? hend) _
    have hcount := w.failedIterations_append t (acts.take (i + 1)) (acts.drop (i + 1))
    rw [List.take_append_drop, hrest, List.take_add_one, hact, Option.toList_some,
      failedIterations_concat, if_pos ⟨rfl, hyes⟩] at hcount
    rw [Warranted, hcount]
    omega
  | exhausted r as hf _ hd =>
    obtain ⟨htried, j, hlt, hfinds, hdrawn⟩ := h.settling hj hu hg
    rw [hf.candidates htried.wanted hd, List.append_nil, List.take_take,
      Nat.min_eq_left (by omega)] at hdrawn
    refine ⟨j, by omega, ?_, hdrawn⟩
    exact List.take_append_drop i acts ▸ hfinds.append (acts.drop i)

end Called

/-! ## What a setup leaves -/

namespace Called

theorem dialled_ended (h : w.Called t manual maxFail) (he : w.exit? t = some e)
    (hne : e ≠ .cancelled) (acts : List Act) : (w.run acts).dialled t = w.dialled t := by
  induction acts using List.reverseRecOn with
  | nil => rfl
  | append_singleton acts y ih =>
    have hr := h.run acts
    have hnone := (hr.all_dialled ((grows_run h.sound acts).exit? he) hne).2
    rw [run_concat, hr.sound.dialled_same hr.known fun a p _ hready hp => ?_, ih]
    have hlt := List.mem_range.mpr (hr.sound.ready a hready)
    exact absurd (List.mem_filterMap.mpr ⟨a, hlt, hp⟩) (by rw [← entered, hnone]; simp)

/-- From the step on in which a setup ends, it tries nobody else. -/
theorem tries_nobody_else (h : w.Called t manual maxFail) (he : w.EndsAt acts t e i)
    (hne : e ≠ .cancelled) :
    (w.run acts).drawn t = (w.run (acts.take i)).drawn t ∧
      (w.run acts).dialled t = (w.run (acts.take i)).dialled t := by
  have hz := h.run (acts.take i)
  have hend := h.run (acts.take (i + 1))
  obtain ⟨hsame, -⟩ := h.cause he
  obtain ⟨hact, -, hexit⟩ := he
  have hrest := (w.run_take_drop acts (i + 1)).symm
  refine ⟨?_, ?_⟩ <;> rw [hrest]
  · rw [hend.sound.drawn_ended hend.role (isFinished_of_exit? hexit), hsame]
  · rw [hend.dialled_ended hexit hne, run_take_succ hact]
    refine hz.sound.dialled_same hz.known fun a p hy _ => ?_
    obtain rfl := Act.poll.inj hy
    exact (role?_ne_setup hz.role _ p).2

end Called

/-- The pool, the node, and the failures that have not run out are as they were. -/
structure Unaltered (u v : Overlay) : Prop where
  pool : v.manager.pool = u.manager.pool
  node : v.node = u.node
  failed : ∀ later, u.now ≤ later → v.manager.failed.prune later = u.manager.failed.prune later

namespace Unaltered

theorem refl (w : Overlay) : w.Unaltered w := ⟨rfl, rfl, fun _ _ => rfl⟩

theorem finish (h : u.Unaltered v) (t : TaskId) (e : Exit) : u.Unaltered (v.finish t e) := by
  obtain ⟨rs, hv, -⟩ := v.finish_eq t e
  rw [hv]
  exact ⟨h.pool, h.node, h.failed⟩

theorem staffed (h : u.Unaltered v) (t : TaskId) (manual : List PeerAddress) (maxFail : Nat)
    (r : Round) : u.Unaltered (v.staffed t manual maxFail r) := by
  simp only [Overlay.staffed, spawnAll_eq]
  exact ⟨h.pool, h.node, h.failed⟩

/-- Reading who is known and who failed changes nothing. -/
theorem collect (h : u.Unaltered v) (hc : v.clock = u.clock) :
    u.Unaltered (v.collect t manual maxFail) := by
  have hcollected : u.Unaltered (v.collected t manual) := by
    refine ⟨?_, ?_, fun later hl => ?_⟩
    · rw [(v.kept_collected t manual).pool, h.pool]
    · obtain ⟨failed, more, he, -⟩ := v.collected_eq t manual
      rw [he, ← h.node]
    · have hnow : v.now ≤ later := by rwa [now, hc]
      rw [← h.failed later hl]
      exact Manager.prune_candidates _ _ _ _ hnow
  rw [collect_eq, startRound]
  split_ifs with hw
  · exact hcollected.finish _ _
  · exact hcollected.finish _ _
  · rw [takeTurn_eq, if_neg (by simp [Round.start]), if_neg (draws_start_ne_nil hw)]
    exact hcollected.staffed _ _ _ _

end Unaltered

/-- A setup that has no round yet changes nothing, even when it begins one. -/
theorem Prepares.unaltered (h : u.Prepares t manual maxFail stage v) : u.Unaltered v := by
  have hpass : ∀ gate ready more, u.Unaltered (u.passing gate ready more) :=
    fun _ _ _ => ⟨rfl, rfl, fun _ _ => rfl⟩
  cases h with
  | refused | denied | crashes | fails => exact (hpass _ _ _).finish _ _
  | queues | lines | waits => exact ⟨rfl, rfl, fun _ _ => rfl⟩
  | reuses gate ready => exact (hpass gate ready []).collect rfl
  | gains gate ready =>
    have hgrant : ∀ more, u.Unaltered (u.granting gate ready more) :=
      fun _ => ⟨rfl, rfl, fun _ _ => rfl⟩
    exact (hgrant _).collect rfl

/-- A setup that draws nobody and is not given up changes nothing. -/
theorem Called.unaltered (h : w.Called t manual maxFail)
    (hj : w.job? t = some (.setup manual maxFail .entering)) (he : (w.run acts).exit? t = some e)
    (hne : e ≠ .cancelled) (hd : (w.run acts).drawn t = []) (hact : acts[i]? = some (.poll t)) :
    (w.run (acts.take i)).Unaltered (w.run (acts.take (i + 1))) := by
  have hz := h.run (acts.take i)
  have hfront := (w.run_take_drop acts i).symm
  have hback := (w.run_take_drop acts (i + 1)).symm
  have hnone : (w.run (acts.take i)).drawn t = [] := by
    rw [hfront] at hd
    exact List.prefix_nil.mp (hd ▸ hz.sound.drawn_run (acts.drop i))
  rw [run_take_succ hact] at hback ⊢
  cases hg : (w.run (acts.take i)).going? t with
  | none =>
    rcases hz.sound.act_of_not_going hg with hv | hv | ⟨task, -, -, hf, hv⟩
    · rw [hv]
      exact .refl _
    · rw [hv]
      exact ⟨rfl, rfl, fun _ _ => rfl⟩
    · rw [hback] at he
      have hcancelled : ((w.run (acts.take i)).act (.poll t)).exit? t = some .cancelled := by
        rw [hv]
        exact exit?_abandon hf
      have hlast := (grows_run (hz.sound.act _) (acts.drop (i + 1))).exit? hcancelled
      exact absurd (Option.some.inj (hlast.symm.trans he)).symm hne
  | some job =>
    obtain ⟨stage, rfl⟩ := Job.eq_setup (Option.some.inj ((role?_of_going hg).symm.trans hz.role))
    cases hs : stage.isEarly with
    | true => exact (prepares_act hg hs).unaltered
    | false =>
      obtain ⟨-, hf, -⟩ := going?_eq_some.mp hg
      rcases (h.trying hj (acts.take i)).resolve_left (by simp [hf]) with
        ⟨stage', hj', hearly, -⟩ | ⟨_, _, -, -, hdrawn⟩
      · obtain rfl : stage' = stage := by simpa using hj'.symm.trans (job?_of_going hg)
        exact absurd (hs.symm.trans hearly) (by simp)
      · exact absurd hnone hdrawn

/-- A shutdown that begins in step `i` of a run drains relay `r`. -/
def DrainedAt (w : Overlay) (acts : List Act) (r : RelayId) (i : Nat) : Prop :=
  ∃ s, acts[i]? = some (.poll s) ∧ (w.run (acts.take i)).begins s = true ∧
    r ∈ (w.run (acts.take i)).pooled

theorem DrainedAt.append {r : RelayId} (h : w.DrainedAt acts r i) (more : List Act) :
    w.DrainedAt (acts ++ more) r i := by
  obtain ⟨s, hact, h⟩ := h
  exact ⟨s, getElem?_append_of_eq_some hact more, take_append_of_eq_some hact more ▸ h⟩

/-- A relay that the pool has taken in during a run is pooled unless it was lost or drained. -/
theorem Regular.keeps_added {r : RelayId} (h : w.Regular) (acts : List Act)
    (hr : (r, some .added) ∈ (w.run acts).offers) : (r, some .added) ∈ w.offers ∨
      r ∈ (w.run acts).pooled ∨ (w.run acts).isLost r = true ∨ ∃ i, w.DrainedAt acts r i := by
  induction acts using List.reverseRecOn with
  | nil => exact .inl hr
  | append_singleton acts y ih =>
    have hv : (w.run acts).Regular := h.run acts
    have hold : (r, some .added) ∈ (w.run acts).offers → (r, some .added) ∈ w.offers ∨
        r ∈ ((w.run acts).act y).pooled ∨ ((w.run acts).act y).isLost r = true ∨
          ∃ i, w.DrainedAt (acts ++ [y]) r i := fun hmem => by
      rcases ih hmem with ho | hp | hl | ⟨i, hi⟩
      · exact .inl ho
      · rcases hv.sound.pooled_act hv.heralded hp y with hp' | hl | ⟨s, rfl, hb⟩
        · exact .inr (.inl hp')
        · exact .inr (.inr (.inl hl))
        · refine .inr (.inr (.inr ⟨acts.length, s, List.getElem?_concat_length, ?_⟩))
          rw [List.take_left]
          exact ⟨hb, hp⟩
      · exact .inr (.inr (.inl ((hv.sound.grows_act y).isLost hl)))
      · exact .inr (.inr (.inr ⟨i, hi.append [y]⟩))
    rw [run_concat] at hr ⊢
    cases hv.sound.answers_act y with
    | none ho => exact hold (ho ▸ hr)
    | one p answer _ ho _ hp =>
      rw [ho] at hr
      rcases List.mem_append.mp hr with hr | hr
      · exact hold hr
      · obtain ⟨rfl, rfl⟩ := Prod.mk.inj (List.mem_singleton.mp hr)
        exact .inr (.inl (by simp [pooled, hp]))

/-- An error that a setup fails with speaks of the whole setup and has its cause. The setup tries
nobody else then. If the manager was shut down or the reservation failed it has tried nobody; and
one that has tried nobody has changed neither the pool, nor the address, nor who counts as failed.
In any case the relays that were added in the meantime are pooled unless they were lost or drained
by a shutdown. -/
theorem setup_failures_have_causes (config : RelayConfig) (mine : PeerAddress)
    (before during : List Act) (manual : List PeerAddress) (maxFail : Nat) (e : RelayError) :
    let u := (start config mine).run before
    let t := u.tasks.length
    let called := u.act (.setUp manual maxFail)
    let v := called.run during
    v.exit? t = some (.failed e) →
    e.isRoundTerminal = true ∧ e.isCandidateFailure = false ∧
    (∃ i, called.EndsAt during t (.failed e) i ∧ called.Warranted during t manual maxFail i e ∧
      v.drawn t = (called.run (during.take i)).drawn t ∧
      v.dialled t = (called.run (during.take i)).dialled t) ∧
    (v.dialled t).Perm (v.drawn t) ∧
    ((e = .shutDown ∨ ∃ reason, e = .resourceUnavailable reason) → v.dialled t = []) ∧
    (v.dialled t = [] → u.Unaltered called ∧ ∀ j, during[j]? = some (.poll t) →
      (called.run (during.take j)).Unaltered (called.run (during.take (j + 1)))) ∧
    ∀ r, (r, some .added) ∈ v.offers → (r, some .added) ∈ called.offers ∨
      r ∈ v.pooled ∨ v.isLost r = true ∨ ∃ i, called.DrainedAt during r i := by
  intro u t called v he
  obtain ⟨hcalled, huncollected, hnone⟩ := called_setUp config mine before manual maxFail
  have hregular : u.Regular := (stands_run config mine before).1
  have hj : called.job? t = some (.setup manual maxFail .entering) :=
    job?_eq_some.mpr ⟨_, List.getElem?_concat_length, rfl⟩
  have hgo : called.isFinished t = false := hregular.sound.new_act _ (Nat.le_refl _)
  obtain ⟨i, hi⟩ := hcalled.ends hgo he (by simp)
  have hwarranted := hcalled.warranted hj huncollected hi
  have hover := hcalled.tries_nobody_else hi (by simp)
  have hbalanced := hcalled.balanced_run (by rw [hnone]; exact ⟨[], .refl _, .inl rfl⟩) during
  have hperm : (v.dialled t).Perm (v.drawn t) :=
    (hcalled.run during).all_tried hbalanced he (by simp)
  refine ⟨?_, ?_, ⟨i, hi, hwarranted, hover⟩, hperm, fun hearly => ?_, fun hd => ?_,
    fun r => (hregular.act _).keeps_added during⟩
  · cases e <;> first | rfl | exact hwarranted.elim
  · cases e <;> first | rfl | exact hwarranted.elim
  · obtain ⟨-, stage, hg, hc⟩ := hcalled.cause hi
    have hs : stage.isEarly = true := by
      cases hc with
      | shutDown hs | unavailable _ hs | nobody hs => exact hs
      | race | tooMany | exhausted => exact absurd hearly (by simp)
    have hdrawn := (hcalled.run (during.take i)).mustered.drawn_early (job?_of_going hg) hs
    rw [hover.1, hdrawn] at hperm
    exact hperm.eq_nil
  · rw [hd] at hperm
    exact ⟨⟨rfl, rfl, fun _ _ => rfl⟩, fun j hact =>
      hcalled.unaltered hj he (by simp) hperm.symm.eq_nil hact⟩

/-- One candidate joins, and the other answers as if it were a manager that is shut down. -/
theorem setup_failures_have_causes_sample :
    let before : List Act := [.behave [.sample 3] { connect := ⟨0, .fail .shutDown⟩ }]
    let during : List Act :=
      [.poll 0, .poll 1, .poll 2, .poll 3, .poll 4, .poll 1, .poll 2, .poll 0]
    let called := ((start { joinPolicy := .allSucceed } (.sample 1)).run before).act
      (.setUp [.sample 2, .sample 3] 0)
    let v := called.run during
    let e : RelayError := .maxFailuresExceeded
      "[1/2 succeeded, 2 required; 0303030303030303: Relay manager is shut down]"
    v.exit? 0 = some (.failed e) ∧ e.isRoundTerminal = true ∧
      called.failedIterations 0 during = 1 ∧ v.pooled = [0] := by
  intro before during called v e
  have he : v.exit? 0 = some (.failed e) := by decide +kernel
  obtain ⟨hterminal, -, ⟨_, -, hcause, -⟩, -⟩ := setup_failures_have_causes
    { joinPolicy := .allSucceed } (.sample 1) before during [.sample 2, .sample 3] 0 e he
  exact ⟨he, hterminal, hcause, by decide +kernel⟩

end Overlay

end RelayUpkeep
