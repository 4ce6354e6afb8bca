import RelayUpkeep.Proofs.Preparing
import RelayUpkeep.Proofs.Selection

/-! # The steps of a setup

In each step a setup waits on, draws candidates, or ends. It draws those who are eligible when it
has its channels, and those who are left when an iteration of its round has failed. Each way to end
has its cause in the state that the step meets. -/

namespace RelayUpkeep.Overlay

variable {t : TaskId} {u v w x : Overlay} {manual : List PeerAddress} {maxFail : Nat}
  {stage : SetupStage} {r : Round} {as : List TaskId} {e : Exit}

/-- What a task does, or was doing when it ended. -/
def job? (w : Overlay) (t : TaskId) : Option Job := (w.tasks[t]?).map Task.job

theorem job?_eq_some {job : Job} :
    w.job? t = some job ↔ ∃ task : Task, w.tasks[t]? = some task ∧ task.job = job := by
  simp [job?]

theorem role?_of_job? {job : Job} (h : w.job? t = some job) : w.role? t = some job.role := by
  obtain ⟨task, ht, rfl⟩ := job?_eq_some.mp h
  exact role?_eq_some.mpr ⟨task, ht, rfl⟩

theorem job?_setJob (ht : t < w.tasks.length) (job : Job) : (w.setJob t job).job? t = some job := by
  simp [job?, setJob, List.getElem?_eq_getElem ht]

theorem job?_staffed (ht : t < w.tasks.length) :
    (w.staffed t manual maxFail r).job? t = some (.setup manual maxFail (.settling
      { r with candidates := r.candidates.drop r.draws.length }
      (List.range' w.tasks.length r.draws.length))) := by
  refine job?_setJob ?_ _
  rw [spawnAll_eq]
  exact Nat.lt_of_lt_of_le ht (by simp)

theorem takeTurn_cases (w : Overlay) (t : TaskId) (manual : List PeerAddress) (maxFail : Nat)
    (r : Round) : (∃ e, w.takeTurn t manual maxFail r = w.publish.finish t (.failed e)) ∨
      w.takeTurn t manual maxFail r = w.staffed t manual maxFail r := by
  rw [takeTurn_eq]
  split_ifs
  · exact .inl ⟨_, rfl⟩
  · exact .inl ⟨_, rfl⟩
  · exact .inr rfl

/-- The attempts of an iteration have ended, and the round is not satisfied. -/
structure FailsRound (u : Overlay) (r : Round) (as : List TaskId) : Prop where
  ended : ∀ a ∈ as, u.isFinished a = true
  unsatisfied : (r.settle (u.endings as)).isSatisfied u.manager.config.joinPolicy = false

/-- The round with which the next candidates are drawn. -/
def retried (u : Overlay) (r : Round) (as : List TaskId) : Round :=
  (r.settle (u.endings as)).retry (u.grievance r as)

theorem wanted_retried (u : Overlay) (r : Round) (as : List TaskId) :
    (u.retried r as).wanted = r.wanted := r.wanted_settle _

@[simp] theorem candidates_retried (u : Overlay) (r : Round) (as : List TaskId) :
    (u.retried r as).candidates = r.candidates := r.candidates_settle _

@[simp] theorem maxFail_retried (u : Overlay) (r : Round) (as : List TaskId) :
    (u.retried r as).maxFail = r.maxFail := r.maxFail_settle _

@[simp] theorem failures_retried (u : Overlay) (r : Round) (as : List TaskId) :
    (u.retried r as).failures = r.failures + 1 := congrArg (· + 1) (r.failures_settle _)

@[simp] theorem trail_retried (u : Overlay) (r : Round) (as : List TaskId) :
    (u.retried r as).trail = r.trail ++ u.grievance r as ++ " " :=
  congrArg (· ++ u.grievance r as ++ " ") (r.trail_settle _)

/-- Why a setup ends by itself. -/
inductive Cause (t : TaskId) (manual : List PeerAddress) (u : Overlay) :
    SetupStage → Exit → Prop
  | shutDown {stage : SetupStage} (hs : stage.isEarly = true)
      (h : u.manager.isShutDown = true) : Cause t manual u stage (.failed .shutDown)
  | crashed {stage : SetupStage} (text : String) (hs : stage.isEarly = true)
      (h : u.hears? t stage = some (.crash text)) :
      Cause t manual u stage (.crashed (.collaborator text))
  | unavailable {stage : SetupStage} (e : RelayError) (hs : stage.isEarly = true)
      (h : u.hears? t stage = some (.fail e)) :
      Cause t manual u stage (.failed e.asResourceUnavailable)
  | nobody {stage : SetupStage} (hs : stage.isEarly = true) (h : u.supplied t stage = true)
      (hn : u.eligible manual = []) :
      Cause t manual u stage (.failed (.noCandidates "no relay candidates"))
  | full {stage : SetupStage} (hs : stage.isEarly = true) (h : u.supplied t stage = true)
      (hr : u.manager.pool.remaining = 0) : Cause t manual u stage (.relays [])
  | satisfied (r : Round) (as : List TaskId) (views : List RelayView)
      (hall : ∀ a ∈ as, u.isFinished a = true) :
      Cause t manual u (.settling r as) (.relays views)
  | race (r : Round) (as : List TaskId) (hf : u.FailsRound r as) (h : u.isTornDown = true) :
      Cause t manual u (.settling r as) (.failed (.shutDownRace (u.grievance r as)))
  | tooMany (r : Round) (as : List TaskId) (hf : u.FailsRound r as)
      (hm : (u.retried r as).maxFail < (u.retried r as).failures) :
      Cause t manual u (.settling r as)
        (.failed (.maxFailuresExceeded (Text.trimEnd (u.retried r as).trail)))
  | exhausted (r : Round) (as : List TaskId) (hf : u.FailsRound r as)
      (hm : (u.retried r as).failures ≤ (u.retried r as).maxFail)
      (hd : (u.retried r as).draws = []) :
      Cause t manual u (.settling r as)
        (.failed (.noCandidates (Text.trimEnd (u.retried r as).trail)))

/-- The round from which a setup draws candidates in a step. -/
inductive Next (t : TaskId) (manual : List PeerAddress) (maxFail : Nat) (u : Overlay) :
    SetupStage → Round → Prop
  | first {stage : SetupStage} (hs : stage.isEarly = true) (h : u.supplied t stage = true) :
      Next t manual maxFail u stage
        (Round.start u.manager.pool.remaining (u.eligible manual) maxFail)
  | again (r : Round) (as : List TaskId) (hf : u.FailsRound r as) :
      Next t manual maxFail u (.settling r as) (u.retried r as)

/-- What a setup does in a step. -/
inductive Advances (t : TaskId) (manual : List PeerAddress) (maxFail : Nat) (u : Overlay)
    (stage : SetupStage) : Overlay → Prop
  | rests {v : Overlay} (hk : u.Kept v) (hn : u.supplied t stage = false)
      (hw : ∀ r as, stage = .settling r as → ∃ a ∈ as, u.isFinished a = false) :
      Advances t manual maxFail u stage v
  | waits {v : Overlay} (s : SetupStage) (hs : s.isEarly = true) (hearly : stage.isEarly = true)
      (ht : v.tasks = (u.setJob t (.setup manual maxFail s)).tasks) (hx : v.exits = u.exits)
      (hn : u.supplied t stage = false) : Advances t manual maxFail u stage v
  | ends {x : Overlay} {e : Exit} (hk : u.Kept x) (hc : u.Cause t manual stage e) :
      Advances t manual maxFail u stage (x.finish t e)
  | draws {x : Overlay} {r : Round} (hk : u.Kept x) (hr : u.Next t manual maxFail stage r)
      (hm : r.failures ≤ r.maxFail) (hd : r.draws ≠ []) :
      Advances t manual maxFail u stage (x.staffed t manual maxFail r)

/-! ## Before the round -/

theorem Heard.hears? {o : Outcome} {more : List Entry} (h : u.Heard t stage o more) :
    u.hears? t stage = some o := by
  cases h with
  | later => rfl
  | atOnce h ho =>
    cases stage with
    | reserving => simp [asks, seizes] at h
    | entering | queued | settling => simp only [Overlay.hears?, if_pos h, ho]

theorem Heard.plain {o : Outcome} {more : List Entry} (h : u.Heard t stage o more) :
    ∀ e ∈ more, e.event.isPlain = true := by
  cases h <;> simp [asking, Event.isPlain]

theorem reserves_passing (w : Overlay) (gate : FairLock TaskId) (ready : List TaskId)
    {more : List Entry} (h : ∀ e ∈ more, e.event.isPlain = true) :
    w.Reserves (w.passing gate ready more) := ⟨gate, _, _, more, ready, rfl, h⟩

theorem reserves_granting (w : Overlay) (gate : FairLock TaskId) (ready : List TaskId)
    {more : List Entry} (h : ∀ e ∈ more, e.event.isPlain = true) :
    w.Reserves (w.granting gate ready more) := by
  refine ⟨gate, some w.granted, w.granted + 1, more ++ [⟨w.clock, .granted w.granted⟩], ready,
    by simp [granting], fun e he => ?_⟩
  rcases List.mem_append.mp he with he | he
  · exact h e he
  · rw [List.mem_singleton.mp he]
    rfl

theorem supplied_of_hears (h : u.hears? t stage = some .succeed) : u.supplied t stage = true := by
  simp [supplied, h]

theorem not_supplied_of_seizes (h : u.seizes t stage = false) (hn : ∀ o, stage ≠ .reserving o) :
    u.supplied t stage = false := by
  cases stage with
  | reserving o => exact absurd rfl (hn o)
  | entering | queued | settling => simp [supplied, hears?, asks, h]

/-- A setup that hears an answer has channels if it is a success. -/
theorem Heard.supplied_iff {o : Outcome} {more : List Entry} (h : u.Heard t stage o more) :
    u.supplied t stage = true ↔ o = .succeed := by
  have hstored : (u.seizes t stage && u.manager.creator.isSome) = false := by
    cases h with
    | later o => simp [seizes]
    | atOnce h =>
      simp only [asks, Bool.and_eq_true] at h
      simp [Option.isNone_iff_eq_none.mp h.1.2]
  simp [supplied, hstored, h.hears?]

theorem not_supplied_of_held (h : u.manager.gate.holder ≠ none) :
    u.supplied t .entering = false := by
  refine not_supplied_of_seizes ?_ (by simp)
  have hheld : u.manager.gate.holder.isNone = false := by
    simpa [Option.isSome_iff_ne_none] using h
  simp [seizes, hheld]

theorem not_supplied_of_waiting (h : u.manager.gate.holder ≠ some t) :
    u.supplied t .queued = false :=
  not_supplied_of_seizes (by simpa [seizes] using h) (by simp)

theorem not_supplied_of_delay (h : u.asks t stage = true) (hd : u.reserveScript.delay ≠ 0) :
    u.supplied t stage = false := by
  have hlate : u.reserveScript.immediate? = none := by simp [Script.immediate?, hd]
  have hc : u.manager.creator.isSome = false := by
    simp only [asks, Bool.and_eq_true] at h
    simpa using h.1.2
  cases stage with
  | reserving => simp [asks, seizes] at h
  | entering | queued | settling => simp [supplied, hears?, h, hlate, hc]

/-- A setup that has channels collects its candidates. -/
theorem Prepares.collects (h : u.Prepares t manual maxFail stage v)
    (hs : u.supplied t stage = true) (hup : u.manager.isShutDown = false) :
    ∃ x, u.Reserves x ∧ v = x.collect t manual maxFail := by
  cases h with
  | refused _ hdown | denied _ _ _ _ hdown => exact absurd hdown (by simp [hup])
  | queues _ _ _ hh => exact absurd hs (by simp [not_supplied_of_held hh])
  | lines _ hh => exact absurd hs (by simp [not_supplied_of_waiting hh])
  | waits _ _ ha hd => exact absurd hs (by simp [not_supplied_of_delay ha hd])
  | crashes _ _ _ h | fails _ _ _ h => exact absurd (h.supplied_iff.mp hs) (by simp)
  | reuses gate ready => exact ⟨_, u.reserves_passing gate ready (by simp), rfl⟩
  | gains gate ready h => exact ⟨_, u.reserves_granting gate ready h.plain, rfl⟩

/-- The first draw of a round that wants relays and has candidates is not empty. -/
theorem draws_start_ne_nil {room : Nat} {candidates : List PeerAddress}
    (h : (Round.start room candidates maxFail).wanted ≠ 0) :
    (Round.start room candidates maxFail).draws ≠ [] := by
  intro hd
  have hl := congrArg List.length hd
  rw [Round.length_draws, Round.filled_start] at hl
  rw [Round.wanted_start] at h hl
  simp only [Round.start, List.length_nil] at hl
  omega

theorem advances_collect (hx : u.Reserves x) (hs : stage.isEarly = true)
    (h : u.supplied t stage = true) :
    u.Advances t manual maxFail stage (x.collect t manual maxFail) := by
  have hk : u.Kept (x.collected t manual) := hx.kept.trans (x.kept_collected t manual)
  rw [collect_eq, hx.found, found_eq, startRound, hk.pool]
  split_ifs with hw hc
  · exact .ends hk (.nobody hs h (List.isEmpty_iff.mp hc))
  · refine .ends hk (.full hs h ?_)
    have hpos := List.length_pos_iff.mpr fun hn => hc (List.isEmpty_iff.mpr hn)
    rw [Round.wanted_start] at hw
    omega
  · rw [takeTurn_eq, if_neg (by simp [Round.start]), if_neg (draws_start_ne_nil hw)]
    exact .draws hk (.first hs h) (by simp [Round.start]) (draws_start_ne_nil hw)

theorem Prepares.advances (h : u.Prepares t manual maxFail stage v) (hs : stage.isEarly = true) :
    u.Advances t manual maxFail stage v := by
  have hpass : ∀ gate ready (more : List Entry), (∀ e ∈ more, e.event.isPlain = true) →
      u.Kept (u.passing gate ready more) := fun gate ready _ hp =>
    (u.reserves_passing gate ready hp).kept
  cases h with
  | refused ready hdown => exact .ends (hpass _ ready [] (by simp)) (.shutDown rfl hdown)
  | queues gate ready hup hh =>
    exact .waits .queued rfl rfl rfl rfl (not_supplied_of_held hh)
  | lines ready hh =>
    exact .rests (hpass _ ready [] (by simp)) (not_supplied_of_waiting hh) (by simp)
  | reuses gate ready h hc =>
    exact advances_collect (u.reserves_passing gate ready (by simp)) hs (by simp [supplied, h, hc])
  | denied gate ready h hc hdown => exact .ends (hpass gate ready [] (by simp)) (.shutDown hs hdown)
  | waits gate ready h hd =>
    exact .waits (.reserving _) rfl hs rfl rfl (not_supplied_of_delay h hd)
  | crashes gate ready text h =>
    exact .ends (hpass gate ready _ h.plain) (.crashed text hs h.hears?)
  | fails gate ready e h => exact .ends (hpass gate ready _ h.plain) (.unavailable e hs h.hears?)
  | gains gate ready h =>
    exact advances_collect (u.reserves_granting gate ready h.plain) hs (supplied_of_hears h.hears?)

/-! ## The round -/

theorem kept_publish (w : Overlay) : w.Kept w.publish := ⟨rfl, rfl, rfl, rfl, rfl⟩

theorem kept_rest (w : Overlay) (ready : List TaskId) : w.Kept { w with ready } :=
  ⟨rfl, rfl, rfl, rfl, rfl⟩

theorem advances_judge {ready : List TaskId} (hall : ∀ a ∈ as, u.isFinished a = true) :
    u.Advances t manual maxFail (.settling r as)
      (({ u with ready } : Overlay).judge t manual maxFail r as) := by
  have hk := u.kept_rest ready
  rw [judge_eq]
  split_ifs with hsat hdown
  · exact .ends (hk.trans (kept_publish _)) (.satisfied r as _ hall)
  · exact .ends hk (.race r as ⟨hall, Bool.eq_false_iff.mpr hsat⟩ hdown)
  · have hf : u.FailsRound r as := ⟨hall, Bool.eq_false_iff.mpr hsat⟩
    rw [takeTurn_eq]
    split_ifs with hm hd
    · exact .ends (hk.trans (kept_publish _)) (.tooMany r as hf hm)
    · exact .ends (hk.trans (kept_publish _)) (.exhausted r as hf (Nat.not_lt.mp hm) hd)
    · exact .draws hk (.again r as hf) (Nat.not_lt.mp hm) hd

/-- What a setup does when it goes on. -/
theorem advances_act (h : w.going? t = some (.setup manual maxFail stage)) :
    w.Advances t manual maxFail stage (w.act (.poll t)) := by
  cases stage with
  | entering | queued | reserving => exact (prepares_act h rfl).advances rfl
  | settling r as =>
    rw [act_of_going h]
    simp only [resume, pollSetup]
    split
    · next hall => exact advances_judge fun a ha => List.all_eq_true.mp hall a ha
    · next hall =>
      refine .rests (w.kept_rest _) (not_supplied_of_seizes rfl (by simp)) ?_
      rintro r as ⟨⟩
      obtain ⟨a, ha, hf⟩ := List.all_eq_false.mp (Bool.eq_false_iff.mpr hall)
      exact ⟨a, ha, Bool.eq_false_iff.mpr hf⟩

end RelayUpkeep.Overlay
