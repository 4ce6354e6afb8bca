import RelayUpkeep.Proofs.Candidates

/-! # The iterations of a round

A setup that draws candidates starts an iteration of its round. The first one starts when the setup
collects its candidates, and each other one when all the attempts of the one before have settled and
the round is not satisfied. -/

namespace RelayUpkeep

/-- An iteration: the round while its attempts are under way, and who guards them. -/
structure Iteration where
  round : Round
  crew : List TaskId
  deriving DecidableEq, Repr

/-- The round while the attempts that it draws are under way. -/
def Round.launched (r : Round) : Round := { r with candidates := r.candidates.drop r.draws.length }

/-- What the end of a guard tells of its attempt. -/
def Exit.told (slot : Nat) (p : PeerAddress) : Exit → AttemptEnd
  | .failed e => .failed p e
  | .crashed c => .aborted c.report
  | .cancelled => .aborted cancellationReport
  | .done | .relays _ => .joined slot p

namespace Overlay

variable {t g a : TaskId} {u v w x : Overlay} {y : Act} {r : Round} {as : List TaskId}
  {it next : Iteration} {its : List Iteration} {manual : List PeerAddress} {maxFail i slot : Nat}
  {stage : SetupStage} {p q : PeerAddress} {acts : List Act}

/-! ## Iterations of a run -/

/-- The iteration that a setup waits for, or was waiting for when it ended. -/
def iteration? (w : Overlay) (t : TaskId) : Option Iteration :=
  match w.job? t with
  | some (.setup _ _ (.settling r as)) => some ⟨r, as⟩
  | _ => none

/-- The iteration that setup `t` starts in a step. -/
def starts? (w : Overlay) (t : TaskId) (y : Act) : Option Iteration :=
  if (w.act y).iteration? t = w.iteration? t then none else (w.act y).iteration? t

/-- The iterations that setup `t` starts in a run, in this order. -/
def iterations (w : Overlay) (t : TaskId) : List Act → List Iteration
  | [] => []
  | y :: acts => (w.starts? t y).toList ++ (w.act y).iterations t acts

theorem iterations_append (w : Overlay) (t : TaskId) (acts more : List Act) :
    w.iterations t (acts ++ more) = w.iterations t acts ++ (w.run acts).iterations t more := by
  induction acts generalizing w with
  | nil => rfl
  | cons y acts ih => simp only [List.cons_append, iterations, ih, run_cons, List.append_assoc]

theorem iterations_concat (w : Overlay) (t : TaskId) (acts : List Act) (y : Act) :
    w.iterations t (acts ++ [y]) = w.iterations t acts ++ ((w.run acts).starts? t y).toList := by
  simp [iterations_append, iterations]

/-- The round as far as its attempts have settled. -/
def settled (w : Overlay) (it : Iteration) : Round := it.round.settle (w.endings it.crew)

theorem iteration?_of_job? (h : w.job? t = some (.setup manual maxFail (.settling r as))) :
    w.iteration? t = some ⟨r, as⟩ := by
  rw [iteration?, h]

theorem iteration?_early (h : w.job? t = some (.setup manual maxFail stage))
    (hs : stage.isEarly = true) : w.iteration? t = none := by
  unfold iteration?
  rw [h]
  cases stage <;> first | rfl | exact absurd hs (by simp [SetupStage.isEarly])

theorem job?_of_iteration? (hr : w.role? t = some (.setup manual maxFail))
    (h : w.iteration? t = some it) :
    w.job? t = some (.setup manual maxFail (.settling it.round it.crew)) := by
  unfold iteration? at h
  split at h
  · next m n r as hj =>
    obtain ⟨rfl, rfl⟩ := Role.setup.inj (Option.some.inj ((role?_of_job? hj).symm.trans hr))
    obtain rfl := Option.some.inj h
    exact hj
  · exact absurd h (by simp)

theorem iteration?_congr (h : v.job? t = u.job? t) : v.iteration? t = u.iteration? t := by
  rw [iteration?, h, iteration?]

/-! ## Who guards attempts for a setup -/

/-- The tasks that guard attempts for setup `t`, in the order in which they were started. -/
def guardsOf (w : Overlay) (t : TaskId) : List TaskId :=
  (List.range w.tasks.length).filterMap fun g => (w.draw? t g).map fun _ => g

/-- A guard has settled: it has ended, and so has the attempt that it has started, if any. -/
def isSettled (w : Overlay) (g : TaskId) : Bool :=
  w.isFinished g && match w.job? g with
    | some (.guardAttempt _ _ (some a)) => w.isFinished a
    | _ => true

/-- Those who guard attempts for setup `t` and have not settled. -/
def inFlight (w : Overlay) (t : TaskId) : List TaskId :=
  (w.guardsOf t).filter fun g => !w.isSettled g

theorem mem_guardsOf : g ∈ w.guardsOf t ↔ ∃ slot p, w.Plays g (.guard slot p) (some t) := by
  simp only [guardsOf, List.mem_filterMap, List.mem_range, Option.map_eq_some_iff]
  constructor
  · rintro ⟨g', -, p, hp, rfl⟩
    obtain ⟨slot, hp⟩ := draw?_eq_some.mp hp
    exact ⟨slot, p, hp⟩
  · rintro ⟨slot, p, hp⟩
    exact ⟨g, lt_of_role? hp.role?, p, draw?_eq_some.mpr ⟨slot, hp⟩, rfl⟩

theorem length_guardsOf (w : Overlay) (t : TaskId) : (w.guardsOf t).length = (w.drawn t).length := by
  simp [guardsOf, drawn, List.length_filterMap_eq_countP]

theorem Sound.guardsOf_act (h : w.Sound) (hd : ¬Draws t w (w.act y)) :
    (w.act y).guardsOf t = w.guardsOf t := by
  refine filterMap_range_same (h.grows_act y).tasks.length_le
    (fun g hg => by rw [h.draw?_act hg]) fun g hnew => Option.map_eq_none_iff.mpr ?_
  exact Option.eq_none_iff_forall_ne_some.mpr fun p hp => hd (draw?_new hnew hp)

theorem Sound.guardsOf_staffed (h : w.Sound) (hk : w.Kept x)
    (hr : w.role? t = some (.setup manual maxFail)) (hv : w.act y = x.staffed t manual maxFail r) :
    (w.act y).guardsOf t = w.guardsOf t ++ List.range' w.tasks.length r.draws.length := by
  have hlt := lt_of_role? hr
  rw [guardsOf, hv, length_staffed, hk.tasks, ← hv,
    filterMap_range_add fun g hg => by rw [h.draw?_act hg], List.range'_eq_map_range]
  refine congrArg _ ?_
  have hnew : ∀ i < r.draws.length,
      ((w.act y).draw? t (w.tasks.length + i)).map (fun _ => w.tasks.length + i) =
        some (w.tasks.length + i) := by
    intro i hi
    have hplays := plays_staffed (w := x) manual maxFail (hk.tasks ▸ hlt)
      (List.getElem?_eq_getElem hi)
    rw [← hv, hk.tasks] at hplays
    rw [draw?_eq_some.mpr ⟨_, hplays⟩, Option.map_some]
  rw [filterMap_range_congr hnew, List.filterMap_eq_map']

theorem isFinished_of_isSettled (h : w.isSettled g = true) : w.isFinished g = true :=
  (Bool.and_eq_true_iff.mp h).1

/-- A guard whose attempt has ended has settled when it has ended. -/
theorem Guards.isSettled (h : w.Guards g a q) (hg : w.isFinished g = true)
    (ha : w.isFinished a = true) : w.isSettled g = true := by
  obtain ⟨task, slot, ht, hj⟩ := h
  have hjob : w.job? g = some (.guardAttempt slot q (some a)) := job?_eq_some.mpr ⟨task, ht, hj⟩
  simp only [Overlay.isSettled, hg, hjob, ha, Bool.and_self]

/-- What has settled stays so. -/
theorem Sound.isSettled_act (h : w.Sound) (hs : w.isSettled g = true) (y : Act) :
    (w.act y).isSettled g = true := by
  have hf := isFinished_of_isSettled hs
  have hg := h.grows_act y
  have hlt : g < w.tasks.length := by
    obtain ⟨e, he⟩ := isFinished_iff.mp hf
    exact h.exits _ he
  have hjob : (w.act y).job? g = w.job? g := (h.aside hlt (by simp [hf])).job
  unfold isSettled at hs ⊢
  rw [hg.isFinished hf, Bool.true_and, hjob]
  rw [hf, Bool.true_and] at hs
  split at hs
  · exact hg.isFinished hs
  · rfl

/-! ## What a step means for the iterations of a setup -/

/-- A step leaves a setup in the iteration in which it is, or starts the next one. -/
inductive Continues (t : TaskId) (manual : List PeerAddress) (maxFail : Nat) (u : Overlay) :
    Act → Overlay → Prop
  | stays {y : Act} {v : Overlay} (hi : v.iteration? t = u.iteration? t) (hd : ¬Draws t u v) :
      Continues t manual maxFail u y v
  | starts {stage : SetupStage} {x : Overlay} {r : Round}
      (hg : u.going? t = some (.setup manual maxFail stage)) (hk : u.Kept x)
      (hn : u.Next t manual maxFail stage r) (hm : r.failures ≤ r.maxFail) (hd : r.draws ≠ []) :
      Continues t manual maxFail u (.poll t) (x.staffed t manual maxFail r)

theorem Sound.continues (h : w.Sound) (hr : w.role? t = some (.setup manual maxFail)) (y : Act) :
    w.Continues t manual maxFail y (w.act y) := by
  have hsame : ∀ v : Overlay, v.tasks = w.tasks → w.Continues t manual maxFail (.poll t) v :=
    fun v ht => .stays (iteration?_congr (by rw [job?, ht, job?])) (not_draws_of_length (by rw [ht]))
  rcases h.setup_act hr y with ha | ⟨rfl, stage, hg⟩ | ⟨-, hk, -⟩
  · exact .stays (iteration?_congr ha.job) ha.idle
  · have hcur := job?_of_going hg
    have hadv := advances_act hg
    generalize w.act (.poll t) = v at hadv ⊢
    cases hadv with
    | rests hk => exact hsame _ hk.tasks
    | waits s hs hearly ht =>
      refine .stays ?_ (not_draws_of_length (by rw [ht]; simp [setJob]))
      have hj : v.job? t = some (.setup manual maxFail s) := by
        rw [job?, ht]
        exact job?_setJob (lt_of_role? hr) _
      rw [iteration?_early hcur hearly, iteration?_early hj hs]
    | ends hk => exact hsame _ ((tasks_finish _ _ _).trans hk.tasks)
    | draws hk hn hm hd => exact .starts hg hk hn hm hd
  · exact .stays (iteration?_congr (hk.job? (h.grows_act y) (lt_of_role? hr))) hk.not_draws

/-- Each task that a setup waits for guards an attempt for it. -/
theorem Sound.plays_crew (h : w.Sound) (hr : w.role? t = some (.setup manual maxFail))
    (hi : w.iteration? t = some it) (hg : g ∈ it.crew) :
    ∃ slot p, w.Plays g (.guard slot p) (some t) := by
  obtain ⟨task, ht, hj⟩ := job?_eq_some.mp (job?_of_iteration? hr hi)
  have hrefers := h.refers t task ht
  rw [hj] at hrefers
  exact hrefers g hg

/-- A setup that starts an iteration was in another one, or in none. -/
theorem Sound.iteration?_staffed (h : w.Sound) (hk : w.Kept x)
    (hr : w.role? t = some (.setup manual maxFail)) (hd : r.draws ≠ []) :
    (x.staffed t manual maxFail r).iteration? t =
        some ⟨r.launched, List.range' w.tasks.length r.draws.length⟩ ∧
      (x.staffed t manual maxFail r).iteration? t ≠ w.iteration? t := by
  have hjob : (x.staffed t manual maxFail r).job? t = some (.setup manual maxFail
      (.settling r.launched (List.range' x.tasks.length r.draws.length))) :=
    job?_staffed (hk.tasks ▸ lt_of_role? hr)
  rw [hk.tasks] at hjob
  have hnew := iteration?_of_job? hjob
  refine ⟨hnew, fun hold => ?_⟩
  have hmem : w.tasks.length ∈ List.range' w.tasks.length r.draws.length :=
    List.mem_range'_1.mpr ⟨Nat.le_refl _, Nat.lt_add_of_pos_right (List.length_pos_iff.mpr hd)⟩
  obtain ⟨slot, p, hp⟩ := h.plays_crew hr (hold.symm.trans hnew) hmem
  exact absurd (lt_of_role? hp.role?) (Nat.lt_irrefl _)

/-! ## How the iterations follow one another -/

/-- The round draws candidates for an iteration, whose crew guards the attempts on them. -/
structure Launches (t : TaskId) (r : Round) (it : Iteration) (w : Overlay) : Prop where
  within : r.failures ≤ r.maxFail
  draws : r.draws ≠ []
  round : it.round = r.launched
  assigned : w.Assigned t it.round it.crew r.draws

/-- An iteration whose attempts have all settled without satisfying the round. -/
structure Fails (it : Iteration) (w : Overlay) : Prop where
  fails : w.FailsRound it.round it.crew
  settled : ∀ g ∈ it.crew, w.isSettled g = true

/-- The iterations of a round that begins as `r`, and the last one of them. -/
inductive Chronicle (t : TaskId) (r : Round) (w : Overlay) : List Iteration → Iteration → Prop
  | first {it : Iteration} (h : w.Launches t r it) : Chronicle t r w [] it
  | next {its : List Iteration} {it next : Iteration} (h : Chronicle t r w its it)
      (hf : w.Fails it) (hn : w.Launches t (w.retried it.round it.crew) next) :
      Chronicle t r w (its ++ [it]) next

theorem Launches.mono (h : u.Launches t r it) (hg : u.Grows v) : v.Launches t r it :=
  { h with assigned := h.assigned.mono hg }

theorem Chronicle.assigned (h : w.Chronicle t r its it) :
    ∃ draws, w.Assigned t it.round it.crew draws := by
  cases h with
  | first h | next _ _ h => exact ⟨_, h.assigned⟩

/-- What happened up to an iteration. -/
theorem Chronicle.take (h : w.Chronicle t r its it) {k : Nat} (hk : (its ++ [it])[k]? = some next) :
    w.Chronicle t r ((its ++ [it]).take k) next := by
  induction h with
  | first h =>
    obtain ⟨rfl, rfl⟩ := (getElem?_concat_eq_some hk).resolve_left (by simp)
    exact .first h
  | next h hf hn ih =>
    rcases getElem?_concat_eq_some hk with hk | ⟨rfl, rfl⟩
    · rw [List.take_append_of_le_length (Nat.le_of_lt (List.getElem?_eq_some_iff.mp hk).1)]
      exact ih hk
    · rw [List.take_left]
      exact .next h hf hn

theorem attemptEnd?_of_role (h : w.role? g = some (.guard slot p)) (e : Exit) :
    w.attemptEnd? g e = some (e.told slot p) := by
  obtain ⟨task, ht, hr⟩ := role?_eq_some.mp h
  obtain ⟨job, parent, cancelled⟩ := task
  obtain ⟨attempt, rfl⟩ := Job.eq_guardAttempt hr
  rw [attemptEnd?, ht]
  cases e <;> rfl

/-- When all of a crew have ended, nothing more is told of them. -/
theorem Assigned.endings_eq {draws : List (Nat × PeerAddress)} (h : u.Assigned t r as draws)
    (hg : u.Grows v) (hv : v.Sound) (hall : ∀ g ∈ as, u.isFinished g = true) :
    v.endings as = u.endings as := by
  obtain ⟨more, hmore⟩ := hg.exits
  have hnone : more.filter (fun x => decide (x.1 ∈ as)) = [] := by
    refine List.filter_eq_nil_iff.mpr fun x hx hxas => ?_
    obtain ⟨e, he⟩ := isFinished_iff.mp (hall x.1 (of_decide_eq_true hxas))
    have hends := hv.ends
    rw [← hmore, List.map_append] at hends
    exact (List.nodup_append.mp hends).2.2 x.1 (List.mem_map.mpr ⟨_, he, rfl⟩) x.1
      (List.mem_map_of_mem hx) rfl
  have hexits : v.exitsOf as = u.exitsOf as := by
    unfold exitsOf
    rw [← hmore, List.filter_append, hnone, List.append_nil]
  unfold endings
  rw [hexits]
  refine List.filterMap_congr fun x hx => ?_
  obtain ⟨d, -, hplays⟩ := exists_zip_of_mem h.crew (mem_exitsOf.mp hx).2
  rw [attemptEnd?_of_role hplays.role?, attemptEnd?_of_role (hplays.mono hg).role?]

theorem Assigned.retried_eq {draws : List (Nat × PeerAddress)} (h : u.Assigned t r as draws)
    (hg : u.Grows v) (hv : v.Sound) (hall : ∀ g ∈ as, u.isFinished g = true) :
    v.retried r as = u.retried r as := by
  simp only [retried, grievance, h.endings_eq hg hv hall, hg.config]

theorem Fails.act (h : w.Fails it) (hs : w.Sound) {draws : List (Nat × PeerAddress)}
    (ha : w.Assigned t it.round it.crew draws) (y : Act) : (w.act y).Fails it := by
  have hg := hs.grows_act y
  refine ⟨⟨fun g hmem => hg.isFinished (h.fails.ended g hmem), ?_⟩,
    fun g hmem => hs.isSettled_act (h.settled g hmem) y⟩
  rw [ha.endings_eq hg (hs.act y) h.fails.ended, hg.config]
  exact h.fails.unsatisfied

/-- What has been recorded of iterations is not altered. -/
theorem Chronicle.act (h : w.Chronicle t r its it) (hs : w.Sound) (y : Act) :
    (w.act y).Chronicle t r its it := by
  have hg := hs.grows_act y
  induction h with
  | first h => exact .first (h.mono hg)
  | next h hf hn ih =>
    obtain ⟨draws, ha⟩ := h.assigned
    refine ih.next (hf.act hs ha y) ?_
    rw [ha.retried_eq hg (hs.act y) hf.fails.ended]
    exact hn.mono hg

/-! ## Runs -/

/-- The round that a setup begins that collects its candidates now. -/
def firstRound (w : Overlay) (manual : List PeerAddress) (maxFail : Nat) : Round :=
  Round.start w.manager.pool.remaining (w.eligible manual) maxFail

/-- The iterations of a run, as they have been recorded: there is none before the setup has
candidates, and then they follow one another from its first round on. -/
inductive Recorded (called : Overlay) (acts : List Act) (t : TaskId) (manual : List PeerAddress)
    (maxFail : Nat) : List Iteration → Prop
  | early (h : (called.run acts).iteration? t = none) : Recorded called acts t manual maxFail []
  | underway {i : Nat} {its : List Iteration} {it : Iteration} (hi : called.FindsAt acts t i)
      (hc : (called.run acts).Chronicle t
        ((called.run (acts.take i)).firstRound manual maxFail) its it)
      (hj : (called.run acts).iteration? t = some it)
      (hg : (called.run acts).guardsOf t = (its ++ [it]).flatMap Iteration.crew) :
      Recorded called acts t manual maxFail (its ++ [it])

/-- When a setup goes on from an iteration, all of its attempts have settled. -/
theorem Called.settled (h : w.Called t manual maxFail) (hf : w.isFinished t = false)
    (hi : w.iteration? t = some it) (hall : ∀ g ∈ it.crew, w.isFinished g = true) :
    ∀ g ∈ it.crew, w.isSettled g = true := by
  intro g hg
  obtain ⟨slot, p, hp⟩ := h.sound.plays_crew h.role hi hg
  obtain he | ⟨a, hga, hfa⟩ := h.mustered.told t g slot p hp (hall g hg)
  · exact absurd (isFinished_of_exit? he) (by simp [hf])
  · exact hga.isSettled (hall g hg) hfa

/-- Nobody guards an attempt for a setup that has not begun its round. -/
theorem Called.guardsOf_early (h : w.Called t manual maxFail) (hi : w.iteration? t = none) :
    w.guardsOf t = [] := by
  obtain ⟨task, ht, hrole⟩ := role?_eq_some.mp h.role
  obtain ⟨stage, hj⟩ := Job.eq_setup hrole
  have hjob : w.job? t = some (.setup manual maxFail stage) := job?_eq_some.mpr ⟨task, ht, hj⟩
  have hearly : stage.isEarly = true := by
    cases stage with
    | settling => exact absurd ((iteration?_of_job? hjob).symm.trans hi) (by simp)
    | entering | queued | reserving => rfl
  refine List.eq_nil_iff_forall_not_mem.mpr fun g hg => ?_
  obtain ⟨slot, p, hp⟩ := mem_guardsOf.mp hg
  exact h.mustered.early t _ _ stage hjob hearly g slot p hp

/-- The first iteration starts when the setup collects its candidates, and the others one after
another. -/
theorem Called.recorded_starts (h : w.Called t manual maxFail)
    (hrec : w.Recorded acts t manual maxFail its)
    (hgo : (w.run acts).going? t = some (.setup manual maxFail stage)) (hk : (w.run acts).Kept x)
    (hn : (w.run acts).Next t manual maxFail stage r) (hm : r.failures ≤ r.maxFail)
    (hd : r.draws ≠ []) (hv : (w.run acts).act (.poll t) = x.staffed t manual maxFail r) :
    w.Recorded (acts ++ [.poll t]) t manual maxFail (its ++
      [⟨r.launched, List.range' (w.run acts).tasks.length r.draws.length⟩]) := by
  have hcalled := h.run acts
  have hcur := job?_of_going hgo
  have hguards := hcalled.sound.guardsOf_staffed hk hcalled.role hv
  have hnew := (hcalled.sound.iteration?_staffed hk hcalled.role hd).1
  have hlaunch : (x.staffed t manual maxFail r).Launches t r
      ⟨r.launched, List.range' (w.run acts).tasks.length r.draws.length⟩ := by
    refine ⟨hm, hd, rfl, ?_⟩
    have hassigned := assigned_staffed (w := x) (r := r) manual maxFail
      (hk.tasks ▸ lt_of_role? hcalled.role)
    rwa [hk.tasks] at hassigned
  rw [← hv, ← run_concat] at hlaunch hnew
  rw [← run_concat] at hguards
  cases hn with
  | first hearly hsupplied =>
    cases hrec with
    | early hnone =>
      have hfinds : w.FindsAt (acts ++ [.poll t]) t acts.length := by
        refine ⟨List.getElem?_concat_length, ?_⟩
        rw [List.take_left]
        exact collects_eq_true.mpr ⟨_, _, stage, hgo, hsupplied⟩
      refine .underway hfinds ?_ hnew ?_
      · rw [List.take_left]
        exact .first hlaunch
      · rw [hguards, hcalled.guardsOf_early hnone]
        simp
    | underway _ _ hj => exact absurd ((iteration?_early hcur hearly).symm.trans hj) (by simp)
  | again r as hfails =>
    have hiter := iteration?_of_job? hcur
    cases hrec with
    | early hnone => exact absurd (hiter.symm.trans hnone) (by simp)
    | underway hfinds hc hj hg =>
      obtain rfl := Option.some.inj (hiter.symm.trans hj)
      refine .underway (hfinds.append _) ?_ hnew ?_
      · rw [take_append_of_eq_some hfinds.1]
        obtain ⟨draws, ha⟩ := hc.assigned
        have hsettled := hcalled.settled (going?_eq_some.mp hgo).2.1 hiter hfails.ended
        have hg := hcalled.sound.grows_act (.poll t)
        rw [run_concat] at hlaunch ⊢
        refine (hc.act hcalled.sound _).next (Fails.act ⟨hfails, hsettled⟩ hcalled.sound ha _) ?_
        rw [ha.retried_eq hg (hcalled.sound.act _) hfails.ended]
        exact hlaunch
      · rw [hguards, hg]
        simp

theorem Called.recorded (h : w.Called t manual maxFail) (h₀ : w.iteration? t = none)
    (acts : List Act) : w.Recorded acts t manual maxFail (w.iterations t acts) := by
  induction acts using List.reverseRecOn with
  | nil => exact .early h₀
  | append_singleton acts y ih =>
    have hv := h.run acts
    have hstep := hv.sound.continues hv.role y
    rw [iterations_concat]
    generalize w.iterations t acts = done at ih ⊢
    generalize hact : (w.run acts).act y = v at hstep
    cases hstep with
    | stays hi hd =>
      rw [starts?, hact, if_pos hi, Option.toList_none, List.append_nil]
      rw [← hact] at hi hd
      rw [← run_concat] at hi
      cases ih with
      | early hnone => exact .early (hi.trans hnone)
      | underway hfinds hc hj hg =>
        refine .underway (hfinds.append [y]) ?_ (hi.trans hj) ?_
        · rw [take_append_of_eq_some hfinds.1, run_concat]
          exact hc.act hv.sound y
        · rw [run_concat, hv.sound.guardsOf_act hd, hg]
    | starts hgo hk hn hm hd =>
      obtain ⟨hnew, hne⟩ := hv.sound.iteration?_staffed hk hv.role hd
      rw [starts?, hact, if_neg hne, hnew, Option.toList_some]
      exact h.recorded_starts ih hgo hk hn hm hd hact

/-- The iteration that a setup waits for is the last one that has been recorded. -/
theorem Called.underway (h : w.Called t manual maxFail) (h₀ : w.iteration? t = none)
    (hi : (w.run acts).iteration? t = some it) : ∃ i past, w.FindsAt acts t i ∧
      (w.run acts).Chronicle t ((w.run (acts.take i)).firstRound manual maxFail) past it ∧
      (w.run acts).guardsOf t = (past ++ [it]).flatMap Iteration.crew := by
  have hrec := h.recorded h₀ acts
  generalize w.iterations t acts = done at hrec
  cases hrec with
  | early hnone => exact absurd (hi.symm.trans hnone) (by simp)
  | underway hfinds hc hj hg =>
    obtain rfl := Option.some.inj (hi.symm.trans hj)
    exact ⟨_, _, hfinds, hc, hg⟩

/-- A setup that is called has not begun its round. -/
theorem iteration?_setUp (w : Overlay) (manual : List PeerAddress) (maxFail : Nat) :
    (w.act (.setUp manual maxFail)).iteration? w.tasks.length = none :=
  iteration?_early (job?_eq_some.mpr ⟨_, List.getElem?_concat_length, rfl⟩) rfl

theorem nodup_eligible (w : Overlay) (manual : List PeerAddress) :
    ((w.eligible manual).map PeerAddress.id).Nodup := by
  rw [← found_eq]
  exact (w.found_spec manual).1

end Overlay

end RelayUpkeep
