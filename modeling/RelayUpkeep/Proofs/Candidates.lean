import RelayUpkeep.Proofs.Itinerary

/-! # Whom a setup tries

A setup collects its candidates once, and draws from the front of those who are eligible then.
Nobody is drawn before, and whatever happens later does not change whom it draws. -/

namespace RelayUpkeep.Overlay

variable {t s a : TaskId} {u v w : Overlay} {p : PeerAddress} {ps : List PeerAddress} {y : Act}
  {manual : List PeerAddress} {maxFail : Nat} {stage : SetupStage} {r : Round} {acts : List Act}
  {i j : Nat}

/-! ## Drawing from the front -/

theorem drawn_congr (h : v.tasks = u.tasks) (t : TaskId) : v.drawn t = u.drawn t := by
  have hd : v.draw? t = u.draw? t := by
    unfold draw?
    rw [h]
  rw [drawn, h, hd, drawn]

/-- Whom a setup has drawn, it has drawn for good. -/
theorem Sound.drawn_run (h : w.Sound) (acts : List Act) : w.drawn t <+: (w.run acts).drawn t := by
  induction acts using List.reverseRecOn with
  | nil => exact List.prefix_refl _
  | append_singleton acts y ih =>
    have hs := sound_run h acts
    obtain ⟨k, hk⟩ := Nat.exists_eq_add_of_le (hs.grows_act y).tasks.length_le
    rw [run_concat]
    refine ih.trans ?_
    rw [drawn, drawn, hk, filterMap_range_add fun g hg => hs.draw?_act hg]
    exact List.prefix_append _ _

/-- Setup `t` has collected the candidates `ps`, and draws them in this order. -/
def DrawsFrom (w : Overlay) (t : TaskId) (ps : List PeerAddress) : Prop :=
  ∃ left, w.drawn t ++ left = ps ∧ (w.isFinished t = true ∨
    ∃ manual maxFail r as, w.job? t = some (.setup manual maxFail (.settling r as)) ∧
      r.candidates = left)

/-- Setup `t` has not collected its candidates, and is not going to unless it has a cause. -/
def Uncollected (w : Overlay) (t : TaskId) : Prop :=
  w.drawn t = [] ∧ (w.isFinished t = true ∨ ∃ manual maxFail stage,
    w.job? t = some (.setup manual maxFail stage) ∧ stage.isEarly = true)

theorem collects_eq_true : w.collects t = true ↔ ∃ manual maxFail stage,
    w.going? t = some (.setup manual maxFail stage) ∧ w.supplied t stage = true := by
  unfold collects
  split
  · next manual maxFail stage h =>
    refine ⟨fun hs => ⟨manual, maxFail, stage, h, hs⟩, ?_⟩
    rintro ⟨manual', maxFail', stage', h', hs⟩
    obtain ⟨-, -, rfl⟩ := Job.setup.inj (Option.some.inj (h.symm.trans h'))
    exact hs
  · next h =>
    refine iff_of_false (by simp) ?_
    rintro ⟨manual, maxFail, stage, h', -⟩
    exact h _ _ _ h'

theorem isEarly_of_supplied (h : w.supplied t stage = true) : stage.isEarly = true := by
  cases stage with
  | settling r as => exact absurd h (by simp [supplied, seizes, hears?, asks])
  | _ => rfl

theorem not_draws_of_length (h : v.tasks.length ≤ u.tasks.length) : ¬Draws t u v := by
  rintro ⟨g, slot, p, hnew, hp⟩
  exact absurd (lt_of_role? hp.role?) (Nat.not_lt.mpr (Nat.le_trans h hnew))

/-- A setup that goes on draws from the front of its candidates. -/
theorem DrawsFrom.going (h : w.DrawsFrom t ps) (hs : w.Sound)
    (hgo : w.going? t = some (.setup manual maxFail stage)) :
    (w.act (.poll t)).DrawsFrom t ps := by
  obtain ⟨left, hl, hend⟩ := h
  have hr := role?_of_going hgo
  obtain ⟨-, hf, -⟩ := going?_eq_some.mp hgo
  obtain ⟨manual', maxFail', r, as, hj, hleft⟩ := hend.resolve_left (by simp [hf])
  obtain ⟨rfl, rfl, rfl⟩ := Job.setup.inj (Option.some.inj ((job?_of_going hgo).symm.trans hj))
  have hadv := advances_act hgo
  generalize hv : w.act (.poll t) = v at hadv
  cases hadv with
  | rests hk =>
    exact ⟨left, by rw [drawn_congr hk.tasks, hl], .inr ⟨_, _, r, as, by rw [job?, hk.tasks]; exact hj,
      hleft⟩⟩
  | waits _ _ hearly => exact absurd hearly (by simp [SetupStage.isEarly])
  | ends hk =>
    refine ⟨left, ?_, .inl (isFinished_finish _ _ _)⟩
    rw [drawn_congr (tasks_finish _ _ _), drawn_congr hk.tasks, hl]
  | @draws x r' hk hnext =>
    have hdrawn := hs.drawn_staffed hk hr hv
    rw [hv] at hdrawn
    cases hnext with
    | first hearly => exact absurd hearly (by simp [SetupStage.isEarly])
    | again =>
      refine ⟨(w.retried r as).candidates.drop (w.retried r as).draws.length, ?_,
        .inr ⟨_, _, _, _, job?_staffed (hk.tasks ▸ lt_of_role? hr), rfl⟩⟩
      rw [hdrawn, List.append_assoc, Round.draws_append, candidates_retried, hleft, hl]

theorem Aside.drawn (h : Aside t w (w.act y)) (hs : w.Sound) : (w.act y).drawn t = w.drawn t :=
  hs.drawn_act h.idle

/-- A setup that has ended draws nobody. -/
theorem Sound.drawn_ended (h : w.Sound) (hr : w.role? t = some (.setup manual maxFail))
    (hf : w.isFinished t = true) (acts : List Act) : (w.run acts).drawn t = w.drawn t := by
  induction acts using List.reverseRecOn with
  | nil => rfl
  | append_singleton acts y ih =>
    have hs := sound_run h acts
    have hg := grows_run h acts
    have haside : (w.run acts).Aside t ((w.run acts).act y) :=
      hs.aside (lt_of_role? (hg.role? hr)) (by simp [hg.isFinished hf])
    rw [run_concat, haside.drawn hs, ih]

theorem DrawsFrom.act (h : w.DrawsFrom t ps) (hs : w.Sound)
    (hr : w.role? t = some (.setup manual maxFail)) (y : Act) : (w.act y).DrawsFrom t ps := by
  rcases hs.setup_act hr y with ha | ⟨rfl, stage, hgo⟩ | ⟨-, hk, he⟩
  · obtain ⟨left, hl, hend⟩ := h
    rw [DrawsFrom, ha.drawn hs, isFinished, ha.exit, ha.job]
    exact ⟨left, hl, hend⟩
  · exact h.going hs hgo
  · obtain ⟨left, hl, -⟩ := h
    exact ⟨left, by rw [hs.drawn_act hk.not_draws, hl], .inl (isFinished_of_exit? he)⟩

theorem DrawsFrom.not_collects (h : w.DrawsFrom t ps) : w.collects t = false := by
  by_contra hc
  obtain ⟨manual, maxFail, stage, hgo, hs⟩ := collects_eq_true.mp (by simpa using hc)
  obtain ⟨-, hf, -⟩ := going?_eq_some.mp hgo
  obtain ⟨_, -, hend⟩ := h
  obtain ⟨_, _, r, as, hj, -⟩ := hend.resolve_left (by simp [hf])
  obtain ⟨-, -, rfl⟩ := Job.setup.inj (Option.some.inj ((job?_of_going hgo).symm.trans hj))
  exact absurd (isEarly_of_supplied hs) (by simp [SetupStage.isEarly])

/-- A setup that has collected nobody yet goes on without channels. -/
theorem Uncollected.act (h : w.Uncollected t) (hs : w.Sound)
    (hr : w.role? t = some (.setup manual maxFail)) (hno : y = .poll t → w.collects t = false) :
    (w.act y).Uncollected t := by
  rcases hs.setup_act hr y with ha | ⟨rfl, stage, hgo⟩ | ⟨-, hk, he⟩
  · rw [Uncollected, ha.drawn hs, isFinished, ha.exit, ha.job]
    exact h
  · obtain ⟨hnil, hend⟩ := h
    obtain ⟨-, hf, -⟩ := going?_eq_some.mp hgo
    obtain ⟨manual', maxFail', stage', hj, hearly⟩ := hend.resolve_left (by simp [hf])
    obtain ⟨rfl, rfl, rfl⟩ := Job.setup.inj (Option.some.inj ((job?_of_going hgo).symm.trans hj))
    have hnone : w.supplied t stage = false := by
      by_contra hc
      exact absurd (collects_eq_true.mpr ⟨_, _, stage, hgo, by simpa using hc⟩) (by simp [hno rfl])
    have hadv := advances_act hgo
    generalize hv : w.act (.poll t) = v at hadv
    cases hadv with
    | rests hk =>
      exact ⟨by rw [drawn_congr hk.tasks, hnil],
        .inr ⟨_, _, stage, by rw [job?, hk.tasks]; exact hj, hearly⟩⟩
    | waits s hs' _ ht =>
      refine ⟨?_, .inr ⟨_, _, s, by rw [job?, ht]; exact job?_setJob (lt_of_role? hr) _, hs'⟩⟩
      have hd : ¬Draws t w (w.act (.poll t)) := by
        rw [hv]
        exact not_draws_of_length (by rw [ht]; simp [setJob])
      rw [← hv, hs.drawn_act hd, hnil]
    | ends hk =>
      refine ⟨?_, .inl (isFinished_finish _ _ _)⟩
      rw [drawn_congr (tasks_finish _ _ _), drawn_congr hk.tasks, hnil]
    | draws hk hnext =>
      cases hnext with
      | first _ hsupplied => exact absurd (hnone.symm.trans hsupplied) (by simp)
      | again => exact absurd hearly (by simp [SetupStage.isEarly])
  · exact ⟨by rw [hs.drawn_act hk.not_draws, h.1], .inl (isFinished_of_exit? he)⟩

theorem Mustered.drawn_early (h : w.Mustered)
    (hj : w.job? t = some (.setup manual maxFail stage)) (hs : stage.isEarly = true) :
    w.drawn t = [] := by
  refine List.filterMap_eq_nil_iff.mpr fun g _ =>
    Option.eq_none_iff_forall_ne_some.mpr fun p hp => ?_
  obtain ⟨slot, hp⟩ := draw?_eq_some.mp hp
  exact h.early t _ _ stage hj hs g slot p hp

/-- A setup that collects its candidates draws from the front of those who are eligible. -/
theorem Sound.collects_drawsFrom (h : w.Sound) (hm : w.Mustered)
    (hr : w.role? t = some (.setup manual maxFail)) (hc : w.collects t = true) :
    (w.act (.poll t)).DrawsFrom t (w.eligible manual) := by
  obtain ⟨manual', maxFail', stage, hgo, hsupplied⟩ := collects_eq_true.mp hc
  obtain ⟨rfl, rfl⟩ := Role.setup.inj (Option.some.inj ((role?_of_going hgo).symm.trans hr))
  have hearly := isEarly_of_supplied hsupplied
  have hnil : w.drawn t = [] := hm.drawn_early (job?_of_going hgo) hearly
  have hadv := advances_act hgo
  generalize hv : w.act (.poll t) = v at hadv
  cases hadv with
  | rests _ hn | waits _ _ _ _ _ hn => exact absurd (hn.symm.trans hsupplied) (by simp)
  | ends hk =>
    refine ⟨w.eligible manual', ?_, .inl (isFinished_finish _ _ _)⟩
    rw [drawn_congr (tasks_finish _ _ _), drawn_congr hk.tasks, hnil, List.nil_append]
  | draws hk hnext =>
    have hdrawn := h.drawn_staffed hk hr hv
    rw [hv] at hdrawn
    cases hnext with
    | first =>
      refine ⟨_, ?_, .inr ⟨_, _, _, _, job?_staffed (hk.tasks ▸ lt_of_role? hr), rfl⟩⟩
      rw [hdrawn, hnil, List.nil_append, Round.draws_append]
      rfl
    | again => exact absurd hearly (by simp [SetupStage.isEarly])

/-! ## Calls -/

/-- Setup `t` has been called with the peers `manual` and a budget of `maxFail` failures. -/
structure Called (t : TaskId) (manual : List PeerAddress) (maxFail : Nat) (w : Overlay) : Prop where
  sound : w.Sound
  mustered : w.Mustered
  known : w.Known
  steady : w.Uncancelled attempts
  role : w.role? t = some (.setup manual maxFail)

theorem Called.act (h : w.Called t manual maxFail) (y : Act) : (w.act y).Called t manual maxFail where
  sound := h.sound.act y
  mustered := h.mustered.act h.sound y
  known := h.known.act h.sound y
  steady := h.steady.attempts_act h.sound y
  role := (h.sound.grows_act y).role? h.role

theorem Called.run (h : w.Called t manual maxFail) (acts : List Act) :
    (w.run acts).Called t manual maxFail := by
  induction acts using List.reverseRecOn with
  | nil => exact h
  | append_singleton acts y ih => exact run_concat w acts y ▸ ih.act y

/-- Nobody works for a setup that has just been called. -/
theorem Sound.itinerary_setUp (h : u.Sound) (manual : List PeerAddress) (maxFail : Nat) :
    (u.act (.setUp manual maxFail)).itinerary u.tasks.length = ⟨[], [], [], []⟩ := by
  have hlen : (u.act (.setUp manual maxFail)).tasks.length = u.tasks.length + 1 :=
    List.length_append
  have hclient : ∀ a, (u.act (.setUp manual maxFail)).client? a ≠ some u.tasks.length := by
    intro a hc
    obtain ⟨g, -, hg⟩ := Option.bind_eq_some_iff.mp hc
    obtain ⟨task, ht, hp⟩ := Option.bind_eq_some_iff.mp hg
    have hlt := ((h.act (.setUp manual maxFail)).parents g task _ ht hp).1
    have hbound := (List.getElem?_eq_some_iff.mp ht).1
    rw [hlen] at hbound
    exact absurd hlt (Nat.not_lt.mpr (Nat.le_of_lt_succ hbound))
  have hdraw : ∀ g, (u.act (.setUp manual maxFail)).draw? u.tasks.length g = none := fun g =>
    Option.eq_none_iff_forall_ne_some.mpr fun p hp => by
      obtain ⟨slot, hp⟩ := draw?_eq_some.mp hp
      exact h.untended (Nat.le_refl _) hp
  have hdrawn : (u.act (.setUp manual maxFail)).drawn u.tasks.length = [] :=
    List.filterMap_eq_nil_iff.mpr fun g _ => hdraw g
  have hawaited : (u.act (.setUp manual maxFail)).awaited u.tasks.length = [] :=
    List.filterMap_eq_nil_iff.mpr fun g _ => Option.eq_none_iff_forall_ne_some.mpr fun p hp =>
      absurd ((draw?_of_await? hp).symm.trans (hdraw g)) (by simp)
  have hentered : (u.act (.setUp manual maxFail)).entered u.tasks.length = [] :=
    List.filterMap_eq_nil_iff.mpr fun a _ => Option.eq_none_iff_forall_ne_some.mpr fun p hp =>
      hclient a (enter?_eq_some.mp hp).2.1
  have hdialled : (u.act (.setUp manual maxFail)).dialled u.tasks.length = [] :=
    List.filterMap_eq_nil_iff.mpr fun e _ => by
      cases e.event with
      | connect a p => exact if_neg (hclient a)
      | _ => rfl
  rw [itinerary, hdrawn, hawaited, hentered, hdialled]

/-- What a call finds: nobody has been drawn or dialled for it. -/
theorem called_setUp (config : RelayConfig) (mine : PeerAddress) (before : List Act)
    (manual : List PeerAddress) (maxFail : Nat) :
    let u := (start config mine).run before
    (u.act (.setUp manual maxFail)).Called u.tasks.length manual maxFail ∧
      (u.act (.setUp manual maxFail)).Uncollected u.tasks.length ∧
      (u.act (.setUp manual maxFail)).itinerary u.tasks.length = ⟨[], [], [], []⟩ := by
  intro u
  have hs : u.Sound := sound_run (sound_start config mine) before
  have htask : (u.act (.setUp manual maxFail)).tasks[u.tasks.length]? =
      some ⟨.setup manual maxFail .entering, none, false⟩ := List.getElem?_concat_length
  have hnobody := hs.itinerary_setUp manual maxFail
  have hdrawn : (u.act (.setUp manual maxFail)).drawn u.tasks.length = [] :=
    congrArg Itinerary.drawn hnobody
  refine ⟨⟨hs.act _, (mustered_run config mine before).act hs _,
    (known_run config mine before).act hs _, ?_, role?_eq_some.mpr ⟨_, htask, rfl⟩⟩,
    ⟨hdrawn, .inr ⟨_, _, _, job?_eq_some.mpr ⟨_, htask, rfl⟩, rfl⟩⟩, hnobody⟩
  exact (recent_run config mine before).steady.attempts_act hs _

/-! ## Runs -/

/-- Setup `t` finds its candidates in step `i` of a run. -/
def FindsAt (w : Overlay) (acts : List Act) (t : TaskId) (i : Nat) : Prop :=
  acts[i]? = some (.poll t) ∧ (w.run (acts.take i)).collects t = true

theorem FindsAt.append (h : w.FindsAt acts t i) (more : List Act) :
    w.FindsAt (acts ++ more) t i :=
  ⟨getElem?_append_of_eq_some h.1 more, take_append_of_eq_some h.1 more ▸ h.2⟩

namespace Called

theorem uncollected_run (h : w.Called t manual maxFail) (hu : w.Uncollected t) (acts : List Act)
    (hno : ∀ i, ¬w.FindsAt acts t i) : (w.run acts).Uncollected t := by
  induction acts using List.reverseRecOn with
  | nil => exact hu
  | append_singleton acts y ih =>
    have hv := h.run acts
    rw [run_concat]
    refine (ih fun i hi => hno i (hi.append [y])).act hv.sound hv.role ?_
    rintro rfl
    by_contra hc
    refine hno acts.length ⟨List.getElem?_concat_length, ?_⟩
    rw [List.take_left]
    simpa using hc

theorem drawsFrom_run (h : w.Called t manual maxFail) (hd : w.DrawsFrom t ps) (acts : List Act) :
    (w.run acts).DrawsFrom t ps := by
  induction acts using List.reverseRecOn with
  | nil => exact hd
  | append_singleton acts y ih =>
    have hv := h.run acts
    exact run_concat w acts y ▸ ih.act hv.sound hv.role y

/-- After a setup has collected its candidates, it draws from their front. -/
theorem drawsFrom_after (h : w.Called t manual maxFail) (hc : w.FindsAt acts t i) (hij : i < j) :
    (w.run (acts.take j)).DrawsFrom t ((w.run (acts.take i)).eligible manual) := by
  have hz := h.run (acts.take i)
  have hnext := hz.sound.collects_drawsFrom hz.mustered hz.role hc.2
  obtain ⟨k, rfl⟩ := Nat.exists_eq_add_of_lt hij
  rw [Nat.add_right_comm, List.take_add, run_append, run_take_succ hc.1]
  exact (hz.act _).drawsFrom_run hnext _

/-- Candidates are collected at most once. -/
theorem findsAt_unique (h : w.Called t manual maxFail) (hi : w.FindsAt acts t i)
    (hj : w.FindsAt acts t j) : j = i := by
  rcases Nat.lt_trichotomy i j with hij | rfl | hji
  · exact absurd (hj.2.symm.trans (h.drawsFrom_after hi hij).not_collects) (by simp)
  · rfl
  · exact absurd (hi.2.symm.trans (h.drawsFrom_after hj hji).not_collects) (by simp)

theorem balanced_act (h : w.Called t manual maxFail)
    (hb : (w.itinerary t).Balanced (w.exit? t ≠ some .cancelled)) (y : Act) :
    ((w.act y).itinerary t).Balanced ((w.act y).exit? t ≠ some .cancelled) :=
  (h.sound.itinerary_act h.known h.mustered h.steady h.role y).balanced hb
    fun hup he => hup ((h.sound.grows_act y).exit? he)

theorem balanced_run (h : w.Called t manual maxFail)
    (hb : (w.itinerary t).Balanced (w.exit? t ≠ some .cancelled)) (acts : List Act) :
    ((w.run acts).itinerary t).Balanced ((w.run acts).exit? t ≠ some .cancelled) := by
  induction acts using List.reverseRecOn with
  | nil => exact hb
  | append_singleton acts y ih => exact run_concat w acts y ▸ (h.run acts).balanced_act ih y

theorem inOrder_run (h : w.Called t manual maxFail)
    (hi : (w.itinerary t).InOrder (w.exit? t ≠ some .cancelled)) (acts : List Act)
    (ha : w.Along InTurn acts) :
    ((w.run acts).itinerary t).InOrder ((w.run acts).exit? t ≠ some .cancelled) := by
  induction acts using List.reverseRecOn with
  | nil => exact hi
  | append_singleton acts y ih =>
    obtain ⟨ha, hturn⟩ := along_concat.mp ha
    have hv := h.run acts
    rw [run_concat]
    exact (hv.sound.itinerary_act hv.known hv.mustered hv.steady hv.role y).inOrder (ih ha)
      (fun hup he => hup ((hv.sound.grows_act y).exit? he)) hturn

/-- A setup that has ended of itself has nobody on the way. -/
theorem all_dialled (h : w.Called t manual maxFail) {e : Exit} (he : w.exit? t = some e)
    (hne : e ≠ .cancelled) : w.awaited t = [] ∧ w.entered t = [] := by
  have hdone := h.mustered.done t e he hne
  constructor
  · refine List.filterMap_eq_nil_iff.mpr fun g _ =>
      Option.eq_none_iff_forall_ne_some.mpr fun p hp => ?_
    obtain ⟨slot, hplays⟩ := draw?_eq_some.mp (draw?_of_await? hp)
    have hfin := hdone g slot p hplays
    exact absurd ((await?_eq_some.mp hp).1.symm.trans hfin) (by simp)
  · refine List.filterMap_eq_nil_iff.mpr fun a _ =>
      Option.eq_none_iff_forall_ne_some.mpr fun p hp => ?_
    obtain ⟨hf, hc, task, ht, hj⟩ := enter?_eq_some.mp hp
    obtain ⟨g, hpar, hg⟩ := Option.bind_eq_some_iff.mp hc
    have hplays : w.Plays a (.attempt p) (some g) :=
      ⟨task, ht, by rw [hj]; rfl, by simpa [parent?, ht] using hpar⟩
    have hguards := h.mustered.paired g a p hplays
    obtain ⟨guard, slot, htg, hjg⟩ := hguards
    have hguard : w.Plays g (.guard slot p) (some t) :=
      ⟨guard, htg, by rw [hjg]; rfl, by simpa [parent?, htg] using hg⟩
    obtain hx | ⟨a', hga, hfa⟩ := h.mustered.told t g slot p hguard (hdone g slot p hguard)
    · exact hne (Option.some.inj (he.symm.trans hx))
    · obtain ⟨rfl, -⟩ := hga.unique ⟨guard, slot, htg, hjg⟩
      exact absurd (hf.symm.trans hfa) (by simp)

/-- A setup that has ended of itself has dialled everyone whom it drew. -/
theorem all_tried (h : w.Called t manual maxFail)
    (hb : (w.itinerary t).Balanced (w.exit? t ≠ some .cancelled)) {e : Exit}
    (he : w.exit? t = some e) (hne : e ≠ .cancelled) : (w.dialled t).Perm (w.drawn t) := by
  obtain ⟨hawaited, hentered⟩ := h.all_dialled he hne
  obtain ⟨passed, hperm, hpassed⟩ := hb
  obtain rfl := hpassed.resolve_right fun h => h.1 (by rw [he]; simpa using hne)
  simpa [itinerary, hawaited, hentered] using hperm

/-- A setup with peers that its caller named does not read who is known. -/
theorem not_readRouting_act (h : w.Called t manual maxFail) (hne : manual ≠ [])
    (hno : .readRouting t ∉ w.requests) (y : Act) : .readRouting t ∉ (w.act y).requests := by
  rw [h.sound.requests_act y, List.mem_append]
  rintro (hmem | hmem)
  · exact hno hmem
  · obtain ⟨a, job, rfl, hgo, hmem⟩ := mem_requested.mp hmem
    obtain rfl := asker_of_mem_jobRequests hmem rfl
    obtain ⟨stage, rfl⟩ :=
      Job.eq_setup (Option.some.inj ((role?_of_going hgo).symm.trans h.role))
    obtain ⟨hne', -⟩ | ⟨hne', -⟩ | ⟨-, -, hnil⟩ := mem_inquiries.mp hmem
    · exact absurd hne' (by simp)
    · exact absurd hne' (by simp)
    · exact hne hnil

theorem not_readRouting_run (h : w.Called t manual maxFail) (hne : manual ≠ [])
    (hno : .readRouting t ∉ w.requests) (acts : List Act) :
    .readRouting t ∉ (w.run acts).requests := by
  induction acts using List.reverseRecOn with
  | nil => exact hno
  | append_singleton acts y ih => exact run_concat w acts y ▸ (h.run acts).not_readRouting_act hne ih y

end Called

theorem mem_requests_of_journal {e : Entry} (he : e ∈ w.journal) (hr : e.event.isRequest = true) :
    e.event ∈ w.requests :=
  List.mem_filter.mpr ⟨List.mem_map_of_mem he, hr⟩

/-- A setup tries those who are eligible when it collects its candidates, each at most once and in
their order: whom it draws is a prefix of them, whatever happens later, and those that it asks for
a connection are among them. They are all of them in the end unless it is given up, and a prefix as
long as newcomers go on in turn. Peers that the caller names keep it from reading who is known. -/
theorem eligible_candidates_tried_in_order (config : RelayConfig) (mine : PeerAddress)
    (before during : List Act) (manual : List PeerAddress) (maxFail : Nat) :
    let u := (start config mine).run before
    let t := u.tasks.length
    let called := u.act (.setUp manual maxFail)
    let v := called.run during
    ((∀ i, ¬called.FindsAt during t i) → v.drawn t = [] ∧ v.dialled t = []) ∧
    (manual ≠ [] → ∀ e ∈ v.journal, e.event ≠ .readRouting t) ∧
    ∀ i, called.FindsAt during t i →
      let eligible := (called.run (during.take i)).eligible manual
      (∀ j, called.FindsAt during t j → j = i) ∧
      v.drawn t <+: eligible ∧ (v.dialled t).Subperm (v.drawn t) ∧
      ((v.dialled t).map PeerAddress.id).Nodup ∧
      (∀ e, v.exit? t = some e → e ≠ .cancelled → (v.dialled t).Perm (v.drawn t)) ∧
      (called.Along InTurn during → v.dialled t <+: eligible) := by
  intro u t called v
  obtain ⟨hcalled, huncollected, hnone⟩ := called_setUp config mine before manual maxFail
  have hv : v.Called t manual maxFail := hcalled.run during
  have hbalanced : (v.itinerary t).Balanced (v.exit? t ≠ some .cancelled) := by
    refine hcalled.balanced_run ?_ during
    rw [hnone]
    exact ⟨[], .refl _, .inl rfl⟩
  have hsub : (v.dialled t).Subperm (v.drawn t) := by
    obtain ⟨passed, hperm, -⟩ := hbalanced
    refine List.Subperm.trans ?_ hperm.subperm
    rw [List.append_assoc, List.append_assoc]
    exact (List.sublist_append_left _ _).subperm
  refine ⟨fun hno => ?_, fun hne e he heq => ?_, fun i hi => ?_⟩
  · have hdrawn := (hcalled.uncollected_run huncollected during hno).1
    exact ⟨hdrawn, List.subperm_nil.mp (hdrawn ▸ hsub)⟩
  · have hstart : .readRouting t ∉ called.requests := fun hmem => by
      rw [requests_act rfl] at hmem
      exact absurd (known_run config mine before _ hmem t rfl) (Nat.lt_irrefl _)
    refine hcalled.not_readRouting_run hne hstart during ?_
    exact heq ▸ mem_requests_of_journal he (by rw [heq]; rfl)
  · have hlt := (List.getElem?_eq_some_iff.mp hi.1).1
    have hfront : v.DrawsFrom t ((called.run (during.take i)).eligible manual) := by
      have hafter := hcalled.drawsFrom_after hi hlt
      rwa [List.take_length] at hafter
    obtain ⟨left, hleft, -⟩ := hfront
    have hprefix : v.drawn t <+: (called.run (during.take i)).eligible manual := ⟨left, hleft⟩
    refine ⟨fun j hj => hcalled.findsAt_unique hi hj, hprefix, hsub, ?_,
      fun e he hne => hv.all_tried hbalanced he hne, fun hturn => ?_⟩
    · have hnodup := ((called.run (during.take i)).found_spec manual).1
      rw [found_eq] at hnodup
      obtain ⟨l, hl, hsublist⟩ := hsub
      exact (hl.map _).nodup_iff.mp (hnodup.sublist ((hsublist.trans hprefix.sublist).map _))
    · have horder : (v.itinerary t).InOrder (v.exit? t ≠ some .cancelled) := by
        refine hcalled.inOrder_run ?_ during hturn
        rw [hnone]
        exact ⟨[], rfl, .inl rfl⟩
      obtain ⟨passed, hall, -⟩ := horder
      refine List.IsPrefix.trans ⟨v.entered t ++ v.awaited t ++ passed, ?_⟩ hprefix
      simpa [itinerary] using hall

theorem eligible_candidates_tried_in_order_sample :
    let manual : List PeerAddress := [{ PeerAddress.sample 2 with relayed := true }, .sample 1,
      .sample 2, .sample 2, .sample 3, .sample 4]
    let before : List Act := [.behave [.sample 2] { connect := ⟨0, .fail (.transport "refused")⟩ }]
    let during : List Act := [.poll 0, .poll 1, .poll 2, .poll 1, .poll 0, .poll 3, .poll 4]
    let called := ((start { maxRelays := 1 } (.sample 1)).run before).act (.setUp manual 1)
    called.FindsAt during 0 0 ∧ called.Along InTurn during ∧
      called.eligible manual = [.sample 2, .sample 3, .sample 4] ∧
      (called.run during).dialled 0 = [.sample 2, .sample 3] ∧
      (called.run during).dialled 0 <+: called.eligible manual := by
  intro manual before during called
  have hcollects : called.FindsAt during 0 0 := ⟨rfl, by decide +kernel⟩
  have hturn : called.Along InTurn during := by decide +kernel
  refine ⟨hcollects, hturn, by decide +kernel, by decide +kernel, ?_⟩
  have h := eligible_candidates_tried_in_order { maxRelays := 1 } (.sample 1) before during manual 1
  exact (h.2.2 0 hcollects).2.2.2.2.2 hturn

end RelayUpkeep.Overlay
