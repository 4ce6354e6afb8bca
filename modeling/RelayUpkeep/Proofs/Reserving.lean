import RelayUpkeep.Proofs.Candidates
import RelayUpkeep.Proofs.Remains

/-! # Who gains channels and who takes them

A setup stores the channels that are granted to it, and a shutdown that has the reservation lock
takes what is stored. Nobody else touches them. Who releases channels, and who works on a round, is
started by the one that has taken or gained them. -/

namespace RelayUpkeep

theorem Job.eq_shutdown {job : Job} (h : job.role = .shutdown) : ∃ stage, job = .shutdown stage := by
  cases job with
  | shutdown stage => exact ⟨stage, rfl⟩
  | setup | guardAttempt | attempt | watch | closeRelay | releaseCreator =>
    exact absurd h (by simp [Job.role])

namespace Overlay

variable {t s a : TaskId} {u v w : Overlay} {manual : List PeerAddress} {maxFail : Nat}
  {stage : SetupStage} {k : CreatorId} {drained : List RelayId} {y : Act} {o : Outcome}

/-! ## Setups -/

theorem hears?_of_not_asks (h : u.asks t stage = false) (hn : ∀ o, stage ≠ .reserving o) :
    u.hears? t stage = none := by
  cases stage with
  | reserving o => exact absurd rfl (hn o)
  | entering | queued | settling => simp [hears?, h]

/-- A setup that waits for an answer hears it, and any other one has just asked. -/
theorem reserving_or_asks (h : u.hears? t stage = some o) :
    stage = .reserving o ∨ u.asks t stage = true := by
  cases stage with
  | reserving o' => exact .inl (congrArg _ (Option.some.inj h))
  | entering | queued | settling =>
    refine .inr ?_
    by_contra hn
    rw [hears?_of_not_asks (by simpa using hn) (by simp)] at h
    exact absurd h (by simp)

/-- A setup leaves the channels as they are unless it gains new ones. -/
theorem Prepares.creator (h : u.Prepares t manual maxFail stage v) : v.manager.creator =
    if u.hears? t stage = some .succeed then some u.granted else u.manager.creator := by
  have hkeep : ∀ {x : Option CreatorId}, u.hears? t stage ≠ some .succeed →
      x = u.manager.creator → x = if u.hears? t stage = some .succeed then some u.granted else
        u.manager.creator := fun hn hx => hx.trans (if_neg hn).symm
  have hidle : u.seizes t stage = false → (∀ o, stage ≠ .reserving o) →
      u.hears? t stage ≠ some .succeed := fun hs hn => by
    rw [hears?_of_not_asks (by simp [asks, hs]) hn]
    simp
  have hquiet : u.seizes t stage = true → u.asks t stage = false →
      u.hears? t stage ≠ some .succeed := fun hs ha => by
    rw [hears?_of_seizes hs, ha]
    simp
  cases h with
  | refused ready hdown =>
    exact hkeep (hidle (by simp [seizes, hdown]) (by simp)) (by rw [manager_finish]; rfl)
  | queues gate ready hup hh =>
    refine hkeep (hidle ?_ (by simp)) rfl
    cases hholder : u.manager.gate.holder with
    | none => exact absurd hholder hh
    | some a => simp [seizes, hholder]
  | lines ready hh => exact hkeep (hidle (by simpa [seizes] using hh) (by simp)) rfl
  | reuses gate ready h hc =>
    refine hkeep (hquiet h ?_) (by rw [creator_collect]; rfl)
    obtain ⟨k, hk⟩ := Option.isSome_iff_exists.mp hc
    simp [asks, hk]
  | denied gate ready h hc hdown =>
    exact hkeep (hquiet h (by simp [asks, hdown])) (by rw [manager_finish]; rfl)
  | waits gate ready h hd =>
    refine hkeep ?_ rfl
    have hlate : u.reserveScript.immediate? = none := by simp [Script.immediate?, hd]
    cases stage with
    | reserving o => simp [asks, seizes] at h
    | entering | queued | settling => simp [hears?, h, hlate]
  | crashes gate ready text h =>
    exact hkeep (by simp [h.hears?]) (by rw [manager_finish]; rfl)
  | fails gate ready e h =>
    exact hkeep (by simp [h.hears?]) (by rw [manager_finish]; rfl)
  | gains gate ready h => rw [if_pos h.hears?, creator_collect]; rfl

theorem creator_setup (h : w.going? t = some (.setup manual maxFail stage)) :
    (w.act (.poll t)).manager.creator =
      if w.hears? t stage = some .succeed then some w.granted else w.manager.creator := by
  cases stage with
  | entering | queued | reserving => exact (prepares_act h rfl).creator
  | settling r as =>
    have hnone : w.hears? t (.settling r as) = none :=
      hears?_of_not_asks (by simp [asks, seizes]) (by simp)
    rw [hnone, if_neg (by simp), act_of_going h]
    simp only [resume, pollSetup]
    split
    · rw [manager_judge]
    · rfl

/-! ## Shutdowns -/

/-- Shutdown `s` has the reservation lock when it goes on, and `drained` is what it has to close. -/
def Obtains (s : TaskId) (drained : List RelayId) (w : Overlay) : Prop :=
  (w.going? s = some (.shutdown .entering) ∧ drained = w.pooled ∧ w.manager.gate.holder = none) ∨
    (w.going? s = some (.shutdown (.queued drained)) ∧ w.manager.gate.holder = some s)

theorem shutdown_act {stage : ShutdownStage} (h : w.going? s = some (.shutdown stage)) :
    w.Proceeds s stage (w.act (.poll s)) := by
  obtain ⟨hready, hf, task, ht, hc, hj⟩ := going?_eq_some.mp h
  rw [Overlay.act, if_pos hready]
  exact proceeds_poll ht hf hc hj

/-- A shutdown that goes on obtains the lock and starts its parts, or starts nobody. -/
theorem obtains_or_idle {stage : ShutdownStage} (h : w.going? s = some (.shutdown stage)) :
    (∃ drained, w.Obtains s drained ∧ w.Closes s drained (w.act (.poll s))) ∨
      (w.act (.poll s)).manager.creator = w.manager.creator ∧
        (w.act (.poll s)).tasks.length = w.tasks.length := by
  have hp := shutdown_act h
  generalize w.act (.poll s) = v at hp
  cases hp with
  | queues manager ready hc => exact .inr ⟨hc, by simp [setJob]⟩
  | closes hd hcl =>
    obtain ⟨rfl, hd, hfree⟩ | ⟨rfl, hh⟩ := hd
    · exact .inl ⟨_, .inl ⟨h, hd, hfree⟩, hcl⟩
    · exact .inl ⟨_, .inr ⟨h, hh⟩, hcl⟩
  | lines | waits => exact .inr ⟨rfl, rfl⟩
  | ends hadRelays parts =>
    exact .inr ⟨creator_concludeShutdown _ _ _ _, by rw [tasks_concludeShutdown]⟩

theorem Obtains.going (h : w.Obtains s drained) : ∃ stage, w.going? s = some (.shutdown stage) :=
  h.elim (fun h => ⟨_, h.1⟩) fun h => ⟨_, h.1⟩

theorem Obtains.unique {drained' : List RelayId} (h : w.Obtains s drained)
    (h' : w.Obtains s drained') : drained' = drained := by
  rcases h with ⟨hg, hd, -⟩ | ⟨hg, -⟩ <;> rcases h' with ⟨hg', hd', -⟩ | ⟨hg', -⟩
  · rw [hd', hd]
  · exact absurd (hg.symm.trans hg') (by simp)
  · exact absurd (hg.symm.trans hg') (by simp)
  · simpa using hg'.symm.trans hg

theorem Obtains.closes (h : w.Obtains s drained) : w.Closes s drained (w.act (.poll s)) := by
  rcases h with ⟨hg, rfl, hfree⟩ | ⟨hg, hh⟩
  · rw [act_of_going hg]
    simp only [resume, pollShutdown, enterShutdown_eq]
    rw [if_pos (by simp [FairLock.acquire, hfree])]
    exact ⟨(w.stopped s).manager, w.ready.erase s, rfl, rfl⟩
  · rw [act_of_going hg]
    simp only [resume, pollShutdown]
    rw [if_pos hh]
    exact ⟨w.manager, w.ready.erase s, rfl, rfl⟩

/-- What a step does to the stored channels: some are gained by a setup, or taken by a shutdown. -/
theorem Sound.creator_act_cases (h : w.Sound) (y : Act) :
    (w.act y).manager.creator = w.manager.creator ∨
    (∃ t manual maxFail stage, y = .poll t ∧ w.going? t = some (.setup manual maxFail stage) ∧
      w.hears? t stage = some .succeed ∧ (w.act y).manager.creator = some w.granted) ∨
    ∃ s drained, y = .poll s ∧ w.Obtains s drained ∧ (w.act y).manager.creator = none := by
  rcases act_cases w y with hp | ⟨t, rfl, hg | ⟨job, hg⟩⟩
  · exact .inl (creator_act hp)
  · rcases h.act_of_not_going hg with he | he | ⟨task, -, -, -, he⟩ <;> rw [he]
    · exact .inl rfl
    · exact .inl rfl
    · exact .inl (creator_abandon _ _ _)
  · obtain ⟨hready, -, task, ht, -, hj⟩ := going?_eq_some.mp hg
    cases hown : job.role.isOwn with
    | false =>
      rw [Overlay.act, if_pos hready]
      exact .inl (h.creator_poll_of_not_own hready ht (hj ▸ hown))
    | true =>
      cases job with
      | setup manual maxFail stage =>
        have hc := creator_setup hg
        split_ifs at hc with hh
        · exact .inr (.inl ⟨t, manual, maxFail, stage, rfl, hg, hh, hc⟩)
        · exact .inl hc
      | shutdown stage =>
        rcases obtains_or_idle hg with ⟨drained, hob, hcl⟩ | ⟨hc, -⟩
        · exact .inr (.inr ⟨t, drained, rfl, hob, hcl.effect.2.2.1⟩)
        · exact .inl hc
      | guardAttempt | attempt | watch | closeRelay | releaseCreator =>
        exact absurd hown (by simp [Job.role, Role.isOwn])

/-! ## Who starts whom -/

/-- Whoever works on a round, and whoever releases channels, is started by another task. -/
theorem Sound.new_task (h : w.Sound) {task : Task} (ha : (w.act y).tasks[a]? = some task)
    (hnew : w.tasks.length ≤ a) :
    (task.job.role.works = false ∧ ∀ k, task.job.role ≠ .release k) ∨
      ∃ s ∈ w.ready, y = .poll s ∧ w.Starts s task.job := by
  rcases w.poll_cases y with ⟨s, hready, rfl, he⟩ | ⟨s, -, rfl, he⟩ | hp
  · rw [he] at ha
    rcases (h.poll_turns s).fresh (h.ready s hready) ha hnew with ⟨r, hj⟩ | hst
    · exact .inl (by simp [hj, Job.role, Role.works])
    · exact .inr ⟨s, hready, rfl, hst⟩
  · rw [he] at ha
    exact absurd (List.getElem?_eq_some_iff.mp ha).1 (Nat.not_lt.mpr hnew)
  · obtain ⟨-, hj⟩ := act_called hp ha hnew
    refine .inl ?_
    rcases hj with hj | ⟨_, _, hj⟩ | ⟨_, hj⟩ <;> simp [hj, Job.role, Role.works]

/-- Who is new was started by a task that went on. -/
theorem Sound.going_of_new (h : w.Sound) {task : Task} (hready : s ∈ w.ready)
    (ha : (w.act (.poll s)).tasks[a]? = some task) (hnew : w.tasks.length ≤ a) :
    ∃ job, w.going? s = some job := by
  have hlt := (List.getElem?_eq_some_iff.mp ha).1
  rcases goes_act (h.ready s hready) (.poll s) with hy | ⟨-, hg⟩ | ⟨-, -, hk, -⟩
  · have hf : w.isFinished s = true := by
      by_contra hf
      exact hy ⟨rfl, hready, by simpa using hf⟩
    rw [Overlay.act, if_pos hready, poll_finished hf] at hlt
    exact absurd hlt (Nat.not_lt.mpr hnew)
  · exact hg
  · exact absurd (Nat.lt_of_lt_of_le hlt hk.length_le) (Nat.not_lt.mpr hnew)

theorem getElem?_shutdownParts_release {i : Nat}
    (h : (w.shutdownParts drained)[i]? = some (.releaseCreator k none)) :
    i = drained.length ∧ w.manager.creator = some k := by
  rw [shutdownParts, List.getElem?_append] at h
  split at h
  · next hi =>
    obtain ⟨r, -, hr⟩ := Option.map_eq_some_iff.mp (List.getElem?_map ▸ h)
    exact absurd hr (by simp)
  · next hi =>
    rw [List.length_map] at h hi
    cases hc : w.manager.creator with
    | none => simp [hc] at h
    | some k' =>
      obtain ⟨hlt, hget⟩ := List.getElem?_eq_some_iff.mp h
      simp only [hc, Option.toList_some, List.map_cons, List.map_nil, List.length_singleton] at hlt
      simp only [hc, Option.toList_some, List.map_cons, List.map_nil, List.getElem_singleton,
        Job.releaseCreator.injEq, and_true] at hget
      exact ⟨by omega, congrArg some hget⟩

/-- Channels are released by a part of the shutdown that took them. -/
theorem Sound.release_new (h : w.Sound) (hr : (w.act y).role? a = some (.release k))
    (hnew : w.tasks.length ≤ a) : ∃ s drained, y = .poll s ∧ w.Obtains s drained ∧
      w.manager.creator = some k ∧ a = w.tasks.length + drained.length := by
  obtain ⟨task, ht, hrole⟩ := role?_eq_some.mp hr
  obtain ⟨s, hready, rfl, role, hrs, hst⟩ :=
    (h.new_task ht hnew).resolve_left fun hn => hn.2 k hrole
  obtain ⟨job, hg⟩ := h.going_of_new hready ht hnew
  obtain rfl := Option.some.inj ((role?_of_going hg).symm.trans hrs)
  obtain ⟨hjob, hshut⟩ : task.job = .releaseCreator k none ∧ job.role = .shutdown := by
    have hlead := Role.leads_of_starts hst
    rw [hrole] at hlead
    rcases Role.starts_cases hst with ⟨_, _, hj⟩ | ⟨_, hj⟩ | ⟨_, hj⟩ | ⟨k', hj⟩ <;>
      rw [hj] at hrole <;> simp only [Job.role, Role.release.injEq, reduceCtorEq] at hrole
    refine ⟨hrole ▸ hj, ?_⟩
    cases hjr : job.role <;> rw [hjr] at hlead <;> first | rfl | exact absurd hlead (by simp [Role.leads])
  obtain ⟨stage, rfl⟩ := Job.eq_shutdown hshut
  rcases obtains_or_idle hg with ⟨drained, hob, hcl⟩ | ⟨-, hlen⟩
  · refine ⟨s, drained, rfl, hob, ?_⟩
    obtain ⟨-, -, -, ⟨-, he, -⟩ | ⟨-, -, he, -⟩⟩ := hcl.effect
    · rw [he] at ht
      exact absurd (List.getElem?_eq_some_iff.mp ht).1 (Nat.not_lt.mpr hnew)
    · have hne : s ≠ a := Nat.ne_of_lt (Nat.lt_of_lt_of_le (h.ready s hready) hnew)
      rw [he, List.getElem?_modify_ne _ _ hne, List.getElem?_append_right hnew] at ht
      obtain ⟨part, hpart, rfl⟩ := Option.map_eq_some_iff.mp (List.getElem?_map ▸ ht)
      obtain rfl : part = .releaseCreator k none := hjob
      obtain ⟨hi, hc⟩ := getElem?_shutdownParts_release hpart
      exact ⟨hc, (Nat.sub_eq_iff_eq_add' hnew).mp hi⟩
  · exact absurd (hlen ▸ (List.getElem?_eq_some_iff.mp ht).1) (Nat.not_lt.mpr hnew)

/-- A setup starts tasks when it collects its candidates, or in a round that it has begun before. -/
theorem staffs_cases (hg : w.going? s = some (.setup manual maxFail stage))
    (hlen : w.tasks.length < (w.act (.poll s)).tasks.length) :
    w.collects s = true ∨ ∃ r as, stage = .settling r as := by
  have hadv := advances_act hg
  generalize w.act (.poll s) = v at hadv hlen
  cases hadv with
  | rests hk => exact absurd hlen (by rw [hk.tasks]; exact Nat.lt_irrefl _)
  | waits s' _ _ ht => exact absurd hlen (by simp [ht, setJob])
  | ends hk => exact absurd hlen (by rw [tasks_finish, hk.tasks]; exact Nat.lt_irrefl _)
  | draws hk hn =>
    cases hn with
    | first _ hsup => exact .inl (collects_eq_true.mpr ⟨_, _, _, hg, hsup⟩)
    | again r as => exact .inr ⟨r, as, rfl⟩

/-- A setup comes to its round when it collects its candidates. -/
theorem Sound.settles_cases (h : w.Sound) {r : Round} {as : List TaskId}
    (hj : (w.act y).job? s = some (.setup manual maxFail (.settling r as))) :
    (y = .poll s ∧ w.collects s = true) ∨
      ∃ r as, w.job? s = some (.setup manual maxFail (.settling r as)) := by
  obtain ⟨task, ht, hjob⟩ := job?_eq_some.mp hj
  have hlt : s < w.tasks.length := by
    by_contra hnew
    have hfresh := h.fresh_act ht (Nat.not_lt.mp hnew)
    rw [hjob] at hfresh
    exact absurd hfresh (by simp [Job.isFresh])
  have hr : w.role? s = some (.setup manual maxFail) := by
    rw [← (h.grows_act y).role?_eq hlt]
    exact role?_eq_some.mpr ⟨task, ht, by rw [hjob]; rfl⟩
  rcases h.setup_act hr y with ha | ⟨rfl, stage, hg⟩ | ⟨-, hk, -⟩
  · exact .inr ⟨r, as, ha.job ▸ hj⟩
  · have hold := job?_of_going hg
    rcases (advances_act hg).job hold with hsame | ⟨-, s', hs', hj'⟩ | ⟨x, r', -, -, hn, -⟩
    · exact .inr ⟨r, as, hold.trans (hsame.symm.trans hj)⟩
    · have he : s' = .settling r as := by simpa using hj'.symm.trans hj
      exact absurd hs' (by rw [he]; simp [SetupStage.isEarly])
    · cases hn with
      | first _ hsup => exact .inl ⟨rfl, collects_eq_true.mpr ⟨_, _, _, hg, hsup⟩⟩
      | again r as => exact .inr ⟨r, as, hold⟩
  · obtain ⟨before, hb, hjb, -⟩ := hk s task ht
    exact .inr ⟨r, as, job?_eq_some.mpr ⟨before, hb, hjb ▸ hjob⟩⟩

end Overlay

end RelayUpkeep
