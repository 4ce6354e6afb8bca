import RelayUpkeep.Proofs.Queues

/-! # Every state of a run is sound

Each act leaves a sound state sound, whatever it is. What runs by itself is an interleaving of polls
and of time that passes, so it leads from sound states to sound states as well. -/

namespace RelayUpkeep.Overlay

variable {t : TaskId} {u v w : Overlay}

/-! ## Sound states -/

structure Sound (w : Overlay) : Prop extends w.Linked, w.Queued

theorem sound_start (config : RelayConfig) (address : PeerAddress) :
    (start config address).Sound :=
  ⟨linked_start config address, queued_start config address⟩

theorem Sound.move (h : u.Sound) (hm : Move t u v) (ht : t < u.tasks.length)
    (hf : u.isFinished t = false) : v.Sound :=
  ⟨h.toLinked.move hm ht, h.toQueued.move h.toLinked hm ht hf⟩

theorem Sound.moves (h : u.Sound) (hm : Moves t u v) (ht : t < u.tasks.length)
    (hf : u.isFinished t = false) : v.Sound := by
  induction hm with
  | refl => exact h
  | tail hm hmove ih =>
    refine ih.move hmove ?_ ?_
    · exact Nat.lt_of_lt_of_le ht (Grows.moves hm).tasks.length_le
    · exact (Moves.isFinished hm t).trans hf

theorem Sound.finish (h : w.Sound) (ht : t < w.tasks.length) (hf : w.isFinished t = false)
    (e : Exit) : (w.finish t e).Sound := by
  obtain ⟨rs, he, hr⟩ := w.finish_eq t e
  rw [he]
  refine ⟨{ h.toLinked with }, ?_⟩
  have hnew := not_isFinished_iff.mp hf
  refine ⟨?_, hr.nodup h.once, ?_, ?_, ?_⟩
  · intro a ha
    rcases hr.only a ha with ha | ha
    · exact h.ready a ha
    · obtain ⟨task, htask, hp⟩ := Option.bind_eq_some_iff.mp (Option.mem_toList.mp ha)
      obtain ⟨-, role, hr, -⟩ := h.parents t task a htask hp
      exact lt_of_role? hr
  · intro x hx
    rcases List.mem_append.mp hx with hx | hx
    · exact h.exits x hx
    · obtain rfl := List.mem_singleton.mp hx
      exact ht
  · rw [List.map_append]
    refine List.nodup_append.mpr ⟨h.ends, by simp, ?_⟩
    rintro a ha b hb rfl
    obtain ⟨⟨c, e'⟩, hx, rfl⟩ := List.mem_map.mp ha
    obtain rfl : c = t := by simpa using hb
    exact hnew e' hx
  · intro x hx
    obtain ⟨hx, hne⟩ := List.mem_filter.mp hx
    obtain ⟨h₁, h₂, h₃⟩ := h.timers x hx
    refine ⟨h₁, h₂, not_isFinished_iff.mpr fun e' he' => ?_⟩
    rcases List.mem_append.mp he' with he' | he'
    · exact not_isFinished_iff.mp h₃ e' he'
    · simp at hne
      exact hne (by simpa using congrArg Prod.fst (List.mem_singleton.mp he'))

theorem Sound.turns (h : u.Sound) (ht : Turns t u v) (hlt : t < u.tasks.length)
    (hf : u.isFinished t = false) : v.Sound := by
  obtain ⟨x, hx, rfl | ⟨e, rfl⟩⟩ := ht
  · exact h.moves hx hlt hf
  · refine (h.moves hx hlt hf).finish ?_ ?_ e
    · exact Nat.lt_of_lt_of_le hlt (Grows.moves hx).tasks.length_le
    · exact (Moves.isFinished hx t).trans hf

/-! ## What a chain of moves brings -/

/-- A task that is new after a chain of moves is a watcher, or was started by the one who moved. -/
theorem Moves.fresh (h : Moves t u v) (hlt : t < u.tasks.length) {a : TaskId} {task : Task}
    (ha : v.tasks[a]? = some task) (hnew : u.tasks.length ≤ a) :
    (∃ r, task.job = .watch r) ∨ u.Starts t task.job := by
  induction h generalizing task with
  | refl => exact absurd (List.getElem?_eq_some_iff.mp ha).1 (Nat.not_lt.mpr hnew)
  | @tail x y hx hy ih =>
    cases hy.origin ha with
    | kept hb hj hp => exact hj ▸ ih hb
    | turned hat => exact absurd hlt (Nat.not_lt.mpr (hat ▸ hnew))
    | part _ hj hp =>
      obtain ⟨role, hr, hs⟩ := hj
      exact .inr ⟨role, (Grows.moves hx).role?_eq hlt ▸ hr, hs⟩
    | watcher _ hj => exact .inl ⟨_, hj⟩

theorem Turns.fresh (h : Turns t u v) (hlt : t < u.tasks.length) {a : TaskId} {task : Task}
    (ha : v.tasks[a]? = some task) (hnew : u.tasks.length ≤ a) :
    (∃ r, task.job = .watch r) ∨ u.Starts t task.job := by
  obtain ⟨x, hx, rfl | ⟨e, rfl⟩⟩ := h
  · exact Moves.fresh hx hlt ha hnew
  · rw [tasks_finish] at ha
    exact Moves.fresh hx hlt ha hnew

/-- The wait time after a failure ends within the range of the clock. -/
def InTime (w : Overlay) : Prop :=
  (Instant.add? w.now w.manager.config.failedWait).isSome = true

instance (w : Overlay) : Decidable w.InTime := inferInstanceAs (Decidable (_ = true))

theorem InTime.moves (h : u.InTime) (hm : Moves t u v) : v.InTime := by
  unfold InTime now at h ⊢
  rwa [(Frame.moves hm).clock, (Grows.moves hm).config]

/-! ## Every act -/

/-- An act polls a task that is ready, polls one that is not, or is no poll. -/
theorem poll_cases (w : Overlay) (a : Act) : (∃ t ∈ w.ready, a = .poll t ∧ w.act a = w.poll t) ∨
    (∃ t ∉ w.ready, a = .poll t ∧ w.act a = w) ∨ a.isPoll = false := by
  cases a with
  | poll t =>
    by_cases ht : t ∈ w.ready
    · exact .inl ⟨t, ht, rfl, if_pos ht⟩
    · exact .inr (.inl ⟨t, ht, rfl, if_neg ht⟩)
  | _ => exact .inr (.inr rfl)

/-- A task that has ended does nothing any more. -/
theorem poll_finished (h : w.isFinished t = true) :
    w.poll t = { w with ready := w.ready.erase t } := by
  have hf : ({ w with ready := w.ready.erase t } : Overlay).isFinished t = true := h
  unfold poll
  simp only
  split
  · rfl
  · rw [if_pos hf]

theorem poll_resume {task : Task} (ht : w.tasks[t]? = some task) (hf : w.isFinished t = false)
    (hc : task.isCancelled = false) :
    w.poll t = ({ w with ready := w.ready.erase t } : Overlay).resume t task.job := by
  have hf' : ({ w with ready := w.ready.erase t } : Overlay).isFinished t = false := hf
  unfold poll
  simp only [ht, hf', hc, Bool.false_eq_true, if_false]

theorem poll_abandon {task : Task} (ht : w.tasks[t]? = some task) (hf : w.isFinished t = false)
    (hc : task.isCancelled = true) :
    w.poll t = ({ w with ready := w.ready.erase t } : Overlay).abandon t task.job := by
  have hf' : ({ w with ready := w.ready.erase t } : Overlay).isFinished t = false := hf
  unfold poll
  simp only [ht, hf', hc, Bool.false_eq_true, if_false, if_true]

theorem Sound.poll_turns (h : w.Sound) (t : TaskId) : Turns t w (w.poll t) :=
  turns_poll h.gate (h.refers t)

theorem Sound.rest (h : w.Sound) (t : TaskId) :
    ({ w with ready := w.ready.erase t } : Overlay).Sound :=
  ⟨{ h.toLinked with }, { h.toQueued with
    ready := fun a ha => h.ready a (List.mem_of_mem_erase ha), once := h.once.erase _ }⟩

theorem Sound.poll (h : w.Sound) (ht : t ∈ w.ready) : (w.poll t).Sound := by
  cases hf : w.isFinished t with
  | true =>
    rw [poll_finished hf]
    exact h.rest t
  | false => exact h.turns (h.poll_turns t) (h.ready t ht) hf

/-- An attempt makes at most one offer in a poll, and ends the poll with it. -/
theorem Sound.attempts_poll (h : w.Sound) {q : PeerAddress} {k : Course} (hk : k.Sound t q)
    (hr : w.role? t = some (.attempt q)) (hf : w.isFinished t = false)
    (hend : ∀ task : Task, w.tasks[t]? = some task → task.isCancelled = true → k.ends .cancelled)
    (hstage : ∀ (task : Task) s, w.tasks[t]? = some task → task.job = .attempt q s →
      k.stage w s) : Attempts t q k w (w.poll t) := by
  obtain ⟨task, ht, hq⟩ := role?_eq_some.mp hr
  have hrest : Stirs t w { w with ready := w.ready.erase t } := (Stir.rest w).one
  have hj := h.refers t task ht
  refine hrest.attempts ?_
  cases hjob : task.job with
  | attempt q' stage =>
    obtain rfl : q' = q := by simpa [hjob, Job.role] using hq
    have hr' := hrest.role? hr
    rw [hjob] at hj
    cases hc : task.isCancelled with
    | true =>
      rw [poll_abandon ht hf hc, hjob]
      exact .ends .refl (hend task ht hc) rfl
    | false =>
      rw [poll_resume ht hf hc, hjob]
      exact attempts_pollAttempt hk hr' (hj.mono { Grows.refl w with })
        (hk.stirs hrest (hstage task stage ht hjob))
  | setup | shutdown | guardAttempt | watch | closeRelay | releaseCreator =>
    simp [hjob, Job.role] at hq

theorem Sound.spawn (h : w.Sound) {job : Job} (hj : ∀ (v : Overlay) a, v.Refers a job)
    (hr : ∀ r, job.role ≠ .watch r) : (w.spawn job none).1.Sound := by
  have hg := Grows.spawn w job none
  have hle := hg.tasks.length_le
  refine ⟨⟨h.capacity, h.ttl, ?_, ?_, ?_, ?_, ?_, h.pool, h.pooled⟩, ⟨?_, ?_, ?_, h.ends, ?_⟩⟩
  · intro a task ha
    rcases getElem?_concat_eq_some ha with ha | ⟨-, rfl⟩
    · exact (h.refers a task ha).mono hg
    · exact hj _ _
  · intro a task p ha hp
    rcases getElem?_concat_eq_some ha with ha | ⟨-, rfl⟩
    · obtain ⟨hlt, role, hr, hlead⟩ := h.parents a task p ha hp
      exact ⟨hlt, role, hg.role? hr, hlead⟩
    · exact absurd hp (by simp)
  · exact fun a ha => Nat.lt_of_lt_of_le (h.gate a ha) hle
  · intro a r hrole
    obtain ⟨task, ha, hw⟩ := role?_eq_some.mp hrole
    rcases getElem?_concat_eq_some ha with ha | ⟨-, rfl⟩
    · exact h.watches a r (role?_eq_some.mpr ⟨task, ha, hw⟩)
    · exact absurd hw (hr r)
  · exact fun r relay hrel => (h.tends r relay hrel).mono hg (.refl _)
  · intro a ha
    rcases List.mem_append.mp ha with ha | ha
    · exact Nat.lt_of_lt_of_le (h.ready a ha) hle
    · exact List.mem_singleton.mp ha ▸ (by simp)
  · exact (wakes_concat (v := (w.spawn job none).1) rfl (by simp)).once h.ready h.once
  · exact fun x hx => Nat.lt_of_lt_of_le (h.exits x hx) hle
  · intro x hx
    obtain ⟨h₁, h₂, h₃⟩ := h.timers x hx
    exact ⟨Nat.lt_of_lt_of_le h₁ hle, h₂, h₃⟩

/-- Waking tasks that are there keeps the queues in order. -/
theorem Queued.rouse (h : w.Queued) {ts rs : List TaskId} (hr : w.Rouses ts rs)
    (hts : ∀ a ∈ ts, a < w.tasks.length) : ({ w with ready := rs } : Overlay).Queued :=
  { h with
    ready := fun a ha => (hr.only a ha).elim (h.ready a) (hts a)
    once := hr.nodup h.once }

theorem Linked.of_keeps (h : u.Linked) (hg : u.Grows v) (hk : u.Keeps v)
    (hrel : v.relays.length = u.relays.length) (hp : v.manager.pool = u.manager.pool)
    (hgate : v.manager.gate = u.manager.gate) : v.Linked := by
  have hle := hg.tasks.length_le
  refine ⟨?_, ?_, ?_, ?_, ?_, ?_, ?_, hp ▸ h.pool, ?_⟩
  · rw [hg.capacity, hg.config, h.capacity]
  · rw [hg.ttl, hg.config, h.ttl]
  · intro a task ha
    obtain ⟨before, hb, hj, -⟩ := hk a task ha
    exact hj ▸ (h.refers a before hb).mono hg
  · intro a task p ha hpar
    obtain ⟨before, hb, hj, hp⟩ := hk a task ha
    obtain ⟨hlt, role, hr, hlead⟩ := h.parents a before p hb (hp ▸ hpar)
    exact ⟨hlt, role, hg.role? hr, hj ▸ hlead⟩
  · intro a ha
    exact Nat.lt_of_lt_of_le (h.gate a (by simpa [InGate, hgate] using ha)) hle
  · intro a r hrole
    obtain ⟨task, ha, hr⟩ := role?_eq_some.mp hrole
    obtain ⟨before, hb, hj, -⟩ := hk a task ha
    obtain ⟨relay, hrelay, hw⟩ := h.watches a r (role?_eq_some.mpr ⟨before, hb, hj ▸ hr⟩)
    obtain ⟨relay', hrelay', hx⟩ := hg.relays r relay hrelay
    exact ⟨relay', hrelay', hx.watcher.trans hw⟩
  · intro r relay hr
    have hlt := hrel ▸ (List.getElem?_eq_some_iff.mp hr).1
    have hb := List.getElem?_eq_getElem hlt
    obtain ⟨relay', hr', hx⟩ := hg.relays r _ hb
    obtain rfl := Option.some.inj (hr.symm.trans hr')
    exact (h.tends r _ hb).mono hg hx
  · intro m hm
    obtain ⟨relay, hr, ha⟩ := h.pooled m (hp ▸ hm)
    obtain ⟨relay', hr', hx⟩ := hg.relays _ relay hr
    exact ⟨relay', hr', hx.address.trans ha⟩

theorem Grows.advanceTo (w : Overlay) {clock : Nat} (h : w.clock ≤ clock) :
    w.Grows (w.advanceTo clock) := by
  obtain ⟨rs, he, -⟩ := w.advanceTo_eq clock
  rw [he]
  exact { refl w with clock := h }

theorem Grows.listen_note (w : Overlay) (r : RelayId) (label : String) (nested : Option String) :
    w.Grows (w.listen r (.note label nested false)).1 := by
  rcases w.listen_note_cases r label nested false with h | ⟨relay, hr, ⟨⟨l, hs⟩, h⟩ | ⟨hs, h⟩⟩ <;> rw [h]
  · exact refl w
  · refine setSignal fun relay' hr' => ?_
    obtain rfl := Option.some.inj (hr.symm.trans hr')
    exact hs ▸ .live _ _
  · refine Grows.trans (setSignal fun relay' hr' => ?_) (log _ _)
    obtain rfl := Option.some.inj (hr.symm.trans hr')
    exact hs ▸ .unheard _

theorem Sound.grows_act (h : w.Sound) (a : Act) : w.Grows (w.act a) := by
  cases a with
  | poll t =>
    simp only [act]
    split
    · exact .turns (h.poll_turns t)
    · exact .refl w
  | elapse ms => exact .advanceTo w (Nat.le_add_right _ _)
  | setUp | shutDown => exact .spawn w _ _
  | closeRelay r =>
    simp only [act]
    split
    · exact .spawn w _ _
    · exact .refl w
  | cancel t =>
    simp only [act]
    split
    · exact .cancel w t
    · exact .refl w
  | listen r label nested => exact .listen_note w r label nested
  | dropConn c => exact .dropConn w c
  | observe | behave | learn | nodeDown | reservation | hold | dropManager | moveTo =>
    exact { Grows.refl w with }

theorem isCall_lt (h : w.isCall t = true) : t < w.tasks.length := by
  by_contra hle
  rw [isCall, List.getElem?_eq_none (Nat.le_of_not_lt hle)] at h
  exact absurd h (by simp)

/-- What a task is and for whom it works tells whether it is a call. -/
theorem isCall_eq {task : Task} (ht : w.tasks[t]? = some task) :
    w.isCall t = match task.job.role, task.parent with
      | .setup .., _ | .shutdown, _ | .close _, none => true
      | _, _ => false := by
  obtain ⟨job, parent, cancelled⟩ := task
  rw [isCall, ht]
  cases job <;> cases parent <;> rfl

theorem Grows.isCall (h : u.Grows v) (hc : u.isCall t = true) : v.isCall t = true := by
  obtain ⟨before, hb⟩ : ∃ task, u.tasks[t]? = some task :=
    ⟨_, List.getElem?_eq_getElem (isCall_lt hc)⟩
  obtain ⟨task, ht, hk⟩ := h.tasks t before hb
  rwa [isCall_eq ht, hk.role, hk.parent, ← isCall_eq hb]

theorem keeps_advanceTo (w : Overlay) (clock : Nat) : w.Keeps (w.advanceTo clock) := by
  obtain ⟨rs, h, -⟩ := w.advanceTo_eq clock
  exact .of_eq (by rw [h])

theorem Sound.elapse (h : w.Sound) {clock : Nat} (hc : w.clock ≤ clock) :
    (w.advanceTo clock).Sound := by
  have hg := Grows.advanceTo w hc
  obtain ⟨rs, he, hr⟩ := w.advanceTo_eq clock
  have hq := h.toQueued.rouse hr fun a ha => by
    obtain ⟨x, hx, rfl⟩ := List.mem_map.mp ha
    exact (h.timers x (List.mem_of_mem_filter hx)).1
  refine ⟨h.toLinked.of_keeps hg (keeps_advanceTo w clock) ?_ ?_ ?_, ?_⟩ <;> rw [he]
  refine { hq with timers := fun x hx => ?_ }
  obtain ⟨hx, hd⟩ := List.mem_filter.mp hx
  obtain ⟨h₁, -, h₃⟩ := h.timers x hx
  exact ⟨h₁, by simpa using hd, h₃⟩

theorem Sound.cancel (h : w.Sound) (ht : t < w.tasks.length) : (w.cancel t).Sound := by
  have hg := Grows.cancel w t
  have hk := keeps_cancel w t
  rcases w.cancel_eq t with ⟨-, he⟩ | ⟨-, rs, he, hr⟩
  · rw [he]
    exact h
  · have hq := h.toQueued.rouse hr fun a ha => List.mem_singleton.mp ha ▸ ht
    refine ⟨h.toLinked.of_keeps hg hk ?_ ?_ ?_, ?_⟩ <;> rw [he]
    exact ⟨by simpa using hq.ready, hq.once, by simpa using hq.exits, hq.ends,
      by simpa [isFinished, exit?] using hq.timers⟩

theorem Sound.dropConn (h : w.Sound) (c : ConnId) : (w.dropConn c).Sound := by
  have hg := Grows.dropConn w c
  have hk := keeps_dropConn w c
  rcases w.dropConn_eq c with ⟨-, he⟩ | ⟨-, rs, he, hr⟩
  · rw [he]
    exact h
  · have hq := h.toQueued.rouse hr fun a ha => h.watchersOf_lt ha
    refine ⟨h.toLinked.of_keeps hg hk ?_ ?_ ?_, ?_⟩ <;> rw [he]
    exact { hq with }

theorem Sound.listen_note (h : w.Sound) (r : RelayId) (label : String) (nested : Option String) :
    (w.listen r (.note label nested false)).1.Sound := by
  have hg := Grows.listen_note w r label nested
  rcases w.listen_note_cases r label nested false with he | ⟨relay, -, ⟨-, he⟩ | ⟨-, he⟩⟩ <;>
    rw [he] at hg ⊢
  · exact h
  · exact ⟨h.toLinked.of_keeps hg (.of_eq rfl) (List.length_modify _ _ _) rfl rfl,
      { h.toQueued with }⟩
  · exact ⟨h.toLinked.of_keeps hg (.of_eq rfl) (List.length_modify _ _ _) rfl rfl,
      { h.toQueued with }⟩

theorem Sound.act (h : w.Sound) (a : Act) : (w.act a).Sound := by
  cases a with
  | poll t =>
    simp only [Overlay.act]
    split
    · next ht => exact h.poll ht
    · exact h
  | elapse ms => exact h.elapse (Nat.le_add_right _ _)
  | setUp => exact h.spawn (fun _ _ => trivial) (by simp [Job.role])
  | shutDown => exact h.spawn (fun _ _ => trivial) (by simp [Job.role])
  | closeRelay r =>
    simp only [Overlay.act]
    split
    · exact h.spawn (fun _ _ => trivial) (by simp [Job.role])
    · exact h
  | cancel t =>
    simp only [Overlay.act]
    split
    · next hc => exact h.cancel (isCall_lt hc)
    · exact h
  | listen r label nested => exact h.listen_note r label nested
  | dropConn c => exact h.dropConn c
  | observe | behave | learn | nodeDown | reservation | hold | dropManager | moveTo =>
    exact ⟨{ h.toLinked with }, { h.toQueued with }⟩

/-- Every state that a run comes to is sound. -/
theorem sound_run (h : w.Sound) (acts : List Act) : (w.run acts).Sound := by
  induction acts generalizing w with
  | nil => exact h
  | cons a acts ih => exact ih (h.act a)

theorem grows_run (h : w.Sound) (acts : List Act) : w.Grows (w.run acts) := by
  induction acts generalizing w with
  | nil => exact .refl w
  | cons a acts ih => exact (h.grows_act a).trans (ih (h.act a))

/-- A run leads on from each state that it comes by. -/
theorem Sound.grows_take (h : w.Sound) (acts : List Act) (i : Nat) :
    (w.run (acts.take i)).Grows (w.run acts) := by
  have hrest := grows_run (sound_run h (acts.take i)) (acts.drop i)
  rwa [run_take_drop] at hrest

/-! ## What runs by itself is an interleaving -/

theorem Follows.sound (h : u.Follows v) (hs : u.Sound) : v.Sound := by
  obtain ⟨acts, -, rfl⟩ := h
  exact sound_run hs acts

theorem follows_advanceTo {clock : Nat} (h : w.clock ≤ clock) : w.Follows (w.advanceTo clock) :=
  ⟨[.elapse (clock - w.clock)], by simp [Act.isSchedule],
    by rw [run_cons, run_nil, act, Nat.add_sub_cancel' h]⟩

theorem Sound.lt_nextDue (h : w.Sound) {due : Nat} (hd : w.nextDue? = some due) :
    w.clock < due := by
  obtain ⟨x, hx, rfl⟩ := List.mem_map.mp (List.min?_mem hd)
  exact (h.timers x hx).2.1

theorem Sound.clock_drain (h : w.Sound) (foreground : Option TaskId) (fuel : Nat) :
    (drain foreground fuel w).clock = w.clock := by
  induction fuel generalizing w with
  | zero => rfl
  | succ fuel ih =>
    simp only [drain]
    split
    · rfl
    · next t ht =>
      rw [ih (h.poll (List.mem_of_find?_eq_some ht)), (Frame.turns (h.poll_turns t)).clock]

/-- Whoever waits for a task sees an interleaving. -/
theorem Sound.follows_runUntil (h : w.Sound) (foreground : Option TaskId) (goal : TaskId)
    (fuel : Nat) : w.Follows (runUntil foreground goal fuel w) := by
  induction fuel generalizing w with
  | zero => exact .refl w
  | succ fuel ih =>
    have hgo : ∀ {v}, w.Follows v → w.Follows (runUntil foreground goal fuel v) :=
      fun hv => hv.trans (ih (hv.sound h))
    simp only [runUntil]
    split
    · exact .refl w
    · split
      · next t ht =>
        have hr : t ∈ w.ready := by simpa using (Option.filter_eq_some_iff.mp ht).2
        exact hgo (follows_poll hr)
      · split
        · split
          · exact .refl w
          · next due hd => exact hgo (follows_advanceTo (Nat.le_of_lt (h.lt_nextDue hd)))
        · exact hgo (follows_drain _ _ _)

/-- So does whoever lets time pass. -/
theorem Sound.follows_passUntil (h : w.Sound) {clock : Nat} (hc : w.clock ≤ clock) (fuel : Nat) :
    w.Follows (passUntil clock fuel w) := by
  induction fuel generalizing w with
  | zero => exact follows_advanceTo hc
  | succ fuel ih =>
    have hw : w.Follows w.settle := follows_drain _ _ _
    have hs := hw.sound h
    have hclock : w.settle.clock = w.clock := h.clock_drain _ _
    simp only [passUntil]
    split
    · next due hd =>
      obtain ⟨hd, hlt⟩ := Option.filter_eq_some_iff.mp hd
      have hon := follows_advanceTo (Nat.le_of_lt (hs.lt_nextDue hd))
      refine (hw.trans hon).trans (ih (hon.sound hs) ?_)
      obtain ⟨rs, he, -⟩ := w.settle.advanceTo_eq due
      rw [he]
      exact Nat.le_of_lt (by simpa using hlt)
    · exact hw.trans (follows_advanceTo (hclock ▸ hc))

theorem Sound.follows_pass (h : w.Sound) (ms : Nat) : w.Follows (w.pass ms) := by
  unfold pass
  split
  · exact .refl w
  · exact h.follows_passUntil (Nat.le_add_right _ _) _

end RelayUpkeep.Overlay
