import RelayUpkeep.Proofs.Runs

/-! # What comes from outside

An act that is no poll leaves every task its job, ends none and does nothing to the pool, and it asks
only the task that it names to end. Hence who is asked to end is known in every run. -/

namespace RelayUpkeep.Overlay

variable {t : TaskId} {u v w : Overlay}

/-! ## What acts other than polls leave alone -/

theorem listen_note_frame (w : Overlay) (r : RelayId) (label : String) (nested : Option String) :
    ∃ relays more, (w.listen r (.note label nested false)).1 =
      { w with relays, journal := w.journal ++ more } ∧ ∀ e ∈ more, e.event.isPlain := by
  rcases w.listen_note_cases r label nested false with h | ⟨relay, -, ⟨-, h⟩ | ⟨-, h⟩⟩ <;> rw [h]
  · exact ⟨w.relays, [], by simp, by simp⟩
  · exact ⟨(w.setSignal r (.live (some (.note label nested false)))).relays, [], by simp [setSignal],
      by simp⟩
  · exact ⟨_, [_], rfl, by simp [Event.isPlain]⟩

/-- Two forms of a task with one job. -/
def SameJob (a b : Task) : Prop := b.job = a.job

theorem SameJob.refl (a : Task) : SameJob a a := rfl

/-- What happens from outside between two polls: no task has another job and none ends, and nothing
becomes of the pool. -/
structure Outside (u v : Overlay) : Prop extends u.Calm v where
  jobs : Evolves (fun _ => SameJob) u.tasks v.tasks
  exits : v.exits = u.exits
  up : v.manager.isShutDown = u.manager.isShutDown

theorem Outside.of_eq (hc : u.Calm v) (ht : v.tasks = u.tasks) (he : v.exits = u.exits)
    (hu : v.manager.isShutDown = u.manager.isShutDown) : u.Outside v :=
  ⟨hc, ht ▸ .refl (fun _ => .refl) _, he, hu⟩

theorem Outside.spawn (w : Overlay) (job : Job) (parent : Option TaskId) :
    w.Outside (w.spawn job parent).1 :=
  ⟨.of_eq rfl rfl rfl, .append (fun _ => .refl) _ _, rfl, rfl⟩

theorem outside_act {a : Act} (hp : a.isPoll = false) (hm : a.movesNode = false) :
    w.Outside (w.act a) := by
  have hrefl : w.Outside w := .of_eq (.refl w) rfl rfl rfl
  cases a with
  | poll => exact absurd hp (by simp [Act.isPoll])
  | moveTo => exact absurd hm (by simp [Act.movesNode])
  | elapse ms =>
    obtain ⟨rs, h, -⟩ := w.advanceTo_eq (w.clock + ms)
    simp only [Overlay.act, h]
    exact .of_eq (.of_eq rfl rfl rfl) rfl rfl rfl
  | setUp | shutDown => exact .spawn w _ _
  | closeRelay r =>
    simp only [Overlay.act]
    split
    · exact .spawn w _ _
    · exact hrefl
  | cancel t =>
    simp only [Overlay.act]
    split
    · rcases w.cancel_eq t with ⟨-, h⟩ | ⟨-, rs, h, -⟩ <;> rw [h]
      · exact hrefl
      · exact ⟨.of_eq rfl rfl rfl, .modify (fun _ => .refl) fun _ _ => rfl, rfl, rfl⟩
    · exact hrefl
  | listen r label nested =>
    obtain ⟨relays, more, h, hplain⟩ := w.listen_note_frame r label nested
    simp only [Overlay.act, h]
    exact .of_eq ⟨rfl, rfl, more, rfl, hplain⟩ rfl rfl rfl
  | dropConn c =>
    refine .of_eq (.dropConn w c) ?_ ?_ ?_ <;>
      rcases w.dropConn_eq c with ⟨-, h⟩ | ⟨-, rs, h, -⟩ <;> simp only [Overlay.act, h]
  | observe | behave | learn | nodeDown | reservation | hold | dropManager =>
    exact .of_eq (.of_eq rfl rfl rfl) rfl rfl rfl

theorem outside_or_moves {a : Act} (hp : a.isPoll = false) :
    (∃ address, a = .moveTo address) ∨ w.Outside (w.act a) := by
  cases hm : a.movesNode with
  | false => exact .inr (outside_act hp hm)
  | true =>
    cases a with
    | moveTo address => exact .inl ⟨address, rfl⟩
    | _ => exact absurd hm (by simp [Act.movesNode])

theorem Frame.job {a : TaskId} (h : Frame t u v) (hat : a ≠ t) (hlt : a < u.tasks.length)
    {task : Task} (ha : v.tasks[a]? = some task) :
    ∃ before : Task, u.tasks[a]? = some before ∧ task.job = before.job := by
  have hb := List.getElem?_eq_getElem hlt
  obtain ⟨task', ha', hj⟩ := h.jobs a _ hb
  obtain rfl := Option.some.inj (ha.symm.trans ha')
  exact ⟨_, hb, hj.resolve_left hat⟩

/-- Until a task goes on, it has the same job, and does not end. -/
theorem Sound.still_act (h : w.Sound) {a : Act} {x : TaskId} (ha : a ≠ .poll x)
    (hlt : x < w.tasks.length) :
    (∀ task : Task, (w.act a).tasks[x]? = some task →
      ∃ before : Task, w.tasks[x]? = some before ∧ task.job = before.job) ∧
      (w.act a).exit? x = w.exit? x := by
  have hsame : (w.act a).tasks = w.tasks → (w.act a).exits = w.exits →
      (∀ task : Task, (w.act a).tasks[x]? = some task →
        ∃ before : Task, w.tasks[x]? = some before ∧ task.job = before.job) ∧
        (w.act a).exit? x = w.exit? x := by
    intro ht he
    exact ⟨fun task hx => ⟨task, ht ▸ hx, rfl⟩, by rw [exit?, exit?, he]⟩
  rcases w.poll_cases a with ⟨t, ht, rfl, he⟩ | ⟨t, -, rfl, he⟩ | hp
  · have hframe := Frame.turns (h.poll_turns t)
    have hx : x ≠ t := fun hx => ha (by rw [hx])
    rw [he]
    exact ⟨fun task => hframe.job hx hlt, hframe.exits x hx⟩
  · exact hsame (by rw [he]) (by rw [he])
  · rcases outside_or_moves (w := w) hp with ⟨address, rfl⟩ | ho
    · exact hsame rfl rfl
    · refine ⟨fun task hx => ?_, by rw [exit?, exit?, ho.exits]⟩
      have hb := List.getElem?_eq_getElem hlt
      obtain ⟨task', hx', hj⟩ := ho.jobs x _ hb
      obtain rfl := Option.some.inj (hx.symm.trans hx')
      exact ⟨_, hb, hj⟩

/-- From outside only calls are asked to end. -/
theorem act_cancels {a : Act} (hp : a.isPoll = false) :
    CancelsOnly (fun b => a = .cancel b ∧ w.isCall b = true) w (w.act a) := by
  cases a with
  | poll => exact absurd hp (by simp [Act.isPoll])
  | elapse ms =>
    obtain ⟨rs, h, -⟩ := w.advanceTo_eq (w.clock + ms)
    exact .of_eq (by simp only [Overlay.act, h])
  | setUp | shutDown => exact .of_concat rfl
  | closeRelay r =>
    simp only [Overlay.act]
    split
    · exact .of_concat rfl
    · exact .of_eq rfl
  | cancel t =>
    intro b task hb hc
    simp only [Overlay.act] at hb
    split at hb
    · next hcall =>
      rcases cancelsOnly_cancel w t b task hb hc with rfl | h
      · exact .inl ⟨rfl, hcall⟩
      · exact .inr h
    · exact .inr ⟨task, hb, hc⟩
  | listen r label nested =>
    obtain ⟨relays, more, h, -⟩ := w.listen_note_frame r label nested
    exact .of_eq (by simp only [Overlay.act, h])
  | dropConn c =>
    rcases w.dropConn_eq c with ⟨-, h⟩ | ⟨-, rs, h, -⟩ <;>
      exact .of_eq (by simp only [Overlay.act, h])
  | observe | behave | learn | nodeDown | reservation | hold | dropManager | moveTo =>
    exact .of_eq rfl

/-! ## Who is asked to end -/

/-- Nobody among some tasks was asked to end. -/
def Uncancelled (P : TaskId → Role → Prop) (w : Overlay) : Prop :=
  ∀ (a : TaskId) (task : Task), w.tasks[a]? = some task → P a task.job.role →
    task.isCancelled = false

namespace Uncancelled

variable {P : TaskId → Role → Prop}

theorem only {Q : TaskId → Prop} (h : u.Uncancelled P) (hg : u.Grows v) (hc : CancelsOnly Q u v)
    (hq : ∀ a, Q a → ∀ role, v.role? a = some role → ¬P a role) : v.Uncancelled P := by
  intro a task ha hp
  by_contra hcan
  rcases hc a task ha (by simpa using hcan) with hqa | ⟨before, hb, hbc⟩
  · exact hq a hqa _ (role?_eq_some.mpr ⟨task, ha, rfl⟩) hp
  · obtain ⟨task', ha', hk⟩ := hg.tasks a before hb
    obtain rfl := Option.some.inj (ha.symm.trans ha')
    rw [h a before hb (hk.role ▸ hp)] at hbc
    exact absurd hbc (by simp)

theorem move (h : u.Uncancelled P) (hfirm : ∀ a role, P a role → role.isFirm = true)
    (hv : v.Linked) (hm : Move t u v) : v.Uncancelled P := by
  refine h.only (.move hm) hm.cancels fun a ha role hr hp => ?_
  have hf := hfirm a role hp
  rcases ha with hs | ⟨r, relay, hrel, hw, -⟩
  · rcases hs with ⟨slot, p, hs⟩ | ⟨r, hs⟩ | ⟨k, hs⟩ <;>
      rw [(Grows.move hm).role? hs.role?] at hr <;> obtain rfl := Option.some.inj hr <;>
      exact absurd hf (by simp [Role.isFirm])
  · obtain rfl := Option.some.inj ((hv.role?_watcher hrel hw).symm.trans hr)
    exact absurd hf (by simp [Role.isFirm])

theorem moves (h : u.Uncancelled P) (hfirm : ∀ a role, P a role → role.isFirm = true)
    (hs : u.Sound) (hm : Moves t u v) (hlt : t < u.tasks.length)
    (hf : u.isFinished t = false) : v.Uncancelled P := by
  induction hm with
  | refl => exact h
  | tail hm hmove ih => exact ih.move hfirm (hs.moves (hm.tail hmove) hlt hf).toLinked hmove

theorem turns (h : u.Uncancelled P) (hfirm : ∀ a role, P a role → role.isFirm = true)
    (hs : u.Sound) (ht : Turns t u v) (hlt : t < u.tasks.length)
    (hf : u.isFinished t = false) : v.Uncancelled P := by
  obtain ⟨x, hx, rfl | ⟨e, rfl⟩⟩ := ht
  · exact h.moves hfirm hs hx hlt hf
  · unfold Uncancelled
    rw [tasks_finish]
    exact h.moves hfirm hs hx hlt hf

theorem poll (h : w.Uncancelled P) (hfirm : ∀ a role, P a role → role.isFirm = true)
    (hs : w.Sound) (ht : t ∈ w.ready) : (w.poll t).Uncancelled P := by
  cases hf : w.isFinished t with
  | true =>
    rw [poll_finished hf]
    exact h
  | false => exact h.turns hfirm hs (hs.poll_turns t) (hs.ready t ht) hf

theorem act (h : w.Uncancelled P) (hs : w.Sound) (hfirm : ∀ a role, P a role → role.isFirm = true)
    {x : Act} (hx : ∀ b, x = .cancel b → w.isCall b = true → ∀ role, w.role? b = some role →
      ¬P b role) : (w.act x).Uncancelled P := by
  rcases w.poll_cases x with ⟨t, ht, rfl, he⟩ | ⟨t, -, rfl, he⟩ | hp
  · rw [he]
    exact h.poll hfirm hs ht
  · rwa [he]
  · refine h.only (hs.grows_act x) (act_cancels hp) ?_
    rintro b ⟨he, hcall⟩ role hr
    rw [(hs.grows_act x).role?_eq (isCall_lt hcall)] at hr
    exact hx b he hcall role hr

end Uncancelled

end RelayUpkeep.Overlay
