import RelayUpkeep.Proofs.Fairness
import RelayUpkeep.Proofs.Mirror
import RelayUpkeep.Proofs.Watching

/-! # Shut down for good

From the first step of a shutdown on, the pool is empty and stays empty, no channels are reserved,
no observer is told of a loss, and a setup that starts is turned away at once. -/

namespace RelayUpkeep.Overlay

variable {t : TaskId} {u v w : Overlay}

/-- The manager is shut down and holds no relay. -/
structure Stopped (w : Overlay) : Prop where
  down : w.manager.isShutDown = true
  pool : w.manager.pool.members = []

/-- No channels are reserved between two states, and no observer is told of a loss. -/
def Silent (u v : Overlay) : Prop :=
  ∃ more, v.journal = u.journal ++ more ∧
    ∀ e ∈ more, e.event.isReserve = false ∧ e.event.isLoss = false

namespace Silent

theorem of_eq (h : v.journal = u.journal) : u.Silent v := ⟨[], by simp [h], by simp⟩

theorem trans (h : u.Silent v) (h' : v.Silent w) : u.Silent w := by
  obtain ⟨more, hj, hm⟩ := h
  obtain ⟨rest, hj', hr⟩ := h'
  refine ⟨more ++ rest, by rw [hj', hj, List.append_assoc], fun e he => ?_⟩
  exact (List.mem_append.mp he).elim (hm e) (hr e)

theorem log (w : Overlay) {e : Event} (hr : e.isReserve = false) (hl : e.isLoss = false) :
    w.Silent (w.log e) := ⟨[⟨w.clock, e⟩], rfl, by simp [hr, hl]⟩

theorem shutRelay (w : Overlay) (r : RelayId) : w.Silent (w.shutRelay r).1 := by
  obtain ⟨relays, tasks, ready, h⟩ := w.shutRelay_frame r
  rw [h]
  exact .of_eq rfl

end Silent

/-! ## What a stopped manager stays -/

theorem Stopped.of_eq (h : u.Stopped) (hm : v.manager = u.manager) : v.Stopped :=
  ⟨by rw [hm]; exact h.down, by rw [hm]; exact h.pool⟩

theorem Stopped.not_pooled (h : w.Stopped) (r : RelayId) : w.manager.pool.contains r = false := by
  simp [Pool.contains, h.pool]

theorem Stopped.verdict (h : w.Stopped) (p : PeerAddress) : w.verdict p = none := by
  simp [Overlay.verdict, h.down]

/-- The loss of a link is nothing to a stopped manager. -/
theorem Stopped.lose (h : w.Stopped) (r : RelayId) : (w.lose r).1.manager = w.manager ∧
    (w.lose r).1.node = w.node ∧ w.Silent (w.lose r).1 := by
  rcases w.lose_cases r with he | ⟨relay, -, hl⟩
  · rw [he]
    exact ⟨rfl, rfl, .of_eq rfl⟩
  generalize (w.lose r).1 = v at hl
  cases hl with
  | unheard | ownerless => exact ⟨rfl, rfl, .of_eq rfl⟩
  | noted =>
    have hs : w.Silent (w.setSignal r (.lost true)) := .of_eq rfl
    exact ⟨rfl, rfl, hs.trans (.log _ rfl rfl)⟩
  | told =>
    rcases (w.setSignal r (.lost true)).relayLost_cases r relay.address with
      ⟨-, he⟩ | ⟨hc, -⟩ | ⟨hc, -⟩
    · rw [he]
      exact ⟨rfl, rfl, .of_eq rfl⟩
    · exact absurd (hc.symm.trans (h.not_pooled r)) (by simp)
    · exact absurd (hc.symm.trans (h.not_pooled r)) (by simp)

theorem Stir.silent (h : Stir t u v) (hs : u.Stopped) : u.Silent v := by
  cases h with
  | rest | spawn | setJob | sleep | openConn | manage | grant => exact .of_eq rfl
  | wake a =>
    obtain ⟨rs, h, -⟩ := u.wake_eq a
    rw [h]
    exact .of_eq rfl
  | cancel a =>
    rcases u.cancel_eq a with ⟨-, h⟩ | ⟨-, rs, h, -⟩ <;> rw [h] <;> exact .of_eq rfl
  | dropConn c =>
    rcases u.dropConn_eq c with ⟨-, h⟩ | ⟨-, rs, h, -⟩ <;> rw [h] <;> exact .of_eq rfl
  | log e he hr =>
    refine .log u (Bool.eq_false_iff.mpr fun hres => ?_) (Event.isLoss_of_isPlain he)
    exact absurd ((hr hres).symm.trans hs.down) (by simp)

theorem Made.silent {r : RelayId} {p : PeerAddress} (h : Made u v r p) : u.Silent v := by
  cases h <;> exact .of_eq rfl

theorem Move.stopped (h : Move t u v) (hs : u.Stopped) : v.Stopped ∧ u.Silent v := by
  cases h with
  | stir h => exact ⟨⟨h.isShutDown.trans hs.down, by rw [h.pool]; exact hs.pool⟩, h.silent hs⟩
  | publish => exact ⟨⟨hs.down, hs.pool⟩, .log _ rfl rfl⟩
  | accept hr hm ha => exact absurd (ha.symm.trans (hs.verdict _)) (by simp)
  | @refuse v r p q hr hm ha =>
    refine ⟨hs.of_eq ?_, hm.silent.trans ((Silent.log v rfl rfl).trans (.shutRelay _ r))⟩
    simp [refused, log, hm.manager]
  | shut r => exact ⟨hs.of_eq (by simp), .shutRelay u r⟩
  | lose r =>
    obtain ⟨hm, -, hq⟩ := hs.lose r
    exact ⟨hs.of_eq hm, hq⟩
  | drain => exact ⟨⟨rfl, rfl⟩, .of_eq rfl⟩

theorem Moves.stopped (h : Moves t u v) (hs : u.Stopped) : v.Stopped ∧ u.Silent v := by
  induction h with
  | refl => exact ⟨hs, .of_eq rfl⟩
  | tail _ h ih =>
    obtain ⟨hx, hq⟩ := ih
    obtain ⟨hy, hq'⟩ := h.stopped hx
    exact ⟨hy, hq.trans hq'⟩

theorem Turns.stopped (h : Turns t u v) (hs : u.Stopped) : v.Stopped ∧ u.Silent v := by
  obtain ⟨x, hx, rfl | ⟨e, rfl⟩⟩ := h
  · exact Moves.stopped hx hs
  · obtain ⟨hsx, hq⟩ := Moves.stopped hx hs
    obtain ⟨rs, he, -⟩ := x.finish_eq t e
    exact ⟨hsx.of_eq (manager_finish _ _ _), hq.trans (.of_eq (by rw [he]))⟩

theorem Sound.act_stopped (h : w.Sound) (hs : w.Stopped) (a : Act) :
    (w.act a).Stopped ∧ w.Silent (w.act a) := by
  have hsame : w.Stopped ∧ w.Silent w := ⟨hs, .of_eq rfl⟩
  cases a with
  | poll t =>
    simp only [Overlay.act]
    split
    · exact Turns.stopped (h.poll_turns t) hs
    · exact hsame
  | elapse ms =>
    obtain ⟨rs, he, -⟩ := w.advanceTo_eq (w.clock + ms)
    simp only [Overlay.act, he]
    exact ⟨⟨hs.down, hs.pool⟩, .of_eq rfl⟩
  | closeRelay r =>
    simp only [Overlay.act]
    split
    · exact ⟨⟨hs.down, hs.pool⟩, .of_eq rfl⟩
    · exact hsame
  | cancel t =>
    simp only [Overlay.act]
    split
    · rcases w.cancel_eq t with ⟨-, he⟩ | ⟨-, rs, he, -⟩ <;> rw [he]
      · exact hsame
      · exact ⟨⟨hs.down, hs.pool⟩, .of_eq rfl⟩
    · exact hsame
  | listen r label nested =>
    rcases w.listen_note_cases r label nested false with he | ⟨relay, -, ⟨-, he⟩ | ⟨-, he⟩⟩ <;>
      simp only [Overlay.act, he]
    · exact hsame
    · exact ⟨⟨hs.down, hs.pool⟩, .of_eq rfl⟩
    · have hq : w.Silent (w.setSignal r (.lost true)) := .of_eq rfl
      exact ⟨⟨hs.down, hs.pool⟩, hq.trans (.log _ rfl rfl)⟩
  | dropConn c =>
    simp only [Overlay.act]
    rcases w.dropConn_eq c with ⟨-, he⟩ | ⟨-, rs, he, -⟩ <;> rw [he]
    · exact hsame
    · exact ⟨⟨hs.down, hs.pool⟩, .of_eq rfl⟩
  | setUp | shutDown | observe | behave | learn | nodeDown | reservation | hold | dropManager
    | moveTo => exact ⟨⟨hs.down, hs.pool⟩, .of_eq rfl⟩

theorem Sound.run_stopped (h : w.Sound) (hs : w.Stopped) (acts : List Act) :
    (w.run acts).Stopped ∧ w.Silent (w.run acts) := by
  induction acts generalizing w with
  | nil => exact ⟨hs, .of_eq rfl⟩
  | cons a acts ih =>
    obtain ⟨hv, hq⟩ := h.act_stopped hs a
    obtain ⟨hx, hq'⟩ := ih (h.act a) hv
    exact ⟨hx, hq.trans hq'⟩

/-! ## What a stopped manager advertises -/

theorem Stopped.bare_publish (h : w.Stopped) : w.publish.node.address.Bare := by
  change (w.node.address.advertising w.manager.pool.addresses).Bare
  rw [Pool.addresses, h.pool]
  exact PeerAddress.bare_advertising _

theorem Move.bare (h : Move t u v) (hs : u.Stopped) (hb : u.node.address.Bare) :
    v.node.address.Bare := by
  have hsame : u.Calm v → v.node.address.Bare := fun hc => hc.address ▸ hb
  cases h with
  | stir h => exact hsame (.stir h)
  | publish => exact hs.bare_publish
  | accept hr hm ha => exact absurd (ha.symm.trans (hs.verdict _)) (by simp)
  | @refuse v r p q hr hm ha =>
    have hv : v.node.address.Bare := (Calm.made hm).address ▸ hb
    have hl : (v.log (.offer r (u.verdict p))).node.address.Bare := hv
    exact (Calm.shutRelay (v.log (.offer r (u.verdict p))) r).address ▸ hl
  | shut r => exact hsame (.shutRelay u r)
  | lose r =>
    rw [(hs.lose r).2.1]
    exact hb
  | drain => exact hb

theorem Moves.bare (h : Moves t u v) (hs : u.Stopped) (hb : u.node.address.Bare) :
    v.node.address.Bare := by
  induction h with
  | refl => exact hb
  | tail hx h ih => exact h.bare (Moves.stopped hx hs).1 ih

/-- A stopped manager advertises no relay again. -/
theorem Sound.act_bare (h : w.Sound) (hs : w.Stopped) (hb : w.node.address.Bare) {a : Act}
    (ha : a.movesNode = false) : (w.act a).node.address.Bare := by
  rcases w.poll_cases a with ⟨t, -, rfl, hv⟩ | ⟨t, -, rfl, hv⟩ | hp
  · rw [hv]
    obtain ⟨x, hx, he | ⟨e, he⟩⟩ := h.poll_turns t
    · exact he ▸ Moves.bare hx hs hb
    · rw [he, (Calm.finish x t e).address]
      exact Moves.bare hx hs hb
  · rwa [hv]
  · have ho : w.Outside (w.act a) := outside_act hp ha
    rwa [ho.address]

/-! ## The first step of a shutdown -/

/-- When it is polled next, shutdown `t` takes its first step. -/
def begins (w : Overlay) (t : TaskId) : Bool :=
  t ∈ w.ready && !w.isFinished t &&
    (w.tasks[t]?).any fun task => task.job = .shutdown .entering && !task.isCancelled

theorem begins_iff : w.begins t = true ↔ t ∈ w.ready ∧ w.isFinished t = false ∧
    ∃ task : Task, w.tasks[t]? = some task ∧ task.job = .shutdown .entering ∧
      task.isCancelled = false := by
  simp [begins, and_assoc, Option.any_eq_true]

/-- A shutdown stops the manager in its first step. -/
theorem Sound.stopped_of_begins (h : w.Sound) (hb : w.begins t = true) :
    (w.act (.poll t)).Stopped ∧ w.Silent (w.act (.poll t)) := by
  obtain ⟨hready, hf, task, ht, hj, hc⟩ := begins_iff.mp hb
  have hr : ({ w with ready := w.ready.erase t } : Overlay).role? t = some .shutdown :=
    role?_eq_some.mpr ⟨task, ht, by rw [hj]; rfl⟩
  have hquiet := quiet_enterShutdown hr (h.rest t).gate
  have hstop : ({ w with ready := w.ready.erase t } : Overlay).drained.Stopped := ⟨rfl, rfl⟩
  obtain ⟨hv, hq⟩ := Turns.stopped hquiet.turns hstop
  rw [Overlay.act, if_pos hready, poll_resume ht hf hc, hj]
  exact ⟨hv, Silent.trans (.of_eq rfl) hq⟩

/-! ## Whoever comes after -/

theorem Sound.after_stopped (h : w.Sound) (hs : w.Stopped) (acts : Nat → Act) (n : Nat) :
    (w.after acts n).Stopped := by
  rw [after_eq_run]
  exact (h.run_stopped hs _).1

/-- A link that is lost is no matter for a stopped manager. -/
theorem Stopped.poll_watcher (h : w.Stopped) {r : RelayId} (hr : w.role? t = some (.watch r)) :
    (w.act (.poll t)).manager = w.manager := by
  simp only [Overlay.act]
  split
  swap
  · rfl
  obtain ⟨task, ht, hrole⟩ := role?_eq_some.mp hr
  cases hf : w.isFinished t with
  | true => rw [poll_finished hf]
  | false =>
    cases hjob : task.job with
    | watch r' =>
      cases hc : task.isCancelled with
      | true =>
        rw [poll_abandon ht hf hc, hjob]
        exact manager_finish _ _ _
      | false =>
        have hrest : ({ w with ready := w.ready.erase t } : Overlay).Stopped := h.of_eq rfl
        have hl := (hrest.lose r').1
        rw [poll_resume ht hf hc, hjob, resume, pollWatch]
        split
        · exact manager_finish _ _ _
        · split
          · rfl
          · split
            · split <;> next he =>
                rw [he] at hl
                exact (manager_finish _ _ _).trans hl
            · exact manager_finish _ _ _
    | setup | shutdown | guardAttempt | attempt | closeRelay | releaseCreator =>
      simp [hjob, Job.role] at hrole

/-- Setup `s` takes its first step: it ends as the manager is shut down, and nothing else
happens. -/
def TurnedAway (s : TaskId) (u v : Overlay) : Prop :=
  (∃ manual maxFail, u.tasks[s]? = some ⟨.setup manual maxFail .entering, none, false⟩) ∧
    u.isFinished s = false ∧
    ∃ timers, v = { u with
      ready := u.ready.erase s, exits := u.exits ++ [(s, .failed .shutDown)], timers }

theorem Stopped.turnedAway (h : w.Stopped) {s : TaskId} {manual : List PeerAddress}
    {maxFail : Nat} (ht : w.tasks[s]? = some ⟨.setup manual maxFail .entering, none, false⟩)
    (hf : w.isFinished s = false) : w.TurnedAway s (w.poll s) := by
  refine ⟨⟨manual, maxFail, ht⟩, hf, ?_⟩
  refine ⟨w.timers.filter (·.task ≠ s), ?_⟩
  rw [poll_resume ht hf rfl, resume, pollSetup, enterSetup, if_pos h.down]
  simp only [finish, parent?, ht, Option.bind_some]

/-- In a fair run, a setup that starts when the manager is stopped is turned away. -/
theorem Sound.setUp_turnedAway (h : w.Sound) (hs : w.Stopped) {manual : List PeerAddress}
    {maxFail : Nat} {acts : Nat → Act} (hfair : (w.act (.setUp manual maxFail)).Fair acts)
    (hno : ∀ n, acts n ≠ .cancel w.tasks.length) :
    ∃ n, acts n = .poll w.tasks.length ∧ TurnedAway w.tasks.length
      ((w.act (.setUp manual maxFail)).after acts n)
      ((w.act (.setUp manual maxFail)).after acts (n + 1)) := by
  have hv := h.act (.setUp manual maxFail)
  have hstop := (h.act_stopped hs (.setUp manual maxFail)).1
  generalize hx : w.act (.setUp manual maxFail) = v at hv hstop hfair ⊢
  have hself : v.tasks[w.tasks.length]? = some ⟨.setup manual maxFail .entering, none, false⟩ := by
    rw [← hx]
    exact List.getElem?_concat_length
  have hgo : v.isFinished w.tasks.length = false := by
    rw [← hx]
    exact not_isFinished_of_le h.exits (Nat.le_refl _)
  have hready : w.tasks.length ∈ v.ready := by
    rw [← hx]
    exact List.mem_append_right _ (List.mem_singleton_self _)
  have hpends : (v.after acts 0).Pends w.tasks.length (.setup manual maxFail .entering) 0 :=
    ⟨⟨_, hself, rfl⟩, hgo, .inl hready⟩
  obtain ⟨n, -, ha, hn, ⟨⟨job, parent, cancelled⟩, ht, rfl⟩, hf, -⟩ := hfair.goes hv hpends
  have hkept : ∀ m, (v.after acts m).Uncancelled
      fun a role => a = w.tasks.length ∧ role.isFirm = true := by
    intro m
    induction m with
    | zero =>
      rintro a task ha ⟨rfl, -⟩
      obtain rfl := Option.some.inj (hself.symm.trans ha)
      rfl
    | succ m ih =>
      refine ih.act (hv.after acts m) (fun _ _ hp => hp.2) ?_
      rintro b hb - role - ⟨rfl, -⟩
      exact hno m hb
  obtain ⟨task, ht', hk⟩ := (hv.grows_after acts (Nat.zero_le n)).tasks _ _ hself
  obtain rfl := Option.some.inj (ht.symm.trans ht')
  obtain rfl : cancelled = false := hkept n _ _ ht ⟨rfl, rfl⟩
  obtain rfl : parent = none := hk.parent
  refine ⟨n, ha, ?_⟩
  rw [after_poll ha hn]
  exact (hv.after_stopped hstop acts n).turnedAway ht hf

/-- From the first step of a shutdown on: the pool is empty, no channels are reserved and no
observer is told of a loss; a watcher that notices a loss leaves the manager as it is; and a setup
that starts is turned away in its first step, which changes nothing else. -/
theorem shutdown_is_final (config : RelayConfig) (mine : PeerAddress) (before : List Act)
    (t : TaskId) (h : ((start config mine).run before).begins t = true) (more : List Act) :
    let u := (start config mine).run before
    let w := (u.act (.poll t)).run more
    w.pooled = [] ∧ u.Silent w ∧
    (∀ x r, w.role? x = some (.watch r) → (w.act (.poll x)).manager = w.manager) ∧
    ∀ manual maxFail acts, (w.act (.setUp manual maxFail)).Fair acts →
      (∀ n, acts n ≠ .cancel w.tasks.length) →
      ∃ n, acts n = .poll w.tasks.length ∧ TurnedAway w.tasks.length
        ((w.act (.setUp manual maxFail)).after acts n)
        ((w.act (.setUp manual maxFail)).after acts (n + 1)) := by
  intro u w
  have hu : u.Sound := sound_run (sound_start config mine) before
  obtain ⟨hstop, hq⟩ := hu.stopped_of_begins h
  have hx := hu.act (.poll t)
  obtain ⟨hw, hq'⟩ := hx.run_stopped hstop more
  refine ⟨by simp [pooled, w, hw.pool], hq.trans hq', fun x r => hw.poll_watcher, ?_⟩
  exact fun manual maxFail acts hfair hno => (sound_run hx more).setUp_turnedAway hw hfair hno

/-- A relay is pooled and another one is on its way when the manager is shut down. -/
theorem shutdown_is_final_sample :
    let before : List Act := [.setUp [.sample 2] 0, .poll 0, .poll 1, .poll 2, .poll 1, .poll 0,
      .setUp [.sample 3] 0, .poll 4, .poll 5, .shutDown]
    let more : List Act := [.observe ⟨"observer", false, false⟩, .poll 6, .dropConn 0, .poll 3]
    let u := (start {} (.sample 1)).run before
    let w := (u.act (.poll 7)).run more
    u.pooled = [0] ∧ u.begins 7 = true ∧ w.pooled = [] ∧ u.Silent w ∧
      ∃ n, roundRobin n = .poll w.tasks.length ∧ TurnedAway w.tasks.length
        ((w.act (.setUp [.sample 4] 0)).after roundRobin n)
        ((w.act (.setUp [.sample 4] 0)).after roundRobin (n + 1)) := by
  intro before more u w
  have hb : u.begins 7 = true := by decide +kernel
  have h := shutdown_is_final {} (.sample 1) before 7 hb more
  have hs : w.Sound := sound_run ((sound_run (sound_start _ _) before).act _) more
  refine ⟨by decide +kernel, hb, h.1, h.2.1, ?_⟩
  refine h.2.2.2 [.sample 4] 0 roundRobin (fair_roundRobin (hs.act _)) fun n hn => ?_
  revert hn
  unfold roundRobin
  split <;> simp

end RelayUpkeep.Overlay
