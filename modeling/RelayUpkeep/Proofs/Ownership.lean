import RelayUpkeep.Proofs.Keeping
import RelayUpkeep.Proofs.Partings

/-! # No connection is left alone

A relay that keeps its connection is in the pool until its loss is noticed or a shutdown drains the
pool, and then that shutdown closes it. So as long as nobody gives a shutdown up, each connection
that is established is kept in the pool or taken care of by someone else, in whatever order setups
and shutdowns go on. -/

namespace RelayUpkeep.Overlay

variable {t s : TaskId} {r : RelayId} {c : ConnId} {u v w : Overlay} {relay : Relay} {x : Act}
  {job : Job}

/-! ## Relays that leave the pool -/

theorem Move.pooled_or_lost (h : Move t u v) (hs : u.role? t ≠ some .shutdown) (hp : r ∈ u.pooled) :
    r ∈ v.pooled ∨ v.isLost r = true := by
  have hsame : v.manager.pool = u.manager.pool → r ∈ v.pooled := fun he => by
    rwa [Overlay.pooled, he]
  cases h with
  | stir h => exact .inl (hsame h.pool)
  | publish => exact .inl hp
  | @accept x r' p q hr hm ha =>
    rw [Overlay.pooled, admitted_pool, hm.manager, List.map_append]
    exact .inl (List.mem_append_left _ hp)
  | refuse hr hm => exact .inl (hsame (by simp [refused, log, hm.manager]))
  | shut r' => exact .inl (hsame (by simp))
  | lose r' =>
    by_cases hc : (u.lose r').1.manager.pool = u.manager.pool
    · exact .inl (hsame hc)
    · obtain ⟨-, hlost, hpool⟩ := isLost_lose hc
      by_cases hrr : r = r'
      · exact .inr (hrr ▸ hlost)
      · rw [Overlay.pooled, hpool, remove_relays]
        exact .inl ((List.mem_erase_of_ne hrr).mpr hp)
  | drain hr => exact absurd hr hs

/-- A relay leaves the pool if its loss is noticed, unless a shutdown drains the pool. -/
theorem Turns.pooled_or_lost (h : Turns t u v) (hlt : t < u.tasks.length)
    (hs : u.role? t ≠ some .shutdown) (hp : r ∈ u.pooled) : r ∈ v.pooled ∨ v.isLost r = true := by
  refine h.keep (P := fun x => r ∈ x.pooled ∨ x.isLost r = true) hlt (.inl hp)
    (fun x y hx hrole hm => ?_) fun x e hx => ?_
  · exact hx.elim (hm.pooled_or_lost (hrole ▸ hs)) fun hl => .inr ((Grows.move hm).isLost hl)
  · rw [Overlay.pooled, manager_finish]
    exact hx.imp id (Grows.finish x t e).isLost

theorem Quiet.pooled (h : Quiet t u v) : v.pooled = u.pooled := by
  obtain ⟨x, hx, rfl | ⟨e, rfl⟩⟩ := h
  · rw [Overlay.pooled, (Calm.stirs hx).pool, Overlay.pooled]
  · rw [Overlay.pooled, manager_finish, (Calm.stirs hx).pool, Overlay.pooled]

/-- A shutdown that goes on takes its first step, unless the pool is empty. -/
theorem Heralded.begins_of_pooled (h : w.Heralded) (hp : r ∈ w.pooled)
    (hg : w.going? t = some job) (hr : job.role = .shutdown) : w.begins t = true := by
  obtain ⟨hready, hf, task, ht, hc, rfl⟩ := going?_eq_some.mp hg
  have hidle : task.job.isClosing = false := by
    by_contra hclosing
    have hstop := h t (.inl ⟨hf, task, ht, by simpa using hclosing⟩)
    exact absurd hp (by simp [Overlay.pooled, hstop.pool])
  refine begins_iff.mpr ⟨hready, hf, task, ht, ?_, hc⟩
  generalize task.job = job at hr hidle
  cases job with
  | shutdown stage =>
    cases stage with
    | entering => rfl
    | queued | closing => exact absurd hidle (by simp [Job.isClosing])
  | setup | guardAttempt | attempt | watch | closeRelay | releaseCreator =>
    exact absurd hr (by simp [Job.role])

/-- A pooled relay stays so unless its loss is noticed or a shutdown begins. -/
theorem Sound.pooled_act (h : w.Sound) (hh : w.Heralded) (hp : r ∈ w.pooled) (x : Act) :
    r ∈ (w.act x).pooled ∨ (w.act x).isLost r = true ∨ ∃ t, x = .poll t ∧ w.begins t = true := by
  rcases act_cases w x with hpoll | ⟨t, rfl, hg | ⟨job, hg⟩⟩
  · refine .inl ?_
    rwa [Overlay.pooled, (quiet_act hpoll).1]
  · refine .inl ?_
    rcases h.act_of_not_going hg with he | he | ⟨task, ht, -, -, he⟩ <;> rw [he]
    · exact hp
    · exact hp
    · have hq : Quiet t { w with ready := w.ready.erase t }
          (({ w with ready := w.ready.erase t } : Overlay).abandon t task.job) :=
        quiet_abandon (role?_eq_some.mpr ⟨task, ht, rfl⟩) h.gate (h.refers t task ht)
      rw [hq.pooled]
      exact hp
  · by_cases hr : job.role = .shutdown
    · exact .inr (.inr ⟨t, rfl, hh.begins_of_pooled hp hg hr⟩)
    · have hready := (going?_eq_some.mp hg).1
      rw [Overlay.act, if_pos hready, ← or_assoc]
      refine .inl ((h.poll_turns t).pooled_or_lost (h.ready t hready) ?_ hp)
      rw [role?_of_going hg]
      exact fun he => hr (Option.some.inj he)

/-! ## Relays that are sheltered -/

/-- Relay `r` is in the pool, or a shutdown is to close it, or it is closed. -/
def Sheltered (r : RelayId) (w : Overlay) : Prop := r ∈ w.pooled ∨ w.Owed (.close r)

theorem Homed.sheltered (h : w.Homed r) : w.Sheltered r := h.imp id .carried

theorem Homed.tidy (h : w.Homed r) (ht : w.Tidied) : w.Tidy r := h.elim (ht r) Closed.tidy

theorem closed_of_isLost (h : w.isLost r = true) : w.Closed r := by
  obtain ⟨relay, b, hr, hs⟩ := isLost_iff.mp h
  exact ⟨relay, hr, .inl ⟨b, hs⟩⟩

/-- All is in order, and every relay is sheltered. -/
structure Sheltering (w : Overlay) : Prop where
  orderly : w.Orderly
  heralded : w.Heralded
  tidy : ∀ r < w.relays.length, w.Tidy r
  sheltered : ∀ r < w.relays.length, w.Sheltered r

theorem sheltering_start (config : RelayConfig) (mine : PeerAddress) :
    (start config mine).Sheltering where
  orderly := orderly_start config mine
  heralded := heralded_start config mine
  tidy _ h := absurd h (Nat.not_lt_zero _)
  sheltered _ h := absurd h (Nat.not_lt_zero _)

theorem Sheltering.sheltered_act (h : w.Sheltering) (hx : w.givesUp x = false)
    (hlt : r < w.relays.length) : (w.act x).Sheltered r := by
  rcases h.sheltered r hlt with hp | howed
  · rcases h.orderly.sound.pooled_act h.heralded hp x with hin | hlost | ⟨t, rfl, hb⟩
    · exact .inl hin
    · exact .inr (.carried (closed_of_isLost hlost))
    · exact .inr ((h.orderly.begins hb).2 r hp)
  · refine .inr (howed.act h.orderly (fun r' he => ?_) hx)
    obtain rfl := Role.close.inj he
    exact ⟨hlt, h.tidy _ hlt⟩

theorem Sheltering.act (h : w.Sheltering) (hx : w.givesUp x = false) : (w.act x).Sheltering := by
  have hs := h.orderly.sound
  have ho := h.orderly.act hx
  have hnew : ∀ r, ¬r < w.relays.length → r < (w.act x).relays.length → (w.act x).Homed r :=
    fun r hold hlt => (hs.makes_act x).homed (Nat.le_of_not_lt hold) hlt
  refine ⟨ho, h.heralded.act hs x, fun r hlt => ?_, fun r hlt => ?_⟩ <;>
    by_cases hold : r < w.relays.length
  · exact (h.tidy r hold).act hs hold x
  · exact (hnew r hold hlt).tidy ho.tidied
  · exact h.sheltered_act hx hold
  · exact (hnew r hold hlt).sheltered

/-! ## Connections that are owned -/

/-- Shutdown `s` is under way and has drained relay `r`. -/
def Drains (s : TaskId) (r : RelayId) (w : Overlay) : Prop :=
  w.isFinished s = false ∧ ∃ task, w.tasks[s]? = some task ∧
    ((∃ drained, task.job = .shutdown (.queued drained) ∧ r ∈ drained) ∨
      ∃ hadRelays parts a, task.job = .shutdown (.closing hadRelays parts) ∧ a ∈ parts ∧
        w.Plays a (.close r) (some s))

/-- A pooled relay keeps connection `c`, it was closed, its loss was noticed, or a shutdown that is
under way has drained its relay. -/
inductive Owned (w : Overlay) (c : ConnId) : Prop
  | pooled {r : RelayId} {relay : Relay} (hr : w.relays[r]? = some relay)
      (hc : relay.conn = some c) (hp : r ∈ w.pooled) : Owned w c
  | closed (h : w.HasClosed c) : Owned w c
  | lost {r : RelayId} {relay : Relay} {notified : Bool} (hr : w.relays[r]? = some relay)
      (hc : relay.conn = some c) (hs : relay.signal = .lost notified) : Owned w c
  | drained {r : RelayId} {relay : Relay} {s : TaskId} (hr : w.relays[r]? = some relay)
      (hc : relay.conn = some c) (hd : w.Drains s r) : Owned w c

theorem Sheltered.owned (h : w.Sheltered r) (hr : w.relays[r]? = some relay)
    (hc : relay.conn = some c) : w.Owned c := by
  rcases h with hp | howed
  · exact .pooled hr hc hp
  cases howed with
  | @queued s drained _ hq hd =>
    obtain ⟨task, ht, hj⟩ := hq.task
    exact .drained hr hc ⟨hq.going, task, ht, .inl ⟨drained, hj, hd⟩⟩
  | @handled s a _ hh =>
    obtain ⟨hadRelays, parts, htend, ha⟩ := hh.tending
    obtain ⟨task, ht, hj⟩ := htend.task
    exact .drained hr hc ⟨hh.going, task, ht, .inr ⟨hadRelays, parts, a, hj, ha, hh.plays⟩⟩
  | carried hclosed =>
    obtain ⟨relay', hr', hend⟩ := hclosed
    obtain rfl := Option.some.inj (hr.symm.trans hr')
    rcases hend with ⟨b, hl⟩ | ⟨-, hall⟩
    · exact .lost hr hc hl
    · exact .closed (hall c hc)

theorem sheltering_run (config : RelayConfig) (mine : PeerAddress) {acts : List Act}
    (ha : (start config mine).Along (fun w x => w.givesUp x = false) acts) :
    ((start config mine).run acts).Sheltering :=
  run_induction (sheltering_start config mine) (fun _ _ h hx => h.act hx) acts ha

/-- As long as nobody gives a shutdown up: from when it is established on, a connection is kept by a
pooled relay, or was closed, or its loss was noticed, or a shutdown that is under way has drained its
relay. Where relays keep no connections it was closed once, before any offer that came after it. -/
theorem connections_accounted_for (config : RelayConfig) (mine : PeerAddress) (acts : List Act)
    (ha : (start config mine).Along (fun w x => w.givesUp x = false) acts) (c : ConnId) (i : Nat)
    (h : (start config mine).EstablishedAt acts c i) :
    let w := (start config mine).run acts
    (config.kind = .openTcp → w.Owned c) ∧
    (config.kind = .push →
      w.PartedFirst c ((start config mine).run (acts.take i)).journal.length) := by
  intro w
  refine ⟨fun hk => ?_, fun hk => parted_first hk mine h⟩
  obtain ⟨x, hx, he⟩ := h
  have hu := sound_run (sound_start config mine) (acts.take i)
  have hkind : ((start config mine).run (acts.take i)).manager.config.kind = .openTcp := by
    rw [(grows_run (sound_start config mine) (acts.take i)).config]
    exact hk
  obtain ⟨relay, hr, hc⟩ := (he ▸ hu.makes_act x).kept hkind
  obtain ⟨relay', hr', hg⟩ := (grows_run (hu.act x) (acts.drop (i + 1))).relays _ relay hr
  rw [← run_at hx] at hr'
  have hlt := (List.getElem?_eq_some_iff.mp hr').1
  exact ((sheltering_run config mine ha).sheltered _ hlt).owned hr' (hg.conn.trans hc)

/-- The closing of the connection fails. A relay that keeps it is in the hands of a shutdown at the
end, and where relays keep none it was closed before the relay was offered. -/
theorem connections_accounted_for_sample :
    let acts : List Act := [.behave [.sample 2] ⟨{}, {}, ⟨0, .fail .shutDown⟩, false, none⟩,
      .setUp [.sample 2] 0, .poll 0, .poll 1, .poll 2, .poll 1, .poll 0, .shutDown, .poll 4]
    let before := (start { kind := .push } (.sample 1)).run (acts.take 4)
    ((start {} (.sample 1)).run acts).Owned 0 ∧
      ((start { kind := .push } (.sample 1)).run acts).PartedFirst 0 before.journal.length := by
  intro acts
  dsimp only
  have h := connections_accounted_for {} (.sample 1) acts (by decide +kernel) 0 4
    ⟨.poll 2, rfl, by decide +kernel⟩
  have h' := connections_accounted_for { kind := .push } (.sample 1) acts (by decide +kernel) 0 4
    ⟨.poll 2, rfl, by decide +kernel⟩
  exact ⟨h.1 rfl, h'.2 rfl⟩

end RelayUpkeep.Overlay
