import RelayUpkeep.Proofs.Concluding

/-! # Shutdowns with nothing to do

When the manager is stopped and has no channels, a shutdown has no parts to start. It ends when it
comes to hold the lock, and complains of nothing. -/

namespace RelayUpkeep.Overlay

variable {t s x : TaskId} {u v w : Overlay} {acts : Nat → Act} {n k m : Nat}
  {drained : List RelayId}

/-- Shutdown `t` has nothing to close. -/
def Idle (t : TaskId) (w : Overlay) : Prop :=
  ∃ task : Task, w.tasks[t]? = some task ∧
    (task.job = .shutdown .entering ∨ task.job = .shutdown (.queued []))

theorem Idle.keep (h : u.Idle t) (hk : u.Keeps v) (hg : u.Grows v) : v.Idle t := by
  obtain ⟨task, ht, hj⟩ := h
  obtain ⟨task', ht', -⟩ := hg.tasks t task ht
  obtain ⟨before, hb, hjob, -⟩ := hk t task' ht'
  obtain rfl := Option.some.inj (ht.symm.trans hb)
  exact ⟨task', ht', hjob ▸ hj⟩

theorem Emptied.shutdownParts (h : w.Emptied) : w.shutdownParts [] = [] := by
  simp [Overlay.shutdownParts, h.creator]

theorem Stopped.pooled (h : w.Stopped) : w.pooled = [] := by simp [Overlay.pooled, h.pool]

/-- When the manager is stopped and has no channels, a shutdown has nothing to close. -/
theorem Idle.act (h : w.Idle t) (hs : w.Sound) (hstop : w.Stopped) (hemp : w.Emptied) (y : Act) :
    (w.act y).Idle t := by
  obtain ⟨task, ht, hj⟩ := h
  by_cases hself : y = .poll t ∧ t ∈ w.ready
  swap
  · obtain ⟨⟨task', ht', hj'⟩, -⟩ := hs.job_act (fun he hr => hself ⟨he, hr⟩) ht
    exact ⟨task', ht', hj' ▸ hj⟩
  obtain ⟨rfl, hready⟩ := hself
  rw [Overlay.act, if_pos hready]
  have hsame : ∀ {v : Overlay}, v.tasks = w.tasks → v.Idle t := fun hv => ⟨task, hv ▸ ht, hj⟩
  cases hf : w.isFinished t with
  | true => exact hsame (by rw [poll_finished hf])
  | false =>
    cases hc : task.isCancelled with
    | true =>
      refine Idle.keep ⟨task, ht, hj⟩ ?_ (.turns (hs.poll_turns t))
      rw [poll_abandon ht hf hc]
      exact keeps_abandon _ t task.job
    | false =>
      obtain ⟨stage, hjob, hstage⟩ : ∃ stage, task.job = .shutdown stage ∧
          (stage = .entering ∨ stage = .queued []) := by
        rcases hj with hj | hj
        · exact ⟨_, hj, .inl rfl⟩
        · exact ⟨_, hj, .inr rfl⟩
      have hp := proceeds_poll ht hf hc hjob
      generalize w.poll t = v at hp
      cases hp with
      | queues manager ready =>
        refine ⟨{ task with job := .shutdown (.queued w.pooled) }, by simp [setJob, ht], .inr ?_⟩
        rw [hstop.pooled]
      | @closes _ drained _ hd hcl =>
        obtain rfl : drained = [] := by
          rcases hd with ⟨-, hd, -⟩ | ⟨hd, -⟩
          · exact hd.trans hstop.pooled
          · rcases hstage with hst | hst
            · exact absurd (hd.symm.trans hst) (by simp)
            · exact ShutdownStage.queued.inj (hd.symm.trans hst)
        obtain ⟨-, -, -, ⟨-, he, -⟩ | ⟨hne, -⟩⟩ := hcl.effect
        · exact hsame he
        · exact absurd hemp.shutdownParts hne
      | lines => exact hsame rfl
      | waits | ends => rcases hstage with hst | hst <;> exact absurd hst (by simp)

/-- A shutdown that has nothing to close starts nobody. -/
theorem Tallied.not_idle_parent (h : w.Tallied) (hi : w.Idle t) {child : Task}
    (hx : w.tasks[x]? = some child) : child.parent ≠ some t := by
  obtain ⟨task, ht, hj⟩ := hi
  intro hp
  have hmem := h t task ht (by rcases hj with hj | hj <;> rw [hj] <;> rfl) x child hx hp
  rcases hj with hj | hj <;> rw [hj] at hmem <;> exact absurd hmem (by simp [Job.parts])

theorem Sound.stopped_after (hs : w.Sound) (h : (w.after acts n).Stopped) (hnm : n ≤ m) :
    (w.after acts m).Stopped := by
  induction hnm with
  | refl => exact h
  | @step m _ ih => exact ((hs.after acts m).act_stopped ih (acts m)).1

theorem Emptied.after (h : (w.after acts n).Emptied) (hs : w.Sound) (hnm : n ≤ m) :
    (w.after acts m).Emptied := by
  induction hnm with
  | refl => exact h
  | @step m _ ih => exact ih.act (hs.after acts m) (acts m)

theorem Idle.after (h : (w.after acts n).Idle t) (hs : w.Sound)
    (hstop : (w.after acts n).Stopped) (hemp : (w.after acts n).Emptied) (hnm : n ≤ m) :
    (w.after acts m).Idle t := by
  induction hnm with
  | refl => exact h
  | @step m hm ih =>
    exact ih.act (hs.after acts m) (hs.stopped_after hstop hm) (hemp.after hs hm) (acts m)

theorem Idle.childless (h : (w.after acts n).Idle t) (hs : w.Sound)
    (hta : ∀ i, (w.after acts i).Tallied) (hstop : (w.after acts n).Stopped)
    (hemp : (w.after acts n).Emptied) (i : Nat) {child : Task}
    (hx : (w.after acts i).tasks[x]? = some child) : child.parent ≠ some t := by
  obtain ⟨child', hx', hk⟩ := (hs.grows_after acts (Nat.le_max_right n i)).tasks x child hx
  rw [← hk.parent]
  exact (hta _).not_idle_parent (h.after hs hstop hemp (Nat.le_max_left n i)) hx'

/-! ## What comes after a shutdown -/

/-- What a shutdown leaves behind that ended in its step at moment `m`: no relays, no channels, and
nothing to do for those that come later. -/
structure Rests (acts : Nat → Act) (drained : List RelayId) (m : Nat) (w : Overlay) : Prop where
  pool : ∀ i, m < i → (w.after acts i).pooled = []
  creator : ∀ i, m < i → (w.after acts i).manager.creator = none
  address : drained ≠ [] → ∀ i, m < i →
    (∀ j, m < j → j < i → (acts j).movesNode = false) → (w.after acts i).node.address.Bare
  childless : ∀ i, m < i → ∀ s, acts i = .poll s → (w.after acts i).begins s = true →
    ∀ (j : Nat) (x : TaskId) (child : Task), (w.after acts j).tasks[x]? = some child →
      child.parent ≠ some s
  done : ∀ i, m < i → ∀ s, acts i = .poll s → (w.after acts i).begins s = true →
    (∀ j, i ≤ j → acts j ≠ .cancel s) → ∃ j, (w.after acts j).exit? s = some .done

theorem Closes.done (h : u.Closes t drained v) (hp : u.shutdownParts drained = [])
    (hf : u.isFinished t = false) : v.tasks = u.tasks ∧ v.exit? t = some .done := by
  obtain ⟨-, -, -, ⟨-, htasks, hexits⟩ | ⟨hne, -⟩⟩ := h.effect
  · have hnone : u.exit? t = none := by simpa [isFinished] using hf
    refine ⟨htasks, ?_⟩
    rw [exit?_append hexits, hnone]
    simp
  · exact absurd hp hne

theorem idle_of_begins (h : w.begins t = true) : w.Idle t := by
  obtain ⟨-, -, task, ht, hj, -⟩ := begins_iff.mp h
  exact ⟨task, ht, .inl hj⟩

/-- Once the manager is stopped and has no channels, there is nothing to do for a shutdown. -/
theorem Fair.rests (h : w.Fair acts) (hs : w.Sound) (hg : w.Gated)
    (hta : ∀ i, (w.after acts i).Tallied) (hstop : (w.after acts (m + 1)).Stopped)
    (hemp : (w.after acts (m + 1)).Emptied)
    (hbare : drained ≠ [] → (w.after acts (m + 1)).node.address.Bare) :
    w.Rests acts drained m where
  pool i hi := (hs.stopped_after hstop hi).pooled
  creator i hi := (hemp.after hs hi).creator
  address hd i hi := by
    induction hi with
    | refl => exact fun _ => hbare hd
    | @step i hi ih =>
      intro hmoves
      refine (hs.after acts i).act_bare (hs.stopped_after hstop hi) ?_
        (hmoves i hi (Nat.lt_succ_self i))
      exact ih fun j hj hji => hmoves j hj (Nat.lt_succ_of_lt hji)
  childless i hi s _ hb j x child hx :=
    (idle_of_begins hb).childless hs hta (hs.stopped_after hstop hi) (hemp.after hs hi) j hx
  done i hi s hpoll hb hc := by
    obtain ⟨k, hk⟩ := h.closes hs hg hb hpoll hc
    have hik := Nat.le_trans hi hk.order
    refine ⟨k + 1, (hk.closes.done ?_ hk.going).2⟩
    rw [(hs.stopped_after hstop hi).pooled]
    exact (hemp.after hs hik).shutdownParts

end RelayUpkeep.Overlay
