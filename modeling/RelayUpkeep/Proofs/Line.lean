import RelayUpkeep.Proofs.Gate

/-! # Everyone in line has a turn

In a fair run the one who holds the lock goes on, and after two turns at most makes room for those
behind it. So whoever stays in line holds the lock some time. -/

namespace RelayUpkeep

/-- Nobody falls back when another one leaves the line. -/
theorem idxOf_erase_le {α : Type} [DecidableEq α] {a b : α} (h : a ≠ b) (l : List α) :
    (l.erase b).idxOf a ≤ l.idxOf a := by
  induction l with
  | nil => exact Nat.le_refl _
  | cons c l ih =>
    by_cases hc : c = b
    · subst hc
      rw [List.erase_cons_head, List.idxOf_cons_ne l (Ne.symm h)]
      exact Nat.le_succ _
    · rw [List.erase_cons_tail (by simpa using hc)]
      by_cases ha : c = a
      · subst ha
        simp
      · rw [List.idxOf_cons_ne _ ha, List.idxOf_cons_ne _ ha]
        exact Nat.succ_le_succ ih

namespace Overlay

variable {t a : TaskId} {u v w : Overlay} {acts : Nat → Act} {n : Nat}

/-! ## One act -/

/-- Everyone but the one who goes on keeps the lock. -/
theorem Queues.holder (h : Queues t u v) (hu : u.Lined) (ha : u.manager.gate.holder = some a)
    (hat : a ≠ t) : v.manager.gate.holder = some a := by
  cases h with
  | leaves hg ht hw =>
    have hne : u.manager.gate.holder ≠ some t := fun hh => hat (Option.some.inj (ha.symm.trans hh))
    rw [hg, FairLock.holder_leave hne, ha]
  | waits ho hl ht => exact (hu.ordered.holder_iff ho hl hat).mpr ha

/-- Nobody in line falls back. -/
theorem Queues.idxOf_le (h : Queues t u v) (hu : u.Lined) (ha : a ∈ u.manager.gate.line)
    (ha' : a ∈ v.manager.gate.line) :
    v.manager.gate.line.idxOf a ≤ u.manager.gate.line.idxOf a := by
  cases h with
  | leaves hg ht hw =>
    rw [hg, FairLock.line_leave] at ha' ⊢
    refine idxOf_erase_le ?_ _
    rintro rfl
    exact hu.once.not_mem_erase ha'
  | waits ho hl ht =>
    rcases hl with ⟨-, hl⟩ | ⟨-, hl⟩ <;> rw [hl]
    rw [List.idxOf_append_of_mem ha]

theorem Gated.holder_act (h : w.Gated) (hs : w.Sound) (ha : w.manager.gate.holder = some a)
    {x : Act} (hx : x = .poll a → a ∉ w.ready) : (w.act x).manager.gate.holder = some a := by
  rcases w.poll_cases x with ⟨t, ht, rfl, he⟩ | ⟨t, -, rfl, he⟩ | hp
  · rw [he]
    refine (h.queues_poll hs ht).holder h.toLined ha ?_
    rintro rfl
    exact hx rfl ht
  · rwa [he]
  · rw [gate_act hp, ha]

theorem Gated.idxOf_act (h : w.Gated) (hs : w.Sound) (ha : a ∈ w.manager.gate.line) (x : Act)
    (ha' : a ∈ (w.act x).manager.gate.line) :
    (w.act x).manager.gate.line.idxOf a ≤ w.manager.gate.line.idxOf a := by
  rcases w.poll_cases x with ⟨t, ht, rfl, he⟩ | ⟨t, -, rfl, he⟩ | hp
  · rw [he] at ha' ⊢
    exact (h.queues_poll hs ht).idxOf_le h.toLined ha ha'
  · rw [he]
  · rw [gate_act hp]

/-! ## The one who holds the lock -/

/-- Whoever waits for channels passes the lock on when it goes on. -/
theorem Doing.aloof_poll (h : w.Doing Job.isReserving a) : (w.poll a).Aloof a := by
  obtain ⟨hf, task, ht, hp⟩ := h
  obtain ⟨manual, maxFail, o, hj⟩ : ∃ manual maxFail o,
      task.job = .setup manual maxFail (.reserving o) := by
    cases hj : task.job with
    | setup manual maxFail stage =>
      cases stage with
      | reserving o => exact ⟨manual, maxFail, o, rfl⟩
      | _ => exact absurd hp (by simp [hj, Job.isReserving])
    | _ => exact absurd hp (by simp [hj, Job.isReserving])
  cases hc : task.isCancelled with
  | true =>
    rw [poll_abandon ht hf hc]
    exact aloof_finish _ _ _
  | false =>
    rw [poll_resume ht hf hc, hj]
    refine (passes_reserved (w := { w with ready := w.ready.erase a }) ?_ o).aloof
    exact role?_eq_some.mpr ⟨task, ht, by rw [hj]; rfl⟩

/-- The one who holds the lock makes room, or comes to wait for channels. -/
theorem Gated.holder_poll (h : w.Gated) (hs : w.Sound) (ha : w.manager.gate.holder = some a)
    (hr : a ∈ w.ready) :
    (w.poll a).manager.gate.line = w.manager.gate.line.erase a ∨
      ¬w.Doing Job.isReserving a ∧ (w.poll a).Doing Job.isReserving a ∧
        (w.poll a).manager.gate.holder = some a ∧
        (w.poll a).manager.gate.line = w.manager.gate.line := by
  have hq := h.queues_poll hs hr
  cases hq with
  | leaves hg => exact .inl (by rw [hg, FairLock.line_leave])
  | waits ho hl ht =>
    have hline := (hl.resolve_right fun hn => hn.1 (h.mem_of_holder ha)).2
    have hh : (w.poll a).manager.gate.holder = some a := by
      rw [← ho.head_line, hline, h.ordered.head_line, ha]
    rcases ht with ⟨-, hn⟩ | ⟨hd, -, -⟩
    · exact absurd hh hn
    · exact .inr ⟨fun hu => hu.aloof_poll.2 hd, hd, hh, hline⟩

/-- In a fair run the one who holds the lock goes on, and still holds it then. -/
theorem Fair.holder_goes (h : w.Fair acts) (hs : w.Sound) (hg : w.Gated)
    (ha : (w.after acts n).manager.gate.holder = some a) :
    ∃ m, n ≤ m ∧ acts m = .poll a ∧ a ∈ (w.after acts m).ready ∧
      (w.after acts m).manager.gate.holder = some a ∧
      ((w.after acts n).Doing Job.isReserving a → (w.after acts m).Doing Job.isReserving a) := by
  have hgn := hg.after hs acts n
  obtain ⟨due, hw⟩ := hgn.goes a ha
  obtain ⟨hf, task, ht⟩ : (w.after acts n).isFinished a = false ∧
      ∃ task : Task, (w.after acts n).tasks[a]? = some task := by
    rcases (hgn.line a).mp (hgn.mem_of_holder ha) with ⟨hf, task, ht, -⟩ | ⟨hf, task, ht, -⟩ <;>
      exact ⟨hf, task, ht⟩
  have hp : (w.after acts n).Pends a task.job due := ⟨⟨task, ht, rfl⟩, hf, hw⟩
  obtain ⟨m, hm, hpoll, hready, hpm, hhm, -⟩ := h.goes_first hs hp
    (P := fun v => v.manager.gate.holder = some a) ha
    fun k _ hk hno => (hg.after hs acts k).holder_act (hs.after acts k) hk hno
  refine ⟨m, hm, hpoll, hready, hhm, ?_⟩
  rintro ⟨-, task', ht', hp⟩
  obtain rfl := Option.some.inj (ht.symm.trans ht')
  obtain ⟨task'', ht'', hj⟩ := hpm.task
  exact ⟨hpm.going, task'', ht'', hj ▸ hp⟩

/-- In a fair run the one who holds the lock makes room. -/
theorem Fair.holder_leaves (h : w.Fair acts) (hs : w.Sound) (hg : w.Gated)
    (ha : (w.after acts n).manager.gate.holder = some a) :
    ∃ m, n ≤ m ∧ (w.after acts m).manager.gate.holder = some a ∧
      (w.after acts (m + 1)).manager.gate.line = (w.after acts m).manager.gate.line.erase a := by
  obtain ⟨m, hm, hpoll, hready, hhm, -⟩ := h.holder_goes hs hg ha
  have hnext := after_poll hpoll hready
  rcases (hg.after hs acts m).holder_poll (hs.after acts m) hhm hready with hl | ⟨-, hd, hh, -⟩
  · exact ⟨m, hm, hhm, hnext ▸ hl⟩
  -- it waits for channels, and makes room when it goes on once more
  rw [← hnext] at hd hh
  obtain ⟨k, hk, hpollk, hreadyk, hhk, hdk⟩ := h.holder_goes hs hg hh
  have hle := Nat.le_trans (Nat.le_succ_of_le hm) hk
  rcases (hg.after hs acts k).holder_poll (hs.after acts k) hhk hreadyk with hl | ⟨hn, -⟩
  · exact ⟨k, hle, hhk, after_poll hpollk hreadyk ▸ hl⟩
  · exact absurd (hdk hd) hn

/-! ## Everyone else -/

theorem Gated.idxOf_after (hg : w.Gated) (hs : w.Sound) {m : Nat} (hnm : n ≤ m)
    (hstay : ∀ m, n ≤ m → t ∈ (w.after acts m).manager.gate.line) :
    (w.after acts m).manager.gate.line.idxOf t ≤ (w.after acts n).manager.gate.line.idxOf t := by
  induction hnm with
  | refl => exact Nat.le_refl _
  | @step m hm ih =>
    refine Nat.le_trans ?_ ih
    exact (hg.after hs acts m).idxOf_act (hs.after acts m) (hstay m hm) (acts m)
      (hstay (m + 1) (Nat.le_succ_of_le hm))

/-- In a fair run, whoever stays in line holds the lock some time. -/
theorem Fair.holds (h : w.Fair acts) (hs : w.Sound) (hg : w.Gated)
    (hstay : ∀ m, n ≤ m → t ∈ (w.after acts m).manager.gate.line) :
    ∃ m, n ≤ m ∧ (w.after acts m).manager.gate.holder = some t := by
  induction hi : (w.after acts n).manager.gate.line.idxOf t using Nat.strong_induction_on
    generalizing n with
  | _ i ih =>
    have hln := (hg.after hs acts n).toLined
    have ht := hstay n (Nat.le_refl n)
    obtain ⟨a, l, hline⟩ := List.exists_cons_of_ne_nil (List.ne_nil_of_mem ht)
    have ha : (w.after acts n).manager.gate.holder = some a := by
      rw [← hln.ordered.head_line, hline]
      rfl
    by_cases hat : a = t
    · exact ⟨n, Nat.le_refl n, hat ▸ ha⟩
    obtain ⟨m, hm, hhm, hl⟩ := h.holder_leaves hs hg ha
    -- the line without its head is shorter
    have hlm := (hg.after hs acts m).toLined
    have hlt : (w.after acts (m + 1)).manager.gate.line.idxOf t <
        (w.after acts m).manager.gate.line.idxOf t := by
      rw [← hlm.ordered.head_line] at hhm
      obtain ⟨l', hl'⟩ := List.head?_eq_some_iff.mp hhm
      rw [hl, hl', List.erase_cons_head, List.idxOf_cons_ne _ hat]
      exact Nat.lt_succ_self _
    have hle := hg.idxOf_after hs hm hstay
    obtain ⟨k, hk, hhk⟩ := ih _ (hi ▸ Nat.lt_of_lt_of_le hlt hle)
      (fun k hk => hstay k (Nat.le_trans (Nat.le_succ_of_le hm) hk)) rfl
    exact ⟨k, Nat.le_trans (Nat.le_succ_of_le hm) hk, hhk⟩

end Overlay

end RelayUpkeep
