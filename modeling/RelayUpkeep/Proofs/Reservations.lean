import RelayUpkeep.Proofs.ReservationCourse

/-! # One reservation for all setups

One setup at a time asks for channels, until some are granted. From then on every setup uses these,
and nobody asks again; a shutdown that has the lock takes them, and has them released once. -/

namespace RelayUpkeep.Overlay

variable {t s : TaskId} {w : Overlay} {manual : List PeerAddress} {maxFail : Nat}
  {stage : SetupStage} {k : CreatorId} {drained : List RelayId} {y : Act}

/-! ## Fair runs -/

section Fair

variable {acts : Nat → Act} {n : Nat}

theorem stands_after (hr : w.Regular) (h : w.Stands) (acts : Nat → Act) (n : Nat) :
    (w.after acts n).Regular ∧ (w.after acts n).Stands := by
  induction n with
  | zero => exact ⟨hr, h⟩
  | succ n ih => exact ⟨ih.1.act _, ih.2.act ih.1 _⟩

/-- A shutdown that is not given up comes to have the lock. -/
theorem Fair.obtains (h : w.Fair acts) (hr : w.Regular) (hn : acts n = .poll s)
    (hb : (w.after acts n).begins s = true) (hc : ∀ i, n ≤ i → acts i ≠ .cancel s) :
    ∃ m drained, n ≤ m ∧ acts m = .poll s ∧ (w.after acts m).Obtains s drained := by
  obtain ⟨m, hm⟩ := h.closes hr.sound hr.gated hb hn hc
  have hlined := (hr.gated.after hr.sound acts m).toLined
  refine ⟨m, (w.after acts n).pooled, hm.order, hm.turn, ?_⟩
  rcases Nat.eq_or_lt_of_le hm.order with rfl | hlt
  · obtain ⟨hready, hf, task, ht, hj, hcancel⟩ := begins_iff.mp hb
    refine .inl ⟨going?_eq_some.mpr ⟨hready, hf, task, ht, hcancel, hj⟩, rfl, ?_⟩
    by_contra hheld
    obtain ⟨a, ha⟩ := Option.ne_none_iff_exists'.mp hheld
    obtain rfl := hm.lock a ha
    rcases (hlined.line a).mp (hlined.mem_of_holder ha) with ⟨-, task', ht', hd⟩ | ⟨-, task', ht', hd⟩
    all_goals
      obtain rfl := Option.some.inj (ht.symm.trans ht')
      exact absurd hd (by simp [hj, Job.isQueued, Job.isReserving])
  · have hq := hm.queueing m hlt (Nat.le_refl m)
    obtain ⟨task, ht, hj⟩ := hq.task
    refine .inr ⟨going?_eq_some.mpr ⟨hm.ready, hq.going, task, ht, hm.steady.task ht, hj⟩, ?_⟩
    have hmem := hq.mem_line hlined
    cases hholder : (w.after acts m).manager.gate.holder with
    | none =>
      rw [FairLock.line, hholder, hlined.ordered hholder] at hmem
      exact absurd hmem List.not_mem_nil
    | some a => rw [hm.lock a hholder]

theorem Obtains.closesAt (h : (w.after acts n).Obtains s drained) (hn : acts n = .poll s) :
    w.ClosesAt acts s drained n n := by
  obtain ⟨stage, hg⟩ := h.going
  obtain ⟨hready, hf, task, ht, hc, -⟩ := going?_eq_some.mp hg
  have hcl := h.closes
  rw [← hn] at hcl
  refine ⟨Nat.le_refl n, hn, hready, hf, ?_, fun a ha => ?_, hcl,
    fun i hi hi' => absurd hi (Nat.not_lt.mpr hi'),
    fun i hi hi' => absurd (Nat.lt_trans hi hi') (Nat.lt_irrefl _),
    fun hlt => absurd hlt (Nat.lt_irrefl _)⟩
  · rintro a task' ht' rfl
    obtain rfl := Option.some.inj (ht.symm.trans ht')
    exact hc
  · rcases h with ⟨-, -, hfree⟩ | ⟨-, hh⟩
    · exact absurd (ha.symm.trans hfree) (by simp)
    · exact Option.some.inj (ha.symm.trans hh)

/-- The channels that a shutdown finds stored are released once, unless it is given up. -/
theorem Fair.released (h : w.Fair acts) (hr : w.Regular) (hs : w.Stands) (hn : acts n = .poll s)
    (hob : (w.after acts n).Obtains s drained) (hk : (w.after acts n).manager.creator = some k)
    (hc : ∀ i, n ≤ i → acts i ≠ .cancel s) :
    ∃ m, ∀ i, m ≤ i → (w.after acts i).requests.count (.release k) = 1 := by
  have hparts := h.parts_carried hr.sound (hob.closesAt hn) hc
  rw [roles_shutdownParts, hk] at hparts
  obtain ⟨x, -, -, j, -, hcarries⟩ := exists_zip_of_mem hparts.flip
    (List.mem_append_right _ (List.mem_singleton.mpr rfl))
  refine ⟨j + 1, fun i hi => Nat.le_antisymm ((stands_after hr hs acts i).2.count_release_le k) ?_⟩
  have hmade : (w.after acts (j + 1)).Carried (.release k) :=
    ⟨⟨(w.after acts j).clock, .release k⟩, by rw [hcarries.calls]; simp [call?, entries], rfl⟩
  obtain ⟨e, he, hevent⟩ := hmade.mono (hr.sound.grows_after acts hi)
  refine List.count_pos_iff.mpr ?_
  exact hevent ▸ mem_requests_of_journal he (by rw [hevent]; rfl)

end Fair

/-! ## Whole runs -/

/-- Setups share one reservation of channels. -/
structure ReservesOnce (w : Overlay) : Prop where
  single : ∀ s t, w.Doing Job.isReserving s → w.Doing Job.isReserving t → s = t
  alone : ∀ y t least greatest, .reserve t least greatest ∈ w.requested y →
    ∀ s, ¬w.Doing Job.isReserving s
  course : (∀ e ∈ w.requests, e.isReserve = true) ∨
    ∃ k asked used, w.requests = asked ++ .granted k :: used ∧ (∀ e ∈ asked, e.isReserve = true) ∧
      (∀ e ∈ used, e.isUse = true ∨ e = .release k) ∧ w.requests.count (.release k) ≤ 1
  reuses : ∀ t manual maxFail stage, w.going? t = some (.setup manual maxFail stage) →
    w.seizes t stage = true → w.manager.creator ≠ none →
    w.collects t = true ∧ ∀ e ∈ w.requested (.poll t), e.isReserve = false
  retries : ∀ t manual maxFail stage, w.going? t = some (.setup manual maxFail stage) →
    w.seizes t stage = true → w.manager.creator = none → w.manager.isShutDown = false →
    .reserve t 0 w.manager.config.maxRelays ∈ w.requested (.poll t)
  stores : ∀ y k, .granted k ∈ w.requested y → (w.act y).manager.creator = some k
  empties : ∀ y, w.manager.creator = none → (∀ k, .granted k ∉ w.requested y) →
    (w.act y).manager.creator = none
  frees : (∀ t, w.isFinished t = true → t ∉ w.manager.gate.line) ∧
    (w.manager.gate.holder = none → w.manager.gate.waiting = [])
  keeps : ∀ y k, w.manager.creator = some k → (w.act y).manager.creator = some k ∨
    ∃ s drained, y = .poll s ∧ w.Obtains s drained
  takes : ∀ s drained k, w.Obtains s drained → w.manager.creator = some k →
    (w.act (.poll s)).manager.creator = none ∧
      (w.act (.poll s)).Plays (w.tasks.length + drained.length) (.release k) (some s)

/-- A setup that seizes the lock is the only one that may ask for channels. -/
theorem Lined.alone (h : w.Lined) (hg : w.going? t = some (.setup manual maxFail stage))
    (hseize : w.seizes t stage = true) (s : TaskId) : ¬w.Doing Job.isReserving s := by
  intro hd
  have hholder := h.reserving s hd
  cases stage with
  | entering => simp [seizes, hholder] at hseize
  | queued =>
    obtain rfl : s = t := by simpa [seizes, hholder] using hseize
    obtain ⟨-, task, ht, hj⟩ := hd
    obtain ⟨-, -, task', ht', -, hj'⟩ := going?_eq_some.mp hg
    obtain rfl := Option.some.inj (ht.symm.trans ht')
    exact absurd hj (by simp [hj', Job.isReserving])
  | reserving | settling => exact absurd hseize (by simp [seizes])

theorem seizes_of_asks (h : w.asks t stage = true) :
    w.seizes t stage = true ∧ w.manager.creator = none := by
  simp only [asks, Bool.and_eq_true] at h
  exact ⟨h.1.1, by simpa using h.1.2⟩

/-- Only a setup asks for channels, and only when it seizes the lock and none are stored. -/
theorem asks_of_reserve_mem {e : Event} (he : e ∈ w.requested y) (hr : e.isReserve = true) :
    ∃ t manual maxFail stage, w.going? t = some (.setup manual maxFail stage) ∧
      w.asks t stage = true := by
  rcases mem_requested_cases he with ⟨t, manual, maxFail, stage, -, hg, he⟩ | ⟨_, _, _, _, rfl⟩ |
    ⟨_, _, _, _, rfl⟩
  · rcases mem_inquiries.mp he with ⟨_, ha⟩ | ⟨rfl, _⟩ | ⟨rfl, _⟩
    · exact ⟨t, manual, maxFail, stage, hg, ha⟩
    · exact absurd hr (by simp [Event.isReserve])
    · exact absurd hr (by simp [Event.isReserve])
  · exact absurd hr (by simp [Event.isReserve])
  · exact absurd hr (by simp [Event.isReserve])

/-- Channels are granted to a setup that hears so. -/
theorem hears_of_granted_mem (he : .granted k ∈ w.requested y) : k = w.granted ∧
    ∃ t manual maxFail stage, y = .poll t ∧ w.going? t = some (.setup manual maxFail stage) ∧
      w.hears? t stage = some .succeed := by
  rcases mem_requested_cases he with ⟨t, manual, maxFail, stage, hy, hg, he⟩ | ⟨_, _, _, _, he⟩ |
    ⟨_, _, _, _, he⟩
  · rcases mem_inquiries.mp he with ⟨he, -⟩ | ⟨he, hh⟩ | ⟨he, -⟩
    · exact absurd he (by simp)
    · exact ⟨Event.granted.inj he, t, manual, maxFail, stage, hy, hg, hh⟩
    · exact absurd he (by simp)
  · exact absurd he (by simp)
  · exact absurd he (by simp)

theorem Stands.reservesOnce (h : w.Stands) (hr : w.Regular) : w.ReservesOnce where
  single s t hs ht := Option.some.inj
    ((hr.gated.reserving s hs).symm.trans (hr.gated.reserving t ht))
  alone y t least greatest he := by
    obtain ⟨t', manual, maxFail, stage, hg, hasks⟩ := asks_of_reserve_mem he rfl
    exact hr.gated.alone hg (seizes_of_asks hasks).1
  course := h.course
  reuses t manual maxFail stage hg hseize hc := by
    obtain ⟨k, hk⟩ := Option.ne_none_iff_exists'.mp hc
    refine ⟨collects_eq_true.mpr ⟨_, _, stage, hg, by simp [supplied, hseize, hk]⟩, fun e he => ?_⟩
    by_contra hres
    obtain ⟨t', _, _, stage', -, hasks⟩ := asks_of_reserve_mem he (by simpa using hres)
    exact hc (seizes_of_asks hasks).2
  retries t manual maxFail stage hg hseize hc hup :=
    mem_requested.mpr ⟨t, _, rfl, hg, mem_inquiries.mpr (.inl ⟨rfl, by simp [asks, hseize, hc, hup]⟩)⟩
  stores y k he := by
    obtain ⟨rfl, t, manual, maxFail, stage, rfl, hg, hh⟩ := hears_of_granted_mem he
    rw [creator_setup hg, if_pos hh]
  empties y hc hno := by
    rcases hr.sound.creator_act_cases y with he | ⟨t, manual, maxFail, stage, rfl, hg, hh, -⟩ |
      ⟨-, -, -, -, he⟩
    · rw [he, hc]
    · exact absurd (mem_requested.mpr ⟨t, _, rfl, hg, mem_inquiries.mpr (.inr (.inl ⟨rfl, hh⟩))⟩)
        (hno w.granted)
    · exact he
  frees := ⟨fun t hf => hr.gated.not_mem_line (aloof_of_isFinished hf), hr.gated.ordered⟩
  keeps y k hk := by
    rcases hr.sound.creator_act_cases y with he | ⟨t, manual, maxFail, stage, -, hg, hh, -⟩ |
      ⟨s, drained, hy, hob, -⟩
    · exact .inl (he.trans hk)
    · exact absurd (hk.symm.trans (hr.thrifty.creator_of_hears hg hh)) (by simp)
    · exact .inr ⟨s, drained, hy, hob⟩
  takes s drained k hob hk := ⟨hob.closes.effect.2.2.1, hob.plays_release hr.sound hk⟩

/-- Setups ask for channels one at a time. Once some are granted nobody asks again, every setup uses
them, and no candidate was tried before; a reservation that fails, crashes or is given up leaves
nothing behind but the lock to whoever waits for it. The first shutdown that has the lock takes the
channels. Unless it is given up they are released exactly once. -/
theorem channels_reserved_once (config : RelayConfig) (mine : PeerAddress) (before : List Act) :
    let w := (start config mine).run before
    w.ReservesOnce ∧ ∀ (acts : Nat → Act) (n : Nat) (s : TaskId), w.Fair acts → acts n = .poll s →
      (∀ i, n ≤ i → acts i ≠ .cancel s) →
      ((w.after acts n).begins s = true → ∃ m drained, n ≤ m ∧ acts m = .poll s ∧
        (w.after acts m).Obtains s drained) ∧
      ∀ drained k, (w.after acts n).Obtains s drained →
        (w.after acts n).manager.creator = some k →
        ∃ m, ∀ i, m ≤ i → (w.after acts i).requests.count (.release k) = 1 := by
  intro w
  obtain ⟨hr, h⟩ := stands_run config mine before
  refine ⟨h.reservesOnce hr, fun acts n s hfair hn hc => ⟨fun hb => ?_, fun drained k hob hk => ?_⟩⟩
  · exact hfair.obtains hr hn hb hc
  · exact hfair.released hr h hn hob hk hc

/-- The first reservation fails, and that of the setup that waited meanwhile succeeds. -/
theorem channels_reserved_once_sample :
    let before : List Act := [.shutDown, .reservation ⟨5, .fail .shutDown⟩ {},
      .setUp [.sample 2] 0, .setUp [.sample 2] 0, .poll 1, .poll 2, .reservation {} {}, .elapse 5,
      .poll 1, .poll 2]
    let w := (start {} (.sample 1)).run before
    w.requests = [.reserve 1 0 5, .reserve 2 0 5, .granted 0] ∧
      (w.after roundRobin 2).Obtains 0 [] ∧ (w.after roundRobin 2).manager.creator = some 0 ∧
      ∃ m, ∀ i, m ≤ i → (w.after roundRobin i).requests.count (.release 0) = 1 := by
  intro before w
  have h₀ : roundRobin 0 = .elapse 1 := roundRobin_pair 0 0
  have h₁ : roundRobin 1 = .elapse 1 := roundRobin_pair 0 1
  have h₂ : roundRobin 2 = .poll 0 := roundRobin_pair 1 0
  have hw : w.after roundRobin 2 = (w.act (.elapse 1)).act (.elapse 1) := by
    rw [Overlay.after, Overlay.after, Overlay.after, h₀, h₁]
  have hob : (w.after roundRobin 2).Obtains 0 [] := by
    rw [hw]
    exact .inl (by decide +kernel)
  have hc : (w.after roundRobin 2).manager.creator = some 0 := by
    rw [hw]
    decide +kernel
  have hfair : w.Fair roundRobin := fair_roundRobin (sound_run (sound_start _ _) before)
  refine ⟨by decide +kernel, hob, hc, ?_⟩
  have h := (channels_reserved_once {} (.sample 1) before).2 roundRobin 2 0 hfair h₂ fun i _ hi => by
    have hsched := isSchedule_roundRobin i
    rw [hi] at hsched
    exact absurd hsched (by simp [Act.isSchedule])
  exact h.2 [] 0 hob hc

end RelayUpkeep.Overlay
