import RelayUpkeep.Proofs.Closing

/-! # How a shutdown comes to its end

In a fair run a shutdown that is not given up comes to hold the lock and starts its parts. Each of
them carries out what it is for, and when the last of them has ended the shutdown ends as well, with
the first complaint among them as its answer. -/

namespace RelayUpkeep.Overlay

variable {t s x : TaskId} {u v w : Overlay} {acts : Nat → Act} {n k m : Nat}
  {drained : List RelayId} {hadRelays : Bool} {parts : List TaskId}

/-! ## The lock comes -/

/-- At moment `i` task `t` goes on and holds the lock. -/
def Grasps (acts : Nat → Act) (t : TaskId) (w : Overlay) (i : Nat) : Prop :=
  acts i = .poll t ∧ t ∈ (w.after acts i).ready ∧ (w.after acts i).manager.gate.holder = some t

theorem Queueing.mem_line (h : w.Queueing t drained) (hl : w.Lined) :
    t ∈ w.manager.gate.line := by
  obtain ⟨task, ht, hj⟩ := h.task
  exact (hl.line t).mpr (.inl ⟨h.going, task, ht, by rw [hj]; rfl⟩)

theorem Queueing.after (hq : (w.after acts n).Queueing t drained) (hs : w.Sound)
    (hc : ∀ i, n ≤ i → acts i ≠ .cancel t) (hnm : n ≤ m)
    (hno : ∀ i, n ≤ i → i < m → ¬w.Grasps acts t i) : (w.after acts m).Queueing t drained := by
  induction hnm with
  | refl => exact hq
  | @step m hm ih =>
    have hqm := ih fun i hi hlt => hno i hi (Nat.lt_succ_of_lt hlt)
    exact (hqm.act (hs.after acts m) (hc m hm) (hno m hm (Nat.lt_succ_self m))).1

/-- In a fair run, a shutdown that waits for the lock comes to hold it. -/
theorem Fair.lock_comes (h : w.Fair acts) (hs : w.Sound) (hg : w.Gated)
    (hq : (w.after acts n).Queueing t drained) (hc : ∀ i, n ≤ i → acts i ≠ .cancel t) :
    ∃ k, n ≤ k ∧ w.Grasps acts t k ∧ ∀ i, n ≤ i → i < k → ¬w.Grasps acts t i := by
  refine exists_first ?_
  by_contra hno
  have hstay : ∀ m, n ≤ m → t ∈ (w.after acts m).manager.gate.line := fun m hm =>
    (hq.after hs hc hm fun i hi _ hgr => hno ⟨i, hi, hgr⟩).mem_line (hg.after hs acts m).toLined
  obtain ⟨m, hm, hh⟩ := h.holds hs hg hstay
  obtain ⟨k, hk, hpoll, hready, hhk, -⟩ := h.holder_goes hs hg hh
  exact hno ⟨k, Nat.le_trans hm hk, hpoll, hready, hhk⟩

/-- Shutdown `t` takes its first step at moment `n`, waits for the lock if it has to, and starts its
parts at moment `k`. -/
structure ClosesAt (acts : Nat → Act) (t : TaskId) (drained : List RelayId) (n k : Nat)
    (w : Overlay) : Prop where
  order : n ≤ k
  turn : acts k = .poll t
  ready : t ∈ (w.after acts k).ready
  going : (w.after acts k).isFinished t = false
  steady : (w.after acts k).Steady t
  lock : ∀ a, (w.after acts k).manager.gate.holder = some a → a = t
  closes : (w.after acts k).Closes t drained (w.after acts (k + 1))
  queueing : ∀ i, n < i → i ≤ k → (w.after acts i).Queueing t drained
  first : ∀ i, n < i → i < k → ¬w.Grasps acts t i
  enters : n < k → (w.after acts (n + 1)).manager.creator = (w.after acts n).manager.creator

/-- A shutdown that waits for the lock starts its parts when it goes on with the lock. -/
theorem Queueing.closes_poll (hq : w.Queueing t drained) (hh : w.manager.gate.holder = some t) :
    w.Closes t drained (w.poll t) := by
  obtain ⟨task, ht, hj⟩ := hq.task
  have hp := proceeds_poll ht hq.going (hq.steady.task ht) hj
  generalize w.poll t = v at hp
  cases hp with
  | closes hd hcl =>
    rcases hd with ⟨hd, -, -⟩ | ⟨hd, -⟩
    · exact absurd hd (by simp)
    · obtain rfl := ShutdownStage.queued.inj hd
      exact hcl
  | lines _ hno => exact absurd hh hno

/-- In its first step a shutdown that is not given up starts its parts, or comes to wait for the
lock. -/
theorem Sound.begins_cases (hs : w.Sound) (hb : w.begins t = true) : w.Steady t ∧
    ((w.poll t).Queueing t w.pooled ∧ (w.poll t).manager.creator = w.manager.creator ∨
      w.manager.gate.holder = none ∧ w.Closes t w.pooled (w.poll t)) := by
  obtain ⟨hready, hf, task, ht, hj, hc⟩ := begins_iff.mp hb
  have hsteady : w.Steady t := by
    rintro b task' hb' rfl
    obtain rfl := Option.some.inj (ht.symm.trans hb')
    exact hc
  have hsteady' := hs.steady_act hsteady (role?_eq_some.mpr ⟨task, ht, by rw [hj]⟩) (by rfl)
    (show Act.poll t ≠ .cancel t by simp)
  rw [Overlay.act, if_pos hready] at hsteady'
  refine ⟨hsteady, ?_⟩
  have hp := proceeds_poll ht hf hc hj
  generalize w.poll t = v at hp hsteady'
  cases hp with
  | queues manager ready hcreator =>
    refine .inl ⟨⟨hf, ⟨{ task with job := .shutdown (.queued w.pooled) }, ?_, rfl⟩, hsteady'⟩,
      hcreator⟩
    simp [setJob, ht]
  | closes hd hcl =>
    rcases hd with ⟨-, rfl, hfree⟩ | ⟨hd, -⟩
    · exact .inr ⟨hfree, hcl⟩
    · exact absurd hd (by simp)

/-- In a fair run, a shutdown that is not given up starts its parts. -/
theorem Fair.closes (h : w.Fair acts) (hs : w.Sound) (hg : w.Gated)
    (hb : (w.after acts n).begins t = true) (hn : acts n = .poll t)
    (hc : ∀ i, n ≤ i → acts i ≠ .cancel t) :
    ∃ k, w.ClosesAt acts t (w.after acts n).pooled n k := by
  obtain ⟨hready, hf, -⟩ := begins_iff.mp hb
  obtain ⟨hsteady, hcases⟩ := (hs.after acts n).begins_cases hb
  rw [← after_poll hn hready] at hcases
  rcases hcases with ⟨hq, hcreator⟩ | ⟨hfree, hcl⟩
  · have hc' : ∀ i, n + 1 ≤ i → acts i ≠ .cancel t := fun i hi => hc i (Nat.le_of_succ_le hi)
    obtain ⟨k, hk, hgr, hfirst⟩ := h.lock_comes hs hg hq hc'
    have hwait : ∀ i, n < i → i ≤ k → (w.after acts i).Queueing t (w.after acts n).pooled :=
      fun i hi hik => hq.after hs hc' hi fun j hj hji => hfirst j hj (Nat.lt_of_lt_of_le hji hik)
    have hqk := hwait k hk (Nat.le_refl k)
    exact ⟨k, Nat.le_of_lt hk, hgr.1, hgr.2.1, hqk.going, hqk.steady,
      fun a ha => Option.some.inj (ha.symm.trans hgr.2.2),
      after_poll hgr.1 hgr.2.1 ▸ hqk.closes_poll hgr.2.2, hwait, hfirst, fun _ => hcreator⟩
  · refine ⟨n, Nat.le_refl n, hn, hready, hf, hsteady, fun a ha => ?_, hcl, ?_, ?_, ?_⟩
    · exact absurd (ha.symm.trans hfree) (by simp)
    · exact fun i hi hin => absurd hin (Nat.not_le.mpr hi)
    · exact fun i hi hin => absurd hin (Nat.not_lt.mpr (Nat.le_of_lt hi))
    · exact fun hlt => absurd hlt (Nat.lt_irrefl n)

/-! ## The parts end -/

theorem Tending.after (h : (w.after acts n).Tending t hadRelays parts) (hs : w.Sound)
    (hc : ∀ i, n ≤ i → acts i ≠ .cancel t) (hnm : n ≤ m) :
    (w.after acts m).Tending t hadRelays parts := by
  induction hnm with
  | refl => exact h
  | @step m hm ih => exact (ih.act (hs.after acts m) (hc m hm)).1

theorem Tending.plays (h : w.Tending t hadRelays parts) (hs : w.Sound) :
    ∀ a ∈ parts, ∃ role, w.Plays a role (some t) := by
  obtain ⟨task, ht, hj⟩ := h.task
  have hrefers := hs.refers t task ht
  rw [hj] at hrefers
  intro a ha
  rcases hrefers a ha with ⟨r, hp⟩ | ⟨c, hp⟩ <;> exact ⟨_, hp⟩

/-- What the first part that has failed complains of. -/
def complaint? (w : Overlay) (parts : List TaskId) : Option RelayError :=
  (w.exitsOf parts).findSome? fun (_, e) => partError? e

/-- One act ends one task at most. -/
theorem Sound.exits_act (h : w.Sound) (y : Act) : (w.act y).exits = w.exits ∨
    ∃ x e, w.isFinished x = false ∧ (w.act y).exits = w.exits ++ [(x, e)] := by
  rcases w.poll_cases y with ⟨s, -, rfl, hact⟩ | ⟨s, -, rfl, hact⟩ | hp
  · rw [hact]
    cases hf : w.isFinished s with
    | true => exact .inl (by rw [poll_finished hf])
    | false =>
      obtain ⟨v, hv, he | ⟨e, he⟩⟩ := h.poll_turns s
      · exact .inl (he ▸ Moves.exits hv)
      · obtain ⟨rs, hfin, -⟩ := v.finish_eq s e
        refine .inr ⟨s, e, hf, ?_⟩
        rw [he, hfin]
        exact congrArg (· ++ [(s, e)]) (Moves.exits hv)
  · exact .inl (by rw [hact])
  · exact .inl (Overlay.exits_act hp)

/-- While a shutdown waits for the lock and no other one is under way, channels that are reserved
stay so. -/
theorem Queueing.creator_act (hq : w.Queueing t drained) (hs : w.Sound) (hl : w.Lined)
    (hth : w.Thrifty) (halone : ∀ s, s ≠ t → ¬w.Doing Job.isClosing s) {y : Act}
    (hno : ¬(y = .poll t ∧ t ∈ w.ready ∧ w.manager.gate.holder = some t)) {c : CreatorId}
    (hc : w.manager.creator = some c) : (w.act y).manager.creator = some c := by
  rcases w.poll_cases y with ⟨s, hready, rfl, hact⟩ | ⟨s, -, rfl, hact⟩ | hp
  · rw [hact, ← hc]
    obtain ⟨a, l, hline⟩ := List.exists_cons_of_ne_nil (List.ne_nil_of_mem (hq.mem_line hl))
    have ha : w.manager.gate.holder = some a := by
      rw [← hl.ordered.head_line, hline]
      rfl
    by_cases has : a = s
    · subst has
      have hat : a ≠ t := by
        rintro rfl
        exact hno ⟨rfl, hready, ha⟩
      have hidle : ¬w.Doing Job.isReserving a := fun hd =>
        absurd (hc.symm.trans (hth a hd)) (by simp)
      rcases (hs.poll_settled hready (.inl (by simp [hc])) hidle).1 with he | ⟨hrole, -⟩
      · exact he
      · -- a shutdown that holds the lock would be under way
        have hdoing := ((hl.line a).mp (hl.mem_of_holder ha)).resolve_right hidle
        obtain ⟨hf, task, ht, hj⟩ := hdoing
        obtain ⟨task', ht', hr⟩ := role?_eq_some.mp hrole
        obtain rfl := Option.some.inj (ht.symm.trans ht')
        refine absurd ⟨hf, task, ht, ?_⟩ (halone a hat)
        cases hjob : task.job with
        | shutdown stage => cases stage <;> simp [hjob, Job.isQueued, Job.isClosing] at hj ⊢
        | _ => simp [hjob, Job.role] at hr
    · exact hl.creator_poll hs hready ha has
  · rw [hact, hc]
  · rw [Overlay.creator_act hp, hc]

/-- The channels that a shutdown takes are those that were reserved at any moment since it began. -/
theorem ClosesAt.creator (h : w.ClosesAt acts t drained n k) (hs : w.Sound) (hg : w.Gated)
    (hth : ∀ i, (w.after acts i).Thrifty)
    (halone : ∀ i, n ≤ i → i ≤ k → ∀ s, s ≠ t → ¬(w.after acts i).Doing Job.isClosing s)
    {i : Nat} (hni : n ≤ i) (hik : i ≤ k) {c : CreatorId}
    (hc : (w.after acts i).manager.creator = some c) :
    (w.after acts k).manager.creator = some c := by
  suffices hstay : ∀ j, i ≤ j → j ≤ k → (w.after acts j).manager.creator = some c from
    hstay k hik (Nat.le_refl k)
  intro j hij
  induction hij with
  | refl => exact fun _ => hc
  | @step j hij ih =>
    intro hjk
    have hcj := ih (Nat.le_of_lt hjk)
    rcases Nat.eq_or_lt_of_le (Nat.le_trans hni hij) with rfl | hnj
    · exact (h.enters hjk).trans hcj
    · exact (h.queueing j hnj (Nat.le_of_lt hjk)).creator_act (hs.after acts j)
        (hg.after hs acts j).toLined (hth j)
        (halone j (Nat.le_of_lt hnj) (Nat.le_of_lt hjk)) (h.first j hnj hjk) hcj

/-- Once a shutdown has taken the channels, none are reserved any more. -/
theorem Closes.emptied (h : w.Closes t drained (w.poll t)) (hs : w.Sound) (hl : w.Lined)
    (hready : t ∈ w.ready) (hr : w.role? t = some .shutdown)
    (hlock : ∀ a, w.manager.gate.holder = some a → a = t) (hstop : (w.poll t).Stopped) :
    (w.poll t).Emptied := by
  refine ⟨hstop.down, h.effect.2.2.1, fun a ha => ?_⟩
  have hnot : ∀ v : Overlay, v.role? t = some .shutdown → ¬v.Doing Job.isReserving t := by
    rintro v hv ⟨-, task, ht, hp⟩
    obtain ⟨task', ht', hr'⟩ := role?_eq_some.mp hv
    obtain rfl := Option.some.inj (ht.symm.trans ht')
    cases hj : task.job <;> simp [hj, Job.role, Job.isReserving] at hr' hp
  by_cases hat : a = t
  · exact hnot _ ((Grows.turns (hs.poll_turns t)).role? hr) (hat ▸ ha)
  · have hact : w.act (.poll t) = w.poll t := if_pos hready
    rw [← hact] at ha
    have hold := (hs.doing_act (by simpa using Ne.symm hat)
      fun _ => Job.isFresh_of_isReserving).mp ha
    exact hat (hlock a (hl.reserving a hold))

/-! ## What its parts do -/

theorem CarriesOut.exit?_eq {role : Role} {j i : Nat} {e : Exit}
    (h : w.CarriesOut acts x role j) (hs : w.Sound) (he : (w.after acts i).exit? x = some e) :
    e = answer ((w.after acts j).call? role) := by
  obtain ⟨k, -, hk⟩ := h.ends
  have hi := (hs.grows_after acts (Nat.le_max_left i k)).exit? he
  have hk' := (hs.grows_after acts (Nat.le_max_right i k)).exit? hk
  exact Option.some.inj (hi.symm.trans hk')

theorem partError?_answer {call : Option (Event × Script)} (h : partError? (answer call) = none) :
    answer call = .done := by
  cases call with
  | none => rfl
  | some c =>
    obtain ⟨e, delay, outcome⟩ := c
    cases outcome with
    | succeed => rfl
    | fail | crash => exact absurd h (by simp [answer, Outcome.exit, partError?])

/-- A part that does not complain has done what it was for. -/
theorem CarriesOut.done {role : Role} {j i : Nat} {e : Exit} (h : w.CarriesOut acts x role j)
    (hs : w.Sound) (he : (w.after acts i).exit? x = some e) (hnone : partError? e = none) :
    e = .done := by
  have hanswer := h.exit?_eq hs he
  rw [hanswer] at hnone ⊢
  exact partError?_answer hnone

theorem part?_of_mem_shutdownParts {job : Job} (h : job ∈ w.shutdownParts drained) :
    job.role.part? none = some job := by
  rcases List.mem_append.mp h with h | h
  · obtain ⟨r, -, rfl⟩ := List.mem_map.mp h
    rfl
  · obtain ⟨c, -, rfl⟩ := List.mem_map.mp h
    rfl

theorem roles_shutdownParts (w : Overlay) (drained : List RelayId) :
    (w.shutdownParts drained).map Job.role =
      drained.map .close ++ w.manager.creator.toList.map .release := by
  simp only [shutdownParts, List.map_append, List.map_map]
  rfl

theorem ClosesAt.tending (h : w.ClosesAt acts t drained n k) (hs : w.Sound)
    (hne : (w.after acts k).shutdownParts drained ≠ []) :
    (w.after acts (k + 1)).Tending t (!drained.isEmpty) ((w.after acts k).partNumbers drained) :=
  h.closes.tending h.steady ((hs.after acts k).ready t h.ready) hne

/-- When its parts start, neither the shutdown nor any of them has ended. -/
theorem ClosesAt.going_parts (h : w.ClosesAt acts t drained n k) (hs : w.Sound)
    (hne : (w.after acts k).shutdownParts drained ≠ []) :
    (w.after acts (k + 1)).isFinished t = false ∧
      ∀ a ∈ (w.after acts k).partNumbers drained, (w.after acts (k + 1)).isFinished a = false := by
  obtain ⟨-, -, -, ⟨hnil, -⟩ | ⟨-, hexits, -⟩⟩ := h.closes.effect
  · exact absurd hnil hne
  · simp only [isFinished_of_exits hexits]
    refine ⟨h.going, fun a ha => not_isFinished_of_le (hs.after acts k).exits ?_⟩
    exact (List.mem_range'_1.mp ha).1

/-- Each part plays its role, and carries out what it is for. -/
theorem Fair.parts_carried (h : w.Fair acts) (hs : w.Sound)
    (hk : w.ClosesAt acts t drained n k) (hc : ∀ i, n ≤ i → acts i ≠ .cancel t) :
    List.Forall₂ (fun x role => (w.after acts (k + 1)).Plays x role (some t) ∧
      ∃ j, k < j ∧ w.CarriesOut acts x role j)
      ((w.after acts k).partNumbers drained)
      (((w.after acts k).shutdownParts drained).map Job.role) := by
  refine List.forall₂_iff_get.mpr ⟨by simp [partNumbers], fun i hi hi' => ?_⟩
  have hlen : i < ((w.after acts k).shutdownParts drained).length := by simpa using hi'
  have hne : (w.after acts k).shutdownParts drained ≠ [] :=
    List.ne_nil_of_length_pos (Nat.lt_of_le_of_lt (Nat.zero_le i) hlen)
  have ht := hk.tending hs hne
  obtain ⟨hready, htask⟩ :=
    hk.closes.starts ((hs.after acts k).ready t hk.ready) hlen
  have hx : ((w.after acts k).partNumbers drained).get ⟨i, hi⟩ =
      (w.after acts k).tasks.length + i := by simp [partNumbers]
  have hmem : (w.after acts k).tasks.length + i ∈ (w.after acts k).partNumbers drained :=
    hx ▸ List.get_mem _ _
  have hpart := part?_of_mem_shutdownParts (List.getElem_mem hlen)
  rw [hx]
  simp only [List.get_eq_getElem, List.getElem_map]
  refine ⟨⟨_, htask, rfl, rfl⟩, ?_⟩
  have hgo := (hk.going_parts hs hne).2 _ hmem
  have hpends : (w.after acts (k + 1)).Pends ((w.after acts k).tasks.length + i)
      ((w.after acts k).shutdownParts drained)[i] 0 := ⟨⟨_, htask, rfl⟩, hgo, .inl hready⟩
  refine h.carries_out hs hpends hpart (fun m hm task hm' => ?_) fun j hj hjr => ?_
  · have htm := ht.after hs (fun i hi => hc i (Nat.le_trans hk.order (Nat.le_of_succ_le hi))) hm
    exact (htm.parts _ hmem).task hm'
  · have hlt := (hs.after acts j).ready _ hjr
    have hle := (hs.grows_after acts (Nat.le_of_lt_succ hj)).tasks.length_le
    exact absurd (Nat.lt_of_lt_of_le hlt hle) (Nat.not_lt.mpr (Nat.le_add_right _ _))

end RelayUpkeep.Overlay
