import RelayUpkeep.Proofs.CrewAttempts

/-! # Guards of the crew

A guard starts its attempt when it goes on for the first time. Later it ends as its attempt did, and
the crew stays in place. -/

namespace RelayUpkeep.Overlay

variable {t t₀ : TaskId} {v w : Overlay} {r : Round} {as : List TaskId}
  {draws : List (Nat × PeerAddress)}

/-! ## The end of a guard -/

theorem exit?_failAttempt {p : PeerAddress} (hf : w.isFinished t = false) (e : RelayError) :
    (w.failAttempt t p e).exit? t = some (.failed e) ∨
      (w.failAttempt t p e).exit? t = some (.crashed .clockOverflow) := by
  cases hadd : Instant.add? w.now w.manager.failed.ttl with
  | some expiry =>
    left
    simp only [failAttempt, markFailed, FailedCache.add, hadd]
    refine exit?_finish_self ?_ _
    exact hf
  | none =>
    right
    simp only [failAttempt, markFailed, FailedCache.add, hadd]
    refine exit?_finish_self ?_ _
    exact hf

/-- How a guard whose attempt has ended ends itself. -/
theorem pollGuard_ended {i : Nat} {p : PeerAddress} {a : TaskId} {e : Exit}
    (he : w.exit? a = some e) : ∃ v e', w.pollGuard t i p (some a) = v.finish t e' ∧
      (v = w ∨ v = (w.markFailed p).1) ∧ e'.isFailure = e.isFailure := by
  have hfail : ∀ error, ∃ e', w.failAttempt t p error = (w.markFailed p).1.finish t e' ∧
      e'.isFailure = true := by
    intro error
    unfold failAttempt
    split <;> next hm =>
      rw [hm]
      exact ⟨_, rfl, rfl⟩
  simp only [pollGuard, he]
  split
  · next h => exact absurd h (by simp)
  · next crash h =>
    obtain ⟨e', hw, hd⟩ := hfail (.transport ("attempt aborted: " ++ crash.report))
    obtain rfl := Option.some.inj h
    exact ⟨_, e', hw, .inr rfl, hd⟩
  · next h =>
    obtain ⟨e', hw, hd⟩ := hfail (.transport ("attempt aborted: " ++ cancellationReport))
    obtain rfl := Option.some.inj h
    exact ⟨_, e', hw, .inr rfl, hd⟩
  · next e'' _ _ _ h =>
    obtain rfl := Option.some.inj h
    exact ⟨w, _, rfl, .inl rfl, rfl⟩

theorem Crewed.markFailed (h : w.Crewed t₀ r as draws) (p : PeerAddress) :
    (w.markFailed p).1.Crewed t₀ r as draws := by
  unfold Overlay.markFailed
  cases w.manager.failed.add p w.now with
  | mk failed crash => cases crash <;> exact { h with }

/-! ## The start of an attempt -/

section Engaged

variable {i : Nat} {p : PeerAddress}

theorem engaged_self {task : Task} (ht : w.tasks[t]? = some task) :
    (w.pollGuard t i p none).tasks[t]? =
      some { task with job := .guardAttempt i p (some w.tasks.length) } := by
  have hlt := (List.getElem?_eq_some_iff.mp ht).1
  simp only [pollGuard, setJob, spawn_tasks, List.getElem?_modify_eq]
  rw [List.getElem?_append_left hlt, ht]
  rfl

theorem engaged_new (ht : t < w.tasks.length) :
    (w.pollGuard t i p none).tasks[w.tasks.length]? =
      some ⟨.attempt p .entering, some t, false⟩ := by
  simp only [pollGuard, setJob, spawn_tasks]
  rw [List.getElem?_modify_ne _ _ (Nat.ne_of_lt ht)]
  exact List.getElem?_concat_length

theorem engaged_other {a : TaskId} (ha : a < w.tasks.length) (hat : a ≠ t) :
    (w.pollGuard t i p none).tasks[a]? = w.tasks[a]? := by
  simp only [pollGuard, setJob, spawn_tasks]
  rw [List.getElem?_modify_ne _ _ hat.symm]
  exact List.getElem?_append_left ha

/-- No task is new but the attempt. -/
theorem engaged_lt {a : TaskId} {task : Task}
    (ha : (w.pollGuard t i p none).tasks[a]? = some task) :
    a < w.tasks.length ∨ a = w.tasks.length := by
  have hb := (List.getElem?_eq_some_iff.mp ha).1
  simp only [pollGuard, setJob, spawn_tasks, List.length_modify, List.length_append] at hb
  exact Nat.lt_succ_iff_lt_or_eq.mp hb

theorem engaged_guards {task : Task} (ht : w.tasks[t]? = some task) :
    (w.pollGuard t i p none).Guards t w.tasks.length p :=
  ⟨_, i, engaged_self ht, rfl⟩

end Engaged

/-! ## A guard of the crew goes on -/

/-- Nobody has ended who was not started. -/
theorem not_isFinished_of_le (h : ∀ x ∈ w.exits, x.1 < w.tasks.length) {a : TaskId}
    (ha : w.tasks.length ≤ a) : w.isFinished a = false :=
  not_isFinished_iff.mpr fun _ he => Nat.not_lt.mpr ha (h _ he)

/-- A guard that starts its attempt is spared, and so are the others. -/
theorem Crewed.spares_engage (h : w.Crewed t₀ r as draws) (hs : w.Sound) {slot : Nat}
    {p : PeerAddress} {task : Task} (ht : w.tasks[t]? = some task)
    (hj : task.job = .guardAttempt slot p none) (hmem : t ∈ as) :
    Spares t₀ as w (w.pollGuard t slot p none) := by
  have hr : w.role? t = some (.guard slot p) := role?_eq_some.mpr ⟨task, ht, by rw [hj]; rfl⟩
  have hnew := engaged_new (i := slot) (p := p) (lt_of_role? hr)
  have hguards := engaged_guards (i := slot) (p := p) ht
  refine ⟨?_, ?_, ?_, ?_, ?_, rfl, ?_⟩
  · exact (Grows.spawn w (.attempt p .entering) (some t)).trans (.setJob _ (role?_append hr))
  · rintro g a q ⟨x, s, hx, hjx⟩
    have hgt : g ≠ t := by
      rintro rfl
      obtain rfl := Option.some.inj (ht.symm.trans hx)
      rw [hj] at hjx
      exact absurd hjx (by simp)
    exact ⟨x, s, (engaged_other (List.getElem?_eq_some_iff.mp hx).1 hgt).trans hx, hjx⟩
  · intro g a q hgu
    by_cases hgt : g = t
    · subst hgt
      obtain ⟨rfl, -⟩ := hguards.unique hgu
      refine .inr (Bool.eq_false_iff.mpr fun hd => ?_)
      exact absurd (isFinished_of_succeeded hd)
        (by simp [not_isFinished_of_le hs.exits (Nat.le_refl _)])
    · obtain ⟨x, s, hx, hjx⟩ := hgu
      rcases engaged_lt hx with hlt' | rfl
      · exact .inl ⟨x, s, (engaged_other hlt' hgt).symm.trans hx, hjx⟩
      · obtain rfl := Option.some.inj (hnew.symm.trans hx)
        exact absurd hjx (by simp)
  · intro g s q hrole
    obtain ⟨x, hx, hjx⟩ := role?_eq_some.mp hrole
    rcases engaged_lt hx with hlt' | rfl
    · exact hlt'
    · obtain rfl := Option.some.inj (hnew.symm.trans hx)
      exact absurd hjx (by simp [Job.role])
  · intro a q hrole
    obtain ⟨x, hx, hjx⟩ := role?_eq_some.mp hrole
    rcases engaged_lt hx with hlt' | rfl
    · exact .inl hlt'
    · obtain rfl := Option.some.inj (hnew.symm.trans hx)
      obtain rfl : p = q := by simpa [Job.role] using hjx
      exact .inr ⟨t, hmem, hguards⟩
  · intro _ g hgas x hx hc
    obtain ⟨s, q, hrole⟩ := h.staff hgas
    by_cases hgt : g = t
    · subst hgt
      obtain rfl := Option.some.inj ((engaged_self ht).symm.trans hx)
      exact ⟨task, ht, hc⟩
    · exact ⟨x, (engaged_other (lt_of_role? hrole) hgt).symm.trans hx, hc⟩

/-- The guard starts its attempt. -/
theorem Crewed.engage (h : w.Crewed t₀ r as draws) (hs : w.Sound) {slot : Nat} {p : PeerAddress}
    {task : Task} (ht : w.tasks[t]? = some task) (hj : task.job = .guardAttempt slot p none)
    (hmem : t ∈ as) : (w.pollGuard t slot p none).Crewed t₀ r as draws := by
  refine h.keep (h.spares_engage hs ht hj hmem) (.refl _) (fun _ _ _ _ hd => hd) ?_
  intro _ g _ hf hf'
  exact absurd (hf.symm.trans hf') (by simp)

@[simp] theorem tasks_markFailed (w : Overlay) (p : PeerAddress) :
    (w.markFailed p).1.tasks = w.tasks := by
  unfold Overlay.markFailed
  cases w.manager.failed.add p w.now with
  | mk failed crash => cases crash <;> rfl

/-- The guard ends as its attempt did. -/
theorem Crewed.tell (h : w.Crewed t₀ r as draws) (hs : w.Sound) {i : Nat} {p : PeerAddress}
    {a : TaskId} {e : Exit} (hf : w.isFinished t = false) (hgu : w.Guards t a p)
    (hea : w.exit? a = some e) : (w.pollGuard t i p (some a)).Crewed t₀ r as draws := by
  obtain ⟨s, hr⟩ := hgu.role?
  obtain ⟨v, e', hv, hvw, hdone⟩ := pollGuard_ended (t := t) (i := i) (p := p) hea
  have hst : Stirs t w v := by
    rcases hvw with rfl | rfl
    · exact .refl
    · exact stirs_markFailed _ _
  have hcv : v.Crewed t₀ r as draws := by
    rcases hvw with rfl | rfl
    · exact h
    · exact h.markFailed p
  have htasks : v.tasks = w.tasks := by
    rcases hvw with rfl | rfl
    · rfl
    · exact tasks_markFailed w p
  have hfv : v.isFinished t = false := (hst.isFinished t).trans hf
  have hsv : v.Sound := hs.moves hst.moves (lt_of_role? hr) hf
  rw [hv]
  refine hcv.finish hsv.toLinked hfv ?_ ?_
  · intro _ q hq
    rw [(Grows.stirs hst).role?_eq (lt_of_role? hr), hr] at hq
    exact absurd hq (by simp)
  · intro _ _
    have hfin := (Grows.finish v t e').exit? ((Grows.stirs hst).exit? hea)
    refine ⟨a, p, ?_, isFinished_of_exit? hfin, ?_⟩
    · obtain ⟨x, s', hx, hjx⟩ := hgu
      exact ⟨x, s', by rwa [tasks_finish, htasks], hjx⟩
    · rw [succeeded, succeeded, exit?_finish_self hfv, hfin, Option.any_some, Option.any_some,
        hdone]

/-- A guard that goes on leaves the crew in place. -/
theorem Crewed.poll_guard (h : w.Crewed t₀ r as draws) (hs : w.Sound) {slot : Nat}
    {p : PeerAddress} (hr : w.role? t = some (.guard slot p)) (hf : w.isFinished t = false) :
    (w.poll t).Crewed t₀ r as draws := by
  obtain ⟨task, ht, hrole⟩ := role?_eq_some.mp hr
  have hmem := h.guards t slot p hr hf
  have hsr := hs.rest t
  have h₀ : ({ w with ready := w.ready.erase t } : Overlay).Crewed t₀ r as draws := { h with }
  cases hjob : task.job with
  | guardAttempt slot' p' attempt =>
    obtain ⟨rfl, rfl⟩ : slot' = slot ∧ p' = p := by simpa [hjob, Job.role] using hrole
    cases hc : task.isCancelled with
    | true =>
      rw [poll_abandon ht hf hc, hjob]
      refine h₀.finish hsr.toLinked hf (fun hd => absurd hd (by simp [Exit.isFailure]))
        fun _ hf₀ => ?_
      have hu : w.isFinished t₀ = false :=
        (Grows.finish { w with ready := w.ready.erase t } t .cancelled).unfinished hf₀
      exact absurd hc (by simp [h.steady hu t hmem task ht])
    | false =>
      rw [poll_resume ht hf hc, hjob]
      cases attempt with
      | none => exact h₀.engage hsr ht hjob hmem
      | some a =>
        cases hea : ({ w with ready := w.ready.erase t } : Overlay).exit? a with
        | none =>
          simp only [resume, pollGuard, hea]
          exact h₀
        | some e => exact h₀.tell (i := slot') hsr hf ⟨task, slot', ht, hjob⟩ hea
  | setup | shutdown | attempt | watch | closeRelay | releaseCreator =>
    simp [hjob, Job.role] at hrole

end RelayUpkeep.Overlay
