import RelayUpkeep.Proofs.Soundness

/-! # Queues

The queues hold tasks that are there, and each of them once. A move makes more tasks ready and sets
timers for its own task, but it ends none, and it leaves the queues as they should be. -/

namespace RelayUpkeep.Overlay

variable {t : TaskId} {u v w : Overlay}

/-- The queues hold tasks that are there, each task ends once, and a timer is a matter of the
future and of a task that goes on. -/
structure Queued (w : Overlay) : Prop where
  ready : ∀ a ∈ w.ready, a < w.tasks.length
  once : w.ready.Nodup
  exits : ∀ x ∈ w.exits, x.1 < w.tasks.length
  ends : (w.exits.map Prod.fst).Nodup
  timers : ∀ x ∈ w.timers,
    x.task < w.tasks.length ∧ w.clock < x.due ∧ w.isFinished x.task = false

theorem queued_start (config : RelayConfig) (address : PeerAddress) :
    (start config address).Queued where
  ready := by simp [start]
  once := by simp [start]
  exits := by simp [start]
  ends := by simp [start]
  timers := by simp [start]

theorem Stir.exits (h : Stir t u v) : v.exits = u.exits := by
  cases h with
  | rest | spawn | setJob | sleep | log | openConn | manage | grant => rfl
  | wake a =>
    obtain ⟨rs, h, -⟩ := u.wake_eq a
    rw [h]
  | cancel a => rcases u.cancel_eq a with ⟨-, h⟩ | ⟨-, rs, h, -⟩ <;> rw [h]
  | dropConn c => rcases u.dropConn_eq c with ⟨-, h⟩ | ⟨-, rs, h, -⟩ <;> rw [h]

theorem Made.exits {r : RelayId} {p : PeerAddress} (h : Made u v r p) : v.exits = u.exits := by
  cases h <;> rfl

/-- Nobody ends while a task moves. -/
theorem Move.exits (h : Move t u v) : v.exits = u.exits := by
  cases h with
  | stir h => exact h.exits
  | publish | drain => rfl
  | accept hr hm ha => exact hm.exits
  | @refuse v r p q hr hm ha =>
    obtain ⟨relays, tasks, ready, h⟩ := (v.log (.offer r (u.verdict p))).shutRelay_frame r
    simp only [refused, h]
    exact hm.exits
  | shut r =>
    obtain ⟨relays, tasks, ready, h⟩ := u.shutRelay_frame r
    rw [h]
  | lose r =>
    obtain ⟨s, mine, pool, failed, journal, h, -⟩ := u.lose_frame r
    rw [h]
    rfl

theorem Moves.exits (h : Moves t u v) : v.exits = u.exits := by
  induction h with
  | refl => rfl
  | tail _ h ih => exact h.exits.trans ih

theorem isFinished_of_exits (h : v.exits = u.exits) (a : TaskId) :
    v.isFinished a = u.isFinished a := by
  simp [isFinished, exit?, h]

/-- Nobody ends by a move. -/
theorem Move.isFinished (h : Move t u v) (a : TaskId) : v.isFinished a = u.isFinished a :=
  isFinished_of_exits h.exits a

theorem Moves.isFinished (h : Moves t u v) (a : TaskId) : v.isFinished a = u.isFinished a :=
  isFinished_of_exits h.exits a

theorem Stirs.isFinished (h : Stirs t u v) (a : TaskId) : v.isFinished a = u.isFinished a :=
  h.moves.isFinished a

theorem Stir.timers (h : Stir t u v) {x : Timer} (hx : x ∈ v.timers) :
    x ∈ u.timers ∨ x.task = t ∧ v.clock < x.due := by
  cases h with
  | rest | spawn | setJob | log | openConn | manage | grant => exact .inl hx
  | sleep job delay _ _ hd =>
    rcases List.mem_append.mp hx with hx | hx
    · exact .inl hx
    · obtain rfl := List.mem_singleton.mp hx
      exact .inr ⟨rfl, Nat.lt_add_of_pos_right (Nat.pos_of_ne_zero hd)⟩
  | wake a =>
    obtain ⟨rs, h, -⟩ := u.wake_eq a
    rw [h] at hx
    exact .inl hx
  | cancel a =>
    rcases u.cancel_eq a with ⟨-, h⟩ | ⟨-, rs, h, -⟩ <;> rw [h] at hx <;> exact .inl hx
  | dropConn c =>
    rcases u.dropConn_eq c with ⟨-, h⟩ | ⟨-, rs, h, -⟩ <;> rw [h] at hx <;> exact .inl hx

/-- A task that moves sets its own timer only. -/
theorem Move.timers (h : Move t u v) {x : Timer} (hx : x ∈ v.timers) :
    x ∈ u.timers ∨ x.task = t ∧ v.clock < x.due := by
  cases h with
  | stir h => exact h.timers hx
  | publish | drain => exact .inl hx
  | accept hr hm ha => exact .inl (by cases hm <;> exact hx)
  | @refuse v r p q hr hm ha =>
    obtain ⟨relays, tasks, ready, h⟩ := (v.log (.offer r (u.verdict p))).shutRelay_frame r
    simp only [refused, h] at hx
    exact .inl (by cases hm <;> exact hx)
  | shut r =>
    obtain ⟨relays, tasks, ready, h⟩ := u.shutRelay_frame r
    rw [h] at hx
    exact .inl hx
  | lose r =>
    obtain ⟨s, mine, pool, failed, journal, h, -⟩ := u.lose_frame r
    rw [h] at hx
    exact .inl hx

/-- A queue that grows by tasks that are there. -/
structure Wakes (u v : Overlay) : Prop where
  only : ∀ a ∈ v.ready, a ∈ u.ready ∨ a < v.tasks.length
  once : (∀ a ∈ u.ready, a < u.tasks.length) → u.ready.Nodup → v.ready.Nodup

theorem Wakes.of_eq (h : v.ready = u.ready) : u.Wakes v :=
  ⟨fun _ ha => .inl (h ▸ ha), fun _ hn => h ▸ hn⟩

theorem Rouses.adds {ts rs : List TaskId} (h : u.Rouses ts rs) (hv : v.ready = rs)
    (hts : ∀ a ∈ ts, a < v.tasks.length) : u.Wakes v := by
  refine ⟨fun a ha => ?_, fun _ hn => hv ▸ h.nodup hn⟩
  rw [hv] at ha
  exact (h.only a ha).imp id (hts a)

theorem wakes_concat (hv : v.ready = u.ready ++ [u.tasks.length])
    (hlt : u.tasks.length < v.tasks.length) : u.Wakes v := by
  refine ⟨fun a ha => ?_, fun hr hn => ?_⟩
  · rw [hv] at ha
    rcases List.mem_append.mp ha with ha | ha
    · exact .inl ha
    · exact .inr (List.mem_singleton.mp ha ▸ hlt)
  · rw [hv]
    refine List.nodup_append.mpr ⟨hn, by simp, ?_⟩
    rintro a ha b hb rfl
    exact absurd (hr a ha) (by simp [List.mem_singleton.mp hb])

theorem Linked.watcher_lt (h : w.Linked) {r : RelayId} {relay : Relay} {a : TaskId}
    (hr : w.relays[r]? = some relay) (hw : relay.watcher = some a) : a < w.tasks.length :=
  lt_of_role? (h.role?_watcher hr hw)

theorem Linked.watchersOf_lt (h : w.Linked) {c : ConnId} {a : TaskId} (ha : a ∈ w.watchersOf c) :
    a < w.tasks.length := by
  obtain ⟨relay, hmem, hw⟩ := List.mem_filterMap.mp ha
  obtain ⟨r, hr⟩ := List.mem_iff_getElem?.mp (List.mem_of_mem_filter hmem)
  exact h.watcher_lt hr hw

theorem Stir.wakes (h : Stir t u v) (hl : u.Linked) : u.Wakes v := by
  cases h with
  | setJob | sleep | log | openConn | manage | grant => exact .of_eq rfl
  | rest =>
    exact ⟨fun a ha => .inl (List.mem_of_mem_erase ha), fun _ hn => hn.erase _⟩
  | wake a ha =>
    obtain ⟨rs, h, hr⟩ := u.wake_eq a
    rw [h]
    exact hr.adds rfl fun b hb => List.mem_singleton.mp hb ▸ ha
  | spawn job =>
    refine wakes_concat rfl ?_
    rw [spawn_tasks]
    simp
  | cancel a ha =>
    rcases u.cancel_eq a with ⟨-, h⟩ | ⟨-, rs, h, hr⟩ <;> rw [h]
    · exact .of_eq rfl
    · refine hr.adds rfl ?_
      intro b hb
      obtain rfl := List.mem_singleton.mp hb
      simp only [List.length_modify]
      rcases ha with ⟨_, _, hp⟩ | ⟨_, hp⟩ | ⟨_, hp⟩ <;> exact lt_of_role? hp.role?
  | dropConn c =>
    rcases u.dropConn_eq c with ⟨-, h⟩ | ⟨-, rs, h, hr⟩ <;> rw [h]
    · exact .of_eq rfl
    · exact hr.adds rfl fun a ha => hl.watchersOf_lt ha

theorem Wakes.trans (h : u.Wakes v) (h' : v.Wakes w) (huv : u.tasks.length ≤ v.tasks.length)
    (hvw : v.tasks.length ≤ w.tasks.length) : u.Wakes w := by
  refine ⟨fun a ha => ?_, fun hr hn => h'.once (fun a ha => ?_) (h.once hr hn)⟩
  · rcases h'.only a ha with ha | ha
    · exact (h.only a ha).imp id fun ha => Nat.lt_of_lt_of_le ha hvw
    · exact .inr ha
  · rcases h.only a ha with ha | ha
    · exact Nat.lt_of_lt_of_le (hr a ha) huv
    · exact ha

theorem wakes_shutRelay {r : RelayId} (h : ∀ relay a, w.relays[r]? = some relay →
    relay.watcher = some a → a < w.tasks.length) : w.Wakes (w.shutRelay r).1 := by
  rcases w.shutRelay_cases r with he | ⟨relay, l, hr, -, he⟩ <;> rw [he]
  · exact .of_eq rfl
  · cases hw : relay.watcher with
    | none => exact .of_eq rfl
    | some a =>
      simp only [Option.elim]
      rcases (w.setSignal r .shutDown).cancel_eq a with ⟨-, hc⟩ | ⟨-, rs, hc, hro⟩ <;> rw [hc]
      · exact .of_eq rfl
      · have hadd := hro.adds (v := { w.setSignal r .shutDown with
            tasks := w.tasks.modify a fun task => { task with isCancelled := true }
            ready := rs }) rfl fun b hb => by
          obtain rfl := List.mem_singleton.mp hb
          simpa using h relay b hr hw
        exact ⟨hadd.only, hadd.once⟩

theorem Made.wakes {r : RelayId} {p : PeerAddress} (h : Made u v r p) : u.Wakes v := by
  cases h with
  | openTcp => exact wakes_concat rfl (by simp [addOpenRelay, spawn])
  | push => exact .of_eq rfl

theorem Made.watcher_lt {r : RelayId} {p : PeerAddress} (h : Made u v r p) {relay : Relay}
    {a : TaskId} (hr : v.relays[r]? = some relay) (hw : relay.watcher = some a) :
    a < v.tasks.length := by
  obtain ⟨relay', hr', ht⟩ := h.tends
  obtain rfl := Option.some.inj (hr.symm.trans hr')
  unfold Tends at ht
  split at ht
  · obtain ⟨c, b, -, -, hb, task, htask, -⟩ := ht
    obtain rfl := Option.some.inj (hb.symm.trans hw)
    exact (List.getElem?_eq_some_iff.mp htask).1
  · exact absurd (ht.2.symm.trans hw) (by simp)

theorem Move.wakes (h : Move t u v) (hl : u.Linked) : u.Wakes v := by
  have hle := (Grows.move h).tasks.length_le
  cases h with
  | stir h => exact h.wakes hl
  | publish | drain => exact .of_eq rfl
  | @accept v r p q hr hm ha =>
    have hw : v.Wakes (v.admitted r p) := .of_eq rfl
    exact hm.wakes.trans hw (Grows.made hm).tasks.length_le
      (Grows.admitted hm).tasks.length_le
  | @refuse v r p q hr hm ha =>
    have hg : v.Grows (v.refused r (u.verdict p)) := (Grows.log _ _).trans (.shutRelay _ _)
    have hs := wakes_shutRelay (w := v.log (.offer r (u.verdict p))) (r := r)
      fun relay a hr hw => hm.watcher_lt hr hw
    exact hm.wakes.trans ⟨hs.only, hs.once⟩ (Grows.made hm).tasks.length_le hg.tasks.length_le
  | shut r => exact wakes_shutRelay fun relay a hr hw => hl.watcher_lt hr hw
  | lose r =>
    obtain ⟨s, mine, pool, failed, journal, h, -⟩ := u.lose_frame r
    exact .of_eq (by rw [h]; rfl)

theorem Queued.move (h : u.Queued) (hl : u.Linked) (hm : Move t u v) (ht : t < u.tasks.length)
    (hf : u.isFinished t = false) : v.Queued := by
  have hle := (Grows.move hm).tasks.length_le
  have hw := hm.wakes hl
  refine ⟨?_, hw.once h.ready h.once, ?_, ?_, ?_⟩
  · intro a ha
    exact (hw.only a ha).elim (fun ha => Nat.lt_of_lt_of_le (h.ready a ha) hle) id
  · intro x hx
    rw [hm.exits] at hx
    exact Nat.lt_of_lt_of_le (h.exits x hx) hle
  · rw [hm.exits]
    exact h.ends
  · intro x hx
    rw [hm.isFinished, (Frame.move hm).clock]
    rcases hm.timers hx with hx | ⟨rfl, hd⟩
    · obtain ⟨h₁, h₂, h₃⟩ := h.timers x hx
      exact ⟨Nat.lt_of_lt_of_le h₁ hle, h₂, h₃⟩
    · exact ⟨Nat.lt_of_lt_of_le ht hle, (Frame.move hm).clock ▸ hd, hf⟩

end RelayUpkeep.Overlay
