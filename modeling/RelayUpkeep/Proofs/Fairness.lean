import Mathlib.Data.Nat.Find
import Mathlib.Data.Nat.Pairing
import RelayUpkeep.Proofs.Alone

/-! # Fair runs

In an endless run that lets everyone who is ready go on some time, and in which the clock goes on
without bound, each attempt comes to an end, and so does the task that guards it. -/

namespace RelayUpkeep

/-- How often an attempt may still wait. -/
def AttemptStage.rank : AttemptStage → Nat
  | .entering => 4
  | .connecting _ => 3
  | .shaking .. => 2
  | .partingFrom .. => 1
  | .discarding .. => 0

namespace Overlay

variable {t x : TaskId} {u v w : Overlay} {acts : Nat → Act} {job : Job} {due n : Nat}
  {q : PeerAddress}

/-- The state after the first acts of an endless run. -/
def after (w : Overlay) (acts : Nat → Act) : Nat → Overlay
  | 0 => w
  | n + 1 => (w.after acts n).act (acts n)

theorem after_eq_run (w : Overlay) (acts : Nat → Act) (n : Nat) :
    w.after acts n = w.run ((List.range n).map acts) := by
  induction n with
  | zero => rfl
  | succ n ih => rw [after, ih, List.range_succ, List.map_append, List.map_singleton, run_concat]

/-- Whoever is ready goes on some time, and there is no end of time. -/
structure Fair (w : Overlay) (acts : Nat → Act) : Prop where
  polls : ∀ n, ∀ t ∈ (w.after acts n).ready, ∃ m, n ≤ m ∧ acts m = .poll t
  time : ∀ c, ∃ n, c ≤ (w.after acts n).clock

theorem Sound.after (h : w.Sound) (acts : Nat → Act) (n : Nat) : (w.after acts n).Sound := by
  rw [after_eq_run]
  exact sound_run h _

theorem Sound.grows_after (h : w.Sound) (acts : Nat → Act) {m n : Nat} (hmn : m ≤ n) :
    (w.after acts m).Grows (w.after acts n) := by
  induction hmn with
  | refl => exact .refl _
  | step _ ih => exact ih.trans ((h.after acts _).grows_act _)

/-! ## A fair run of any state -/

/-- Everyone has a turn again and again, and so has time. -/
def roundRobin (n : Nat) : Act :=
  match n.unpair.1 with
  | 0 => .elapse 1
  | t + 1 => .poll t

theorem roundRobin_pair (i n : Nat) : roundRobin (Nat.pair i n) =
    match i with
    | 0 => .elapse 1
    | t + 1 => .poll t := by
  simp only [roundRobin, Nat.unpair_pair]

theorem fair_roundRobin (h : w.Sound) : w.Fair roundRobin where
  polls n t _ := ⟨Nat.pair (t + 1) n, Nat.right_le_pair _ _, roundRobin_pair _ _⟩
  time c := by
    induction c with
    | zero => exact ⟨0, Nat.zero_le _⟩
    | succ c ih =>
      obtain ⟨n, hn⟩ := ih
      refine ⟨Nat.pair 0 n + 1, ?_⟩
      have hg := h.grows_after roundRobin (Nat.right_le_pair 0 n)
      obtain ⟨rs, he, -⟩ := (w.after roundRobin (Nat.pair 0 n)).advanceTo_eq
        ((w.after roundRobin (Nat.pair 0 n)).clock + 1)
      rw [Overlay.after, roundRobin_pair, act, he]
      exact Nat.succ_le_succ (Nat.le_trans hn hg.clock)

/-! ## Who waits for a turn or for a moment -/

/-- Task `x` is ready, or will be at a certain moment. -/
def Waits (x : TaskId) (due : Nat) (w : Overlay) : Prop :=
  x ∈ w.ready ∨ (⟨due, x⟩ : Timer) ∈ w.timers

/-- Task `x` keeps its place. -/
def Leaves (x : TaskId) (u v : Overlay) : Prop := ∀ due, u.Waits x due → v.Waits x due

theorem Leaves.of_ready (hr : x ∈ u.ready → x ∈ v.ready) (ht : v.timers = u.timers) :
    u.Leaves x v := fun _ h => h.imp hr (ht ▸ ·)

theorem Leaves.of_eq (hr : v.ready = u.ready) (ht : v.timers = u.timers) : u.Leaves x v :=
  .of_ready (hr ▸ id) ht

theorem Rouses.leaves {ts rs : List TaskId} (h : u.Rouses ts rs) (hr : v.ready = rs)
    (ht : v.timers = u.timers) : u.Leaves x v :=
  .of_ready (fun hx => hr ▸ h.keeps x hx) ht

theorem Leaves.trans (h : u.Leaves x v) (h' : v.Leaves x w) : u.Leaves x w :=
  fun due hw => h' due (h due hw)

theorem leaves_cancel (w : Overlay) (a : TaskId) : w.Leaves x (w.cancel a) := by
  rcases w.cancel_eq a with ⟨-, h⟩ | ⟨-, rs, h, hr⟩ <;> rw [h]
  · exact .of_eq rfl rfl
  · exact hr.leaves rfl rfl

theorem leaves_dropConn (w : Overlay) (c : ConnId) : w.Leaves x (w.dropConn c) := by
  rcases w.dropConn_eq c with ⟨-, h⟩ | ⟨-, rs, h, hr⟩ <;> rw [h]
  · exact .of_eq rfl rfl
  · exact hr.leaves rfl rfl

theorem leaves_spawn (w : Overlay) (job : Job) (parent : Option TaskId) :
    w.Leaves x (w.spawn job parent).1 :=
  .of_ready (fun hx => List.mem_append_left _ hx) rfl

theorem leaves_shutRelay (w : Overlay) (r : RelayId) : w.Leaves x (w.shutRelay r).1 := by
  rcases w.shutRelay_cases r with h | ⟨relay, l, -, -, h⟩ <;> rw [h]
  · exact .of_eq rfl rfl
  · cases relay.watcher with
    | none => exact .of_eq rfl rfl
    | some a =>
      exact Leaves.trans (v := w.setSignal r .shutDown) (.of_eq rfl rfl) (leaves_cancel _ a)

theorem leaves_listen_note (w : Overlay) (r : RelayId) (label : String) (nested : Option String) :
    w.Leaves x (w.listen r (.note label nested false)).1 := by
  obtain ⟨relays, more, h, -⟩ := w.listen_note_frame r label nested
  rw [h]
  exact .of_eq rfl rfl

theorem Stir.leaves (h : Stir t u v) (hx : x ≠ t) : u.Leaves x v := by
  cases h with
  | rest => exact .of_ready (fun hm => (List.mem_erase_of_ne hx).mpr hm) rfl
  | wake a =>
    obtain ⟨rs, h, hr⟩ := u.wake_eq a
    rw [h]
    exact hr.leaves rfl rfl
  | spawn job => exact leaves_spawn u job _
  | sleep job delay => exact fun _ hw => hw.imp id (List.mem_append_left _)
  | cancel a => exact leaves_cancel u a
  | dropConn c => exact leaves_dropConn u c
  | setJob | log | openConn | manage | grant => exact .of_eq rfl rfl

theorem Made.leaves {r : RelayId} {p : PeerAddress} (h : Made u v r p) : u.Leaves x v := by
  cases h with
  | openTcp => exact .of_ready (fun hx => List.mem_append_left _ hx) rfl
  | push => exact .of_eq rfl rfl

/-- A task that moves takes no one else's place. -/
theorem Move.leaves (h : Move t u v) (hx : x ≠ t) : u.Leaves x v := by
  cases h with
  | stir h => exact h.leaves hx
  | publish | drain => exact .of_eq rfl rfl
  | accept hr hm ha => exact hm.leaves.trans (.of_eq rfl rfl)
  | @refuse v r p q hr hm ha =>
    have hl : v.Leaves x (v.log (.offer r (u.verdict p))) := .of_eq rfl rfl
    exact hm.leaves.trans (hl.trans (leaves_shutRelay _ r))
  | shut r => exact leaves_shutRelay u r
  | lose r =>
    obtain ⟨s, mine, pool, failed, journal, h, -⟩ := u.lose_frame r
    rw [h]
    exact .of_eq rfl rfl

theorem Moves.leaves (h : Moves t u v) (hx : x ≠ t) : u.Leaves x v := by
  induction h with
  | refl => exact fun _ h => h
  | tail _ h ih => exact ih.trans (h.leaves hx)

theorem Turns.leaves (h : Turns t u v) (hx : x ≠ t) : u.Leaves x v := by
  obtain ⟨y, hy, rfl | ⟨e, rfl⟩⟩ := h
  · exact Moves.leaves hy hx
  · refine (Moves.leaves hy hx).trans fun due hw => ?_
    obtain ⟨rs, he, hr⟩ := y.finish_eq t e
    rw [he]
    exact hw.imp (hr.keeps x) fun hm => List.mem_filter.mpr ⟨hm, by simpa using hx⟩

theorem leaves_advanceTo (hf : w.isFinished x = false) (clock : Nat) :
    w.Leaves x (w.advanceTo clock) := by
  intro due hw
  obtain ⟨rs, he, hr⟩ := w.advanceTo_eq clock
  rw [he]
  rcases hw with hw | hw
  · exact .inl (hr.keeps x hw)
  · by_cases hd : clock < due
    · exact .inr (List.mem_filter.mpr ⟨hw, by simpa using hd⟩)
    · refine .inl (hr.wakes x ?_ hf)
      exact List.mem_map.mpr ⟨⟨due, x⟩, List.mem_filter.mpr ⟨hw, by simpa using hd⟩, rfl⟩

/-- Until a task goes on, it keeps its place. -/
theorem Sound.leaves_act (h : w.Sound) (hf : w.isFinished x = false) {a : Act}
    (ha : a ≠ .poll x) : w.Leaves x (w.act a) := by
  cases a with
  | poll t =>
    simp only [Overlay.act]
    split
    · exact Turns.leaves (h.poll_turns t) fun hx => ha (by rw [hx])
    · exact .of_eq rfl rfl
  | elapse ms => exact leaves_advanceTo hf _
  | setUp | shutDown => exact leaves_spawn w _ _
  | closeRelay r =>
    simp only [Overlay.act]
    split
    · exact leaves_spawn w _ _
    · exact .of_eq rfl rfl
  | cancel t =>
    simp only [Overlay.act]
    split
    · exact leaves_cancel w t
    · exact .of_eq rfl rfl
  | listen r label nested => exact leaves_listen_note w r label nested
  | dropConn c => exact leaves_dropConn w c
  | observe | behave | learn | nodeDown | reservation | hold | dropManager | moveTo =>
    exact .of_eq rfl rfl

/-! ## Whoever waits goes on -/

/-- Task `x` has not ended, and waits to go on with a job. -/
structure Pends (x : TaskId) (job : Job) (due : Nat) (w : Overlay) : Prop where
  task : ∃ task : Task, w.tasks[x]? = some task ∧ task.job = job
  going : w.isFinished x = false
  waits : w.Waits x due

theorem Pends.lt (h : w.Pends x job due) : x < w.tasks.length := by
  obtain ⟨task, ht, -⟩ := h.task
  exact (List.getElem?_eq_some_iff.mp ht).1

/-- Whoever goes to sleep waits for the moment to come. -/
theorem pends_sleep (ht : x < w.tasks.length) (hf : w.isFinished x = false) (job : Job)
    (delay : Nat) : (w.sleep x job delay).Pends x job (w.clock + delay) :=
  ⟨⟨{ w.tasks[x] with job := job }, by simp [sleep, setJob, ht], rfl⟩, hf,
    .inr (List.mem_append_right _ (List.mem_singleton_self _))⟩

theorem Pends.act (h : w.Pends x job due) (hs : w.Sound) {a : Act}
    (ha : a = .poll x → x ∉ w.ready) : (w.act a).Pends x job due := by
  by_cases hx : a = .poll x
  · rw [hx, Overlay.act, if_neg (ha hx)]
    exact h
  · obtain ⟨hjob, hexit⟩ := hs.still_act hx h.lt
    have hlt := Nat.lt_of_lt_of_le h.lt (hs.grows_act a).tasks.length_le
    have ht := List.getElem?_eq_getElem hlt
    obtain ⟨before, hb, he⟩ := hjob _ ht
    obtain ⟨task, ht', hj⟩ := h.task
    obtain rfl := Option.some.inj (ht'.symm.trans hb)
    refine ⟨⟨_, ht, he.trans hj⟩, ?_, hs.leaves_act h.going hx due h.waits⟩
    rw [isFinished, hexit]
    exact h.going

/-- When its moment has come, a task is ready. -/
theorem Pends.ready (h : w.Pends x job due) (hs : w.Sound) (hd : due ≤ w.clock) : x ∈ w.ready :=
  h.waits.resolve_right fun ht => Nat.not_lt.mpr hd (hs.timers _ ht).2.1

/-- What comes about at some moment comes about at a first one. -/
theorem exists_first {P : Nat → Prop} (h : ∃ m, n ≤ m ∧ P m) :
    ∃ m, n ≤ m ∧ P m ∧ ∀ k, n ≤ k → k < m → ¬P k := by
  classical
  refine ⟨Nat.find h, (Nat.find_spec h).1, (Nat.find_spec h).2, fun k hk hlt hp => ?_⟩
  exact Nat.find_min h hlt ⟨hk, hp⟩

/-- In a fair run, whoever waits goes on with the same job. -/
theorem Fair.goes (h : w.Fair acts) (hs : w.Sound) (hp : (w.after acts n).Pends x job due) :
    ∃ m, n ≤ m ∧ acts m = .poll x ∧ x ∈ (w.after acts m).ready ∧
      (w.after acts m).Pends x job due := by
  by_contra hno
  have hstay : ∀ m, n ≤ m → (w.after acts m).Pends x job due := by
    intro m hm
    induction hm with
    | refl => exact hp
    | @step m hm ih => exact ih.act (hs.after acts m) fun ha hx => hno ⟨m, hm, ha, hx, ih⟩
  obtain ⟨c, hc⟩ := h.time due
  have hready : ∀ m, n ≤ m → c ≤ m → x ∈ (w.after acts m).ready := by
    intro m hm hcm
    refine (hstay m hm).ready (hs.after acts m) ?_
    exact Nat.le_trans hc (hs.grows_after acts hcm).clock
  obtain ⟨m, hm, ha⟩ := h.polls _ x (hready _ (Nat.le_max_left n c) (Nat.le_max_right n c))
  have hn := Nat.le_trans (Nat.le_max_left n c) hm
  exact hno ⟨m, hn, ha, hready m hn (Nat.le_trans (Nat.le_max_right n c) hm), hstay m hn⟩

/-- Whoever waits goes on for a first time, and whatever is kept until then still holds. -/
theorem Fair.goes_first (h : w.Fair acts) (hs : w.Sound)
    (hp : (w.after acts n).Pends x job due) {P : Overlay → Prop} (hn : P (w.after acts n))
    (hkeep : ∀ k, n ≤ k → P (w.after acts k) →
      (acts k = .poll x → x ∉ (w.after acts k).ready) → P (w.after acts (k + 1))) :
    ∃ m, n ≤ m ∧ acts m = .poll x ∧ x ∈ (w.after acts m).ready ∧
      (w.after acts m).Pends x job due ∧ P (w.after acts m) ∧
      ∀ k, n ≤ k → k < m → ¬(acts k = .poll x ∧ x ∈ (w.after acts k).ready) := by
  obtain ⟨m₀, hm₀, hpoll₀, hready₀, -⟩ := h.goes hs hp
  obtain ⟨m, hm, ⟨hpoll, hready⟩, hfirst⟩ :=
    exists_first (P := fun m => acts m = .poll x ∧ x ∈ (w.after acts m).ready)
      ⟨m₀, hm₀, hpoll₀, hready₀⟩
  have hstay : ∀ k, n ≤ k → k ≤ m → (w.after acts k).Pends x job due ∧ P (w.after acts k) := by
    intro k hk
    induction hk with
    | refl => exact fun _ => ⟨hp, hn⟩
    | @step k hk ih =>
      intro hlt
      obtain ⟨hpk, hPk⟩ := ih (Nat.le_of_lt hlt)
      have hno : acts k = .poll x → x ∉ (w.after acts k).ready :=
        fun he hr => hfirst k hk hlt ⟨he, hr⟩
      exact ⟨hpk.act (hs.after acts k) hno, hkeep k hk hPk hno⟩
  obtain ⟨hpm, hPm⟩ := hstay m hm (Nat.le_refl m)
  exact ⟨m, hm, hpoll, hready, hpm, hPm, hfirst⟩

/-! ## Attempts come to an end -/

/-- The attempt on `q` has ended, or waits at one of its last stages. -/
def Nears (t : TaskId) (q : PeerAddress) (n : Nat) (w : Overlay) : Prop :=
  w.isFinished t = true ∨ ∃ s due, s.rank < n ∧
    (∃ task : Task, w.tasks[t]? = some task ∧ task.job = .attempt q s) ∧ w.Waits t due

theorem nears_finish (w : Overlay) (e : Exit) : (w.finish t e).Nears t q n :=
  .inl (isFinished_finish w t e)

theorem nears_play {s : Script} {stage : Outcome → AttemptStage}
    {next : Overlay → Outcome → Overlay} (ht : t < w.tasks.length)
    (hs : (stage s.outcome).rank < n) (hn : (next w s.outcome).Nears t q n) :
    (w.play t s (fun o => .attempt q (stage o)) next).Nears t q n := by
  unfold play
  split
  · exact hn
  · refine .inr ⟨_, w.clock + s.delay, hs, ⟨{ w.tasks[t] with job := _ }, ?_, rfl⟩, .inr ?_⟩
    · simp [sleep, setJob, ht]
    · exact List.mem_append_right _ (List.mem_singleton_self _)

theorem nears_failAttempt (w : Overlay) (p : PeerAddress) (e : RelayError) :
    (w.failAttempt t p e).Nears t q n := by
  unfold failAttempt
  split <;> exact nears_finish _ _

theorem nears_discarded (w : Overlay) (o : Outcome) : (w.discarded t o).Nears t q n := by
  unfold discarded
  split <;> exact nears_finish _ _

theorem nears_discard (ht : t < w.tasks.length) (hn : 0 < n) (r : RelayId) :
    (w.discard t q r).Nears t q n := by
  unfold discard
  split
  · exact nears_finish _ _
  · next v c hs =>
    have hg : w.Grows (v.closeConn c) := by
      have hv := Grows.shutRelay w r
      rw [hs] at hv
      exact hv.trans (.stirs (stirs_closeConn (t := t) v c))
    exact nears_play (Nat.lt_of_lt_of_le ht hg.tasks.length_le) hn (nears_discarded _ _)

theorem nears_welcome (w : Overlay) (r : RelayId) : (w.welcome t r).Nears t q n := by
  unfold welcome
  split <;> exact nears_finish _ _

theorem nears_offer (ht : t < w.tasks.length) (hn : 0 < n) (r : RelayId) (p : PeerAddress) :
    (w.offer t q r p).Nears t q n := by
  unfold offer
  split
  · exact nears_discard (w := w.log _) ht hn r
  · simp only
    split
    · exact nears_welcome _ r
    · refine nears_discard ?_ hn r
      exact ht
    · refine nears_discard ?_ hn r
      exact ht

theorem nears_parted (ht : t < w.tasks.length) (hn : 0 < n) (c : ConnId) (o : Outcome) :
    (w.parted t q c o).Nears t q n := by
  unfold parted
  split
  · exact nears_finish _ _
  · split
    · exact nears_finish _ _
    · exact nears_offer (w := (w.addPushRelay _).1) ht hn _ _

theorem nears_establish (ht : t < w.tasks.length) (hn : 1 < n) (c : ConnId) (p : PeerAddress) :
    (w.establish t q c p).Nears t q n := by
  have hpos := Nat.lt_of_succ_lt hn
  unfold establish
  split
  · have hlt : t < (w.addOpenRelay c p).1.tasks.length := by
      simp only [addOpenRelay, spawn_tasks, List.length_append]
      exact Nat.lt_succ_of_lt ht
    exact nears_offer hlt hpos _ _
  · have hg : w.Grows (w.closeConn c) := .stirs (stirs_closeConn (t := t) w c)
    have hlt := Nat.lt_of_lt_of_le ht hg.tasks.length_le
    exact nears_play hlt hn (nears_parted hlt hpos _ _)

theorem nears_shaken (ht : t < w.tasks.length) (hn : 1 < n) (c : ConnId) (o : Outcome) :
    (w.shaken t q c o).Nears t q n := by
  cases o with
  | crash text => exact nears_finish _ _
  | fail e => exact nears_failAttempt _ _ _
  | succeed =>
    simp only [shaken]
    split
    · exact nears_finish _ _
    · next conn hc =>
      have hg : w.Grows (w.arrive conn.remote.id) := .stirs (stirs_arrive (t := t) w _)
      have hlt := Nat.lt_of_lt_of_le ht hg.tasks.length_le
      split
      · exact nears_establish (w := w.arrive conn.remote.id) hlt hn _ _
      · exact nears_establish (w := ((w.arrive conn.remote.id).openConn _).1) hlt hn _ _

theorem nears_connected (ht : t < w.tasks.length) (hn : 2 < n) (o : Outcome) :
    (w.connected t q o).Nears t q n := by
  cases o with
  | crash text => exact nears_finish _ _
  | fail e => exact nears_failAttempt _ _ _
  | succeed =>
    simp only [connected]
    refine nears_play ?_ hn (nears_shaken ?_ (Nat.lt_of_succ_lt hn) _ _)
    · exact ht
    · exact ht

/-- An attempt that goes on ends, or comes to a later stage. -/
theorem nears_pollAttempt (ht : t < w.tasks.length) (s : AttemptStage) :
    (w.pollAttempt t q s).Nears t q s.rank := by
  cases s with
  | entering =>
    exact nears_play (w := w.log _) ht (Nat.lt_succ_self 3)
      (nears_connected (w := w.log _) ht (Nat.lt_of_succ_lt (Nat.lt_succ_self 3)) _)
  | connecting o => exact nears_connected ht (Nat.lt_succ_self 2) o
  | shaking c o => exact nears_shaken ht (Nat.lt_succ_self 1) c o
  | partingFrom c o => exact nears_parted ht Nat.one_pos c o
  | discarding r o => exact nears_discarded w o

theorem isFinished_poll_cancelled {task : Task} (ht : w.tasks[t]? = some task)
    (hf : w.isFinished t = false) (hc : task.isCancelled = true) :
    (w.poll t).isFinished t = true := by
  rw [poll_abandon ht hf hc]
  exact isFinished_finish _ _ _

theorem Pends.nears {s : AttemptStage} (h : w.Pends t (.attempt q s) due) :
    (w.poll t).Nears t q s.rank := by
  obtain ⟨task, ht, hj⟩ := h.task
  cases hc : task.isCancelled with
  | true => exact .inl (isFinished_poll_cancelled ht h.going hc)
  | false =>
    rw [poll_resume ht h.going hc, hj]
    exact nears_pollAttempt (w := { w with ready := w.ready.erase t }) h.lt s

theorem after_poll (ha : acts n = .poll x) (hx : x ∈ (w.after acts n).ready) :
    w.after acts (n + 1) = (w.after acts n).poll x := by
  rw [Overlay.after, ha, Overlay.act, if_pos hx]

/-- In a fair run, each attempt comes to an end. -/
theorem Fair.attempt_ends (h : w.Fair acts) (hs : w.Sound) {s : AttemptStage}
    (hp : (w.after acts n).Pends t (.attempt q s) due) :
    ∃ m, n ≤ m ∧ (w.after acts m).isFinished t = true := by
  induction hr : s.rank using Nat.strong_induction_on generalizing n s due with
  | _ rank ih =>
    obtain ⟨m, hm, ha, hx, hpm⟩ := h.goes hs hp
    have hn := hpm.nears
    rw [← after_poll ha hx, hr] at hn
    have hle := Nat.le_succ_of_le hm
    cases hf : (w.after acts (m + 1)).isFinished t with
    | true => exact ⟨m + 1, hle, hf⟩
    | false =>
      rcases hn with hn | ⟨s', due', hlt, htask, hw⟩
      · exact absurd (hn.symm.trans hf) (by simp)
      · obtain ⟨k, hk, hend⟩ := ih _ hlt ⟨htask, hf, hw⟩ rfl
        exact ⟨k, Nat.le_trans hle hk, hend⟩

/-! ## Guards come to an end -/

/-- What does not hold at first and does later came about at some moment. -/
theorem exists_change {P : Nat → Prop} {m : Nat} (hn : ¬P n) (hm : P m) (hle : n ≤ m) :
    ∃ k, n ≤ k ∧ k < m ∧ ¬P k ∧ P (k + 1) := by
  induction hle with
  | refl => exact absurd hm hn
  | @step m hle ih =>
    by_cases hp : P m
    · obtain ⟨k, hk, hlt, hno, hyes⟩ := ih hp
      exact ⟨k, hk, Nat.lt_succ_of_lt hlt, hno, hyes⟩
    · exact ⟨m, hle, Nat.lt_succ_self m, hp, hm⟩

/-- When a task ends, the one that waits for it is ready unless it has ended. -/
theorem Sound.tells_parent (h : w.Sound) {a : Act} {parent : TaskId} {role : Role}
    (hp : w.Plays x role (some parent)) (hf : w.isFinished x = false)
    (hf' : (w.act a).isFinished x = true) :
    (w.act a).isFinished parent = true ∨ parent ∈ (w.act a).ready := by
  have hlt := lt_of_role? hp.role?
  have ha : a = .poll x := by
    by_contra hne
    rw [isFinished, (h.still_act hne hlt).2] at hf'
    exact absurd (hf'.symm.trans hf) (by simp)
  subst ha
  simp only [Overlay.act] at hf' ⊢
  split
  · next hx =>
    rw [if_pos hx] at hf'
    obtain ⟨v, hv, he⟩ := h.poll_turns x
    obtain ⟨task, ht, -, hpar⟩ := hp.mono (Grows.moves hv)
    have hfv := (Moves.isFinished hv x).trans hf
    rcases he with he | ⟨e, he⟩
    · exact absurd (hf'.symm.trans (he ▸ hfv)) (by simp)
    · obtain ⟨rs, hfin, hr⟩ := v.finish_eq x e
      rw [he, hfin]
      by_cases hend : (w.poll x).isFinished parent = true
      · left
        rwa [he, hfin] at hend
      · rw [he, hfin] at hend
        refine .inr (hr.wakes parent ?_ (Bool.eq_false_iff.mpr hend))
        simp [parent?, ht, hpar]
  · next hx =>
    rw [if_neg hx] at hf'
    exact absurd (hf'.symm.trans hf) (by simp)

/-- A guard that goes on before its attempt has started starts it. -/
theorem Pends.engages {slot : Nat} {p : PeerAddress} (h : w.Pends x (.guardAttempt slot p none) due)
    (hs : w.Sound) : (w.poll x).isFinished x = true ∨
      ∃ a, (w.poll x).Guards x a p ∧ (w.poll x).Pends a (.attempt p .entering) 0 := by
  obtain ⟨task, ht, hj⟩ := h.task
  cases hc : task.isCancelled with
  | true => exact .inl (isFinished_poll_cancelled ht h.going hc)
  | false =>
    rw [poll_resume ht h.going hc, hj]
    refine .inr ⟨w.tasks.length, engaged_guards (w := { w with ready := w.ready.erase x }) ht,
      ⟨_, engaged_new (w := { w with ready := w.ready.erase x }) h.lt, rfl⟩, ?_, .inl ?_⟩
    · exact not_isFinished_of_le hs.exits (Nat.le_refl _)
    · exact List.mem_append_right _ (List.mem_singleton_self _)

/-- A guard that goes on after its attempt has ended ends. -/
theorem Pends.tells {slot : Nat} {p : PeerAddress} {a : TaskId}
    (h : w.Pends x (.guardAttempt slot p (some a)) due) (ha : w.isFinished a = true) :
    (w.poll x).isFinished x = true := by
  obtain ⟨task, ht, hj⟩ := h.task
  cases hc : task.isCancelled with
  | true => exact isFinished_poll_cancelled ht h.going hc
  | false =>
    obtain ⟨e, he⟩ := Option.isSome_iff_exists.mp ha
    have he' : ({ w with ready := w.ready.erase x } : Overlay).exit? a = some e := he
    obtain ⟨v, e', hv, -⟩ := pollGuard_ended (t := x) (i := slot) (p := p) he'
    rw [poll_resume ht h.going hc, hj, resume, hv]
    exact isFinished_finish _ _ _

theorem tasks_pollGuard_some (w : Overlay) (slot : Nat) (p : PeerAddress) (a : TaskId) :
    (w.pollGuard x slot p (some a)).tasks = w.tasks := by
  cases he : w.exit? a with
  | none => simp only [pollGuard, he]
  | some e =>
    obtain ⟨v, e', hv, hvw, -⟩ := pollGuard_ended (t := x) (i := slot) (p := p) he
    rw [hv, tasks_finish]
    rcases hvw with rfl | rfl
    · rfl
    · exact tasks_markFailed w p

/-- A guard that has started its attempt guards no other. -/
theorem Sound.guards_act (h : w.Sound) {a : TaskId} (hg : w.Guards x a q) (act : Act) :
    (w.act act).Guards x a q := by
  obtain ⟨task, slot, ht, hj⟩ := hg
  have hlt := (List.getElem?_eq_some_iff.mp ht).1
  by_cases hx : act = .poll x
  · subst hx
    have htasks : (w.act (.poll x)).tasks = w.tasks := by
      simp only [Overlay.act]
      split
      · cases hf : w.isFinished x with
        | true => rw [poll_finished hf]
        | false =>
          cases hc : task.isCancelled with
          | true =>
            rw [poll_abandon ht hf hc, hj]
            exact tasks_finish _ _ _
          | false =>
            rw [poll_resume ht hf hc, hj]
            exact tasks_pollGuard_some { w with ready := w.ready.erase x } slot q a
      · rfl
    exact ⟨task, slot, htasks ▸ ht, hj⟩
  · have hlt' := Nat.lt_of_lt_of_le hlt (h.grows_act act).tasks.length_le
    have hb := List.getElem?_eq_getElem hlt'
    obtain ⟨before, ht', he⟩ := (h.still_act hx hlt).1 _ hb
    obtain rfl := Option.some.inj (ht.symm.trans ht')
    exact ⟨_, slot, hb, he.trans hj⟩

theorem Sound.guards_after (h : w.Sound) {a : TaskId} {m : Nat} (hnm : n ≤ m)
    (hg : (w.after acts n).Guards x a q) : (w.after acts m).Guards x a q := by
  induction hnm with
  | refl => exact hg
  | step _ ih => exact (h.after acts _).guards_act ih _

/-- In a fair run, each guard comes to an end. -/
theorem Fair.guard_ends (h : w.Fair acts) (hs : w.Sound) {slot : Nat} {p : PeerAddress}
    (hp : (w.after acts n).Pends x (.guardAttempt slot p none) due) :
    ∃ m, n ≤ m ∧ (w.after acts m).isFinished x = true := by
  obtain ⟨m, hm, ha, hx, hpm⟩ := h.goes hs hp
  have hstart := hpm.engages (hs.after acts m)
  rw [← after_poll ha hx] at hstart
  have hm' := Nat.le_succ_of_le hm
  rcases hstart with hend | ⟨a, hgu, hpa⟩
  · exact ⟨m + 1, hm', hend⟩
  obtain ⟨k, hk, hka⟩ := h.attempt_ends hs hpa
  obtain ⟨j, hj, -, hno, hyes⟩ := exists_change
    (P := fun j => (w.after acts j).isFinished a = true) (by simp [hpa.going]) hka hk
  have hguj := hs.guards_after hj hgu
  have hplays := (hs.after acts j).toLinked.attempt_of_guards hguj
  have hj' := Nat.le_trans hm' (Nat.le_succ_of_le hj)
  rcases (hs.after acts j).tells_parent (a := acts j) hplays (Bool.eq_false_iff.mpr hno) hyes with
    hend | hready
  · exact ⟨j + 1, hj', hend⟩
  cases hf : (w.after acts (j + 1)).isFinished x with
  | true => exact ⟨j + 1, hj', hf⟩
  | false =>
    obtain ⟨task, slot', ht, hjob⟩ := hs.guards_after (Nat.le_succ_of_le hj) hgu
    obtain ⟨i, hi, hai, hxi, hpi⟩ := h.goes hs
      (show (w.after acts (j + 1)).Pends x _ 0 from ⟨⟨task, ht, hjob⟩, hf, .inl hready⟩)
    have hend := hpi.tells ((hs.grows_after acts hi).isFinished hyes)
    rw [← after_poll hai hxi] at hend
    exact ⟨i + 1, Nat.le_trans hj' (Nat.le_succ_of_le hi), hend⟩

/-! ## Who waits for others -/

/-- If each of some tasks ends, there is a moment at which they all have. -/
theorem Sound.all_end (hs : w.Sound) {as : List TaskId}
    (h : ∀ g ∈ as, ∃ m, n ≤ m ∧ (w.after acts m).isFinished g = true) :
    ∃ m, n ≤ m ∧ ∀ g ∈ as, (w.after acts m).isFinished g = true := by
  induction as with
  | nil => exact ⟨n, Nat.le_refl n, by simp⟩
  | cons g as ih =>
    obtain ⟨m, hm, hg⟩ := h g List.mem_cons_self
    obtain ⟨k, hk, hall⟩ := ih fun b hb => h b (List.mem_cons_of_mem g hb)
    refine ⟨max m k, Nat.le_trans hm (Nat.le_max_left m k), fun b hb => ?_⟩
    rcases List.mem_cons.mp hb with rfl | hb
    · exact (hs.grows_after acts (Nat.le_max_left m k)).isFinished hg
    · exact (hs.grows_after acts (Nat.le_max_right m k)).isFinished (hall b hb)

/-- In a fair run, whoever waits for the tasks that it has started goes on when the last of them has
ended. -/
theorem Fair.waits_for (h : w.Fair acts) (hs : w.Sound) {as : List TaskId} {P : Overlay → Prop}
    (hn : P (w.after acts n))
    (hkeep : ∀ m, n ≤ m → P (w.after acts m) → (acts m = .poll t → t ∈ (w.after acts m).ready →
      ∃ a ∈ as, (w.after acts m).isFinished a = false) → P (w.after acts (m + 1)))
    (hgo : ∀ v, P v → v.isFinished t = false)
    (hplays : ∀ v, P v → ∀ a ∈ as, ∃ role, v.Plays a role (some t))
    (hend : ∀ a ∈ as, ∃ m, n ≤ m ∧ (w.after acts m).isFinished a = true)
    (hbegin : ∃ a ∈ as, (w.after acts n).isFinished a = false) :
    ∃ m, n ≤ m ∧ acts m = .poll t ∧ t ∈ (w.after acts m).ready ∧ P (w.after acts m) ∧
      ∀ a ∈ as, (w.after acts m).isFinished a = true := by
  by_contra hno
  have hstay : ∀ m, n ≤ m → P (w.after acts m) := by
    intro m hm
    induction hm with
    | refl => exact hn
    | @step m hm ih =>
      refine hkeep m hm ih fun hpoll hready => ?_
      by_contra hall
      exact hno ⟨m, hm, hpoll, hready, ih, by simpa using hall⟩
  obtain ⟨m, hm, hall⟩ := hs.all_end hend
  obtain ⟨k, hk, -, hbefore, hafter⟩ := exists_change
    (P := fun k => ∀ a ∈ as, (w.after acts k).isFinished a = true)
    (fun hall => by
      obtain ⟨a, ha, hf⟩ := hbegin
      exact absurd (hf.symm.trans (hall a ha)) (by simp)) hall hm
  obtain ⟨a, ha, hf⟩ : ∃ a ∈ as, (w.after acts k).isFinished a = false := by simpa using hbefore
  -- the last one wakes the one that waits
  have hpk := hstay (k + 1) (Nat.le_succ_of_le hk)
  obtain ⟨role, hrole⟩ := hplays _ (hstay k hk) a ha
  have hready : t ∈ (w.after acts (k + 1)).ready :=
    ((hs.after acts k).tells_parent hrole hf (hafter a ha)).resolve_left
      (Bool.eq_false_iff.mp (hgo _ hpk))
  have ht := List.getElem?_eq_getElem ((hs.after acts (k + 1)).ready t hready)
  obtain ⟨i, hi, hpoll, hreadyi, -⟩ := h.goes hs
    (show (w.after acts (k + 1)).Pends t _ 0 from ⟨⟨_, ht, rfl⟩, hgo _ hpk, .inl hready⟩)
  have hni := Nat.le_trans (Nat.le_succ_of_le hk) hi
  refine hno ⟨i, hni, hpoll, hreadyi, hstay i hni, fun b hb => ?_⟩
  exact (hs.grows_after acts hi).isFinished (hafter b hb)

end Overlay

end RelayUpkeep
