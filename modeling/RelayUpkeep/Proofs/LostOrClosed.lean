import RelayUpkeep.Proofs.Bystanders
import RelayUpkeep.Proofs.Notices

/-! # An open connection is lost or closed, never both

A relay over an open connection that is shut down closes that connection, unless it was lost before.
Whichever comes first settles what all the others come to: of the shutdowns, at most one closes the
connection and answers for it, and nobody is told of a loss after that.
-/

namespace RelayUpkeep

open CloseSignal (Deed)

theorem CloseSignal.leads_apply {α : Type} (s : CloseSignal α) (d : Deed α) :
    s.Leads (s.apply d).1 := by
  rcases s with listener | (_ | _) | _
  · exact .live _ _
  · cases d <;> exact .unheard _
  · cases d <;> exact .heard
  · cases d <;> exact .shutDown

namespace Overlay

variable {t : TaskId} {u v w : Overlay} {kind : RelayKind} {peer : PeerAddress} {close : Script}
  {s : CloseSignal CloseListener} {due : Nat} {o : Outcome}

/-! ## The states of a run are sound -/

/-- At the start there is the watcher, and nothing is to be done. -/
theorem sound_oneRelay (peer : PeerAddress) (close : Script) :
    (Scenario.oneRelay .openTcp peer close).Sound := by
  have hl := linked_start {} peer
  have hq := queued_start {} peer
  rw [oneRelay_eq]
  have htask : ∀ {t : TaskId} {task : Task},
      ([⟨.watch 0, none, false⟩] : List Task)[t]? = some task →
        t = 0 ∧ task = ⟨.watch 0, none, false⟩ := by
    intro t task ht
    cases t with
    | zero => exact ⟨rfl, (Option.some.inj ht).symm⟩
    | succ t => exact absurd ht (by simp)
  refine ⟨{ hl with
      refers := ?_, parents := ?_, gate := ?_, watches := ?_, tends := ?_, pooled := ?_ },
    { hq with ready := ?_, exits := ?_, timers := ?_ }⟩
  · intro t task ht
    obtain ⟨-, rfl⟩ := htask ht
    trivial
  · intro t task p ht hp
    obtain ⟨-, rfl⟩ := htask ht
    exact absurd hp (by simp)
  · rintro a (ha | ha)
    · exact absurd ha (by simp [start, Manager.new, FairLock.free])
    · exact absurd ha (by simp [start, Manager.new, FairLock.free])
  · intro t r hr
    obtain ⟨task, ht, hw⟩ := role?_eq_some.mp hr
    obtain ⟨rfl, rfl⟩ := htask ht
    obtain rfl : 0 = r := by simpa [Job.role] using hw
    exact ⟨_, rfl, rfl⟩
  · intro r relay hr
    cases r with
    | zero =>
      obtain rfl := Option.some.inj hr
      exact ⟨0, 0, rfl, Nat.one_pos, rfl, _, rfl, rfl, rfl⟩
    | succ r => exact absurd hr (by simp)
  · intro m hm
    exact absurd hm (by simp [start, Manager.new, Pool.empty])
  · intro t ht
    exact absurd ht (by simp [start])
  · intro x hx
    exact absurd hx (by simp [start])
  · intro x hx
    exact absurd hx (by simp [start])

theorem Grows.signalled (h : w.Solitary kind peer close s) (d : Deed CloseListener)
    (more : List Entry) :
    w.Grows { w.setSignal 0 (s.apply d).1 with journal := w.journal ++ more } := by
  have hset : w.Grows (w.setSignal 0 (s.apply d).1) := by
    refine .setSignal fun relay hr => ?_
    obtain rfl := Option.some.inj (h.relay.symm.trans hr)
    exact lonely_signal ▸ CloseSignal.leads_apply s d
  exact { hset with journal := List.prefix_append _ _ }

/-- What is done to the signal of a relay is no matter of the tasks and the queues. -/
theorem Sound.signalled (h : w.Sound) (hs : w.Solitary kind peer close s)
    (d : Deed CloseListener) (more : List Entry) :
    ({ w.setSignal 0 (s.apply d).1 with journal := w.journal ++ more } : Overlay).Sound :=
  ⟨h.toLinked.of_keeps (.signalled hs d more) (.of_eq rfl) (List.length_modify _ _ _) rfl rfl,
    { h.toQueued with }⟩

theorem Sound.grows_linkAct (h : w.Sound) (hs : w.Solitary kind peer close s) (a : LinkAct) :
    w.Grows (w.linkAct a) ∧ (w.linkAct a).Sound := by
  have ht := hs.takes a
  obtain ⟨v, hv⟩ : ∃ v, v = w.linkAct a := ⟨_, rfl⟩
  generalize w.deed? a = d at ht
  rw [← hv] at ht ⊢
  cases ht with
  | @goes t => exact hv ▸ ⟨h.grows_act (.poll t), h.act (.poll t)⟩
  | idles => exact ⟨.refl w, h⟩
  | elapses ms => exact ⟨h.grows_act (.elapse ms), h.act (.elapse ms)⟩
  | drops => exact ⟨h.grows_act (.dropConn 0), h.act (.dropConn 0)⟩
  | signals => exact ⟨.signalled hs _ _, h.signalled hs _ _⟩
  | calls => exact ⟨.spawn w _ _, h.spawn (fun _ _ => trivial) fun r => by simp [Job.role]⟩
  | givesUp hc => exact ⟨.cancel w _, h.cancel (isCall_lt hc)⟩
  | releases => exact ⟨{ Grows.refl w with }, { h.toLinked with }, { h.toQueued with }⟩

/-! ## What others leave as it is -/

/-- Task `t` stands as it did. -/
structure Untouched (t : TaskId) (u v : Overlay) : Prop where
  task : v.tasks[t]? = u.tasks[t]?
  exit : v.exit? t = u.exit? t
  timers : ∀ d, (⟨d, t⟩ : Timer) ∈ v.timers ↔ (⟨d, t⟩ : Timer) ∈ u.timers
  ready : t ∈ v.ready ↔ t ∈ u.ready
  clock : v.clock = u.clock

namespace Untouched

variable {a : TaskId}

theorem of_eq (htask : v.tasks = u.tasks) (hexit : v.exits = u.exits)
    (htimers : v.timers = u.timers) (hready : v.ready = u.ready) (hclock : v.clock = u.clock) :
    Untouched t u v :=
  ⟨by rw [htask], by rw [exit?, hexit, ← exit?], fun d => by rw [htimers], by rw [hready], hclock⟩

theorem trans (h : Untouched t u v) (h' : Untouched t v w) : Untouched t u w where
  task := h'.task.trans h.task
  exit := h'.exit.trans h.exit
  timers d := (h'.timers d).trans (h.timers d)
  ready := h'.ready.trans h.ready
  clock := h'.clock.trans h.clock

theorem rest (w : Overlay) (ha : t ≠ a) : Untouched t w { w with ready := w.ready.erase a } :=
  { of_eq rfl rfl rfl rfl rfl with ready := List.mem_erase_of_ne ha }

theorem rouse {ts rs : List TaskId} (h : w.Rouses ts rs) (ht : t ∉ ts) :
    Untouched t w { w with ready := rs } :=
  { of_eq rfl rfl rfl rfl rfl with
    ready := ⟨fun hr => (h.only t hr).resolve_right ht, h.keeps t⟩ }

theorem finish (hp : w.parent? a = none) (ha : t ≠ a) (e : Exit) :
    Untouched t w (w.finish a e) := by
  have hfinish : w.finish a e = { w with
      exits := w.exits ++ [(a, e)], timers := w.timers.filter (·.task ≠ a) } := by
    unfold Overlay.finish
    simp only [parent?] at hp ⊢
    rw [hp]
  rw [hfinish]
  refine { of_eq rfl rfl rfl rfl rfl with exit := ?_, timers := fun d => ?_ }
  · have hne : (t == a) = false := by simpa using ha
    rw [exit?_append (w := w) rfl]
    simp [List.lookup_cons, hne]
  · simp [List.mem_filter, ha]

theorem cancel (w : Overlay) (ha : t ≠ a) : Untouched t w (w.cancel a) := by
  rcases w.cancel_eq a with ⟨-, h⟩ | ⟨-, rs, h, hr⟩ <;> rw [h]
  · exact of_eq rfl rfl rfl rfl rfl
  · refine (rouse hr (by simpa using ha)).trans
      { of_eq (u := { w with ready := rs }) rfl rfl rfl rfl rfl with task := ?_ }
    exact List.getElem?_modify_ne _ _ ha.symm

theorem dropConn {c : ConnId} (ht : t ∉ w.watchersOf c) : Untouched t w (w.dropConn c) := by
  rcases w.dropConn_eq c with ⟨-, h⟩ | ⟨-, rs, h, hr⟩ <;> rw [h]
  · exact of_eq rfl rfl rfl rfl rfl
  · exact (rouse hr ht).trans (of_eq (u := { w with ready := rs }) rfl rfl rfl rfl rfl)

theorem sleep (w : Overlay) (ha : t ≠ a) (job : Job) (delay : Nat) :
    Untouched t w (w.sleep a job delay) where
  task := List.getElem?_modify_ne _ _ ha.symm
  exit := rfl
  timers d := by simp [Overlay.sleep, setJob, ha]
  ready := .rfl
  clock := rfl

end Untouched

namespace Solitary

/-- Whoever shuts a relay down is not its watcher. -/
theorem ne_watcher (h : w.Solitary .openTcp peer close s) (hs : w.Sound) {task : Task}
    {pending : Option Outcome} (ht : w.tasks[t]? = some task)
    (hj : task.job = .closeRelay 0 pending) : t ≠ 0 := by
  rintro rfl
  have hr := hs.role?_watcher h.relay rfl
  obtain ⟨task', ht', hrole⟩ := role?_eq_some.mp hr
  obtain rfl := Option.some.inj (ht.symm.trans ht')
  exact absurd hrole (by simp [hj, Job.role])

theorem watchersOf (h : w.Solitary .openTcp peer close s) : w.watchersOf 0 = [0] := by
  simp [Overlay.watchersOf, h.relays, lonely]

theorem untouched_dropConn (h : w.Solitary .openTcp peer close s) (h0 : t ≠ 0) :
    Untouched t w (w.dropConn 0) :=
  .dropConn (by simpa [h.watchersOf] using h0)

theorem untouched_hangUp (h : w.Solitary .openTcp peer close s) (h0 : t ≠ 0) :
    Untouched t w (w.hangUp peer) := by
  have hset : Untouched t w (w.setSignal 0 .shutDown) := .of_eq rfl rfl rfl rfl rfl
  have hlog : Untouched t ((w.setSignal 0 .shutDown).cancel 0)
      (((w.setSignal 0 .shutDown).cancel 0).log (.close 0 peer)) := .of_eq rfl rfl rfl rfl rfl
  have hs : (((w.setSignal 0 .shutDown).cancel 0).log (.close 0 peer)).Solitary .openTcp peer close
      .shutDown := { (h.setSignal .shutDown).cancel 0 with }
  exact ((hset.trans (.cancel _ h0)).trans hlog).trans (hs.untouched_dropConn h0)

/-- Another shutdown takes its first step. -/
theorem untouched_shut (h : w.Solitary .openTcp peer close s) (h0 : t ≠ 0) {a : TaskId}
    (ha : t ≠ a) : Untouched t w (w.pollCloseRelay a 0 none) := by
  cases s with
  | live l =>
    rw [h.pollCloseRelay_openTcp]
    unfold Overlay.play
    split
    · exact (h.untouched_hangUp h0).trans (.finish (h.hangUp.solitary.parent?_eq_none a) ha _)
    · exact (h.untouched_hangUp h0).trans (.sleep _ ha _ _)
  | lost | shutDown =>
    rw [pollCloseRelay_eq, h.shutRelay_closed rfl]
    exact .finish (h.parent?_eq_none a) ha _

theorem untouched_go (h : w.Solitary .openTcp peer close s) (h0 : t ≠ 0) {a : TaskId}
    {d : Option (Deed CloseListener)} (ha : t ≠ a) (hg : w.Goes a d v) : Untouched t w v := by
  have hrest := h.rested a
  have hr : Untouched t w (w.rested a) := .rest w ha
  cases hg with
  | misses => exact .of_eq rfl rfl rfl rfl rfl
  | rests => exact hr
  | ends e => exact hr.trans (.finish (hrest.parent?_eq_none a) ha e)
  | loses e =>
    have hlose := hrest.lose.solitary.parent?_eq_none a
    rw [hrest.lose_eq] at hlose ⊢
    refine (hr.trans ?_).trans (.finish hlose ha e)
    exact .of_eq rfl rfl rfl rfl rfl
  | shuts => exact hr.trans (hrest.untouched_shut h0 ha)

/-- Only its own steps, being given up, and time are matters of a shutdown. -/
theorem untouched (h : w.Solitary .openTcp peer close s) (h0 : t ≠ 0) (hlt : t < w.tasks.length)
    {a : LinkAct} (hgo : a ≠ .go t) (hgive : a ≠ .giveUp t) (htime : ∀ ms, a ≠ .elapse ms) :
    Untouched t w (w.linkAct a) := by
  have ht := h.takes a
  generalize w.deed? a = d at ht
  generalize w.linkAct a = v at ht ⊢
  cases ht with
  | goes hg => exact h.untouched_go h0 (fun hb => hgo (hb ▸ rfl)) hg
  | elapses ms => exact absurd rfl (htime ms)
  | drops => exact h.untouched_dropConn h0
  | calls =>
    exact { Untouched.of_eq (u := w) rfl rfl rfl rfl rfl with
      task := List.getElem?_append_left hlt
      ready := by simp [spawn, Nat.ne_of_lt hlt] }
  | givesUp => exact .cancel w fun hb => hgive (hb ▸ rfl)
  | idles | signals | releases => exact .of_eq rfl rfl rfl rfl rfl

end Solitary

/-! ## Sleepers -/

/-- Nobody goes to sleep. -/
structure NoSleep (u v : Overlay) : Prop where
  timers : ∀ x ∈ v.timers, x ∈ u.timers
  jobs : Evolves (fun _ => SameJob) u.tasks v.tasks

namespace NoSleep

theorem of_eq (htimers : v.timers = u.timers) (htasks : v.tasks = u.tasks) : u.NoSleep v :=
  ⟨fun _ hx => htimers ▸ hx, htasks ▸ .refl (fun _ => .refl) _⟩

theorem trans (h : u.NoSleep v) (h' : v.NoSleep w) : u.NoSleep w :=
  ⟨fun x hx => h.timers x (h'.timers x hx), h.jobs.trans (fun _ _ _ _ hx hy => hy.trans hx) h'.jobs⟩

theorem finish (w : Overlay) (t : TaskId) (e : Exit) : w.NoSleep (w.finish t e) := by
  obtain ⟨rs, h, -⟩ := w.finish_eq t e
  rw [h]
  exact ⟨fun x hx => List.mem_of_mem_filter hx, .refl (fun _ => .refl) _⟩

theorem cancel (w : Overlay) (t : TaskId) : w.NoSleep (w.cancel t) := by
  rcases w.cancel_eq t with ⟨-, h⟩ | ⟨-, rs, h, -⟩ <;> rw [h]
  · exact of_eq rfl rfl
  · exact ⟨fun _ hx => hx, .modify (fun _ => .refl) fun _ _ => rfl⟩

theorem dropConn (w : Overlay) (c : ConnId) : w.NoSleep (w.dropConn c) := by
  rcases w.dropConn_eq c with ⟨-, h⟩ | ⟨-, rs, h, -⟩ <;> rw [h] <;> exact of_eq rfl rfl

theorem hangUp (w : Overlay) (peer : PeerAddress) : w.NoSleep (w.hangUp peer) := by
  have hset : w.NoSleep (w.setSignal 0 .shutDown) := of_eq rfl rfl
  have hlog : ((w.setSignal 0 .shutDown).cancel 0).NoSleep
      (((w.setSignal 0 .shutDown).cancel 0).log (.close 0 peer)) := of_eq rfl rfl
  exact ((hset.trans (cancel _ 0)).trans hlog).trans (dropConn _ 0)

theorem advanceTo (w : Overlay) (clock : Nat) : w.NoSleep (w.advanceTo clock) := by
  obtain ⟨rs, h, -⟩ := w.advanceTo_eq clock
  rw [h]
  exact ⟨fun x hx => List.mem_of_mem_filter hx, .refl (fun _ => .refl) _⟩

end NoSleep

/-- Whoever sleeps waits for the connection to be closed. -/
def Timed (w : Overlay) : Prop := ∀ x ∈ w.timers, ∃ (task : Task) (o : Outcome),
  w.tasks[x.task]? = some task ∧ task.job = .closeRelay 0 (some o)

theorem Timed.noSleep (h : u.Timed) (hn : u.NoSleep v) : v.Timed := by
  intro x hx
  obtain ⟨before, o, hb, hj⟩ := h x (hn.timers x hx)
  obtain ⟨task, ht, hsame⟩ := hn.jobs _ before hb
  exact ⟨task, o, ht, hsame.trans hj⟩

theorem Timed.sleep (h : w.Timed) (hlt : t < w.tasks.length) (o : Outcome) (delay : Nat) :
    (w.sleep t (.closeRelay 0 (some o)) delay).Timed := by
  intro x hx
  simp only [Overlay.sleep, setJob, List.getElem?_modify, Option.map_eq_map,
    Option.map_eq_some_iff] at hx ⊢
  by_cases hxt : t = x.task
  · refine ⟨_, o, ⟨w.tasks[t], ?_, rfl⟩, by simp [hxt]⟩
    rw [← hxt, List.getElem?_eq_getElem hlt]
  · rcases List.mem_append.mp hx with hx | hx
    · obtain ⟨task, o', ht, hj⟩ := h x hx
      exact ⟨_, o', ⟨task, ht, rfl⟩, by simpa [hxt] using hj⟩
    · exact absurd (by rw [List.mem_singleton.mp hx]) hxt

theorem Timed.goes {d : Option (Deed CloseListener)} (h : w.Timed) (hg : w.Goes t d v)
    (hs : w.Solitary .openTcp peer close s) : v.Timed := by
  have hrest := hs.rested t
  have hr : w.NoSleep (w.rested t) := .of_eq rfl rfl
  cases hg with
  | misses => exact h
  | rests => exact h.noSleep hr
  | ends e => exact h.noSleep (hr.trans (.finish _ t e))
  | loses e =>
    rw [hrest.lose_eq]
    refine Timed.noSleep (h.noSleep (hr.trans ?_)) (.finish _ t e)
    exact .of_eq rfl rfl
  | shuts _ _ ht =>
    cases s with
    | live l =>
      have hhang := hr.trans (.hangUp (w.rested t) peer)
      rw [hrest.pollCloseRelay_openTcp, play]
      split
      · exact h.noSleep (hhang.trans (.finish _ t _))
      · refine (h.noSleep hhang).sleep ?_ _ _
        exact Nat.lt_of_lt_of_le (List.getElem?_eq_some_iff.mp ht).1 hhang.jobs.length_le
    | lost | shutDown =>
      rw [pollCloseRelay_eq, hrest.shutRelay_closed rfl]
      exact h.noSleep (hr.trans (.finish _ t _))

theorem Timed.linkAct (h : w.Timed) (hs : w.Solitary .openTcp peer close s) (a : LinkAct) :
    (w.linkAct a).Timed := by
  have ht := hs.takes a
  generalize w.deed? a = d at ht
  generalize w.linkAct a = v at ht ⊢
  cases ht with
  | goes hg => exact h.goes hg hs
  | elapses ms => exact h.noSleep (.advanceTo w _)
  | drops => exact h.noSleep (.dropConn w 0)
  | calls => exact h.noSleep ⟨fun _ hx => hx, .append (fun _ => .refl) _ _⟩
  | @givesUp t => exact h.noSleep (.cancel w t)
  | idles | signals | releases => exact h.noSleep (.of_eq rfl rfl)

/-! ## The shutdown that closes the connection -/

/-- Where shutdown `t` stands after it began to close the connection, which takes until `due` and
comes to `o`. It was asked to end only if it was given up. -/
inductive ClosesUntil (t : TaskId) (due : Nat) (o : Outcome) (given : Prop) (w : Overlay) : Prop
  | sleeps (c : Bool) (ht : w.tasks[t]? = some ⟨.closeRelay 0 (some o), none, c⟩)
      (hexit : w.exit? t = none) (htimers : ∀ d, (⟨d, t⟩ : Timer) ∈ w.timers ↔ d = due)
      (hclock : w.clock < due) (hready : t ∈ w.ready ↔ c = true) (hgiven : c = true → given)
  | wakes (c : Bool) (ht : w.tasks[t]? = some ⟨.closeRelay 0 (some o), none, c⟩)
      (hexit : w.exit? t = none) (hclock : due ≤ w.clock) (hready : t ∈ w.ready)
      (hgiven : c = true → given)
  | returned (hexit : w.exit? t = some o.exit) (hclock : due ≤ w.clock)
  | gone (hexit : w.exit? t = some .cancelled) (hgiven : given)

namespace ClosesUntil

variable {given given' : Prop}

theorem mono (h : ClosesUntil t due o given w) (hg : given → given') :
    ClosesUntil t due o given' w := by
  cases h with
  | sleeps c ht hexit htimers hclock hready hgiven =>
    exact .sleeps c ht hexit htimers hclock hready (hg ∘ hgiven)
  | wakes c ht hexit hclock hready hgiven =>
    exact .wakes c ht hexit hclock hready (hg ∘ hgiven)
  | returned hexit hclock => exact .returned hexit hclock
  | gone hexit hgiven => exact .gone hexit (hg hgiven)

theorem untouched (h : ClosesUntil t due o given u) (hu : Untouched t u v) :
    ClosesUntil t due o given v := by
  cases h with
  | sleeps c ht hexit htimers hclock hready hgiven =>
    exact .sleeps c (hu.task.trans ht) (hu.exit.trans hexit)
      (fun d => (hu.timers d).trans (htimers d)) (hu.clock ▸ hclock) (hu.ready.trans hready) hgiven
  | wakes c ht hexit hclock hready hgiven =>
    exact .wakes c (hu.task.trans ht) (hu.exit.trans hexit) (hu.clock ▸ hclock)
      (hu.ready.mpr hready) hgiven
  | returned hexit hclock => exact .returned (hu.exit.trans hexit) (hu.clock ▸ hclock)
  | gone hexit hgiven => exact .gone (hu.exit.trans hexit) hgiven

/-- A shutdown that was asked to end does when it goes on. -/
theorem exit?_go_cancelled {task : Task} (ht : w.tasks[t]? = some task)
    (hj : task.job = .closeRelay 0 (some o)) (hc : task.isCancelled = true)
    (hexit : w.exit? t = none) (hready : t ∈ w.ready) :
    (w.linkAct (.go t)).exit? t = some .cancelled := by
  have hf : w.isFinished t = false := by simp [isFinished, hexit]
  have hend : w.linkAct (.go t) = (w.rested t).finish t .cancelled := by
    simp only [linkAct, act, if_pos hready, poll_abandon ht hf hc, hj, abandon, rested]
  rw [hend]
  exact exit?_finish_self (w := w.rested t) hf _

/-- A shutdown whose closing is over returns what came of it when it goes on. -/
theorem go_returns {task : Task} (ht : w.tasks[t]? = some task)
    (hj : task.job = .closeRelay 0 (some o)) (hc : task.isCancelled = false)
    (hexit : w.exit? t = none) (hready : t ∈ w.ready) :
    (w.linkAct (.go t)).exit? t = some o.exit := by
  have hf : w.isFinished t = false := by simp [isFinished, hexit]
  have hend : w.linkAct (.go t) = (w.rested t).finish t o.exit := by
    simp only [linkAct, act, if_pos hready, poll_resume ht hf hc, hj, resume, pollCloseRelay,
      ended_eq, rested]
  rw [hend]
  exact exit?_finish_self (w := w.rested t) hf _

theorem go (h : ClosesUntil t due o given w) (hg : w.Grows (w.linkAct (.go t))) :
    ClosesUntil t due o given (w.linkAct (.go t)) := by
  cases h with
  | sleeps c ht hexit htimers hclock hready hgiven =>
    by_cases hr : t ∈ w.ready
    · have hc := hready.mp hr
      exact .gone (exit?_go_cancelled ht rfl hc hexit hr) (hgiven hc)
    · rw [linkAct, act, if_neg hr]
      exact .sleeps c ht hexit htimers hclock hready hgiven
  | wakes c ht hexit hclock hready hgiven =>
    cases hc : c with
    | true => exact .gone (exit?_go_cancelled ht rfl hc hexit hready) (hgiven hc)
    | false => exact .returned (go_returns ht rfl hc hexit hready) (hclock.trans hg.clock)
  | returned hexit hclock => exact .returned (hg.exit? hexit) (hclock.trans hg.clock)
  | gone hexit hgiven => exact .gone (hg.exit? hexit) hgiven

theorem giveUp (h : ClosesUntil t due o given w) (hg : w.Grows (w.linkAct (.giveUp t))) :
    ClosesUntil t due o True (w.linkAct (.giveUp t)) := by
  have hasked : ∀ c, w.tasks[t]? = some ⟨.closeRelay 0 (some o), none, c⟩ → w.exit? t = none →
      ∃ rs, w.linkAct (.giveUp t) = { w with
        tasks := w.tasks.modify t fun task => { task with isCancelled := true }, ready := rs } ∧
        t ∈ rs := by
    intro c ht hexit
    have hf : w.isFinished t = false := by simp [isFinished, hexit]
    have hcall : w.isCall t = true := by simp [isCall, ht]
    simp only [linkAct, act, hcall, if_true]
    rcases w.cancel_eq t with ⟨hf', -⟩ | ⟨-, rs, he, hr⟩
    · exact absurd (hf.symm.trans hf') (by simp)
    · exact ⟨rs, he, hr.wakes t (by simp) hf⟩
  cases h with
  | sleeps c ht hexit htimers hclock hready hgiven =>
    obtain ⟨rs, he, hr⟩ := hasked c ht hexit
    rw [he]
    exact .sleeps true (by simp [ht]) hexit htimers hclock (by simpa using hr) fun _ => trivial
  | wakes c ht hexit hclock hready hgiven =>
    obtain ⟨rs, he, hr⟩ := hasked c ht hexit
    rw [he]
    exact .wakes true (by simp [ht]) hexit hclock hr fun _ => trivial
  | returned hexit hclock => exact .returned (hg.exit? hexit) (hclock.trans hg.clock)
  | gone hexit hgiven => exact .gone (hg.exit? hexit) trivial

theorem elapse (h : ClosesUntil t due o given w) (ms : Nat) :
    ClosesUntil t due o given (w.linkAct (.elapse ms)) := by
  obtain ⟨rs, he, hr⟩ := w.advanceTo_eq (w.clock + ms)
  simp only [linkAct, act, he]
  cases h with
  | sleeps c ht hexit htimers hclock hready hgiven =>
    by_cases hd : due ≤ w.clock + ms
    · refine .wakes c ht hexit hd (hr.wakes t ?_ (by simp [isFinished, hexit])) hgiven
      exact List.mem_map.mpr ⟨⟨due, t⟩,
        List.mem_filter.mpr ⟨(htimers due).mpr rfl, by simpa using hd⟩, rfl⟩
    · have hno : t ∉ (w.timers.filter (·.due ≤ w.clock + ms)).map Timer.task := by
        rintro hm
        obtain ⟨⟨d, a⟩, hx, rfl⟩ := List.mem_map.mp hm
        obtain ⟨hx, hle⟩ := List.mem_filter.mp hx
        exact hd ((htimers d).mp hx ▸ by simpa using hle)
      refine .sleeps c ht hexit (fun d => ?_) (Nat.lt_of_not_le hd) ?_ hgiven
      · rw [List.mem_filter, htimers]
        constructor
        · exact And.left
        · rintro rfl
          exact ⟨rfl, by simpa using hd⟩
      · exact ⟨fun hm => hready.mp ((hr.only t hm).resolve_right hno),
          fun hc => hr.keeps t (hready.mpr hc)⟩
  | wakes c ht hexit hclock hready hgiven =>
    exact .wakes c ht hexit (Nat.le_trans hclock (Nat.le_add_right _ _)) (hr.keeps t hready) hgiven
  | returned hexit hclock =>
    exact .returned hexit (Nat.le_trans hclock (Nat.le_add_right _ _))
  | gone hexit hgiven => exact .gone hexit hgiven

theorem linkAct (h : ClosesUntil t due o given w) (hs : w.Solitary .openTcp peer close s)
    (h0 : t ≠ 0) (hlt : t < w.tasks.length) {a : LinkAct} (hg : w.Grows (w.linkAct a)) :
    ClosesUntil t due o (given ∨ a = .giveUp t) (w.linkAct a) := by
  by_cases hgive : a = .giveUp t
  · subst hgive
    exact (h.giveUp hg).mono fun _ => .inr rfl
  suffices hsame : ClosesUntil t due o given (w.linkAct a) from hsame.mono .inl
  by_cases hgo : a = .go t
  · subst hgo
    exact h.go hg
  by_cases htime : ∃ ms, a = .elapse ms
  · obtain ⟨ms, rfl⟩ := htime
    exact h.elapse ms
  · exact h.untouched (hs.untouched h0 hlt hgo hgive fun ms hms => htime ⟨ms, hms⟩)

theorem run (h : ClosesUntil t due o given w) (hs : w.Solitary .openTcp peer close s)
    (hw : w.Sound) (h0 : t ≠ 0) (hlt : t < w.tasks.length) (acts : List LinkAct) :
    ClosesUntil t due o (given ∨ .giveUp t ∈ acts) (w.linkRun acts) := by
  induction acts generalizing w s given with
  | nil => exact h.mono .inl
  | cons a acts ih =>
    obtain ⟨hg, hw'⟩ := hw.grows_linkAct hs a
    have hstep := ih (h.linkAct hs h0 hlt hg) (hs.does a).solitary hw'
      (Nat.lt_of_lt_of_le hlt hg.tasks.length_le)
    refine hstep.mono ?_
    rintro ((hgiven | rfl) | hm)
    · exact .inl hgiven
    · exact .inr (List.mem_cons_self ..)
    · exact .inr (List.mem_cons_of_mem _ hm)

end ClosesUntil

/-! ## First steps -/

theorem Goes.shuts_task (hg : w.Goes t (some .shut) v) :
    w.tasks[t]? = some ⟨.closeRelay 0 none, none, false⟩ := by
  cases hg with
  | shuts _ _ ht => exact ht

/-- A shutdown that finds the link closed has nothing to do. -/
theorem Goes.shuts_closed (hg : w.Goes t (some .shut) v) (h : w.Solitary kind peer close s)
    (hs : s.isClosed = true) : v.journal = w.journal ∧ v.exit? t = some .done := by
  cases hg with
  | shuts _ hf ht =>
    rw [pollCloseRelay_eq, (h.rested t).shutRelay_closed hs]
    exact ⟨journal_finish _ _ _, exit?_finish_self (w := w.rested t) hf _⟩

/-- A shutdown that finds the link open closes the connection, and returns when that is done. -/
theorem Goes.shuts_open {l : Option CloseListener} (hg : w.Goes t (some .shut) v)
    (h : w.Solitary .openTcp peer close (.live l)) (hw : w.Sound) (htimed : w.Timed) :
    v.journal = w.journal ++ [⟨w.clock, .close 0 peer⟩] ∧
      (close.delay = 0 → v.exit? t = some close.outcome.exit) ∧
      ClosesUntil t (w.clock + close.delay) close.outcome False v := by
  have hd := hg.does h
  refine ⟨hd.journal, ?_⟩
  cases hg with
  | shuts hr hf ht =>
    have hrest := h.rested t
    have h0 : t ≠ 0 := h.ne_watcher hw ht rfl
    have hu := hrest.untouched_hangUp h0
    rw [hrest.pollCloseRelay_openTcp]
    generalize (w.rested t).hangUp peer = x at hu
    have hnone : w.exit? t = none := by simpa [isFinished] using hf
    have hexit : x.exit? t = none := hu.exit.trans hnone
    have hclock : x.clock = w.clock := hu.clock
    have hawake : ∀ d, (⟨d, t⟩ : Timer) ∉ x.timers := by
      intro d hd
      obtain ⟨task, o, ht', hj⟩ := htimed _ ((hu.timers d).mp hd)
      obtain rfl := Option.some.inj (ht.symm.trans ht')
      exact absurd hj (by simp)
    have hrested : t ∉ x.ready := fun hm => hw.once.not_mem_erase (hu.ready.mp hm)
    unfold play
    split
    · next hz =>
      have hret := exit?_finish_self (w := x) (t := t) (by simp [isFinished, hexit])
        close.outcome.exit
      refine ⟨fun _ => hret, .returned hret ?_⟩
      obtain ⟨rs, he, -⟩ := x.finish_eq t close.outcome.exit
      change _ ≤ (x.finish t close.outcome.exit).clock
      rw [he, hz]
      exact Nat.le_of_eq hclock.symm
    · next hz =>
      refine ⟨fun hz' => absurd hz' hz, .sleeps false ?_ hexit (fun d => ?_) ?_ ?_ (by simp)⟩
      · have hx : x.tasks[t]? = some ⟨.closeRelay 0 none, none, false⟩ := hu.task.trans ht
        simp [sleep, setJob, hx]
      · simp [sleep, setJob, hawake, hclock]
      · exact hclock ▸ Nat.lt_add_of_pos_right (Nat.pos_of_ne_zero hz)
      · simpa [sleep, setJob] using hrested

/-- What a run keeps, and what its later acts rely on. -/
theorem Solitary.timed_run (h : w.Solitary .openTcp peer close s) (hw : w.Sound) (ht : w.Timed)
    (acts : List LinkAct) : (w.linkRun acts).Sound ∧ (w.linkRun acts).Timed := by
  induction acts generalizing w s with
  | nil => exact ⟨hw, ht⟩
  | cons a acts ih => exact ih (h.does a).solitary (hw.grows_linkAct h a).2 (ht.linkAct h a)

theorem Sound.grows_linkRun (hw : w.Sound) (h : w.Solitary kind peer close s)
    (acts : List LinkAct) : w.Grows (w.linkRun acts) := by
  induction acts generalizing w s with
  | nil => exact .refl w
  | cons a acts ih =>
    obtain ⟨hg, hw'⟩ := hw.grows_linkAct h a
    exact hg.trans (ih hw' (h.does a).solitary)

/-! ## Either or -/

/-- The calls that closed a connection, in their order. -/
def closeCalls (w : Overlay) : List Event := w.events.filter Event.isClose

theorem closeCalls_oneRelay (peer : PeerAddress) (close : Script) (acts : List LinkAct) :
    ((Scenario.oneRelay .openTcp peer close).linkRun acts).closeCalls =
      if ((Scenario.oneRelay .openTcp peer close).history acts).find? Deed.closes = some .shut then
        [.close 0 peer] else [] := by
  rw [closeCalls, events_oneRelay, seenAll_eq, List.filter_append]
  have hnotice : ∀ ls : List CloseListener,
      (ls.filterMap (CloseListener.notice? peer)).filter Event.isClose = [] := by
    intro ls
    rw [List.filter_eq_nil_iff]
    intro e he
    obtain ⟨l, -, hl⟩ := List.mem_filterMap.mp he
    cases l with
    | manager => exact absurd hl (by simp [CloseListener.notice?])
    | note =>
      obtain rfl := Option.some.inj hl
      simp [Event.isClose]
  rw [hnotice, List.nil_append]
  simp only [CloseSignal.isClosed, true_and]
  split <;> rfl

/-- How a shutdown stands that closed the connection: the closing goes on until `due`, or is over
and the shutdown returns when it goes on next, or it has returned, with what the closing came to. -/
inductive Returns (t : TaskId) (due : Nat) (o : Outcome) (w : Overlay) : Prop
  | waits (hexit : w.exit? t = none) (hclock : w.clock < due)
      (htimer : (⟨due, t⟩ : Timer) ∈ w.timers)
  | goesOn (hexit : w.exit? t = none) (hclock : due ≤ w.clock) (hready : t ∈ w.ready)
      (hnext : (w.linkAct (.go t)).exit? t = some o.exit)
  | returned (hexit : w.exit? t = some o.exit) (hclock : due ≤ w.clock)

theorem ClosesUntil.returns {given : Prop} (h : ClosesUntil t due o given w) (hg : ¬given) :
    Returns t due o w := by
  cases h with
  | sleeps c ht hexit htimers hclock hready hgiven =>
    exact .waits hexit hclock ((htimers due).mpr rfl)
  | wakes c ht hexit hclock hready hgiven =>
    have hc : c = false := by simpa using fun hc => hg (hgiven hc)
    exact .goesOn hexit hclock hready (ClosesUntil.go_returns ht rfl hc hexit hready)
  | returned hexit hclock => exact .returned hexit hclock
  | gone hexit hgiven => exact absurd hgiven hg

/-- Whatever has ended ended with what the closing came to, unless it was given up. -/
theorem ClosesUntil.exit {given : Prop} (h : ClosesUntil t due o given w) {e : Exit}
    (he : w.exit? t = some e) : e = o.exit ∨ e = .cancelled ∧ given := by
  cases h with
  | sleeps _ _ hexit | wakes _ _ hexit => exact absurd (he.symm.trans hexit) (by simp)
  | returned hexit => exact .inl (Option.some.inj (he.symm.trans hexit))
  | gone hexit hgiven => exact .inr ⟨Option.some.inj (he.symm.trans hexit), hgiven⟩

/-- An open connection is lost or closed, never both. The relay closes it once if a shutdown takes
its first step before a loss was noticed, and then nobody is ever told of a loss; otherwise it
never does. Of the shutdowns that take a first step, the one that finds no loss noticed and no
other shutdown before it closes the connection, and returns what the closing comes to, when that is
over, unless it is given up; each of the others leaves the connection alone and returns at once
that all is well. -/
theorem lost_or_closed (peer : PeerAddress) (close : Script) (acts : List LinkAct) :
    let start := Scenario.oneRelay .openTcp peer close
    let w := start.linkRun acts
    let shutFirst := ∃ before rest, start.history acts = before ++ .shut :: rest ∧ .lose ∉ before
    (shutFirst → w.closeCalls = [.close 0 peer] ∧ w.notified = []) ∧
    (¬shutFirst → w.closeCalls = []) ∧
    ∀ before t after, acts = before ++ .go t :: after →
      let u := start.linkRun before
      let v := u.linkAct (.go t)
      u.deed? (.go t) = some .shut →
      if (start.history before).any Deed.closes then
        v.journal = u.journal ∧ w.exit? t = some .done
      else
        v.journal = u.journal ++ [⟨u.clock, .close 0 peer⟩] ∧
        (close.delay = 0 → v.exit? t = some close.outcome.exit) ∧
        (.giveUp t ∉ after → Returns t (u.clock + close.delay) close.outcome w) ∧
        ∀ e, w.exit? t = some e →
          e = close.outcome.exit ∨ e = .cancelled ∧ .giveUp t ∈ after := by
  intro start w shutFirst
  have hfirst : (start.history acts).find? Deed.closes = some .shut ↔ shutFirst :=
    CloseSignal.find?_closes_eq_shut
  have hcalls : w.closeCalls = _ := closeCalls_oneRelay peer close acts
  refine ⟨fun hs => ?_, fun hs => ?_, ?_⟩
  · have hf := hfirst.mpr hs
    refine ⟨hcalls.trans (if_pos hf), (notified_oneRelay .openTcp peer close acts).trans ?_⟩
    cases hl : CloseSignal.chosen ((Scenario.oneRelay .openTcp peer close).history acts) with
    | none => rfl
    | some l => exact absurd (hf.symm.trans (CloseSignal.find?_of_chosen hl)) (by simp)
  · exact hcalls.trans (if_neg fun hf => hs (hfirst.mp hf))
  · rintro before t after rfl u v hd
    have hstart := solitary_oneRelay .openTcp peer close
    have hu := hstart.run before
    obtain ⟨hsound, htimed⟩ := hstart.timed_run (sound_oneRelay peer close)
      (fun _ hx => absurd hx (by rw [oneRelay_eq]; simp [Overlay.start])) before
    have hg : u.Goes t (some .shut) v := hd ▸ hu.goes t
    have hw : w = v.linkRun after := linkRun_append _ _ _
    obtain ⟨hgrows, hsound'⟩ := hsound.grows_linkAct hu (.go t)
    have hv := (hu.does (.go t)).solitary
    split
    · next hc =>
      have hs : ((CloseSignal.live none).after (start.history before)).isClosed = true := by
        rw [CloseSignal.isClosed_after, hc, Bool.or_true]
      obtain ⟨hj, he⟩ := hg.shuts_closed hu hs
      exact ⟨hj, hw ▸ (hsound'.grows_linkRun hv after).exit? he⟩
    · next hc =>
      rw [CloseSignal.after_of_open none (by simpa using hc)] at hu
      obtain ⟨hj, hreturn, hst⟩ := hg.shuts_open hu hsound htimed
      have ht := hg.shuts_task
      have hlt := Nat.lt_of_lt_of_le (List.getElem?_eq_some_iff.mp ht).1 hgrows.tasks.length_le
      have hend := hst.run hv hsound' (hu.ne_watcher hsound ht rfl) hlt after
      rw [← hw, false_or] at hend
      exact ⟨hj, hreturn, hend.returns, fun e he => hend.exit he⟩

example : ((Scenario.oneRelay .openTcp (.sample 1) ⟨5, .fail (.transport "reset")⟩).linkRun
    [.shutDown, .shutDown, .dropLink, .go 2, .go 1, .go 0, .elapse 5, .go 2]).exits =
      [(1, .done), (0, .cancelled), (2, .failed (.transport "reset"))] := by
  decide

end Overlay

end RelayUpkeep
