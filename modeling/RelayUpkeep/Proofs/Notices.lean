import RelayUpkeep.Proofs.LoneRelay

/-! # Who is told that a relay is lost

What can be seen of a relay by itself is told by the deeds that are done to its close signal. One
listener is told at most, and it is told that the relay is closed.
-/

namespace RelayUpkeep

open CloseSignal (Deed)

/-- A listener is told that a relay is closed. -/
def Event.isNotice : Event → Bool
  | notified .. => true
  | _ => false

/-- The crash of a listener that is called. -/
def CloseListener.crash? : CloseListener → Option Crash
  | manager => none
  | note label _ crashes => if crashes then some (.collaborator label) else none

namespace Overlay

variable {u v w : Overlay} {kind : RelayKind} {peer : PeerAddress} {close : Script}
  {s : CloseSignal CloseListener}

/-! ## What is seen of a run -/

def events (w : Overlay) : List Event := w.journal.map Entry.event

/-- What is seen of some deeds. -/
def seenAll (kind : RelayKind) (peer : PeerAddress) (s : CloseSignal CloseListener) :
    List (Deed CloseListener) → List Event
  | [] => []
  | d :: ds => seen kind peer s d ++ seenAll kind peer (s.apply d).1 ds

theorem Does.events {d : Option (Deed CloseListener)} (h : Does kind peer close s d u v) :
    v.events = u.events ++ seenAll kind peer s d.toList := by
  cases d <;> simp [Overlay.events, h.journal, seenAll, Function.comp_def]

theorem seenAll_append (ds ds' : List (Deed CloseListener)) :
    seenAll kind peer s (ds ++ ds') =
      seenAll kind peer s ds ++ seenAll kind peer (s.after ds) ds' := by
  induction ds generalizing s with
  | nil => rfl
  | cons d ds ih => simp [seenAll, ih, CloseSignal.after]

theorem Solitary.events_run (h : w.Solitary kind peer close s) (acts : List LinkAct) :
    (w.linkRun acts).events = w.events ++ seenAll kind peer s (w.history acts) := by
  induction acts generalizing w s with
  | nil => simp [history, seenAll]
  | cons a acts ih =>
    rw [linkRun_cons, ih (h.does a).solitary, (h.does a).events, history, seenAll_append,
      List.append_assoc]

/-- Of a link that closes, either a listener is told or, by a shutdown, the connection is closed. -/
theorem seenAll_eq (ds : List (Deed CloseListener)) :
    seenAll kind peer s ds = (s.called ds).filterMap (CloseListener.notice? peer) ++
      if kind = .openTcp ∧ s.isClosed = false ∧ ds.find? Deed.closes = some .shut then
        [.close 0 peer] else [] := by
  induction ds generalizing s with
  | nil => simp [seenAll, CloseSignal.called]
  | cons d ds ih =>
    rw [seenAll, ih, CloseSignal.called, CloseSignal.apply_isClosed]
    cases d with
    | attach l => simp [seen, Deed.closes]
    | lose => simp [seen, Deed.closes]
    | shut =>
      cases s with
      | live l =>
        simp [seen, Deed.closes, CloseSignal.apply, CloseSignal.shut, CloseSignal.isClosed,
          CloseSignal.called_of_told (.inr rfl)]
      | lost | shutDown =>
        simp [seen, CloseSignal.apply, CloseSignal.shut, CloseSignal.isClosed]

/-! ## Letting go -/

theorem isHeld_eq_false (h : w.manager.pool.contains 0 = false) : w.isHeld 0 = false ↔
    0 ∉ w.held ∧ ∀ (t : TaskId) (task : Task), w.tasks[t]? = some task → w.isFinished t = false →
      Job.holds 0 task.job = false := by
  simp only [isHeld, h, Bool.and_false, Bool.or_false, Bool.or_eq_false_iff,
    decide_eq_false_iff_not, List.any_eq_false, Prod.forall, mem_running, and_imp,
    Bool.not_eq_true]

/-- Where the tasks are the same, nobody comes to hold the relay. -/
theorem unheld_of_keeps (hu : u.manager.pool.contains 0 = false)
    (hv : v.manager.pool.contains 0 = false) (h : u.isHeld 0 = false) (hheld : 0 ∉ v.held)
    (hk : u.Keeps v) (hg : u.Grows v) : v.isHeld 0 = false := by
  rw [isHeld_eq_false hu] at h
  refine (isHeld_eq_false hv).mpr ⟨hheld, fun t task ht hgo => ?_⟩
  obtain ⟨before, hb, hj, -⟩ := hk t task ht
  rw [hj]
  refine h.2 t before hb ?_
  cases hfu : u.isFinished t with
  | false => rfl
  | true => exact absurd ((hg.isFinished hfu).symm.trans hgo) (by simp)

/-- Whoever would shut the relay down holds it. -/
theorem Solitary.deed?_go_unheld (h : w.Solitary kind peer close s) (hh : w.isHeld 0 = false)
    (t : TaskId) : w.deed? (.go t) = none := by
  simp only [deed?, hh, Bool.false_eq_true, and_false, if_false]
  split
  · rfl
  · next hgo =>
    unfold goesOn? at hgo
    split at hgo
    · next hr =>
      obtain ⟨task, htask, hj⟩ := Option.map_eq_some_iff.mp hgo
      have ht := (Option.filter_eq_some_iff.mp htask).1
      have hno := ((isHeld_eq_false h.unpooled).mp hh).2 t task ht hr.2
      obtain ⟨-, hj'⟩ | ⟨_, hj'⟩ := h.tasks t task ht
      · exact absurd (hj.symm.trans hj') (by simp)
      · exact absurd hno (by simp [hj', Job.holds])
    · exact absurd hgo (by simp)
  · rfl

theorem Solitary.unheld_go (h : w.Solitary kind peer close s) (hh : w.isHeld 0 = false)
    (t : TaskId) : (w.linkAct (.go t)).isHeld 0 = false := by
  have hp := (h.does (.go t)).solitary.unpooled
  have hg := h.goes t
  rw [h.deed?_go_unheld hh t] at hg
  generalize w.linkAct (.go t) = v at hg hp
  cases hg with
  | misses => exact hh
  | rests => exact hh
  | ends e =>
    refine unheld_of_keeps (u := w.rested t) h.unpooled hp hh ?_ (.of_eq (tasks_finish _ _ _))
      (.finish _ t e)
    obtain ⟨rs, he, -⟩ := (w.rested t).finish_eq t e
    rw [he]
    exact ((isHeld_eq_false h.unpooled).mp hh).1

/-- Once nobody holds the relay, nothing more is done to its signal. -/
theorem Solitary.unheld (h : w.Solitary kind peer close s) (hh : w.isHeld 0 = false)
    (a : LinkAct) : w.deed? a = none ∧ (w.linkAct a).isHeld 0 = false := by
  have hp := (h.does a).solitary.unpooled
  have hheld := ((isHeld_eq_false h.unpooled).mp hh).1
  cases a with
  | go t => exact ⟨h.deed?_go_unheld hh t, h.unheld_go hh t⟩
  | elapse ms =>
    obtain ⟨rs, he, -⟩ := w.advanceTo_eq (w.clock + ms)
    simp only [linkAct, act, he]
    exact ⟨rfl, hh⟩
  | dropLink =>
    refine ⟨rfl, ?_⟩
    simp only [linkAct, act]
    rcases w.dropConn_eq 0 with ⟨-, he⟩ | ⟨-, rs, he, -⟩ <;> rw [he] <;> exact hh
  | attach label nested crashes => simp [deed?, linkAct, hheld, hh]
  | report => simp [deed?, linkAct, canReport, hheld, hh]
  | shutDown => simp [deed?, linkAct, hheld, hh]
  | giveUp t =>
    refine ⟨rfl, ?_⟩
    simp only [linkAct, act] at hp ⊢
    split at hp
    · next hc =>
      rw [if_pos hc]
      refine unheld_of_keeps h.unpooled hp hh ?_ (keeps_cancel w t) (.cancel w t)
      rcases w.cancel_eq t with ⟨-, he⟩ | ⟨-, rs, he, -⟩ <;> rw [he] <;> exact hheld
    · next hc =>
      rw [if_neg hc]
      exact hh
  | release =>
    exact ⟨rfl, unheld_of_keeps h.unpooled hp hh List.not_mem_nil (.of_eq rfl)
      { Grows.refl w with }⟩

theorem Solitary.history_unheld (h : w.Solitary kind peer close s) (hh : w.isHeld 0 = false)
    (acts : List LinkAct) : w.history acts = [] := by
  induction acts generalizing w s with
  | nil => rfl
  | cons a acts ih =>
    obtain ⟨hd, hh'⟩ := h.unheld hh a
    rw [history, hd]
    exact ih (h.does a).solitary hh'

/-! ## Reports -/

/-- What a report answers, if no listener crashes over it: whether it closed the link. -/
def reportAnswer (w : Overlay) : Option Bool :=
  match (w.lose 0).2 with
  | (some _, _) => none
  | (none, closed) => some closed

theorem crash_signalled {r : RelayId} {relay : Relay} {called : Option CloseListener}
    (hp : w.manager.pool.contains r = false) :
    (w.signalled r relay s called).2 = called.bind CloseListener.crash? := by
  cases called with
  | none => rfl
  | some l =>
    cases l with
    | manager =>
      simp only [signalled, callListener, Option.bind_some, CloseListener.crash?]
      split
      · have hp' : (w.setSignal r s).manager.pool.contains r = false := hp
        simp [relayLost, Pool.remove, hp']
      · rfl
    | note label nested crashes =>
      cases nested with
      | none => rfl
      | some inner =>
        simp only [signalled, callListener, Option.bind_some, CloseListener.crash?]
        split <;> rfl

theorem Solitary.lose_snd (h : w.Solitary kind peer close s) :
    (w.lose 0).2 = ((s.apply .lose).2.1.bind CloseListener.crash?, !s.isClosed) := by
  simp only [Overlay.lose, h.relay, lonely_signal, crash_signalled h.unpooled]
  cases s <;> rfl

theorem Solitary.reportAnswer_closed (h : w.Solitary kind peer close s)
    (hs : s.isClosed = true) : w.reportAnswer = some false := by
  rw [reportAnswer, h.lose_snd]
  cases s with
  | live l => exact absurd hs (by simp [CloseSignal.isClosed])
  | lost | shutDown => rfl

theorem Solitary.reportAnswer_live {l : Option CloseListener}
    (h : w.Solitary kind peer close (.live l)) : w.reportAnswer = some true ∨
      w.reportAnswer = none ∧ ∃ label nested, l = some (.note label nested true) := by
  rw [reportAnswer, h.lose_snd]
  rcases l with _ | _ | ⟨label, nested, _ | _⟩
  · exact .inl rfl
  · exact .inl rfl
  · exact .inl rfl
  · exact .inr ⟨rfl, label, nested, rfl⟩

/-! ## Who is told -/

/-- The notices that listeners were given, in their order. -/
def notified (w : Overlay) : List Event := w.events.filter Event.isNotice

/-- What the relay says when it is asked whether it is closed. -/
def linkClosed (w : Overlay) : Bool := (w.view? 0).any RelayView.isClosed

theorem Solitary.linkClosed (h : w.Solitary kind peer close s) : w.linkClosed = s.isClosed := by
  simp [Overlay.linkClosed, view?, h.relay]

theorem events_oneRelay (kind : RelayKind) (peer : PeerAddress) (close : Script)
    (acts : List LinkAct) :
    ((Scenario.oneRelay kind peer close).linkRun acts).events =
      seenAll kind peer (.live none) ((Scenario.oneRelay kind peer close).history acts) := by
  have hstart : (Scenario.oneRelay kind peer close).events = [] := by
    rw [oneRelay_eq]
    rfl
  rw [(solitary_oneRelay kind peer close).events_run, hstart, List.nil_append]

theorem notified_oneRelay (kind : RelayKind) (peer : PeerAddress) (close : Script)
    (acts : List LinkAct) :
    ((Scenario.oneRelay kind peer close).linkRun acts).notified =
      ((CloseSignal.chosen ((Scenario.oneRelay kind peer close).history acts)).bind
        (CloseListener.notice? peer)).toList := by
  rw [notified, events_oneRelay, seenAll_eq, CloseSignal.called_eq, List.filter_append]
  generalize CloseSignal.chosen _ = called
  have hclose : ∀ p : Prop, [Decidable p] →
      (if p then [Event.close 0 peer] else []).filter Event.isNotice = [] := by
    intro p _
    split <;> rfl
  rw [hclose, List.append_nil]
  cases called with
  | none => rfl
  | some l => cases l <;> rfl

/-- That a relay is closed is told once at most, and for good. Whatever is done to a relay and in
whatever order its tasks go on, all that listeners are told is one notice for the listener chosen:
if a loss closed the link, the last one attached before or else the first one attached afterwards,
and none otherwise. As many calls say that they closed the link as are needed to close it: one, if
it is closed. Where nobody holds an open relay any more, nobody will be told of it. A report says
that it closed the link exactly if it did; what takes the place of its answer is the crash of the
listener that it called. -/
theorem closing_told_once (kind : RelayKind) (peer : PeerAddress) (close : Script)
    (acts : List LinkAct) :
    let start := Scenario.oneRelay kind peer close
    let w := start.linkRun acts
    let deeds := start.history acts
    w.notified = ((CloseSignal.chosen deeds).bind (CloseListener.notice? peer)).toList ∧
    w.linkClosed = deeds.any Deed.closes ∧
    (∀ more, w.linkClosed = true → (w.linkRun more).linkClosed = true) ∧
    (CloseSignal.live none).closings deeds = w.linkClosed.toNat ∧
    (w.linkClosed = false → w.isHeld 0 = false → ∀ more, (w.linkRun more).notified = []) ∧
    (w.canReport = true →
      (∀ closed, w.reportAnswer = some closed →
        (closed = true ↔ w.linkClosed = false ∧ (w.linkAct .report).linkClosed = true)) ∧
      (w.reportAnswer = none →
        w.linkClosed = false ∧ (w.linkAct .report).linkClosed = true ∧
        ∃ label nested,
          (CloseSignal.attached deeds).getLast? = some (.note label nested true))) := by
  intro start w deeds
  have h := (solitary_oneRelay kind peer close).run acts
  have hclosed : w.linkClosed = deeds.any Deed.closes := by
    rw [h.linkClosed, CloseSignal.isClosed_after]
    rfl
  refine ⟨notified_oneRelay kind peer close acts, hclosed, fun more hc => ?_, ?_,
    fun hc hh more => ?_, fun hr => ?_⟩
  · rw [(h.run more).linkClosed, CloseSignal.isClosed_after, ← h.linkClosed, hc, Bool.true_or]
  · rw [CloseSignal.closings_eq, hclosed]
    rfl
  · rw [← linkRun_append, notified_oneRelay, history_append, h.history_unheld hh more,
      List.append_nil]
    cases hl : CloseSignal.chosen deeds with
    | none => rfl
    | some l =>
      have hf := List.mem_of_find?_eq_some (CloseSignal.find?_of_chosen hl)
      rw [hclosed, List.any_eq_false] at hc
      exact absurd rfl (hc _ hf)
  · have hd : w.deed? .report = some .lose := if_pos hr
    have hnext : (w.linkAct .report).linkClosed = true := by
      rw [(h.does .report).solitary.linkClosed, CloseSignal.isClosed_after, hd]
      simp [Deed.closes]
    rw [hnext, hclosed]
    cases hc : deeds.any Deed.closes with
    | true =>
      have hs := hclosed.trans hc
      rw [h.linkClosed] at hs
      have hanswer : w.reportAnswer = some false := h.reportAnswer_closed hs
      simp [hanswer]
    | false =>
      rw [CloseSignal.after_of_open none hc, Option.or_none] at h
      rcases h.reportAnswer_live with hanswer | ⟨hanswer, hl⟩
      · have hanswer : w.reportAnswer = some true := hanswer
        simp [hanswer]
      · have hanswer : w.reportAnswer = none := hanswer
        simpa [hanswer] using hl

example : ((Scenario.oneRelay .openTcp (.sample 1) {}).linkRun
    [.attach "first" none false, .attach "last" (some "inner") true, .dropLink, .go 0,
      .attach "late" none false]).notified = [.notified "last" (.sample 1) (some true)] := by
  decide

end Overlay

end RelayUpkeep
