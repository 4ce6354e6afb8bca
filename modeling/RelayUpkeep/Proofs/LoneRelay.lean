import RelayUpkeep.Proofs.Parts
import RelayUpkeep.Proofs.Signals
import RelayUpkeep.Scenario.Connection

/-! # A relay by itself

A relay that no manager has to do with is held by a caller, who can attach listeners to it, shut it
down, report it lost if it is a push relay, and let go of it. All the while its link can drop, time
passes, and its watcher and the calls go on in any order. What all this does to the close signal is
a list of deeds, and every act does no more to the relay than the deed that it is.
-/

namespace RelayUpkeep

open CloseSignal (Deed)

/-- What can happen to one relay over one connection, and which of its tasks goes on. -/
inductive LinkAct
  | go (t : TaskId)
  | elapse (ms : Nat)
  | dropLink
  | attach (label : String) (nested : Option String) (crashes : Bool)
  | report
  | shutDown
  | giveUp (t : TaskId)
  | release
  deriving DecidableEq, Repr

/-- What is seen of a listener when it is called: whom it is told of, and that the relay is closed
by then. -/
def CloseListener.notice? (address : PeerAddress) : CloseListener → Option Event
  | manager => none
  | note label _ _ => some (.notified label address (some true))

namespace Overlay

variable {t : TaskId} {u v w : Overlay} {kind : RelayKind} {peer : PeerAddress} {close : Script}
  {s : CloseSignal CloseListener}

/-- A push relay can be reported lost by whoever holds it. -/
def canReport (w : Overlay) : Bool := 0 ∈ w.held && (w.relays[0]?).any (·.kind = .push)

/-- An act on relay 0, over connection 0. To call the relay, one has to hold it. -/
def linkAct (w : Overlay) : LinkAct → Overlay
  | .go t => w.act (.poll t)
  | .elapse ms => w.act (.elapse ms)
  | .dropLink => w.act (.dropConn 0)
  | .attach label nested crashes =>
    if 0 ∈ w.held then (w.listen 0 (.note label nested crashes)).1 else w
  | .report => if w.canReport then (w.lose 0).1 else w
  | .shutDown => if 0 ∈ w.held then w.act (.closeRelay 0) else w
  | .giveUp t => w.act (.cancel t)
  | .release => { w with held := [] }

def linkRun (w : Overlay) (acts : List LinkAct) : Overlay := acts.foldl linkAct w

@[simp] theorem linkRun_nil (w : Overlay) : w.linkRun [] = w := rfl

@[simp] theorem linkRun_cons (w : Overlay) (a : LinkAct) (acts : List LinkAct) :
    w.linkRun (a :: acts) = (w.linkAct a).linkRun acts := rfl

theorem linkRun_append (w : Overlay) (acts more : List LinkAct) :
    w.linkRun (acts ++ more) = (w.linkRun acts).linkRun more := List.foldl_append

/-! ## Deeds -/

/-- With what a task goes on that is ready and was not asked to end. -/
def goesOn? (w : Overlay) (t : TaskId) : Option Job :=
  if t ∈ w.ready ∧ w.isFinished t = false then
    ((w.tasks[t]?).filter fun task => !task.isCancelled).map Task.job
  else none

/-- What an act does to the close signal. A loss is noticed by the watcher, when it goes on after
the link dropped and the relay is still held, or reported; a shutdown counts from its first step. -/
def deed? (w : Overlay) : LinkAct → Option (Deed CloseListener)
  | .go t =>
    match w.goesOn? t with
    | some (.watch _) => if w.isOpen 0 = false ∧ w.isHeld 0 then some .lose else none
    | some (.closeRelay _ none) => some .shut
    | _ => none
  | .attach label nested crashes =>
    if 0 ∈ w.held then some (.attach (.note label nested crashes)) else none
  | .report => if w.canReport then some .lose else none
  | .elapse _ | .dropLink | .shutDown | .giveUp _ | .release => none

/-- The deeds of a run, in their order. -/
def history (w : Overlay) : List LinkAct → List (Deed CloseListener)
  | [] => []
  | a :: acts => (w.deed? a).toList ++ (w.linkAct a).history acts

theorem history_append (w : Overlay) (acts more : List LinkAct) :
    w.history (acts ++ more) = w.history acts ++ (w.linkRun acts).history more := by
  induction acts generalizing w with
  | nil => rfl
  | cons a acts ih => simp [history, ih]

/-! ## A relay by itself -/

/-- Relay 0 of a kind, over connection 0 where that is kept. -/
def lonely (kind : RelayKind) (peer : PeerAddress) (s : CloseSignal CloseListener) : Relay :=
  match kind with
  | .openTcp => ⟨.openTcp, peer, some 0, s, some 0⟩
  | .push => ⟨.push, peer, none, s, none⟩

@[simp] theorem lonely_address : (lonely kind peer s).address = peer := by cases kind <;> rfl

@[simp] theorem lonely_signal : (lonely kind peer s).signal = s := by cases kind <;> rfl

/-- There is one relay, and all the tasks there are watch it or shut it down, each by itself. -/
structure Solitary (kind : RelayKind) (peer : PeerAddress) (close : Script)
    (s : CloseSignal CloseListener) (w : Overlay) : Prop where
  relays : w.relays = [lonely kind peer s]
  conns : ∃ isOpen, w.conns = [⟨peer, isOpen⟩]
  behaviours : w.behaviours = [(peer.id, { close })]
  unpooled : w.manager.pool.contains 0 = false
  tasks : ∀ (t : TaskId) (task : Task), w.tasks[t]? = some task →
    kind = .openTcp ∧ task.job = .watch 0 ∨ ∃ pending, task.job = .closeRelay 0 pending
  parents : ∀ (t : TaskId) (task : Task), w.tasks[t]? = some task → task.parent = none

theorem oneRelay_eq (kind : RelayKind) (peer : PeerAddress) (close : Script) :
    Scenario.oneRelay kind peer close = { start {} peer with
      managerHeld := false
      behaviours := [(peer.id, { close })]
      conns := [⟨peer, true⟩]
      relays := [lonely kind peer (.live none)]
      tasks := match kind with
        | .openTcp => [⟨.watch 0, none, false⟩]
        | .push => []
      held := [0] } := by
  cases kind <;> rfl

theorem solitary_oneRelay (kind : RelayKind) (peer : PeerAddress) (close : Script) :
    (Scenario.oneRelay kind peer close).Solitary kind peer close (.live none) := by
  rw [oneRelay_eq]
  have hwatch : ∀ {t : TaskId} {task : Task}, (match kind with
      | .openTcp => [(⟨.watch 0, none, false⟩ : Task)]
      | .push => [])[t]? = some task → kind = .openTcp ∧ task = ⟨.watch 0, none, false⟩ := by
    intro t task ht
    cases kind with
    | openTcp => exact ⟨rfl, List.mem_singleton.mp (List.mem_of_getElem? ht)⟩
    | push => exact absurd ht (by simp)
  refine ⟨rfl, ⟨true, rfl⟩, rfl, rfl, fun t task ht => ?_, fun t task ht => ?_⟩ <;>
    obtain ⟨hk, rfl⟩ := hwatch ht
  · exact .inl ⟨hk, rfl⟩
  · rfl

namespace Solitary

theorem relay (h : w.Solitary kind peer close s) : w.relays[0]? = some (lonely kind peer s) := by
  rw [h.relays]
  rfl

theorem keep (h : u.Solitary kind peer close s) (hr : v.relays = u.relays)
    (hc : v.conns = u.conns) (hb : v.behaviours = u.behaviours) (hm : v.manager = u.manager)
    (hk : u.Keeps v) : v.Solitary kind peer close s where
  relays := hr ▸ h.relays
  conns := hc ▸ h.conns
  behaviours := hb ▸ h.behaviours
  unpooled := hm ▸ h.unpooled
  tasks t task ht := by
    obtain ⟨before, hbefore, hj, -⟩ := hk t task ht
    exact hj ▸ h.tasks t before hbefore
  parents t task ht := by
    obtain ⟨before, hbefore, -, hp⟩ := hk t task ht
    exact hp.trans (h.parents t before hbefore)

theorem parent?_eq_none (h : w.Solitary kind peer close s) (t : TaskId) : w.parent? t = none := by
  cases ht : w.tasks[t]? with
  | none => simp [parent?, ht]
  | some task => simp [parent?, ht, h.parents t task ht]

/-- The close signal is no matter of anything else. -/
theorem setSignal (h : w.Solitary kind peer close s) (s' : CloseSignal CloseListener) :
    (w.setSignal 0 s').Solitary kind peer close s' :=
  { h with
    relays := by
      rw [Overlay.setSignal, h.relays]
      cases kind <;> rfl }

theorem finish (h : w.Solitary kind peer close s) (t : TaskId) (e : Exit) :
    (w.finish t e).Solitary kind peer close s := by
  obtain ⟨rs, he, -⟩ := w.finish_eq t e
  rw [he]
  exact h.keep rfl rfl rfl rfl (.of_eq rfl)

theorem cancel (h : w.Solitary kind peer close s) (t : TaskId) :
    (w.cancel t).Solitary kind peer close s := by
  have hk := keeps_cancel w t
  rcases w.cancel_eq t with ⟨-, he⟩ | ⟨-, rs, he, -⟩ <;> rw [he] at hk ⊢
  · exact h
  · exact h.keep rfl rfl rfl rfl hk

theorem dropConn (h : w.Solitary kind peer close s) (c : ConnId) :
    (w.dropConn c).Solitary kind peer close s := by
  rcases w.dropConn_eq c with ⟨-, he⟩ | ⟨-, rs, he, -⟩ <;> rw [he]
  · exact h
  · obtain ⟨isOpen, hc⟩ := h.conns
    refine { h with conns := ?_ }
    simp only [hc]
    cases c with
    | zero => exact ⟨false, rfl⟩
    | succ c => exact ⟨isOpen, by simp⟩

/-- A shutdown goes to sleep. -/
theorem sleep (h : w.Solitary kind peer close s) (t : TaskId) (o : Outcome) (delay : Nat) :
    (w.sleep t (.closeRelay 0 (some o)) delay).Solitary kind peer close s := by
  refine { h with tasks := fun a task ha => ?_, parents := fun a task ha => ?_ } <;>
    simp only [Overlay.sleep, setJob, List.getElem?_modify, Option.map_eq_map,
      Option.map_eq_some_iff] at ha <;>
    obtain ⟨before, hb, rfl⟩ := ha
  · by_cases hat : t = a
    · exact .inr ⟨some o, by simp [hat]⟩
    · simpa [hat] using h.tasks a before hb
  · split <;> exact h.parents a before hb

end Solitary

/-! ## What a task does when it goes on -/

/-- Task `t` had its turn. -/
def rested (w : Overlay) (t : TaskId) : Overlay := { w with ready := w.ready.erase t }

theorem Solitary.rested (h : w.Solitary kind peer close s) (t : TaskId) :
    (w.rested t).Solitary kind peer close s :=
  h.keep rfl rfl rfl rfl (.of_eq rfl)

/-- What becomes of a deed, and what state it leads to, when a task goes on. -/
inductive Goes (w : Overlay) (t : TaskId) : Option (Deed CloseListener) → Overlay → Prop
  | misses : Goes w t none w
  | rests : Goes w t none (w.rested t)
  | ends (e : Exit) : Goes w t none ((w.rested t).finish t e)
  | loses (e : Exit) : Goes w t (some .lose) (((w.rested t).lose 0).1.finish t e)
  | shuts (hr : t ∈ w.ready) (hf : w.isFinished t = false)
      (ht : w.tasks[t]? = some ⟨.closeRelay 0 none, none, false⟩) :
      Goes w t (some .shut) ((w.rested t).pollCloseRelay t 0 none)

/-- A watcher waits on while the link is up, and leaves if nobody holds the relay. -/
theorem Solitary.goes_watch (h : w.Solitary .openTcp peer close s) (t : TaskId) :
    w.Goes t (if w.isOpen 0 = false ∧ w.isHeld 0 then some .lose else none)
      ((w.rested t).pollWatch t 0) := by
  have hconn : ((w.rested t).relays[0]?).bind Relay.conn = some 0 := by
    simp [(h.rested t).relay, lonely]
  simp only [pollWatch, hconn]
  change w.Goes t _ (if w.isOpen 0 then _ else if w.isHeld 0 then _ else _)
  cases ho : w.isOpen 0 with
  | true => exact .rests
  | false =>
    cases hh : w.isHeld 0 with
    | true =>
      simp only [Bool.false_eq_true, and_self, if_true, if_false]
      rcases hl : (w.rested t).lose 0 with ⟨v, crash, closed⟩
      have hv : v = ((w.rested t).lose 0).1 := by rw [hl]
      cases crash <;> exact hv ▸ .loses _
    | false => exact .ends _

theorem Solitary.goes (h : w.Solitary kind peer close s) (t : TaskId) :
    w.Goes t (w.deed? (.go t)) (w.linkAct (.go t)) := by
  by_cases hr : t ∈ w.ready
  swap
  · simp only [deed?, goesOn?, linkAct, act, hr, false_and, if_false]
    exact .misses
  simp only [deed?, goesOn?, linkAct, act, hr, true_and, if_true]
  cases hf : w.isFinished t with
  | true =>
    rw [poll_finished hf]
    exact .rests
  | false =>
    cases ht : w.tasks[t]? with
    | none =>
      rw [show w.poll t = w.rested t by simp [poll, ht, Overlay.rested]]
      exact .rests
    | some task =>
      cases hc : task.isCancelled with
      | true =>
        rw [poll_abandon ht hf hc]
        obtain ⟨-, hj⟩ | ⟨pending, hj⟩ := h.tasks t task ht <;> rw [hj] <;>
          simp only [Option.filter_some, hc, Bool.not_true, Bool.false_eq_true, if_false,
            Option.map_none, if_true] <;>
          exact .ends _
      | false =>
        rw [poll_resume ht hf hc]
        simp only [Option.filter_some, hc, Bool.not_false, if_true, Option.map_some]
        obtain ⟨rfl, hj⟩ | ⟨pending, hj⟩ := h.tasks t task ht <;> rw [hj]
        · exact h.goes_watch t
        · cases pending with
          | some o =>
            simp only [resume, pollCloseRelay, ended_eq]
            exact .ends _
          | none =>
            have hp := h.parents t task ht
            obtain ⟨job, parent, isCancelled⟩ := task
            obtain ⟨rfl, rfl, rfl⟩ : job = _ ∧ parent = none ∧ isCancelled = false := ⟨hj, hp, hc⟩
            exact .shuts hr hf ht

/-! ## What a deed comes to -/

/-- The relay is marked shut down, its watcher is asked to end, and its connection is closed. -/
def hangUp (w : Overlay) (peer : PeerAddress) : Overlay :=
  (((w.setSignal 0 .shutDown).cancel 0).log (.close 0 peer)).dropConn 0

/-- What is seen of a deed: the notice of the listener that is called, and the closing of the
connection by the shutdown that closes the link. -/
def seen (kind : RelayKind) (peer : PeerAddress) (s : CloseSignal CloseListener)
    (d : Deed CloseListener) : List Event :=
  (s.apply d).2.1.toList.filterMap (CloseListener.notice? peer) ++
    if kind = .openTcp ∧ d = .shut ∧ (s.apply d).2.2 then [.close 0 peer] else []

/-- A step from `u` to `v` does a deed to a signal `s`, or does nothing to it. -/
structure Does (kind : RelayKind) (peer : PeerAddress) (close : Script)
    (s : CloseSignal CloseListener) (d : Option (Deed CloseListener)) (u v : Overlay) : Prop where
  solitary : v.Solitary kind peer close (s.after d.toList)
  journal : v.journal = u.journal ++ (d.toList.flatMap (seen kind peer s)).map (Entry.mk u.clock)

theorem Does.idle (h : v.Solitary kind peer close s) (hj : v.journal = u.journal) :
    Does kind peer close s none u v :=
  ⟨h, by simp [hj]⟩

/-- What follows does no more to the signal. -/
theorem Does.and_idles {d : Option (Deed CloseListener)} (h : Does kind peer close s d u v)
    (h' : Does kind peer close (s.after d.toList) none v w) : Does kind peer close s d u w :=
  ⟨h'.solitary, by rw [h'.journal, h.journal, Option.toList_none]; simp⟩

theorem Does.finish {d : Option (Deed CloseListener)} (h : Does kind peer close s d u v)
    (t : TaskId) (e : Exit) : Does kind peer close s d u (v.finish t e) :=
  ⟨h.solitary.finish t e, by rw [journal_finish, h.journal]⟩

/-- A listener is called when the signal knows already that it was. -/
theorem signalled_eq {r : RelayId} {relay : Relay} {called : Option CloseListener}
    (hc : ∀ l, called = some l → s = .lost true) (hp : w.manager.pool.contains r = false) :
    (w.signalled r relay s called).1 = { w.setSignal r s with
      journal := w.journal ++ (called.toList.filterMap
        (CloseListener.notice? relay.address)).map (Entry.mk w.clock) } := by
  cases called with
  | none => simp [signalled, setSignal]
  | some l =>
    obtain rfl := hc l rfl
    cases l with
    | manager =>
      have hlost : ((w.setSignal r (.lost true)).relayLost r relay.address).1 =
          w.setSignal r (.lost true) := by
        rcases (w.setSignal r (.lost true)).relayLost_cases r relay.address with
          ⟨-, h⟩ | ⟨h, -⟩ | ⟨h, -⟩
        · exact h
        all_goals exact absurd (h.symm.trans hp) (by simp)
      simp only [signalled, callListener]
      split
      · refine hlost.trans ?_
        simp [CloseListener.notice?, setSignal]
      · simp [CloseListener.notice?, setSignal]
    | note label nested crashes =>
      exact w.callListener_note r { relay with signal := .lost true } rfl label nested crashes

namespace Solitary

/-- The signal of a relay that is attached to or lost changes, and a listener may be told. -/
theorem signalled (h : w.Solitary kind peer close s) {d : Deed CloseListener} (hd : d ≠ .shut) :
    (w.signalled 0 (lonely kind peer s) (s.apply d).1 (s.apply d).2.1).1 =
      { w.setSignal 0 (s.apply d).1 with
        journal := w.journal ++ (seen kind peer s d).map (Entry.mk w.clock) } := by
  rw [signalled_eq (fun l hl => CloseSignal.apply_called hl) h.unpooled]
  simp [seen, hd]

theorem lose_eq (h : w.Solitary kind peer close s) : (w.lose 0).1 =
    { w.setSignal 0 (s.apply .lose).1 with
      journal := w.journal ++ (seen kind peer s .lose).map (Entry.mk w.clock) } := by
  rw [Overlay.lose_eq h.relay, lonely_signal]
  exact h.signalled (d := .lose) (by simp)

theorem listen_eq (h : w.Solitary kind peer close s) (l : CloseListener) : (w.listen 0 l).1 =
    { w.setSignal 0 (s.apply (.attach l)).1 with
      journal := w.journal ++ (seen kind peer s (.attach l)).map (Entry.mk w.clock) } := by
  simp only [listen, h.relay, lonely_signal]
  exact h.signalled (d := .attach l) (by simp)

theorem lose (h : w.Solitary kind peer close s) :
    Does kind peer close s (some .lose) w (w.lose 0).1 := by
  rw [h.lose_eq]
  exact ⟨{ h.setSignal _ with }, by simp⟩

/-! ## Shutdowns -/

theorem shutRelay_closed (h : w.Solitary kind peer close s) (hs : s.isClosed = true) :
    w.shutRelay 0 = (w, none) := by
  cases s with
  | live l => exact absurd hs (by simp [CloseSignal.isClosed])
  | lost | shutDown => simp [shutRelay, h.relay, CloseSignal.shut]

theorem shutRelay_push {l : Option CloseListener} (h : w.Solitary .push peer close (.live l)) :
    w.shutRelay 0 = (w.setSignal 0 .shutDown, none) := by
  simp [shutRelay, h.relay, lonely, CloseSignal.shut]

theorem shutRelay_openTcp {l : Option CloseListener}
    (h : w.Solitary .openTcp peer close (.live l)) :
    w.shutRelay 0 = ((w.setSignal 0 .shutDown).cancel 0, some 0) := by
  simp [shutRelay, h.relay, lonely, CloseSignal.shut]

/-- The connection of a relay that is still open is closed, and then its closing is waited for. -/
theorem pollCloseRelay_openTcp {l : Option CloseListener}
    (h : w.Solitary .openTcp peer close (.live l)) (t : TaskId) :
    w.pollCloseRelay t 0 none = (w.hangUp peer).play t close
      (fun o => .closeRelay 0 (some o)) fun w o => w.finish t o.exit := by
  have hv := (h.setSignal .shutDown).cancel 0
  obtain ⟨isOpen, hc⟩ := hv.conns
  have hclose : ((w.setSignal 0 .shutDown).cancel 0).closeConn 0 = w.hangUp peer := by
    simp [closeConn, hc, Overlay.hangUp]
  have hscript : ((w.setSignal 0 .shutDown).cancel 0).closeScript 0 = close := by
    simp [closeScript, hc, behaviour, hv.behaviours]
  rw [pollCloseRelay_eq, h.shutRelay_openTcp]
  simp only [hclose, hscript, ended_eq]

theorem hangUp {l : Option CloseListener} (h : w.Solitary .openTcp peer close (.live l)) :
    Does .openTcp peer close (.live l) (some .shut) w (w.hangUp peer) := by
  have hs := (h.setSignal .shutDown).cancel 0
  have hlogged : (((w.setSignal 0 .shutDown).cancel 0).log (.close 0 peer)).Solitary .openTcp
      peer close .shutDown := { hs with }
  refine ⟨hlogged.dropConn 0, ?_⟩
  obtain ⟨tasks, rs, hc⟩ := (w.setSignal 0 .shutDown).cancelAll_eq [0]
  rw [List.foldl_cons, List.foldl_nil] at hc
  rw [Overlay.hangUp, hc]
  rcases (({ w.setSignal 0 .shutDown with tasks, ready := rs } : Overlay).log
    (.close 0 peer)).dropConn_eq 0 with ⟨-, hd⟩ | ⟨-, rs', hd, -⟩ <;> rw [hd] <;>
    simp [seen, CloseSignal.apply, CloseSignal.shut, log, Overlay.setSignal]

theorem play (h : w.Solitary kind peer close s) (t : TaskId) (script : Script) :
    Does kind peer close s none w (w.play t script (fun o => .closeRelay 0 (some o))
      fun w o => w.finish t o.exit) := by
  unfold Overlay.play
  split
  · exact .idle (h.finish _ _) (journal_finish _ _ _)
  · exact .idle (h.sleep t _ _) rfl

theorem shut (h : w.Solitary kind peer close s) (t : TaskId) :
    Does kind peer close s (some .shut) w (w.pollCloseRelay t 0 none) := by
  cases s with
  | live l =>
    cases kind with
    | push =>
      rw [pollCloseRelay_eq, h.shutRelay_push]
      exact Does.finish ⟨h.setSignal _, by simp [seen, CloseSignal.apply, Overlay.setSignal]⟩ t _
    | openTcp =>
      rw [h.pollCloseRelay_openTcp]
      exact h.hangUp.and_idles (h.hangUp.solitary.play t close)
  | lost | shutDown =>
    rw [pollCloseRelay_eq, h.shutRelay_closed rfl]
    exact Does.finish ⟨h, by simp [seen, CloseSignal.apply, CloseSignal.shut]⟩ t _

end Solitary

/-! ## Runs -/

theorem Goes.does {d : Option (Deed CloseListener)} (hg : w.Goes t d v)
    (h : w.Solitary kind peer close s) : Does kind peer close s d w v := by
  have hrest := h.rested t
  cases hg with
  | misses => exact .idle h rfl
  | rests => exact .idle hrest rfl
  | ends e => exact .idle (hrest.finish t e) (journal_finish _ _ _)
  | loses e =>
    have hd := hrest.lose.finish t e
    exact ⟨hd.solitary, hd.journal⟩
  | shuts =>
    have hd := hrest.shut t
    exact ⟨hd.solitary, hd.journal⟩

/-- What an act comes to, and the deed that it is. -/
inductive Takes (kind : RelayKind) (peer : PeerAddress) (s : CloseSignal CloseListener)
    (w : Overlay) : LinkAct → Option (Deed CloseListener) → Overlay → Prop
  | goes {t : TaskId} {d : Option (Deed CloseListener)} {v : Overlay} (h : w.Goes t d v) :
      Takes kind peer s w (.go t) d v
  | idles (a : LinkAct) : Takes kind peer s w a none w
  | elapses (ms : Nat) : Takes kind peer s w (.elapse ms) none (w.advanceTo (w.clock + ms))
  | drops : Takes kind peer s w .dropLink none (w.dropConn 0)
  | signals (a : LinkAct) {d : Deed CloseListener} : Takes kind peer s w a (some d)
      { w.setSignal 0 (s.apply d).1 with
        journal := w.journal ++ (seen kind peer s d).map (Entry.mk w.clock) }
  | calls : Takes kind peer s w .shutDown none (w.spawn (.closeRelay 0 none) none).1
  | givesUp {t : TaskId} (h : w.isCall t = true) :
      Takes kind peer s w (.giveUp t) none (w.cancel t)
  | releases : Takes kind peer s w .release none { w with held := [] }

theorem Solitary.takes (h : w.Solitary kind peer close s) (a : LinkAct) :
    Takes kind peer s w a (w.deed? a) (w.linkAct a) := by
  cases a with
  | go t => exact .goes (h.goes t)
  | elapse ms => exact .elapses ms
  | dropLink => exact .drops
  | attach label nested crashes =>
    simp only [deed?, linkAct]
    split
    · rw [h.listen_eq]
      exact .signals _
    · exact .idles _
  | report =>
    simp only [deed?, linkAct]
    split
    · rw [h.lose_eq]
      exact .signals _
    · exact .idles _
  | shutDown =>
    simp only [deed?, linkAct, act]
    split
    · split
      · exact .calls
      · exact .idles _
    · exact .idles _
  | giveUp t =>
    simp only [deed?, linkAct, act]
    split
    · next hc => exact .givesUp hc
    · exact .idles _
  | release => exact .releases

/-- Every act does the deed to the signal that it is, and nothing else is seen of it. -/
theorem Solitary.does (h : w.Solitary kind peer close s) (a : LinkAct) :
    Does kind peer close s (w.deed? a) w (w.linkAct a) := by
  have ht := h.takes a
  generalize w.deed? a = d at ht ⊢
  generalize w.linkAct a = v at ht ⊢
  cases ht with
  | goes hg => exact hg.does h
  | idles => exact .idle h rfl
  | elapses ms =>
    obtain ⟨rs, he, -⟩ := w.advanceTo_eq (w.clock + ms)
    rw [he]
    exact .idle (h.keep rfl rfl rfl rfl (.of_eq rfl)) rfl
  | drops =>
    refine .idle (h.dropConn 0) ?_
    rcases w.dropConn_eq 0 with ⟨-, he⟩ | ⟨-, rs, he, -⟩ <;> rw [he]
  | signals => exact ⟨{ h.setSignal _ with }, by simp⟩
  | calls =>
    refine .idle { h with
      tasks := fun a task ha => ?_
      parents := fun a task ha => ?_ } rfl <;>
    rcases getElem?_concat_eq_some ha with ha | ⟨-, rfl⟩
    · exact h.tasks a task ha
    · exact .inr ⟨none, rfl⟩
    · exact h.parents a task ha
    · rfl
  | @givesUp t hc =>
    refine .idle (h.cancel t) ?_
    rcases w.cancel_eq t with ⟨-, he⟩ | ⟨-, rs, he, -⟩ <;> rw [he]
  | releases => exact .idle { h with } rfl

theorem Solitary.run (h : w.Solitary kind peer close s) (acts : List LinkAct) :
    (w.linkRun acts).Solitary kind peer close (s.after (w.history acts)) := by
  induction acts generalizing w s with
  | nil => exact h
  | cons a acts ih =>
    have hs := ih (h.does a).solitary
    rw [← CloseSignal.after_append] at hs
    exact hs

end Overlay

end RelayUpkeep
