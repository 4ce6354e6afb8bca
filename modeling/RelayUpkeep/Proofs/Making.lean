import RelayUpkeep.Proofs.Bystanders
import RelayUpkeep.Proofs.Remains

/-! # How relays come to be

Only attempts make relays. Where relays keep their connections, an attempt makes one in the step in
which it is answered with a connection; otherwise it does once it has closed the connection. By the
end of the step the relay is in the pool, or it was shut down again together with its connection. -/

namespace RelayUpkeep.Overlay

variable {t : TaskId} {p q : PeerAddress} {r : RelayId} {c : ConnId} {c? : Option ConnId}
  {u v w : Overlay} {relay : Relay} {s : AttemptStage} {x : Act}

/-- The connection that an attempt is answered with in an act. -/
def established? (w : Overlay) : Act → Option ConnId
  | .poll t => (w.going? t).bind fun
    | .attempt q s => (w.reply q s).bind Except.toOption
    | _ => none
  | _ => none

theorem established?_eq_some : w.established? x = some c ↔
    ∃ t q s, x = .poll t ∧ w.going? t = some (.attempt q s) ∧ w.reply q s = some (.ok c) := by
  constructor
  · intro h
    cases x with
    | poll t =>
      obtain ⟨job, hg, hj⟩ := Option.bind_eq_some_iff.mp h
      cases job with
      | attempt q s =>
        obtain ⟨e, hr, he⟩ := Option.bind_eq_some_iff.mp hj
        cases e with
        | error => exact absurd he (by simp [Except.toOption])
        | ok d =>
          obtain rfl := Option.some.inj he
          exact ⟨t, q, s, rfl, hg, hr⟩
      | _ => exact absurd hj (by simp)
    | _ => exact absurd h (by simp [established?])
  · rintro ⟨t, q, s, rfl, hg, hr⟩
    simp only [established?, hg, Option.bind_some, hr, Except.toOption]

theorem established?_outside (hp : x.isPoll = false) : w.established? x = none := by
  cases x <;> first | rfl | exact absurd hp (by simp [Act.isPoll])

theorem established?_other {job : Job} (hg : w.going? t = some job)
    (hq : ∀ q, job.role ≠ .attempt q) : w.established? (.poll t) = none := by
  cases job <;> first | exact absurd rfl (hq _) | simp [established?, hg]

/-- In a run, the act at place `i` is one in which an attempt is answered with connection `c`. -/
def EstablishedAt (w : Overlay) (acts : List Act) (c : ConnId) (i : Nat) : Prop :=
  ∃ x, acts[i]? = some x ∧ (w.run (acts.take i)).established? x = some c

/-! ## What relays are made of -/

/-- The connections that the relays keep, if any. -/
def wires (w : Overlay) : List (Option ConnId) := w.relays.map Relay.conn

@[simp] theorem wires_finish (w : Overlay) (t : TaskId) (e : Exit) :
    (w.finish t e).wires = w.wires := by rw [wires, relays_finish, wires]

@[simp] theorem wires_closeConn (w : Overlay) (c : ConnId) : (w.closeConn c).wires = w.wires := by
  rw [wires, relays_closeConn, wires]

@[simp] theorem wires_setSignal (w : Overlay) (r : RelayId) (s : CloseSignal CloseListener) :
    (w.setSignal r s).wires = w.wires := by
  refine List.ext_getElem? fun i => ?_
  simp only [wires, setSignal, List.getElem?_map, List.getElem?_modify]
  cases w.relays[i]? with
  | none => rfl
  | some relay => by_cases hi : r = i <;> simp [hi]

@[simp] theorem wires_shutRelay (w : Overlay) (r : RelayId) : (w.shutRelay r).1.wires = w.wires := by
  rcases w.shutRelay_cases r with h | ⟨relay, l, -, -, h⟩ <;> rw [h]
  cases relay.watcher with
  | none => exact wires_setSignal w r _
  | some a =>
    have hc : ((w.setSignal r .shutDown).cancel a).wires = (w.setSignal r .shutDown).wires := by
      rw [wires, relays_cancel, wires]
    exact hc.trans (wires_setSignal w r _)

theorem wires_lose (w : Overlay) (r : RelayId) : (w.lose r).1.wires = w.wires := by
  obtain ⟨s, mine, pool, failed, journal, h, -⟩ := w.lose_frame r
  rw [h]
  exact wires_setSignal w r s

theorem wires_length (w : Overlay) : w.wires.length = w.relays.length := List.length_map _

/-- Only attempts make relays. -/
theorem Move.wires (h : Move t u v) (hq : ∀ q, u.role? t ≠ some (.attempt q)) :
    v.wires = u.wires := by
  cases h with
  | stir h => exact congrArg (List.map Relay.conn) h.relays
  | publish | drain => rfl
  | accept hr | refuse hr => exact absurd hr (hq _)
  | shut r => exact wires_shutRelay u r
  | lose r => exact wires_lose u r

theorem Turns.wires (h : Turns t u v) (hlt : t < u.tasks.length)
    (hq : ∀ q, u.role? t ≠ some (.attempt q)) : v.wires = u.wires := by
  refine h.keep (P := fun x => x.wires = u.wires) hlt rfl (fun x y hx hrole hm => ?_) ?_
  · exact (hm.wires (hrole ▸ hq)).trans hx
  · exact fun x e hx => (wires_finish x t e).trans hx

theorem wires_act (hp : x.isPoll = false) : (w.act x).wires = w.wires := by
  by_cases hl : ∃ r label nested, x = .listen r label nested
  · obtain ⟨r, label, nested, rfl⟩ := hl
    simp only [Overlay.act]
    rcases w.listen_note_cases r label nested false with he | ⟨relay, -, ⟨-, he⟩ | ⟨-, he⟩⟩ <;> rw [he]
    · exact wires_setSignal w r _
    · exact wires_setSignal w r _
  · refine List.ext_getElem? fun i => ?_
    have hi := relays_act (w := w) (r := i) hp fun label nested he => hl ⟨i, label, nested, he⟩
    simp only [wires, List.getElem?_map, hi]

theorem Sound.wires_of_not_going (h : w.Sound) (hg : w.going? t = none) :
    (w.act (.poll t)).wires = w.wires := by
  rcases h.act_of_not_going hg with he | he | ⟨task, ht, -, -, he⟩ <;> rw [he]
  · rfl
  · obtain ⟨v, hv, hend⟩ := quiet_abandon (w := { w with ready := w.ready.erase t })
      (role?_eq_some.mpr ⟨task, ht, rfl⟩) (h.rest t).gate ((h.rest t).refers t task ht)
    have hwires : v.wires = w.wires := (congrArg (List.map Relay.conn) (Stirs.relays hv)).trans rfl
    rcases hend with hend | ⟨e, hend⟩ <;> rw [hend]
    · exact hwires
    · exact (wires_finish v t e).trans hwires

/-! ## What becomes of a relay that is offered -/

/-- Relay `r` is in the pool, or it was closed together with its connection. -/
def Homed (r : RelayId) (w : Overlay) : Prop := r ∈ w.pooled ∨ w.Closed r

theorem Closed.of_eq (h : u.Closed r) (hr : v.relays = u.relays) (hj : v.journal = u.journal) :
    v.Closed r := by
  unfold Closed HasClosed at h ⊢
  rwa [hr, hj]

theorem discard_eq (w : Overlay) (t : TaskId) (q : PeerAddress) (r : RelayId) :
    w.discard t q r = match (w.shutRelay r).2 with
      | none => (w.shutRelay r).1.finish t .done
      | some c => ((w.shutRelay r).1.closeConn c).play t ((w.shutRelay r).1.closeScript c)
          (fun o => .attempt q (.discarding r o)) fun w o => w.discarded t o := by
  unfold discard
  rcases w.shutRelay r with ⟨v, c | c⟩ <;> rfl

/-- A relay that is not taken in is closed together with its connection. -/
theorem closed_discard {l : Option CloseListener} (hr : w.relays[r]? = some relay)
    (hl : relay.signal = .live l)
    (hc : ∀ c, relay.conn = some c → ∃ conn, w.conns[c]? = some conn) :
    (w.discard t q r).Closed r := by
  have hrel := relays_shutRelay_self hr hl
  have hsnd : (w.shutRelay r).2 = relay.conn := by
    rw [snd_shutRelay hr, hl]
    rfl
  rw [discard_eq]
  cases hconn : relay.conn with
  | none =>
    have hnone : (w.shutRelay r).1.Closed r :=
      ⟨_, hrel, .inr ⟨rfl, fun c h => absurd (hconn.symm.trans h) (by simp)⟩⟩
    simp only [hsnd, hconn]
    exact hnone.mono (.finish _ t .done)
  | some c =>
    obtain ⟨conn, hcc⟩ := hc c hconn
    have hcc' : (w.shutRelay r).1.conns[c]? = some conn := by
      obtain ⟨relays, tasks, ready, h⟩ := w.shutRelay_frame r
      rwa [h]
    have hclosed : ((w.shutRelay r).1.closeConn c).Closed r := by
      refine ⟨_, (congrArg (·[r]?) (relays_closeConn _ c)).trans hrel, .inr ⟨rfl, fun d hd => ?_⟩⟩
      obtain rfl := Option.some.inj (hconn.symm.trans hd)
      refine ⟨⟨(w.shutRelay r).1.clock, .close c conn.remote⟩, ?_, conn.remote, rfl⟩
      rw [journal_closeConn hcc']
      exact List.mem_append_right _ (List.mem_singleton_self _)
    simp only [hsnd, hconn, play]
    split
    · obtain ⟨e, -, he⟩ := ((w.shutRelay r).1.closeConn c).discarded_eq t
        ((w.shutRelay r).1.closeScript c).outcome
      rw [he]
      exact hclosed.mono (.finish _ t e)
    · exact hclosed.of_eq rfl rfl

theorem wires_discard (w : Overlay) (t : TaskId) (q : PeerAddress) (r : RelayId) :
    (w.discard t q r).wires = w.wires := by
  rw [discard_eq]
  split
  · rw [wires_finish, wires_shutRelay]
  · next c _ =>
    have hc : ((w.shutRelay r).1.closeConn c).wires = w.wires := by
      rw [wires_closeConn, wires_shutRelay]
    unfold play
    split
    · obtain ⟨e, -, he⟩ := ((w.shutRelay r).1.closeConn c).discarded_eq t
        ((w.shutRelay r).1.closeScript c).outcome
      simp only [he, wires_finish, hc]
    · exact hc

theorem wires_offer (hr : w.relays[r]? = some relay) (hs : relay.signal = .live none) :
    (w.offer t q r p).wires = w.wires := by
  by_cases ha : w.verdict p = some .added
  · rw [offer_admitted hr hs ha, wires_finish]
    exact wires_setSignal w r _
  · rw [offer_refused ha]
    exact wires_discard _ t q r

/-- Whatever the pool answers, the relay is not left alone. -/
theorem homed_offer (hr : w.relays[r]? = some relay) (hs : relay.signal = .live none)
    (hc : ∀ c, relay.conn = some c → ∃ conn, w.conns[c]? = some conn) :
    (w.offer t q r p).Homed r := by
  by_cases ha : w.verdict p = some .added
  · refine .inl ?_
    rw [offer_admitted hr hs ha, pooled, manager_finish, admitted_pool, List.map_append]
    exact List.mem_append_right _ (List.mem_singleton_self r)
  · refine .inr ?_
    rw [offer_refused ha]
    exact closed_discard (w := w.log (.offer r (w.verdict p))) hr hs hc

/-! ## What attempts make -/

/-- At most one relay is made, and it does not stay outside the pool with an open connection. It
keeps the connection that is established, if relays do. -/
inductive Makes (u v : Overlay) : Option ConnId → Prop
  | nothing {c? : Option ConnId} (hn : u.manager.config.kind = .openTcp → c? = none)
      (h : v.wires = u.wires) : Makes u v c?
  | bare {c? : Option ConnId} (hn : u.manager.config.kind = .openTcp → c? = none)
      (h : v.wires = u.wires ++ [none]) (hh : v.Homed u.relays.length) : Makes u v c?
  | keeps {c : ConnId} (hk : u.manager.config.kind = .openTcp)
      (h : v.wires = u.wires ++ [some c]) (hh : v.Homed u.relays.length) : Makes u v (some c)

theorem Makes.left (h : Makes v w c?) (hk : v.manager.config = u.manager.config)
    (hr : v.relays = u.relays) : Makes u w c? := by
  have hwires : v.wires = u.wires := congrArg (List.map Relay.conn) hr
  cases h with
  | nothing hn h => exact .nothing (hk ▸ hn) (h.trans hwires)
  | bare hn h hh => exact .bare (hk ▸ hn) (hwires ▸ h) (hr ▸ hh)
  | keeps hkind h hh => exact .keeps (hk ▸ hkind) (hwires ▸ h) (hr ▸ hh)

theorem Makes.homed (h : Makes u v c?) (hnew : u.relays.length ≤ r)
    (hlt : r < v.relays.length) : v.Homed r := by
  rw [← wires_length] at hnew hlt
  have hlast : ∀ k, v.wires = u.wires ++ [k] → r = u.relays.length := by
    intro k h
    rw [h, List.length_append, List.length_singleton] at hlt
    rw [Nat.le_antisymm (Nat.le_of_lt_succ hlt) hnew, wires_length]
  cases h with
  | nothing _ h =>
    rw [h] at hlt
    exact absurd hlt (Nat.not_lt.mpr hnew)
  | bare _ h hh | keeps _ h hh => exact hlast _ h ▸ hh

/-- A relay that keeps its connection is made of the connection that is established. -/
theorem Makes.kept (h : Makes u v (some c)) (hk : u.manager.config.kind = .openTcp) :
    ∃ relay, v.relays[u.relays.length]? = some relay ∧ relay.conn = some c := by
  cases h with
  | nothing hn | bare hn => exact absurd (hn hk) (by simp)
  | keeps _ h =>
    have hlast : v.wires[u.relays.length]? = some (some c) := by
      rw [h, ← wires_length, List.getElem?_concat_length]
    rwa [wires, List.getElem?_map, Option.map_eq_some_iff] at hlast

theorem Makes.of_push (hk : u.manager.config.kind = .push) (h : Makes u v none) :
    Makes u v c? := by
  have hn : u.manager.config.kind = .openTcp → c? = none := fun ho =>
    absurd (hk.symm.trans ho) (by simp)
  cases h with
  | nothing _ h => exact .nothing hn h
  | bare _ h hh => exact .bare hn h hh

theorem makes_finish (w : Overlay) (t : TaskId) (e : Exit) : Makes w (w.finish t e) none :=
  .nothing (fun _ => rfl) (wires_finish w t e)

theorem makes_parted (w : Overlay) (t : TaskId) (q : PeerAddress) (c : ConnId) (o : Outcome) :
    Makes w (w.parted t q c o) none := by
  rcases w.parted_cases t q c o with ⟨e, -, h⟩ | ⟨p, h⟩ <;> rw [h]
  · exact makes_finish w t e
  · have hr := w.addPushRelay_last p
    exact .bare (fun _ => rfl) ((wires_offer hr rfl).trans List.map_append)
      (homed_offer hr rfl (by simp))

theorem makes_establish {conn : Conn} (hc : w.conns[c]? = some conn) (p : PeerAddress) :
    Makes w (w.establish t q c p) (some c) := by
  unfold establish
  split
  · next hk =>
    have hr := w.addOpenRelay_last c p
    refine .keeps hk ((wires_offer hr rfl).trans List.map_append) (homed_offer hr rfl fun d hd => ?_)
    obtain rfl := Option.some.inj hd
    exact ⟨conn, hc⟩
  · next hk =>
    obtain ⟨conns, ready, journal, hclose⟩ := w.closeConn_frame c
    refine .of_push hk ?_
    rw [hclose, play]
    split
    · exact (makes_parted _ t q c _).left rfl rfl
    · exact .nothing (fun _ => rfl) rfl

theorem Tries.makes (h : Tries t q u s v) : Makes u v ((u.reply q s).bind Except.toOption) := by
  cases h with
  | connects h hn | shakes h _ hn =>
    obtain ⟨-, ⟨conns, ready, journal, rfl⟩, -⟩ := h
    rw [hn]
    exact .nothing (fun _ => rfl) rfl
  | crashes h hn =>
    obtain ⟨-, ⟨conns, ready, journal, rfl⟩, -⟩ := h
    rw [hn]
    exact (makes_finish _ t _).left rfl rfl
  | @fails _ _ e h hr =>
    obtain ⟨-, ⟨conns, ready, journal, rfl⟩, -⟩ := h
    rw [hr]
    obtain ⟨end', more, -, -, he⟩ := failAttempt_eq { u with conns, ready, journal } t q e
    rw [he]
    exact (makes_finish _ t _).left rfl rfl
  | establishes h hc hr =>
    obtain ⟨-, ⟨conns, ready, journal, rfl⟩, -⟩ := h
    rw [hr]
    exact (makes_establish hc _).left rfl rfl
  | parts c o => exact makes_parted u t q c o
  | discards r o =>
    obtain ⟨e, -, he⟩ := u.discarded_eq t o
    rw [he]
    exact makes_finish u t e

theorem Sound.makes_act (h : w.Sound) (x : Act) : Makes w (w.act x) (w.established? x) := by
  have hsame : w.established? x = none → (w.act x).wires = w.wires →
      Makes w (w.act x) (w.established? x) := fun he hw => .nothing (fun _ => he) hw
  rcases w.act_cases x with hp | ⟨t, rfl, hg | ⟨job, hg⟩⟩
  · exact hsame (established?_outside hp) (wires_act hp)
  · exact hsame (by simp [established?, hg]) (h.wires_of_not_going hg)
  · obtain ⟨hready, -, -⟩ := going?_eq_some.mp hg
    by_cases hq : ∃ q, job.role = .attempt q
    · obtain ⟨q, hq⟩ := hq
      obtain ⟨s, rfl⟩ := Job.eq_attempt hq
      simp only [established?, hg, Option.bind_some]
      exact (h.tries hg).makes.left rfl rfl
    · have hother := not_exists.mp hq
      refine hsame (established?_other hg hother) ?_
      rw [Overlay.act, if_pos hready]
      refine Turns.wires (h.poll_turns t) (h.ready t hready) fun q hr => hother q ?_
      exact Option.some.inj ((role?_of_going hg).symm.trans hr)

end RelayUpkeep.Overlay
