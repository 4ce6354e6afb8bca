import RelayUpkeep.Proofs.Advancing
import RelayUpkeep.Proofs.Making

/-! # Steps of attempts

A step of an attempt leaves it on its way, has it ask again, or brings it to its end: with the
error that it was answered with, with an offer of the relay that it has made, or with a crash. -/

namespace RelayUpkeep.Overlay

/-- The attempt has come by a connection. -/
def isLate : AttemptStage → Bool
  | .partingFrom .. | .discarding .. => true
  | _ => false

variable {t a : TaskId} {u v w : Overlay} {p q : PeerAddress} {c : ConnId} {s : AttemptStage}
  {r : RelayId} {e : Exit}

/-! ## Offers -/

/-- The pool is offered a relay that was made for connection `c`, and it is pooled then, or was
closed again. -/
def Offers (c : ConnId) (u v : Overlay) : Prop :=
  ∃ (conn : Conn) (relay : Relay) (answer : Option Admission), v.conns[c]? = some conn ∧
    v.offers = u.offers ++ [(u.relays.length, answer)] ∧
    v.relays[u.relays.length]? = some relay ∧ relay.address = conn.remote ∧
    v.Homed u.relays.length

theorem Offers.left (h : Offers c v w) (ho : v.offers = u.offers) (hr : v.relays = u.relays) :
    Offers c u w := by
  unfold Offers at h ⊢
  rwa [ho, hr] at h

theorem offers_offer {relay : Relay} (hr : w.relays[r]? = some relay)
    (hs : relay.signal = .live none) (ht : w.role? t = some (.attempt q)) :
    (w.offer t q r p).offers = w.offers ++ [(r, w.verdict p)] ∧
      ∃ relay', (w.offer t q r p).relays[r]? = some relay' ∧ relay'.address = relay.address := by
  by_cases ha : w.verdict p = some .added
  · rw [offer_admitted hr hs ha, (Calm.finish _ _ _).offers, offers_admitted, ha, relays_finish]
    exact ⟨rfl, { relay with signal := .live (some .manager) }, by simp [admitted_relays, hr], rfl⟩
  · have hq : Quiet t (w.refused r (w.verdict p)) _ := refused_discard ht
    rw [offer_refused ha, (Calm.quiet hq).offers, offers_refused]
    have hg := (Grows.log w (.offer r (w.verdict p))).trans
      ((Grows.shutRelay _ r).trans (.turns hq.turns))
    obtain ⟨relay', hr', hkept⟩ := hg.relays r _ hr
    exact ⟨rfl, relay', hr', hkept.address⟩

/-- Whoever makes a relay of a connection and offers it makes an offer. -/
theorem Made.offers {conn : Conn} (h : Made w v r p) (hr : w.role? t = some (.attempt q))
    (hc : w.conns[c]? = some conn) (hp : conn.remote = p) : Offers c w (v.offer t q r p) := by
  have hg : w.Grows (v.offer t q r p) :=
    .turns ((attempts_offer (k := .any) h hr trivial).turns hr)
  obtain ⟨conn', hc', hremote⟩ := hg.conns c conn hc
  obtain ⟨kind, wire, watcher, hrelay⟩ := h.relay
  obtain ⟨hoffers, relay, hrelay', haddress⟩ := offers_offer (p := p) hrelay rfl (h.role? hr)
  have hwire : ∀ d, wire = some d → ∃ conn, v.conns[d]? = some conn := by
    rintro d rfl
    cases h with
    | openTcp d' conn' hd' =>
      rw [addOpenRelay_last] at hrelay
      obtain rfl : d' = d := by simpa using congrArg (Option.map Relay.conn) hrelay
      exact ⟨conn', hd'⟩
    | push =>
      rw [addPushRelay_last] at hrelay
      simp at hrelay
  obtain rfl := h.id
  refine ⟨conn', relay, v.verdict p, hc', ?_, hrelay', ?_, homed_offer hrelay rfl hwire⟩
  · rw [hoffers, (Calm.made h).offers]
  · rw [haddress, hremote.remote, hp]

/-! ## Steps of attempts -/

/-- The attempt has succeeded or crashed, or it closes a relay that was not taken in. -/
def WindsUp (t : TaskId) (q : PeerAddress) (w : Overlay) : Prop :=
  w.exit? t = some .done ∨ (∃ text, w.exit? t = some (.crashed (.collaborator text))) ∨
    w.isFinished t = false ∧ ∃ r o, w.job? t = some (.attempt q (.discarding r o))

/-- What an attempt comes to in a step: it is not answered, or not as it should be, or it has a
connection. It makes an offer then, unless it crashes while it closes the connection. -/
inductive Comes (t : TaskId) (q : PeerAddress) (u : Overlay) (s : AttemptStage) (v : Overlay) :
    Prop
  | asks (s' : AttemptStage) (hs : isLate s = false) (hs' : isLate s' = false)
      (hf : v.isFinished t = false) (hj : v.job? t = some (.attempt q s'))
      (hn : u.reply q s = none)
  | fails (e : RelayError) (hr : u.reply q s = some (.error e))
      (he : v.exit? t = some (.failed e) ∨ v.exit? t = some (.crashed .clockOverflow))
  | crashes (text : String)
      (hr : u.reply q s = none ∨ u.manager.config.kind = .push ∧ ∃ c, u.reply q s = some (.ok c))
      (he : v.exit? t = some (.crashed (.collaborator text)))
  | parts (c : ConnId) (o : Outcome) (hk : u.manager.config.kind = .push)
      (hr : u.reply q s = some (.ok c)) (hf : v.isFinished t = false)
      (hj : v.job? t = some (.attempt q (.partingFrom c o)))
  | offers (c : ConnId) (h : u.reply q s = some (.ok c) ∨ ∃ o, s = .partingFrom c o)
      (ho : Offers c u v) (hc : v.WindsUp t q)
  | closes (r : RelayId) (o : Outcome) (hs : s = .discarding r o) (hc : v.WindsUp t q)

theorem windsUp_discarded (hf : w.isFinished t = false) (o : Outcome) :
    (w.discarded t o).WindsUp t q := by
  cases o with
  | crash text => exact .inr (.inl ⟨text, exit?_finish_self hf _⟩)
  | succeed | fail => exact .inl (exit?_finish_self hf _)

theorem windsUp_discard (ht : t < w.tasks.length) (hf : w.isFinished t = false) (r : RelayId) :
    (w.discard t q r).WindsUp t q := by
  obtain ⟨relays, tasks, ready, he⟩ := w.shutRelay_frame r
  have hlt : t < (w.shutRelay r).1.tasks.length :=
    Nat.lt_of_lt_of_le ht (Grows.shutRelay w r).tasks.length_le
  have hf' : (w.shutRelay r).1.isFinished t = false := by
    rw [he]
    exact hf
  rw [discard_eq]
  split
  · exact .inl (exit?_finish_self hf' _)
  · next c _ =>
    generalize (w.shutRelay r).1 = v at hlt hf'
    obtain ⟨conns, ready, journal, hclose⟩ := v.closeConn_frame c
    rw [hclose, play]
    split
    · refine windsUp_discarded ?_ _
      exact hf'
    · exact .inr (.inr ⟨hf', r, _, job?_setJob hlt _⟩)

/-- An attempt that has made its offer winds up. -/
theorem windsUp_offer {relay : Relay} (hr : w.relays[r]? = some relay)
    (hs : relay.signal = .live none) (ht : t < w.tasks.length) (hf : w.isFinished t = false) :
    (w.offer t q r p).WindsUp t q := by
  by_cases ha : w.verdict p = some .added
  · have hf' : (w.admitted r p).isFinished t = false := (isFinished_of_exits rfl t).trans hf
    rw [offer_admitted hr hs ha]
    exact .inl (exit?_finish_self hf' _)
  · rw [offer_refused ha]
    exact windsUp_discard (w := w.log (.offer r (w.verdict p))) ht hf r

/-- Once the connection is closed, the attempt makes an offer unless the closing has crashed. -/
theorem parted_offers {conn : Conn} (hc : w.conns[c]? = some conn)
    (hr : w.role? t = some (.attempt q)) (hf : w.isFinished t = false) (o : Outcome) :
    (∃ text, (w.parted t q c o).exit? t = some (.crashed (.collaborator text))) ∨
      Offers c w (w.parted t q c o) ∧ (w.parted t q c o).WindsUp t q := by
  have hlt := lt_of_role? hr
  cases o with
  | crash text => exact .inl ⟨text, exit?_finish_self hf _⟩
  | succeed | fail =>
    simp only [parted, hc]
    exact .inr ⟨(Made.push w conn.remote).offers hr hc rfl,
      windsUp_offer (w.addPushRelay_last conn.remote) rfl hlt hf⟩

theorem Comes.left (h : Comes t q w s v) (hr : w.reply q s = u.reply q s)
    (hk : w.manager.config = u.manager.config) (ho : w.offers = u.offers)
    (hl : w.relays = u.relays) : Comes t q u s v := by
  cases h with
  | asks s' hs hs' hf hj hn => exact .asks s' hs hs' hf hj (hr ▸ hn)
  | fails e he hend => exact .fails e (hr ▸ he) hend
  | crashes text hn he => exact .crashes text (hr ▸ hk ▸ hn) he
  | parts c o hpush he hf hj => exact .parts c o (hk ▸ hpush) (hr ▸ he) hf hj
  | offers c h hoffers hc => exact .offers c (hr ▸ h) (hoffers.left ho hl) hc
  | closes r o hs hc => exact .closes r o hs hc

theorem comes_establish {conn : Conn} (hc : w.conns[c]? = some conn)
    (ht : w.role? t = some (.attempt q)) (hf : w.isFinished t = false)
    (hr : u.reply q s = some (.ok c)) (hk : w.manager.config = u.manager.config)
    (ho : w.offers = u.offers) (hl : w.relays = u.relays) :
    Comes t q u s (w.establish t q c conn.remote) := by
  have hlt := lt_of_role? ht
  unfold establish
  split
  · refine .offers c (.inl hr) (((Made.openTcp w c conn hc).offers ht hc rfl).left ho hl) ?_
    refine windsUp_offer (w.addOpenRelay_last c conn.remote) rfl ?_ hf
    exact Nat.lt_of_lt_of_le hlt (by simp)
  · next hkind =>
    rw [hk] at hkind
    have hclose : Stirs t w (w.closeConn c) := stirs_closeConn w c
    obtain ⟨conn', hc', -⟩ := Stirs.remote hclose hc
    have hf' : (w.closeConn c).isFinished t = false :=
      (Stirs.isFinished hclose t).trans hf
    unfold play
    split
    · rcases parted_offers hc' (hclose.role? ht) hf' _ with ⟨text, he⟩ | ⟨hoffers, hends⟩
      · exact .crashes text (.inr ⟨hkind, c, hr⟩) he
      · refine .offers c (.inl hr) (hoffers.left ?_ ?_) hends
        · rw [(Calm.stirs hclose).offers, ho]
        · rw [Stirs.relays hclose, hl]
    · exact .parts c _ hkind hr hf' (job?_setJob (lt_of_role? (hclose.role? ht)) _)

theorem Approaches.isFinished (h : Approaches t u v) (a : TaskId) :
    v.isFinished a = u.isFinished a := by
  obtain ⟨-, ⟨conns, ready, journal, rfl⟩, -⟩ := h
  rfl

theorem Tries.comes (h : Tries t q u s v) (hs : isLate s = false)
    (ht : u.role? t = some (.attempt q)) (hf : u.isFinished t = false) : Comes t q u s v := by
  cases h with
  | connects h hn | shakes h hc hn =>
    have hlt := lt_of_role? (h.stirs.role? ht)
    exact .asks _ hs rfl ((h.isFinished t).trans hf) (job?_setJob hlt _) hn
  | fails h hr => exact .fails _ hr (exit?_failAttempt ((h.isFinished t).trans hf) _)
  | crashes h hn =>
    exact .crashes _ (.inl hn) (exit?_finish_self ((h.isFinished t).trans hf) _)
  | establishes h hc hr =>
    have ha := h.stirs
    exact comes_establish hc (ha.role? ht) ((h.isFinished t).trans hf) hr (Grows.stirs ha).config
      (Calm.stirs ha).offers (Stirs.relays ha)
  | parts | discards => exact absurd hs (by simp [isLate])

/-- Whatever an attempt does comes to this. -/
theorem Sound.comes (h : w.Sound) (hg : w.going? a = some (.attempt q s)) :
    Comes a q w s (w.act (.poll a)) := by
  have hr := role?_of_going hg
  obtain ⟨-, hf, task, ht, -, hj⟩ := going?_eq_some.mp hg
  cases hs : isLate s with
  | false =>
    have hcomes := (h.tries hg).comes hs hr hf
    exact hcomes.left rfl rfl rfl rfl
  | true =>
    rw [act_of_going hg]
    cases s with
    | entering | connecting | shaking => exact absurd hs (by simp [isLate])
    | partingFrom c o =>
      obtain ⟨conn, hc⟩ : w.Refers a (.attempt q (.partingFrom c o)) := hj ▸ h.refers a task ht
      rcases parted_offers (w := { w with ready := w.ready.erase a }) hc hr hf o with
        ⟨text, he⟩ | ⟨hoffers, hends⟩
      · exact .crashes text (.inl rfl) he
      · exact .offers c (.inr ⟨o, rfl⟩) (hoffers.left rfl rfl) hends
    | discarding r o =>
      exact .closes r o rfl (windsUp_discarded (w := { w with ready := w.ready.erase a }) hf o)

end RelayUpkeep.Overlay
