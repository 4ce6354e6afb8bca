import RelayUpkeep.Proofs.Bystanders

/-! # Which peers count as failed

A peer counts as failed for the wait time after each of its failures, and at no other time. A
candidate fails if an attempt on it is answered with an error, or if the attempt crashes and its
guard hears of that; the peer of a pooled relay fails when the manager is told that the relay is
lost. Nothing else makes a peer count as failed, or not. -/

namespace RelayUpkeep

namespace FailedCache

variable {now later : Instant} {c c' : FailedCache}

/-- No peer counts as failed for longer than a wait time that begins now. -/
def Bounded (now : Instant) (c : FailedCache) : Prop :=
  ∀ e ∈ c.entries, e.2 ≤ now + c.ttl.nanos

theorem Bounded.forgets (h : c.Bounded now) (hf : c.Forgets now c') (ht : c'.ttl = c.ttl)
    (hl : now ≤ later) : c'.Bounded later := by
  intro e he
  rw [ht]
  exact Nat.le_trans (h e (hf.old e he)) (Nat.add_le_add_right hl _)

theorem add?_eq {t : Instant} {d : Span} (h : (Instant.add? t d).isSome = true) :
    Instant.add? t d = some (t + d.nanos) := by
  unfold Instant.add? at h ⊢
  split at h
  · next hlt => rw [if_pos hlt]
  · exact absurd h (by simp)

theorem mem_put {p : PeerAddress} {expiry : Instant} {e : PeerId × Instant} :
    e ∈ (c.put p.id expiry).entries ↔ e = (p.id, expiry) ∨ e ∈ c.entries ∧ e.1 ≠ p.id := by
  simp [put]

theorem mem_prune {e : PeerId × Instant} :
    e ∈ (c.prune now).entries ↔ e ∈ c.entries ∧ now ≤ e.2 := by
  simp [prune, isLive]

theorem Bounded.add (h : c.Bounded now) (p : PeerAddress) (hl : now ≤ later) :
    (c.add p now).1.Bounded later := by
  have hw : now + c.ttl.nanos ≤ later + c.ttl.nanos := Nat.add_le_add_right hl _
  intro e he
  rw [Overlay.FailedCache.ttl_add]
  cases ha : Instant.add? now c.ttl with
  | none =>
    simp only [FailedCache.add, ha] at he
    exact Nat.le_trans (h e (mem_prune.mp he).1) hw
  | some expiry =>
    rw [add_eq ha] at he
    rcases mem_put.mp he with rfl | ⟨he, -⟩
    · rw [add?_eq (by simp [ha])] at ha
      exact Option.some.inj ha ▸ hw
    · exact Nat.le_trans (h e (mem_prune.mp he).1) hw

theorem contains_iff {p : PeerAddress} :
    c.contains p now = true ↔ ∃ e ∈ c.entries, e.1 = p.id ∧ now ≤ e.2 := by
  simp only [contains, isLive, List.any_eq_true, Bool.and_eq_true, beq_iff_eq, decide_eq_true_eq]

/-- A peer that is remembered anew counts as failed until its new wait time ends, and the others do
as before. -/
theorem Bounded.contains_add (h : c.Bounded now) (ht : (Instant.add? now c.ttl).isSome = true)
    (hl : now ≤ later) (p q : PeerAddress) : (c.add p now).1.contains q later = true ↔
      c.contains q later = true ∨ p.id = q.id ∧ later ≤ now + c.ttl.nanos := by
  rw [add_eq (add?_eq ht), contains_iff, contains_iff]
  constructor
  · rintro ⟨e, he, hq, hlive⟩
    rcases mem_put.mp he with rfl | ⟨he, -⟩
    · exact .inr ⟨hq, hlive⟩
    · exact .inl ⟨e, (mem_prune.mp he).1, hq, hlive⟩
  · rintro (⟨e, he, hq, hlive⟩ | ⟨hpq, hlive⟩)
    · by_cases hp : e.1 = p.id
      · -- the old entry gives way to one that lasts as long
        exact ⟨_, mem_put.mpr (.inl rfl), hp.symm.trans hq, Nat.le_trans hlive (h e he)⟩
      · exact ⟨e, mem_put.mpr (.inr ⟨mem_prune.mpr ⟨he, Nat.le_trans hl hlive⟩, hp⟩), hq, hlive⟩
    · exact ⟨_, mem_put.mpr (.inl rfl), hpq, hlive⟩

/-- The failures that are remembered after one more, or after none. -/
def Records (now : Instant) (c c' : FailedCache) : Option PeerAddress → Prop
  | some p => c' = (c.add p now).1
  | none => c.Forgets now c'

theorem Records.of_eq {p? : Option PeerAddress}
    (h : c' = p?.elim c fun p => (c.add p now).1) : c.Records now c' p? := by
  cases p? with
  | some p => exact h
  | none => exact h ▸ .refl c

end FailedCache

namespace Overlay

variable {t a : TaskId} {p q : PeerAddress} {r : RelayId} {u v w : Overlay} {x : Act}

/-! ## Failures -/

/-- The peer of relay `r`, if the relay is pooled, its link is down, and the manager lives and
listens to it. -/
def bereaved? (w : Overlay) (r : RelayId) : Option PeerAddress :=
  (w.relays[r]?).bind fun relay =>
    if r ∈ w.pooled ∧ (relay.conn.any fun c => !w.isOpen c) ∧
        relay.signal = .live (some .manager) ∧ w.managerLives then some relay.address
    else none

/-- The peer that fails in a step of a task: the candidate of an attempt that is answered with an
error, the candidate of an attempt that has crashed as its guard hears, or the peer of a relay that
is pooled and of whose loss its watcher tells the manager. -/
def failingIn? (w : Overlay) : Job → Option PeerAddress
  | .attempt q s => if w.reply q s matches some (.error _) then some q else none
  | .guardAttempt _ q (some a) => if w.exit? a matches some (.crashed _) then some q else none
  | .watch r => w.bereaved? r
  | _ => none

/-- The peer that fails with an act. -/
def failing? (w : Overlay) : Act → Option PeerAddress
  | .poll t => (w.going? t).bind w.failingIn?
  | _ => none

/-- Peer `p` fails with the act at place `i` of a run. -/
def FailsAt (w : Overlay) (acts : List Act) (p : PeerAddress) (i : Nat) : Prop :=
  ∃ x, acts[i]? = some x ∧ (w.run (acts.take i)).failing? x = some p

/-! ## Attempts -/

/-- No failure is remembered, and the task does not end as one that was asked to. -/
structure Settles (t : TaskId) (u v : Overlay) : Prop where
  failed : v.manager.failed = u.manager.failed
  ends : v.exits = u.exits ∨ ∃ e, e ≠ .cancelled ∧ v.exits = u.exits ++ [(t, e)]

namespace Settles

theorem of_eq (hf : v.manager.failed = u.manager.failed) (he : v.exits = u.exits) :
    Settles t u v := ⟨hf, .inl he⟩

theorem finish (w : Overlay) {e : Exit} (he : e ≠ .cancelled) : Settles t w (w.finish t e) := by
  obtain ⟨rs, h, -⟩ := w.finish_eq t e
  rw [h]
  exact ⟨rfl, .inr ⟨e, he, rfl⟩⟩

/-- What comes before may leave alone even more. -/
theorem left (h : Settles t v w) (hf : v.manager.failed = u.manager.failed)
    (he : v.exits = u.exits) : Settles t u w :=
  ⟨h.failed.trans hf, by rw [← he]; exact h.ends⟩

theorem play {s : Script} {waiting : Outcome → Job} {next : Overlay → Outcome → Overlay}
    (hn : ∀ o, Settles t w (next w o)) : Settles t w (w.play t s waiting next) := by
  unfold Overlay.play
  split
  · exact hn _
  · exact .of_eq rfl rfl

end Settles

theorem settles_discarded (w : Overlay) (o : Outcome) : Settles t w (w.discarded t o) := by
  obtain ⟨e, he, h⟩ := w.discarded_eq t o
  rw [h]
  exact .finish w he

theorem settles_discard (w : Overlay) (r : RelayId) : Settles t w (w.discard t q r) := by
  obtain ⟨relays, tasks, ready, h⟩ := w.shutRelay_frame r
  unfold discard
  split
  · next hs =>
    rw [hs] at h
    subst h
    exact (Settles.finish _ (by simp)).left rfl rfl
  · next c hs =>
    rw [hs] at h
    subst h
    obtain ⟨conns, rs, journal, hc⟩ :=
      ({ w with relays, tasks, ready } : Overlay).closeConn_frame c
    rw [hc]
    exact (Settles.play fun o => settles_discarded _ o).left rfl rfl

/-- Whatever the pool answers, no failure is remembered. -/
theorem settles_offer {relay : Relay} (hr : w.relays[r]? = some relay)
    (hs : relay.signal = .live none) : Settles t w (w.offer t q r p) := by
  by_cases ha : w.verdict p = some .added
  · rw [offer_admitted hr hs ha]
    exact (Settles.finish _ (by simp)).left rfl rfl
  · rw [offer_refused ha]
    exact (settles_discard _ r).left rfl rfl

theorem settles_parted (w : Overlay) (c : ConnId) (o : Outcome) :
    Settles t w (w.parted t q c o) := by
  rcases w.parted_cases t q c o with ⟨e, he, h⟩ | ⟨p, h⟩ <;> rw [h]
  · exact .finish w he
  · exact (settles_offer (w.addPushRelay_last p) rfl).left rfl rfl

theorem settles_establish (w : Overlay) (c : ConnId) (remote : PeerAddress) :
    Settles t w (w.establish t q c remote) := by
  unfold establish
  split
  · exact (settles_offer (w.addOpenRelay_last c remote) rfl).left rfl rfl
  · obtain ⟨conns, rs, journal, hc⟩ := w.closeConn_frame c
    rw [hc]
    exact (Settles.play fun o => settles_parted _ c o).left rfl rfl

theorem failed_failAttempt (w : Overlay) (t : TaskId) (p : PeerAddress) (e : RelayError) :
    (w.failAttempt t p e).manager.failed = (w.manager.failed.add p w.now).1 := by
  obtain ⟨end', more, -, -, h⟩ := w.failAttempt_eq t p e
  rw [h, manager_finish]

/-- An attempt has its candidate remembered as failed if it is answered with an error, and leaves
the failures alone if not. -/
theorem Tries.failed {s : AttemptStage} (h : Tries t q u s v) : v.manager.failed =
    (u.failingIn? (.attempt q s)).elim u.manager.failed fun p => (u.manager.failed.add p u.now).1 := by
  simp only [failingIn?]
  cases h with
  | connects h hn | shakes h _ hn | crashes h hn =>
    obtain ⟨-, ⟨conns, ready, journal, rfl⟩, -⟩ := h
    simp only [hn, manager_finish]
    rfl
  | fails h hr =>
    obtain ⟨-, ⟨conns, ready, journal, rfl⟩, -⟩ := h
    rw [failed_failAttempt, hr]
    rfl
  | establishes h _ hr =>
    obtain ⟨-, ⟨conns, ready, journal, rfl⟩, -⟩ := h
    rw [(settles_establish _ _ _).failed, hr]
    rfl
  | parts c o => exact (settles_parted u c o).failed
  | discards r o => exact (settles_discarded u o).failed

/-- An attempt does not end as one that was asked to. -/
theorem Tries.ends {s : AttemptStage} (h : Tries t q u s v) :
    v.exits = u.exits ∨ ∃ e, e ≠ .cancelled ∧ v.exits = u.exits ++ [(t, e)] := by
  cases h with
  | connects h | shakes h =>
    obtain ⟨-, ⟨conns, ready, journal, rfl⟩, -⟩ := h
    exact .inl rfl
  | @crashes _ _ text h =>
    obtain ⟨-, ⟨conns, ready, journal, rfl⟩, -⟩ := h
    exact (Settles.finish { u with conns, ready, journal }
      (e := .crashed (.collaborator text)) (by simp)).ends
  | @fails _ _ e h =>
    obtain ⟨-, ⟨conns, ready, journal, rfl⟩, -⟩ := h
    obtain ⟨end', more, hend, -, he⟩ := failAttempt_eq { u with conns, ready, journal } t q e
    obtain ⟨rs, hfin, -⟩ := finish_eq { u with
      conns, ready, journal := journal ++ more,
      manager := { u.manager with failed := (u.manager.failed.add q u.now).1 } } t end'
    exact .inr ⟨end', hend, congrArg Overlay.exits (he.trans hfin)⟩
  | establishes h =>
    obtain ⟨-, ⟨conns, ready, journal, rfl⟩, -⟩ := h
    exact (settles_establish _ _ _).ends
  | parts c o => exact (settles_parted u c o).ends
  | discards r o => exact (settles_discarded u o).ends

/-! ## Attempts are not asked to end -/

/-- Attempts, whatever their candidates. -/
def attempts (_ : TaskId) (role : Role) : Prop := ∃ q, role = .attempt q

theorem Uncancelled.attempts_act (h : w.Uncancelled attempts) (hs : w.Sound) (x : Act) :
    (w.act x).Uncancelled attempts := by
  refine h.act hs ?_ ?_
  · rintro b role ⟨q, rfl⟩
    rfl
  · rintro b rfl hcall role hr ⟨q, rfl⟩
    obtain ⟨task, ht, hrole⟩ := role?_eq_some.mp hr
    rw [isCall_eq ht, hrole] at hcall
    exact absurd hcall (by simp)

/-- No attempt has ended as one that was asked to. -/
def Unbroken (w : Overlay) : Prop :=
  ∀ a q, w.role? a = some (.attempt q) → w.exit? a ≠ some .cancelled

theorem Unbroken.act (h : w.Unbroken) (hs : w.Sound) (hu : w.Uncancelled attempts) (x : Act) :
    (w.act x).Unbroken := by
  intro a q hr hc
  by_cases hlt : a < w.tasks.length
  swap
  · have hnew := hs.new_act x (Nat.le_of_not_lt hlt)
    exact absurd hnew (by simp [isFinished, hc])
  rw [(hs.grows_act x).role?_eq hlt] at hr
  by_cases hx : x = .poll a ∧ a ∈ w.ready ∧ w.isFinished a = false
  swap
  · exact h a q hr ((hs.idle_act hlt hx).2 ▸ hc)
  obtain ⟨rfl, hready, hf⟩ := hx
  obtain ⟨task, ht, hrole⟩ := role?_eq_some.mp hr
  obtain ⟨s, hj⟩ := Job.eq_attempt hrole
  have hg : w.going? a = some (.attempt q s) :=
    going?_eq_some.mpr ⟨hready, hf, task, ht, hu a task ht ⟨q, hrole⟩, hj⟩
  rcases (hs.tries hg).ends with he | ⟨e, hne, he⟩
  · refine h a q hr ?_
    rwa [exit?, he] at hc
  · have hnone : w.exit? a = none := by simpa [isFinished] using hf
    rw [exit?_append (w := w) he, hnone] at hc
    exact hne (by simpa using hc)

/-! ## The other tasks -/

theorem failed_relayLost (w : Overlay) (r : RelayId) (p : PeerAddress) :
    (w.relayLost r p).1.manager.failed =
      if r ∈ w.pooled then (w.manager.failed.add p w.now).1 else w.manager.failed := by
  rcases w.relayLost_cases r p with ⟨hc, h⟩ | ⟨hc, -, h⟩ | ⟨hc, -, h⟩ <;> rw [h]
  · rw [if_neg fun hp => by simp [contains_iff.mpr hp] at hc]
  · rw [if_pos (contains_iff.mp hc)]
    rfl
  · rw [if_pos (contains_iff.mp hc), tellAll_eq]
    rfl

/-- Of a relay that is lost the manager remembers the peer, if it is told and the relay is
pooled. -/
theorem failed_lose {relay : Relay} (hr : w.relays[r]? = some relay) :
    (w.lose r).1.manager.failed =
      if r ∈ w.pooled ∧ relay.signal = .live (some .manager) ∧ w.managerLives then
        (w.manager.failed.add relay.address w.now).1
      else w.manager.failed := by
  split
  · next hc =>
    obtain ⟨hp, hs, hm⟩ := hc
    rw [lose_told hr hs hm, failed_relayLost]
    exact if_pos hp
  · next hc =>
    rcases w.lose_cases r with h | ⟨relay', hr', h⟩
    · rw [h]
    · obtain rfl := Option.some.inj (hr.symm.trans hr')
      generalize (w.lose r).1 = v at h
      cases h with
      | unheard | noted | ownerless => rfl
      | told hs hm =>
        rw [failed_relayLost]
        exact if_neg fun hp => hc ⟨hp, hs, hm⟩

theorem bereaved?_eq {relay : Relay} {c : ConnId} (hr : w.relays[r]? = some relay)
    (hc : relay.conn = some c) : w.bereaved? r =
      if r ∈ w.pooled ∧ w.isOpen c = false ∧ relay.signal = .live (some .manager) ∧ w.managerLives
        then some relay.address else none := by
  simp [bereaved?, hr, hc]

theorem Sound.failed_watch (h : w.Sound) (hg : w.going? t = some (.watch r)) :
    (w.act (.poll t)).manager.failed =
      (w.bereaved? r).elim w.manager.failed fun p => (w.manager.failed.add p w.now).1 := by
  obtain ⟨hready, hf, task, ht, hcan, -⟩ := going?_eq_some.mp hg
  obtain ⟨relay, hr, hw⟩ := h.watches t r (role?_of_going hg)
  have hv := h.poll_watcher hr hw hf
  rw [Overlay.act, if_pos hready]
  generalize w.poll t = v at hv
  cases hv with
  | waits hc ho => simp [bereaved?_eq hr hc, ho]
  | notices hc ho =>
    rw [manager_finish, failed_lose (w := { w with ready := w.ready.erase t }) hr,
      bereaved?_eq hr hc]
    simp only [ho, true_and]
    by_cases hb : r ∈ w.pooled ∧ relay.signal = .live (some .manager) ∧ w.managerLives
    · rw [if_pos hb]
      exact if_pos hb
    · rw [if_neg hb]
      exact if_neg hb
  | leaves hl =>
    have hheld : w.isHeld r = false := by
      rcases hl with ⟨task', ht', hcan'⟩ | hheld
      · obtain rfl := Option.some.inj (ht.symm.trans ht')
        exact absurd (hcan.symm.trans hcan') (by simp)
      · exact hheld
    have hnone : w.bereaved? r = none := by
      simp only [bereaved?, hr, Option.bind_some]
      exact if_neg fun hc => by simp [isHeld_of_pooled hc.2.2.2 hc.1] at hheld
    rw [manager_finish, hnone]
    rfl

/-- A guard has the candidate remembered as failed if the attempt has crashed. -/
theorem failed_pollGuard {slot : Nat} {attempt : Option TaskId}
    (hn : ∀ a, attempt = some a → w.exit? a ≠ some .cancelled) :
    (w.pollGuard t slot q attempt).manager.failed =
      (w.failingIn? (.guardAttempt slot q attempt)).elim w.manager.failed
        fun p => (w.manager.failed.add p w.now).1 := by
  cases attempt with
  | none => rfl
  | some a =>
    simp only [pollGuard, failingIn?]
    cases he : w.exit? a with
    | none => rfl
    | some e =>
      cases e with
      | crashed crash => exact failed_failAttempt _ _ _ _
      | cancelled => exact absurd he (hn a rfl)
      | done | relays | failed => exact congrArg (·.failed) (manager_finish _ _ _)

theorem settles_ended (w : Overlay) (o : Outcome) : Settles t w (w.ended t o) := by
  cases o <;> exact .finish w (by simp)

theorem settles_pollCloseRelay (w : Overlay) (r : RelayId) (pending : Option Outcome) :
    Settles t w (w.pollCloseRelay t r pending) := by
  cases pending with
  | some o => exact settles_ended w o
  | none =>
    obtain ⟨relays, tasks, ready, h⟩ := w.shutRelay_frame r
    rw [pollCloseRelay_eq, h]
    split
    · exact (Settles.finish _ (by simp)).left rfl rfl
    · next c _ =>
      obtain ⟨conns, rs, journal, hc⟩ :=
        ({ w with relays, tasks, ready } : Overlay).closeConn_frame c
      rw [hc]
      exact (Settles.play fun o => settles_ended _ o).left rfl rfl

/-- Whoever goes on has the peer remembered that fails in this step, and no other. -/
theorem Sound.failed_going (h : w.Sound) (hb : w.Unbroken) {job : Job}
    (hg : w.going? t = some job) : w.manager.failed.Records w.now
      (w.act (.poll t)).manager.failed (w.failingIn? job) := by
  have hact := act_of_going hg
  have habs : ∀ {v}, ({ w with ready := w.ready.erase t } : Overlay).Abstains v →
      w.act (.poll t) = v → w.manager.failed.Forgets w.now (w.act (.poll t)).manager.failed :=
    fun hv he => he ▸ hv.failed
  cases job with
  | setup manual maxFail stage => exact habs (abstains_pollSetup _ _ _ _ stage) hact
  | shutdown stage => exact habs (abstains_pollShutdown _ _ stage) hact
  | releaseCreator k pending => exact habs (abstains_pollRelease _ _ k pending) hact
  | closeRelay r pending =>
    refine .of_eq ?_
    rw [hact]
    exact (settles_pollCloseRelay { w with ready := w.ready.erase t } r pending).failed
  | attempt q s => exact .of_eq (h.tries hg).failed
  | guardAttempt slot q attempt =>
    obtain ⟨-, -, task, ht, -, hj⟩ := going?_eq_some.mp hg
    refine .of_eq ?_
    rw [hact]
    refine failed_pollGuard fun a ha => hb a q ?_
    subst ha
    exact (hj ▸ h.refers t task ht : w.Refers t (.guardAttempt slot q (some a))).role?
  | watch r => exact .of_eq (h.failed_watch hg)

/-- Each act has the peer remembered that fails with it, and no other. -/
theorem Sound.failed_act (h : w.Sound) (hb : w.Unbroken) (x : Act) :
    w.manager.failed.Records w.now (w.act x).manager.failed (w.failing? x) := by
  have hx : ∀ t, w.failing? (.poll t) = (w.going? t).bind w.failingIn? := fun _ => rfl
  rcases w.act_cases x with hp | ⟨t, rfl, hg | ⟨job, hg⟩⟩
  · obtain ⟨observers, hm⟩ := manager_act (w := w) hp
    cases x with
    | poll => exact absurd hp (by simp [Act.isPoll])
    | _ => exact .of_eq (by rw [hm]; rfl)
  · rw [hx, hg]
    exact (h.abstains_of_not_going hg).failed
  · rw [hx, hg]
    exact h.failed_going hb hg

/-! ## Runs -/

/-- Nobody is remembered as failed for longer than a wait time. -/
structure Recent (w : Overlay) : Prop where
  sound : w.Sound
  steady : w.Uncancelled attempts
  unbroken : w.Unbroken
  bounded : w.manager.failed.Bounded w.now

theorem recent_start (config : RelayConfig) (address : PeerAddress) :
    (start config address).Recent where
  sound := sound_start config address
  steady a task ht := absurd ht (by simp [start])
  unbroken a q hr := absurd hr (by simp [start, role?])
  bounded e he := by simp [start, Manager.new, FailedCache.empty] at he

theorem Grows.now (h : u.Grows v) : u.now ≤ v.now :=
  Nat.add_le_add_left (Nat.mul_le_mul_left _ h.clock) _

theorem Recent.act (h : w.Recent) (x : Act) : (w.act x).Recent where
  sound := h.sound.act x
  steady := h.steady.attempts_act h.sound x
  unbroken := h.unbroken.act h.sound h.steady x
  bounded := by
    have hg := h.sound.grows_act x
    have hr := h.sound.failed_act h.unbroken x
    cases hx : w.failing? x with
    | some p =>
      rw [hx] at hr
      exact (show _ = _ from hr) ▸ h.bounded.add p hg.now
    | none =>
      rw [hx] at hr
      exact h.bounded.forgets hr hg.ttl hg.now

/-- A peer counts as failed after an act as before, or for a wait time if it fails with the act. -/
theorem Recent.contains_act (h : w.Recent) {x : Act} (ht : w.InTime) (p : PeerAddress)
    {later : Instant} (hl : (w.act x).now ≤ later) :
    (w.act x).manager.failed.contains p later = true ↔
      w.manager.failed.contains p later = true ∨ ∃ q, w.failing? x = some q ∧ q.id = p.id ∧
        later ≤ w.now + w.manager.config.failedWait.nanos := by
  have hl' : w.now ≤ later := Nat.le_trans (h.sound.grows_act x).now hl
  have hr := h.sound.failed_act h.unbroken x
  cases hx : w.failing? x with
  | some q =>
    rw [hx] at hr
    have hadd := h.bounded.contains_add (by rw [h.sound.ttl]; exact ht) hl' q p
    rw [show (w.act x).manager.failed = _ from hr, hadd, h.sound.ttl]
    simp
  | none =>
    rw [hx] at hr
    rw [hr.contains p hl']
    simp

variable {acts : List Act} {i : Nat}

theorem recent_run (config : RelayConfig) (mine : PeerAddress) (acts : List Act) :
    ((start config mine).run acts).Recent := by
  induction acts using List.reverseRecOn with
  | nil => exact recent_start config mine
  | append_singleton acts x ih => exact run_concat _ acts x ▸ ih.act x

theorem FailsAt.lt (h : w.FailsAt acts p i) : i < acts.length := by
  obtain ⟨x, hx, -⟩ := h
  exact (List.getElem?_eq_some_iff.mp hx).1

theorem failsAt_concat : w.FailsAt (acts ++ [x]) p i ↔
    w.FailsAt acts p i ∨ i = acts.length ∧ (w.run acts).failing? x = some p := by
  constructor
  · rintro ⟨y, hy, hf⟩
    rcases getElem?_concat_eq_some hy with hy | ⟨rfl, rfl⟩
    · exact .inl ⟨y, hy, take_append_of_eq_some hy [x] ▸ hf⟩
    · rw [List.take_left] at hf
      exact .inr ⟨rfl, hf⟩
  · rintro (⟨y, hy, hf⟩ | ⟨rfl, hf⟩)
    · refine ⟨y, getElem?_append_of_eq_some hy [x], ?_⟩
      rwa [take_append_of_eq_some hy]
    · exact ⟨x, List.getElem?_concat_length, by rwa [List.take_left]⟩

/-- From the end of a run on, a peer counts as failed as long as the wait time after one of its
failures lasts. -/
theorem contains_run (config : RelayConfig) (mine : PeerAddress) {acts : List Act}
    (ha : (start config mine).Along (fun w _ => w.InTime) acts) (p : PeerAddress) {later : Instant}
    (hl : ((start config mine).run acts).now ≤ later) :
    ((start config mine).run acts).manager.failed.contains p later = true ↔
      ∃ i q, (start config mine).FailsAt acts q i ∧ q.id = p.id ∧
        later ≤ ((start config mine).run (acts.take i)).now + config.failedWait.nanos := by
  induction acts using List.reverseRecOn generalizing later with
  | nil =>
    constructor
    · intro h
      simp [start, Manager.new, FailedCache.empty, FailedCache.contains] at h
    · rintro ⟨i, q, ⟨x, hx, -⟩, -⟩
      exact absurd hx (by simp)
  | append_singleton acts x ih =>
    obtain ⟨ha, ht⟩ := along_concat.mp ha
    rw [run_concat] at hl ⊢
    have hr := recent_run config mine acts
    have hconfig := (grows_run (sound_start config mine) acts).config
    have hwait : ((start config mine).run acts).manager.config.failedWait = config.failedWait :=
      congrArg RelayConfig.failedWait hconfig
    rw [hr.contains_act ht p hl, ih ha (Nat.le_trans (hr.sound.grows_act x).now hl), hwait]
    constructor
    · rintro (⟨i, q, hf, hq, hle⟩ | ⟨q, hf, hq, hle⟩)
      · refine ⟨i, q, failsAt_concat.mpr (.inl hf), hq, ?_⟩
        rwa [List.take_append_of_le_length (Nat.le_of_lt hf.lt)]
      · refine ⟨acts.length, q, failsAt_concat.mpr (.inr ⟨rfl, hf⟩), hq, ?_⟩
        rwa [List.take_left]
    · rintro ⟨i, q, hf, hq, hle⟩
      rcases failsAt_concat.mp hf with hold | ⟨rfl, hnew⟩
      · rw [List.take_append_of_le_length (Nat.le_of_lt hold.lt)] at hle
        exact .inl ⟨i, q, hold, hq, hle⟩
      · rw [List.take_left] at hle
        exact .inr ⟨q, hnew, hq, hle⟩

/-- As long as the clock does not overflow: a peer counts as failed at the end of a run exactly if
it failed in the course of the run, and the wait time after that failure has not passed. An act with
which no peer fails changes nothing about who counts as failed from then on. -/
theorem failed_iff_failed_lately (config : RelayConfig) (mine : PeerAddress) (acts : List Act)
    (ha : (start config mine).Along (fun w _ => w.InTime) acts) (p : PeerAddress) :
    let w := (start config mine).run acts
    (w.manager.failed.contains p w.now = true ↔ ∃ i q, (start config mine).FailsAt acts q i ∧
      q.id = p.id ∧
      w.now ≤ ((start config mine).run (acts.take i)).now + config.failedWait.nanos) ∧
    ∀ x later, w.failing? x = none → (w.act x).now ≤ later →
      (w.act x).manager.failed.contains p later = w.manager.failed.contains p later := by
  intro w
  refine ⟨contains_run config mine ha p (Nat.le_refl _), fun x later hx hl => ?_⟩
  have hr : w.Recent := recent_run config mine acts
  have hf := hr.sound.failed_act hr.unbroken x
  rw [hx] at hf
  exact hf.contains p (Nat.le_trans (hr.sound.grows_act x).now hl)

/-- The attempt on a peer crashes in the handshake. The peer counts as failed until the last moment
of the wait time. -/
theorem failed_iff_failed_lately_sample :
    let acts : List Act := [.behave [.sample 2] ⟨{}, ⟨0, .crash "handshake"⟩, {}, false, none⟩,
      .setUp [.sample 2] 0, .poll 0, .poll 1, .poll 2, .poll 1, .elapse 60000]
    let w := (start {} (.sample 1)).run acts
    (∃ i q, (start {} (.sample 1)).FailsAt acts q i ∧ q.id = (PeerAddress.sample 2).id ∧
      w.now ≤ ((start {} (.sample 1)).run (acts.take i)).now + Span.nanos (.ofSecs 60)) ∧
    (w.act (.elapse 1)).manager.failed.contains (.sample 2) (w.act (.elapse 1)).now = false := by
  intro acts
  dsimp only
  have hstate : ((start {} (.sample 1)).run acts).manager.failed.contains (.sample 2)
        ((start {} (.sample 1)).run acts).now = true ∧
      ((start {} (.sample 1)).run acts).manager.failed.contains (.sample 2)
        (((start {} (.sample 1)).run acts).act (.elapse 1)).now = false := by
    decide +kernel
  have h := failed_iff_failed_lately {} (.sample 1) acts (by decide +kernel) (.sample 2)
  refine ⟨h.1.mp hstate.1, ?_⟩
  rw [h.2 (.elapse 1) _ rfl (Nat.le_refl _)]
  exact hstate.2

end Overlay

end RelayUpkeep
