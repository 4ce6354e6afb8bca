import RelayUpkeep.Proofs.Losses
import RelayUpkeep.Proofs.Orphans
import RelayUpkeep.Proofs.Ownership

/-! # Waits that end beyond the range of the clock

A failure is remembered until an instant of the clock. As long as that instant is within the range
of the clock nobody crashes over it, and what a lost relay calls for is done to the end. Beyond the
range whoever remembers a failure crashes, and of a lost relay nothing is done but that it leaves
the pool. -/

namespace RelayUpkeep

/-- If its wait ends beyond the range, a peer is not remembered, and what has run out is
forgotten. -/
theorem FailedCache.forgets_add {c : FailedCache} {p : PeerAddress} {now : Instant}
    (h : Instant.add? now c.ttl = none) : c.Forgets now (c.add p now).1 := by
  simp only [add, h]
  exact ⟨fun e he => (mem_prune.mp he).1, fun e he hlive => mem_prune.mpr ⟨he, hlive⟩⟩

namespace Overlay

variable {t a : TaskId} {p q : PeerAddress} {r : RelayId} {u v w : Overlay} {x : Act}
  {relay : Relay} {job : Job}

/-! ## The wait after a failure -/

/-- The wait after a failure at this moment ends within the range of the clock. -/
theorem inTime_iff :
    w.InTime ↔ w.now + w.manager.config.failedWait.nanos < Instant.limit := by
  unfold InTime Instant.add?
  split <;> simp_all

theorem InTime.of_grows (h : v.InTime) (hg : u.Grows v) : u.InTime := by
  rw [inTime_iff] at h ⊢
  rw [hg.config] at h
  exact Nat.lt_of_le_of_lt (Nat.add_le_add_right hg.now _) h

/-- Whoever remembers a failure crashes if the wait after it ends beyond the range. -/
theorem overflow_failAttempt {e : RelayError} (hf : w.isFinished t = false)
    (httl : w.manager.failed.ttl = w.manager.config.failedWait) :
    (w.failAttempt t q e).exit? t = some (.crashed .clockOverflow) ↔ ¬ w.InTime := by
  by_cases ht : w.InTime
  · have hadd := FailedCache.add?_eq ht
    rw [← httl] at hadd
    have hexit : (w.failAttempt t q e).exit? t = some (.failed e) := by
      simp only [failAttempt, markFailed, FailedCache.add, hadd]
      refine exit?_finish_self ?_ _
      exact hf
    simp [hexit, ht]
  · have hadd : Instant.add? w.now w.manager.config.failedWait = none := by simpa [InTime] using ht
    rw [← httl] at hadd
    have hexit : (w.failAttempt t q e).exit? t = some (.crashed .clockOverflow) := by
      simp only [failAttempt, markFailed, FailedCache.add, hadd]
      refine exit?_finish_self ?_ _
      exact hf
    simp [hexit, ht]

/-! ## Who ends otherwise -/

/-- The task goes on, or ends but not over the clock. -/
def Sidesteps (t : TaskId) (u v : Overlay) : Prop :=
  v.exits = u.exits ∨ ∃ e, e ≠ .crashed .clockOverflow ∧ v.exits = u.exits ++ [(t, e)]

namespace Sidesteps

theorem of_eq (h : v.exits = u.exits) : Sidesteps t u v := .inl h

theorem finish (w : Overlay) {e : Exit} (he : e ≠ .crashed .clockOverflow) :
    Sidesteps t w (w.finish t e) := by
  obtain ⟨rs, h, -⟩ := w.finish_eq t e
  rw [h]
  exact .inr ⟨e, he, rfl⟩

theorem left (h : Sidesteps t v w) (he : v.exits = u.exits) : Sidesteps t u w := by
  unfold Sidesteps at h ⊢
  rwa [he] at h

theorem play {s : Script} {waiting : Outcome → Job} {next : Overlay → Outcome → Overlay}
    (hn : ∀ o, Sidesteps t w (next w o)) : Sidesteps t w (w.play t s waiting next) := by
  unfold Overlay.play
  split
  · exact hn _
  · exact .of_eq rfl

theorem exit?_ne (h : Sidesteps t u v) (hf : u.isFinished t = false) :
    v.exit? t ≠ some (.crashed .clockOverflow) := by
  have hnone : u.exit? t = none := by simpa [isFinished] using hf
  rcases h with he | ⟨e, hne, he⟩
  · rw [exit?, he, ← exit?, hnone]
    simp
  · rw [exit?_append (w := u) he, hnone]
    simpa using hne

end Sidesteps

theorem sidesteps_ended (w : Overlay) (o : Outcome) : Sidesteps t w (w.ended t o) := by
  cases o <;> exact .finish w (by simp)

theorem sidesteps_pollRelease (w : Overlay) (k : CreatorId) (pending : Option Outcome) :
    Sidesteps t w (w.pollRelease t k pending) := by
  cases pending with
  | some o => exact sidesteps_ended w o
  | none => exact (Sidesteps.play fun o => sidesteps_ended _ o).left rfl

theorem sidesteps_pollCloseRelay (w : Overlay) (r : RelayId) (pending : Option Outcome) :
    Sidesteps t w (w.pollCloseRelay t r pending) := by
  cases pending with
  | some o => exact sidesteps_ended w o
  | none =>
    obtain ⟨relays, tasks, ready, h⟩ := w.shutRelay_frame r
    rw [pollCloseRelay_eq, h]
    split
    · exact (Sidesteps.finish _ (by simp)).left rfl
    · next c _ =>
      obtain ⟨conns, rs, journal, hc⟩ :=
        ({ w with relays, tasks, ready } : Overlay).closeConn_frame c
      rw [hc]
      exact (Sidesteps.play fun o => sidesteps_ended _ o).left rfl

theorem sidesteps_concludeShutdown (w : Overlay) (hadRelays : Bool) (parts : List TaskId) :
    Sidesteps t w (w.concludeShutdown t hadRelays parts) := by
  have hp : (if hadRelays then w.publish else w).exits = w.exits := by
    split <;> rfl
  unfold concludeShutdown
  simp only
  split <;> exact (Sidesteps.finish _ (by simp)).left hp

theorem sidesteps_closeAll (w : Overlay) (drained : List RelayId) :
    Sidesteps t w (w.closeAll t drained) := by
  obtain ⟨-, gate, rs, hp⟩ := w.partsStarted_frame t drained
  rcases w.closeAll_cases t drained with ⟨-, h⟩ | ⟨-, h⟩ <;> rw [h, hp]
  · exact (Sidesteps.finish _ (by simp)).left rfl
  · exact .of_eq rfl

theorem sidesteps_pollShutdown (w : Overlay) (stage : ShutdownStage) :
    Sidesteps t w (w.pollShutdown t stage) := by
  cases stage with
  | entering =>
    simp only [pollShutdown, enterShutdown_eq]
    split
    · exact (sidesteps_closeAll (w.stopped t) _).left rfl
    · exact .of_eq rfl
  | queued drained =>
    simp only [pollShutdown]
    split
    · exact sidesteps_closeAll _ _
    · exact .of_eq rfl
  | closing hadRelays parts =>
    simp only [pollShutdown]
    split
    · exact sidesteps_concludeShutdown _ _ _
    · exact .of_eq rfl

theorem sidesteps_setup {manual : List PeerAddress} {maxFail : Nat} {stage : SetupStage}
    (h : w.going? t = some (.setup manual maxFail stage)) :
    Sidesteps t w (w.act (.poll t)) := by
  have ha := advances_act h
  generalize w.act (.poll t) = v at ha
  cases ha with
  | rests hk => exact .of_eq hk.exits
  | waits s hs hearly ht hx => exact .of_eq hx
  | @ends x e hk hc =>
    have hne : e ≠ .crashed .clockOverflow := by cases hc <;> simp
    exact (Sidesteps.finish x hne).left hk.exits
  | draws hk => exact .of_eq ((exits_staffed ..).trans hk.exits)

/-! ## Attempts and their guards -/

theorem Comes.reply_error {s : AttemptStage} (h : Comes t q u s v)
    (hv : v.exit? t = some (.crashed .clockOverflow)) : ∃ e, u.reply q s = some (.error e) := by
  cases h with
  | fails e hr => exact ⟨e, hr⟩
  | asks s' hs hs' hf | parts c o hk hr hf => exact absurd (isFinished_of_exit? hv) (by simp [hf])
  | crashes text hr he => exact absurd (he.symm.trans hv) (by simp)
  | offers c h ho hc | closes r o hs hc =>
    rcases hc with he | ⟨text, he⟩ | ⟨hf, -⟩
    · exact absurd (he.symm.trans hv) (by simp)
    · exact absurd (he.symm.trans hv) (by simp)
    · exact absurd (isFinished_of_exit? hv) (by simp [hf])

theorem Tries.of_error {s : AttemptStage} {e : RelayError} (h : Tries t q u s v)
    (hr : u.reply q s = some (.error e)) : ∃ x, Approaches t u x ∧ v = x.failAttempt t q e := by
  cases h with
  | connects h hn | shakes h _ hn | crashes h hn => exact absurd (hn.symm.trans hr) (by simp)
  | fails h hr' =>
    obtain rfl : _ = e := by simpa using hr'.symm.trans hr
    exact ⟨_, h, rfl⟩
  | establishes h _ hr' => exact absurd (hr'.symm.trans hr) (by simp)
  | parts | discards => exact absurd hr (by simp [reply])

theorem isSome_failingIn?_attempt {s : AttemptStage} :
    (w.failingIn? (.attempt q s)).isSome = true ↔ ∃ e, w.reply q s = some (.error e) := by
  simp only [failingIn?]
  rcases w.reply q s with _ | (e | c) <;> simp

theorem Sound.overflow_attempt {s : AttemptStage} (h : w.Sound)
    (hg : w.going? t = some (.attempt q s)) :
    (w.act (.poll t)).exit? t = some (.crashed .clockOverflow) ↔
      (w.failingIn? (.attempt q s)).isSome = true ∧ ¬ w.InTime := by
  obtain ⟨-, hf, -⟩ := going?_eq_some.mp hg
  have hexit {e} (hr : w.reply q s = some (.error e)) :
      (w.act (.poll t)).exit? t = some (.crashed .clockOverflow) ↔ ¬ w.InTime := by
    obtain ⟨x, ⟨-, ⟨conns, ready, journal, rfl⟩, -⟩, hx⟩ := (h.tries hg).of_error hr
    rw [hx]
    refine overflow_failAttempt ?_ h.ttl
    exact hf
  rw [isSome_failingIn?_attempt]
  constructor
  · intro hv
    obtain ⟨e, hr⟩ := (h.comes hg).reply_error hv
    exact ⟨⟨e, hr⟩, (hexit hr).mp hv⟩
  · rintro ⟨⟨e, hr⟩, ht⟩
    exact (hexit hr).mpr ht

theorem isSome_failingIn?_guard {slot : Nat} :
    (w.failingIn? (.guardAttempt slot q (some a))).isSome = true ↔
      ∃ crash, w.exit? a = some (.crashed crash) := by
  simp only [failingIn?]
  rcases w.exit? a with _ | (_ | _ | _ | _ | _) <;> simp

theorem overflow_pollGuard {slot : Nat} {attempt : Option TaskId} (hf : w.isFinished t = false)
    (httl : w.manager.failed.ttl = w.manager.config.failedWait)
    (hb : ∀ a, attempt = some a → w.exit? a ≠ some .cancelled) :
    (w.pollGuard t slot q attempt).exit? t = some (.crashed .clockOverflow) ↔
      (w.failingIn? (.guardAttempt slot q attempt)).isSome = true ∧ ¬ w.InTime := by
  have hends {v} (h : Sidesteps t w v)
      (hn : ¬(w.failingIn? (.guardAttempt slot q attempt)).isSome = true) :
      v.exit? t = some (.crashed .clockOverflow) ↔
        (w.failingIn? (.guardAttempt slot q attempt)).isSome = true ∧ ¬ w.InTime :=
    ⟨fun hv => absurd hv (h.exit?_ne hf), fun hv => absurd hv.1 hn⟩
  cases attempt with
  | none => exact hends (.of_eq rfl) (by simp [failingIn?])
  | some a =>
    simp only [pollGuard]
    cases he : w.exit? a with
    | none => exact hends (.of_eq rfl) (by simp [isSome_failingIn?_guard, he])
    | some e =>
      cases e with
      | crashed crash =>
        rw [overflow_failAttempt hf httl, isSome_failingIn?_guard]
        simp [he]
      | cancelled => exact absurd he (hb a rfl)
      | done | relays | failed =>
        exact hends (.finish w (by simp)) (by simp [isSome_failingIn?_guard, he])

/-! ## Watchers -/

/-- Observers crash for reasons of their own. -/
theorem tellAll_crash (w : Overlay) (address : PeerAddress) (os : List Observer) :
    (w.tellAll address os).2 ≠ some .clockOverflow := by
  induction os generalizing w with
  | nil => simp [tellAll]
  | cons o os ih =>
    simp only [tellAll]
    split
    · simp
    · exact ih _

theorem overflow_relayLost (httl : w.manager.failed.ttl = w.manager.config.failedWait) :
    (w.relayLost r p).2 = some .clockOverflow ↔ r ∈ w.pooled ∧ ¬ w.InTime := by
  rw [← contains_iff]
  unfold relayLost
  cases hc : w.manager.pool.contains r with
  | false => simp [Pool.remove, hc]
  | true =>
    simp only [Pool.remove, hc, withManager, markFailed, FailedCache.add, now, httl]
    cases ha : Instant.add? (Instant.start + nanosPerMilli * w.clock)
        w.manager.config.failedWait with
    | none => simp [InTime, now, ha]
    | some e => simp [InTime, now, ha, tellAll_crash]

theorem overflow_lose (hr : w.relays[r]? = some relay)
    (httl : w.manager.failed.ttl = w.manager.config.failedWait) :
    (w.lose r).2.1 = some .clockOverflow ↔ r ∈ w.pooled ∧
      relay.signal = .live (some .manager) ∧ w.managerLives = true ∧ ¬ w.InTime := by
  have hcrash : (w.lose r).2.1 =
      (w.signalled r relay relay.signal.lose.1 relay.signal.lose.2.1).2 := by
    simp [lose, hr]
  rw [hcrash]
  cases hs : relay.signal with
  | lost notified => simp [CloseSignal.lose, signalled]
  | shutDown => simp [CloseSignal.lose, signalled]
  | live listener =>
    cases listener with
    | none => simp [CloseSignal.lose, signalled]
    | some l =>
      cases l with
      | note label nested crashes =>
        -- whoever takes notes may crash, but not over the clock
        have hnote : ∀ u : Overlay, ∀ x : Relay,
            (u.callListener r x (.note label nested crashes)).2 ≠ some .clockOverflow := by
          intro u x
          unfold callListener
          cases nested with
          | none => cases crashes <;> simp
          | some inner =>
            simp only
            split <;> cases crashes <;> simp
        simp [CloseSignal.lose, signalled, hnote]
      | manager =>
        have hlives : (w.setSignal r (.lost true)).managerLives = w.managerLives := rfl
        simp only [CloseSignal.lose, Option.isSome_some, signalled, callListener, hlives]
        cases hm : w.managerLives with
        | false => simp
        | true =>
          rw [if_pos rfl, overflow_relayLost (w := w.setSignal r (.lost true)) httl]
          simp only [true_and]
          exact Iff.rfl

theorem isSome_failingIn?_watch (hr : w.relays[r]? = some relay) {c : ConnId}
    (hc : relay.conn = some c) :
    (w.failingIn? (.watch r)).isSome = true ↔ r ∈ w.pooled ∧ w.isOpen c = false ∧
      relay.signal = .live (some .manager) ∧ w.managerLives = true := by
  simp only [failingIn?, bereaved?_eq hr hc]
  split <;> simp_all

/-- A watcher crashes over the clock if it tells the manager of the loss of a pooled relay. -/
theorem overflow_pollWatch (httl : w.manager.failed.ttl = w.manager.config.failedWait)
    (hr : w.relays[r]? = some relay) {c : ConnId} (hc : relay.conn = some c)
    (hf : w.isFinished t = false) :
    (w.pollWatch t r).exit? t = some (.crashed .clockOverflow) ↔
      (w.failingIn? (.watch r)).isSome = true ∧ ¬ w.InTime := by
  have hnone : w.exit? t = none := by simpa [isFinished] using hf
  have hlost := overflow_lose hr httl
  have hf' : (w.lose r).1.isFinished t = false := by
    obtain ⟨s, mine, pool, failed, journal, he, -⟩ := w.lose_frame r
    rw [he]
    exact hf
  rw [isSome_failingIn?_watch hr hc]
  simp only [pollWatch, hr, Option.bind_some, hc]
  cases ho : w.isOpen c with
  | true => simp [hnone]
  | false =>
    simp only [Bool.false_eq_true, if_false, true_and]
    split
    · generalize w.lose r = l at hlost hf'
      obtain ⟨v, crash, closed⟩ := l
      cases crash with
      | none =>
        simp only [exit?_finish_self hf']
        simp_all
      | some crash =>
        simp only [Option.some.injEq] at hlost
        simp only [exit?_finish_self hf', Option.some.injEq, Exit.crashed.injEq, hlost, and_assoc]
    · next hheld =>
      rw [exit?_finish_self hf]
      have hn : ¬(r ∈ w.pooled ∧ w.managerLives = true) := fun hp =>
        hheld (isHeld_of_pooled hp.2 hp.1)
      simp only [Option.some.injEq, reduceCtorEq, false_iff]
      tauto

/-! ## Every act -/

/-- Whoever goes on crashes over the clock exactly if someone fails in the step and the wait ends
beyond the range. -/
theorem Sound.overflow_going (h : w.Sound) (hb : w.Unbroken) (hg : w.going? t = some job) :
    (w.act (.poll t)).exit? t = some (.crashed .clockOverflow) ↔
      (w.failingIn? job).isSome = true ∧ ¬ w.InTime := by
  have hact := act_of_going hg
  obtain ⟨-, hf, task, ht, -, hj⟩ := going?_eq_some.mp hg
  have hother (hn : w.failingIn? job = none) (hs : Sidesteps t w (w.act (.poll t))) :
      (w.act (.poll t)).exit? t = some (.crashed .clockOverflow) ↔
        (w.failingIn? job).isSome = true ∧ ¬ w.InTime := by
    simpa [hn] using hs.exit?_ne hf
  cases job with
  | setup manual maxFail stage => exact hother rfl (sidesteps_setup hg)
  | shutdown stage =>
    rw [hact] at hother ⊢
    exact hother rfl ((sidesteps_pollShutdown _ stage).left rfl)
  | releaseCreator k pending =>
    rw [hact] at hother ⊢
    exact hother rfl ((sidesteps_pollRelease _ k pending).left rfl)
  | closeRelay r pending =>
    rw [hact] at hother ⊢
    exact hother rfl ((sidesteps_pollCloseRelay _ r pending).left rfl)
  | attempt q s => exact h.overflow_attempt hg
  | guardAttempt slot q attempt =>
    rw [hact]
    refine overflow_pollGuard (w := { w with ready := w.ready.erase t }) hf h.ttl fun a ha => ?_
    subst ha
    exact hb a q (hj ▸ h.refers t task ht : w.Refers t (.guardAttempt slot q (some a))).role?
  | watch r =>
    obtain ⟨relay, hr, hw⟩ := h.watches t r (role?_of_going hg)
    obtain ⟨c, hc⟩ := h.conn_of_watcher hr hw
    rw [hact]
    exact overflow_pollWatch (w := { w with ready := w.ready.erase t }) h.ttl hr hc hf

/-- A task comes to end over the clock exactly if someone fails with the act and the wait ends
beyond the range. -/
theorem Sound.overflow_act (h : w.Sound) (hb : w.Unbroken) (x : Act) (t : TaskId) :
    (w.act x).exit? t = some (.crashed .clockOverflow) ↔
      w.exit? t = some (.crashed .clockOverflow) ∨
        x = .poll t ∧ (w.failing? x).isSome = true ∧ ¬ w.InTime := by
  rcases act_cases w x with hp | ⟨a, rfl, hgo⟩
  · have hne : x ≠ .poll t := by
      rintro rfl
      exact absurd hp (by simp [Act.isPoll])
    rw [exit?, Overlay.exits_act hp, ← exit?]
    simp [hne]
  by_cases hat : a = t
  swap
  · have hne : Act.poll a ≠ .poll t := fun he => hat (Act.poll.inj he)
    have hsame : (w.act (.poll a)).exit? t = w.exit? t := by
      rw [Overlay.act]
      split
      · exact (Frame.turns (h.poll_turns a)).exits t (Ne.symm hat)
      · rfl
    rw [hsame]
    simp [hat]
  subst hat
  rcases hgo with hg | ⟨job, hg⟩
  · have hfailing : w.failing? (.poll a) = none := by simp [failing?, hg]
    rcases h.act_of_not_going hg with he | he | ⟨task, ht, hc, hf, he⟩
    · rw [he]
      simp [hfailing]
    · rw [he, hfailing]
      simp only [Option.isSome_none, Bool.false_eq_true, false_and, and_false, or_false]
      exact Iff.rfl
    · have hnone : w.exit? a = none := by simpa [isFinished] using hf
      rw [he, exit?_abandon (w := { w with ready := w.ready.erase a }) hf, hnone]
      simp [hfailing]
  · obtain ⟨-, hf, -⟩ := going?_eq_some.mp hg
    have hnone : w.exit? a = none := by simpa [isFinished] using hf
    have hfailing : w.failing? (.poll a) = w.failingIn? job := by simp [failing?, hg]
    rw [h.overflow_going hb hg, hnone, hfailing]
    simp

/-! ## Relays that leave the pool -/

/-- A pooled relay was lost, and nothing came of it but that it left the pool: no peer counts as
failed that did not before, the address is the same, and nobody was told. -/
structure Dropped (r : RelayId) (u v : Overlay) : Prop where
  was : r ∈ u.pooled
  pool : v.manager.pool = (u.manager.pool.remove r).1
  failed : ∀ p later, u.now ≤ later →
    v.manager.failed.contains p later = u.manager.failed.contains p later
  node : v.node = u.node
  journal : v.journal = u.journal

/-- Only its watcher takes a relay out of the pool, unless a shutdown drains it. -/
theorem Turns.stays (h : Turns t u v) (hlt : t < u.tasks.length)
    (hw : u.role? t ≠ some (.watch r)) (hs : u.role? t ≠ some .shutdown) (hp : r ∈ u.pooled) :
    r ∈ v.pooled := by
  refine h.keep (P := fun x => r ∈ x.pooled) hlt hp (fun x y hx hrole hm => ?_) fun x e hx => ?_
  · unfold Overlay.pooled at hx ⊢
    cases hm.pool with
    | same he => rwa [he]
    | joined hr ha he =>
      rw [he, List.map_append]
      exact List.mem_append_left _ hx
    | @lost s hr he =>
      rw [he, remove_relays]
      refine (List.mem_erase_of_ne ?_).mpr hx
      rintro rfl
      exact hw (hrole ▸ hr)
    | cleared hr => exact absurd (hrole ▸ hr) hs
  · rwa [Overlay.pooled, manager_finish]

theorem dropped_lose (hr : w.relays[r]? = some relay)
    (hs : relay.signal = .live (some .manager)) (hm : w.managerLives = true) (hp : r ∈ w.pooled)
    (httl : w.manager.failed.ttl = w.manager.config.failedWait) (ht : ¬ w.InTime) :
    Dropped r w (w.lose r).1 := by
  have hover : Instant.add? w.now w.manager.failed.ttl = none := by
    rw [httl]
    simpa [InTime] using ht
  rw [lose_told hr hs hm]
  rcases (w.setSignal r (.lost true)).relayLost_cases r relay.address with
    ⟨hn, -⟩ | ⟨-, -, he⟩ | ⟨-, ⟨e, he⟩, -⟩
  · exact absurd (hn.symm.trans (contains_iff.mpr hp)) (by simp)
  · rw [he]
    refine ⟨hp, rfl, fun p later hl => ?_, rfl, rfl⟩
    exact (FailedCache.forgets_add hover).contains p hl
  · exact absurd (he.symm.trans hover) (by simp)

/-- A relay that is told to nobody stays in the pool. -/
theorem told_of_not_pooled (hr : w.relays[r]? = some relay) (hp : r ∈ w.pooled)
    (hn : r ∉ (w.lose r).1.pooled) :
    relay.signal = .live (some .manager) ∧ w.managerLives = true := by
  rcases w.lose_cases r with he | ⟨relay', hr', hl⟩
  · rw [he] at hn
    exact absurd hp hn
  · obtain rfl := Option.some.inj (hr.symm.trans hr')
    generalize (w.lose r).1 = v at hl hn
    cases hl with
    | unheard | noted | ownerless => exact absurd hp hn
    | told hs hm => exact ⟨hs, hm⟩

/-- A watcher that takes its relay out of the pool heals the loss, or nothing comes of it. -/
theorem Sound.watcher_drops (h : w.Sound) (hr : w.relays[r]? = some relay)
    (hw : relay.watcher = some a) (hf : w.isFinished a = false) (hp : r ∈ w.pooled)
    (hn : r ∉ (w.poll a).pooled) :
    if w.InTime then Healed r relay.address w (w.poll a) else Dropped r w (w.poll a) := by
  have hv := h.poll_watcher hr hw hf
  generalize w.poll a = v at hv hn
  cases hv with
  | waits => exact absurd hp hn
  | leaves =>
    rw [Overlay.pooled, manager_finish] at hn
    exact absurd hp hn
  | @notices c e =>
    rw [Overlay.pooled, manager_finish, ← Overlay.pooled] at hn
    obtain ⟨hs, hm⟩ := told_of_not_pooled (w := { w with ready := w.ready.erase a }) hr hp hn
    obtain ⟨rs, hfin, -⟩ :=
      (({ w with ready := w.ready.erase a } : Overlay).lose r).1.finish_eq a e
    rw [hfin]
    split
    · next ht =>
      have hh := healed_lose (w := { w with ready := w.ready.erase a }) hr hs hm hp
        (h.rest a).toLinked ht
      exact { hh with }
    · next ht =>
      have hd := dropped_lose (w := { w with ready := w.ready.erase a }) hr hs hm hp h.ttl ht
      exact { hd with }

/-- The loss of a relay that leaves the pool is healed, or comes to nothing where the wait ends
beyond the range, unless a shutdown begins. -/
theorem Sound.leaves_pool (h : w.Sound) (hh : w.Heralded) (hr : w.relays[r]? = some relay)
    (hp : r ∈ w.pooled) (hn : r ∉ (w.act x).pooled) :
    (∃ t, x = .poll t ∧ w.begins t = true) ∨
      if w.InTime then Healed r relay.address w (w.act x) else Dropped r w (w.act x) := by
  rcases act_cases w x with hpoll | ⟨t, rfl, hg | ⟨job, hg⟩⟩
  · rw [Overlay.pooled, (quiet_act hpoll).1] at hn
    exact absurd hp hn
  · -- one who is asked to end leaves the pool alone
    rcases h.act_of_not_going hg with he | he | ⟨task, ht, -, -, he⟩ <;> rw [he] at hn
    · exact absurd hp hn
    · exact absurd hp hn
    · have hq : Quiet t { w with ready := w.ready.erase t }
          (({ w with ready := w.ready.erase t } : Overlay).abandon t task.job) :=
        quiet_abandon (role?_eq_some.mpr ⟨task, ht, rfl⟩) h.gate (h.refers t task ht)
      rw [hq.pooled] at hn
      exact absurd hp hn
  · have hrole := role?_of_going hg
    by_cases hs : job.role = .shutdown
    · exact .inl ⟨t, rfl, hh.begins_of_pooled hp hg hs⟩
    obtain ⟨hready, hf, -⟩ := going?_eq_some.mp hg
    rw [Overlay.act, if_pos hready] at hn ⊢
    by_cases hwatch : job.role = .watch r
    swap
    · refine absurd ((h.poll_turns t).stays (h.ready t hready) ?_ ?_ hp) hn <;> rw [hrole] <;>
        simpa
    obtain ⟨relay', hr', hw⟩ := h.watches t r (hwatch ▸ hrole)
    obtain rfl := Option.some.inj (hr.symm.trans hr')
    exact .inr (h.watcher_drops hr hw hf hp hn)

/-! ## Runs -/

/-- As long as waits end within the range of the clock, nobody has crashed over it. -/
theorem no_overflow_run (config : RelayConfig) (mine : PeerAddress) {acts : List Act}
    (ht : ((start config mine).run acts).InTime) (t : TaskId) :
    ((start config mine).run acts).exit? t ≠ some (.crashed .clockOverflow) := by
  induction acts using List.reverseRecOn with
  | nil => simp [start, exit?]
  | append_singleton acts x ih =>
    rw [run_concat] at ht ⊢
    have h := recent_run config mine acts
    have hbefore := ht.of_grows (h.sound.grows_act x)
    rw [Ne, h.sound.overflow_act h.unbroken]
    rintro (hold | ⟨-, -, hover⟩)
    · exact ih hbefore hold
    · exact hover hbefore

/-- What an act brings while the wait after a failure ends within the range of the clock: nobody
crashes over the clock, whoever fails is remembered for the whole wait, and a relay that leaves the
pool is healed, unless a shutdown begins. -/
structure InRange (w : Overlay) (x : Act) : Prop where
  usable : ∀ t, (w.act x).exit? t ≠ some (.crashed .clockOverflow)
  remembered : ∀ p, w.failing? x = some p →
    (w.act x).manager.failed.contains p (w.now + w.manager.config.failedWait.nanos) = true
  whole : ∀ (r : RelayId) (relay : Relay), w.relays[r]? = some relay → r ∈ w.pooled →
    r ∉ (w.act x).pooled →
    (∃ t, x = .poll t ∧ w.begins t = true) ∨ Healed r relay.address w (w.act x)

/-- What an act brings when that wait ends beyond the range: whoever comes to remember a failure
crashes over the clock, and nothing comes of a loss but that the relay leaves the pool. -/
structure OutOfRange (w : Overlay) (x : Act) : Prop where
  crashes : ∀ p, w.failing? x = some p →
    ∃ t, x = .poll t ∧ (w.act x).exit? t = some (.crashed .clockOverflow)
  half : ∀ r ∈ w.pooled, r ∉ (w.act x).pooled →
    (∃ t, x = .poll t ∧ w.begins t = true) ∨ Dropped r w (w.act x)

theorem poll_of_failing (hp : w.failing? x = some p) : ∃ t, x = .poll t := by
  cases x with
  | poll t => exact ⟨t, rfl⟩
  | _ => exact absurd hp (by simp [failing?])

theorem Recent.remembered (h : w.Recent) (ht : w.InTime) (hp : w.failing? x = some p) :
    (w.act x).manager.failed.contains p (w.now + w.manager.config.failedWait.nanos) = true := by
  obtain ⟨t, rfl⟩ := poll_of_failing hp
  have hnow : (w.act (.poll t)).now = w.now := by
    rw [Overlay.act]
    split
    · rw [now, (Frame.turns (h.sound.poll_turns t)).clock, ← now]
    · rfl
  refine (h.contains_act ht p ?_).mpr (.inr ⟨p, hp, rfl, Nat.le_refl _⟩)
  rw [hnow]
  exact Nat.le_add_right _ _

/-- Whatever has gone on before, failures are remembered and losses healed as long as the wait after
a failure ends within the range of the clock, and not any more when it ends beyond it. -/
theorem losses_whole_in_range (config : RelayConfig) (mine : PeerAddress) (acts : List Act)
    (x : Act) :
    let w := (start config mine).run acts
    (w.now + config.failedWait.nanos < Instant.limit → w.InRange x) ∧
      (Instant.limit ≤ w.now + config.failedWait.nanos → w.OutOfRange x) := by
  intro w
  have h : w.Recent := recent_run config mine acts
  have hg := grows_run (sound_start config mine) acts
  have hrange : w.now + config.failedWait.nanos < Instant.limit ↔ w.InTime := by
    rw [inTime_iff, hg.config]
    exact Iff.rfl
  have hleaves {r : RelayId} {relay : Relay} (hr : w.relays[r]? = some relay)
      (hp : r ∈ w.pooled) (hn : r ∉ (w.act x).pooled) :=
    h.sound.leaves_pool (heralded_run config mine acts) hr hp hn
  constructor
  · intro hlt
    have ht := hrange.mp hlt
    refine ⟨fun t => ?_, fun p => h.remembered ht, fun r relay hr hp hn => ?_⟩
    · rw [Ne, h.sound.overflow_act h.unbroken]
      rintro (hold | ⟨-, -, hover⟩)
      · exact no_overflow_run config mine ht t hold
      · exact hover ht
    · have hl := hleaves hr hp hn
      rwa [if_pos ht] at hl
  · intro hle
    have ht : ¬w.InTime := fun ht => absurd (hrange.mpr ht) (Nat.not_lt.mpr hle)
    refine ⟨fun p hp => ?_, fun r hp hn => ?_⟩
    · obtain ⟨t, rfl⟩ := poll_of_failing hp
      refine ⟨t, rfl, ?_⟩
      rw [h.sound.overflow_act h.unbroken]
      exact .inr ⟨rfl, by simp [hp], ht⟩
    · have hl := hleaves (List.getElem?_eq_getElem (h.sound.lt_of_pooled hp)) hp hn
      rwa [if_neg ht] at hl

/-- The link of a pooled relay drops. Its loss is healed where the wait ends in range, and comes to
nothing where it does not. -/
theorem losses_whole_in_range_sample :
    let acts : List Act := [.setUp [.sample 2] 0, .poll 0, .poll 1, .poll 2, .poll 1, .poll 0,
      .dropConn 0]
    let w := (start {} (.sample 1)).run acts
    let w' := (start { failedWait := .ofSecs 18446744073709551615 } (.sample 1)).run acts
    Healed 0 (.sample 2) w (w.act (.poll 3)) ∧ Dropped 0 w' (w'.act (.poll 3)) := by
  intro acts w w'
  have h := (losses_whole_in_range {} (.sample 1) acts (.poll 3)).1 (by decide +kernel)
  have h' := (losses_whole_in_range { failedWait := .ofSecs 18446744073709551615 } (.sample 1) acts
    (.poll 3)).2 (by decide +kernel)
  constructor
  · have hr : w.relays[0]? = some ⟨.openTcp, .sample 2, some 0, .live (some .manager), some 3⟩ := by
      decide +kernel
    rcases h.whole 0 _ hr (by decide +kernel) (by decide +kernel) with ⟨t, ht, hbegins⟩ | hh
    · obtain rfl := Act.poll.inj ht
      exact absurd hbegins (by decide +kernel)
    · exact hh
  · rcases h'.half 0 (by decide +kernel) (by decide +kernel) with ⟨t, ht, hbegins⟩ | hd
    · obtain rfl := Act.poll.inj ht
      exact absurd hbegins (by decide +kernel)
    · exact hd

/-- A wait of more seconds than the clock has is accepted. The loss of the one pooled relay is half
processed then: it leaves the pool, its watcher crashes, its peer does not count as failed, and its
address is advertised on. -/
theorem accepted_wait_out_of_range :
    let config : RelayConfig := { failedWait := .ofSecs 18446744073709551615 }
    let acts : List Act := [.observe ⟨"l", false, false⟩, .setUp [.sample 2] 0, .poll 0, .poll 1,
      .poll 2, .poll 1, .poll 0, .dropConn 0]
    let w := (start config (.sample 1)).run acts
    let v := w.act (.poll 3)
    config.validate = .ok () ∧ w.pooled = [0] ∧ v.pooled = [] ∧
      v.exit? 3 = some (.crashed .clockOverflow) ∧
      v.manager.failed.contains (.sample 2) v.now = false ∧
      v.node.address.relayed = true ∧ v.losses = [] := by
  decide +kernel

end Overlay

end RelayUpkeep
