import RelayUpkeep.Proofs.Making

/-! # Connections that no relay keeps

A manager whose relays keep no connections has each connection that is established closed in the
same step, before anything is done with it, and no connection is ever closed otherwise. So each is
closed once, and before its relay is offered to the pool. -/

namespace RelayUpkeep

/-- Connection `c` is closed. -/
def Event.closes (c : ConnId) : Event → Bool
  | .close d _ => d = c
  | _ => false

/-- The attempt waits for the answer to a handshake over connection `c`. -/
def Job.shakes (c : ConnId) : Job → Bool
  | .attempt _ (.shaking d _) => d = c
  | _ => false

namespace Overlay

variable {t a : TaskId} {p q : PeerAddress} {r : RelayId} {c d : ConnId} {c? : Option ConnId}
  {u v w : Overlay} {relay : Relay} {s : AttemptStage} {x : Act}

/-! ## Who closes no connection -/

/-- No connection is closed. -/
abbrev ClosesNone (u v : Overlay) : Prop := u.Adds (fun e => e.isClose = false) v

theorem closesNone_log (w : Overlay) {e : Event} (h : e.isClose = false) : w.ClosesNone (w.log e) :=
  .log w h

theorem closesNone_publish (w : Overlay) : w.ClosesNone w.publish :=
  closesNone_log w (e := .publish (w.node.address.advertising w.manager.pool.addresses)) rfl

theorem closesNone_finish (w : Overlay) (t : TaskId) (e : Exit) : w.ClosesNone (w.finish t e) :=
  .of_eq (journal_finish w t e)

theorem closesNone_failAttempt (w : Overlay) (t : TaskId) (p : PeerAddress) (e : RelayError) :
    w.ClosesNone (w.failAttempt t p e) := by
  obtain ⟨end', more, -, hm, he⟩ := w.failAttempt_eq t p e
  exact ⟨more, by rw [he, journal_finish], hm⟩

theorem closesNone_pollGuard (w : Overlay) (t : TaskId) (slot : Nat) (p : PeerAddress)
    (attempt : Option TaskId) : w.ClosesNone (w.pollGuard t slot p attempt) := by
  cases attempt with
  | none => exact .of_eq rfl
  | some a =>
    simp only [pollGuard]
    split
    · exact .of_eq rfl
    · exact closesNone_failAttempt _ _ _ _
    · exact closesNone_failAttempt _ _ _ _
    · exact closesNone_finish _ _ _

theorem closesNone_relayLost (w : Overlay) (r : RelayId) (p : PeerAddress) :
    w.ClosesNone (w.relayLost r p).1 := by
  rcases w.relayLost_cases r p with ⟨-, h⟩ | ⟨-, -, h⟩ | ⟨-, -, h⟩ <;> rw [h]
  · exact .of_eq rfl
  · exact .of_eq rfl
  · have hmark : w.ClosesNone ((w.bereft r p).log (.markFailed p)) :=
      closesNone_log (w.bereft r p) rfl
    refine (hmark.trans (closesNone_publish _)).trans ?_
    rw [tellAll_eq]
    exact ⟨_, rfl, by simp [Event.isClose]⟩

theorem closesNone_lose (w : Overlay) (r : RelayId) : w.ClosesNone (w.lose r).1 := by
  rcases w.lose_cases r with h | ⟨relay, -, h⟩
  · rw [h]
    exact .of_eq rfl
  · generalize (w.lose r).1 = v at h
    cases h with
    | unheard | ownerless => exact .of_eq rfl
    | noted => exact closesNone_log (w.setSignal r (.lost true)) rfl
    | told => exact closesNone_relayLost (w.setSignal r (.lost true)) r relay.address

theorem closesNone_pollWatch (w : Overlay) (t : TaskId) (r : RelayId) :
    w.ClosesNone (w.pollWatch t r) := by
  have hl := closesNone_lose w r
  unfold pollWatch
  split
  · exact closesNone_finish _ _ _
  · split
    · exact .of_eq rfl
    · split
      · split <;> next he =>
          rw [he] at hl
          exact hl.trans (closesNone_finish _ _ _)
      · exact closesNone_finish _ _ _

/-- Only tasks close connections. -/
theorem closesNone_act (hp : x.isPoll = false) : w.ClosesNone (w.act x) := by
  cases x with
  | poll => exact absurd hp (by simp [Act.isPoll])
  | elapse ms =>
    obtain ⟨rs, h, -⟩ := w.advanceTo_eq (w.clock + ms)
    simp only [Overlay.act, h]
    exact .of_eq rfl
  | closeRelay r =>
    simp only [Overlay.act]
    split <;> exact .of_eq rfl
  | cancel b =>
    simp only [Overlay.act]
    split
    · rcases w.cancel_eq b with ⟨-, h⟩ | ⟨-, rs, h, -⟩ <;> rw [h] <;> exact .of_eq rfl
    · exact .of_eq rfl
  | listen r label nested =>
    simp only [Overlay.act]
    rcases w.listen_note_cases r label nested false with h | ⟨relay, -, ⟨-, h⟩ | ⟨-, h⟩⟩ <;> rw [h]
    · exact .of_eq rfl
    · exact .of_eq rfl
    · exact closesNone_log (w.setSignal r (.lost true)) rfl
  | dropConn c =>
    simp only [Overlay.act]
    rcases w.dropConn_eq c with ⟨-, h⟩ | ⟨-, rs, h, -⟩ <;> rw [h] <;> exact .of_eq rfl
  | setUp | shutDown | observe | behave | learn | nodeDown | reservation | hold | dropManager
    | moveTo => exact .of_eq rfl

/-! ## Relays without connections -/

/-- No relay keeps a connection. -/
def Connless (w : Overlay) : Prop := ∀ k ∈ w.wires, k = none

theorem Connless.conn (h : w.Connless) (hr : w.relays[r]? = some relay) : relay.conn = none :=
  h _ (List.mem_map_of_mem (List.mem_of_getElem? hr))

theorem journal_shutRelay (w : Overlay) (r : RelayId) :
    (w.shutRelay r).1.journal = w.journal := by
  obtain ⟨relays, tasks, ready, h⟩ := w.shutRelay_frame r
  rw [h]

/-- Nothing is left to be closed of a relay that keeps no connection. -/
theorem snd_shutRelay_bare (h : ∀ relay, w.relays[r]? = some relay → relay.conn = none) :
    (w.shutRelay r).2 = none := by
  cases hr : w.relays[r]? with
  | none => simp [shutRelay, hr]
  | some relay => rw [snd_shutRelay hr, h relay hr, ite_self]

theorem closesNone_discard (h : ∀ relay, w.relays[r]? = some relay → relay.conn = none) :
    w.ClosesNone (w.discard t q r) := by
  rw [discard_eq, snd_shutRelay_bare h]
  exact .of_eq ((journal_finish _ _ _).trans (journal_shutRelay w r))

theorem closesNone_pollCloseRelay (h : w.Connless) (t : TaskId) (r : RelayId) (pending : Option Outcome) :
    w.ClosesNone (w.pollCloseRelay t r pending) := by
  cases pending with
  | some o =>
    rw [pollCloseRelay, ended_eq]
    exact closesNone_finish _ _ _
  | none =>
    rw [pollCloseRelay_eq, snd_shutRelay_bare fun _ => h.conn]
    exact .of_eq ((journal_finish _ _ _).trans (journal_shutRelay w r))

theorem closesNone_offer (hr : w.relays[r]? = some relay) (hs : relay.signal = .live none)
    (hc : relay.conn = none) : w.ClosesNone (w.offer t q r p) := by
  have hlog : ∀ answer, w.ClosesNone (w.log (.offer r answer)) := fun _ => closesNone_log w rfl
  by_cases ha : w.verdict p = some .added
  · rw [offer_admitted hr hs ha]
    have hin : w.ClosesNone (w.admitted r p) :=
      (hlog (some .added)).trans (closesNone_publish _)
    exact hin.trans (closesNone_finish _ t .done)
  · rw [offer_refused ha]
    refine (hlog (w.verdict p)).trans (closesNone_discard fun relay' hr' => ?_)
    obtain rfl := Option.some.inj (hr.symm.trans hr')
    exact hc

theorem closesNone_parted (w : Overlay) (t : TaskId) (q : PeerAddress) (c : ConnId) (o : Outcome) :
    w.ClosesNone (w.parted t q c o) := by
  rcases w.parted_cases t q c o with ⟨e, -, h⟩ | ⟨p, h⟩ <;> rw [h]
  · exact closesNone_finish w t e
  · have hadd : w.ClosesNone (w.addPushRelay p).1 := .of_eq rfl
    exact hadd.trans (closesNone_offer (w.addPushRelay_last p) rfl rfl)

/-! ## Steps -/

/-- No connection is closed but the one that is established, if any: that is closed before anything
is done but ask. -/
def Sheds (u v : Overlay) : Option ConnId → Prop
  | none => u.ClosesNone v
  | some c => ∃ asks clock p rest, v.journal = u.journal ++ asks ++ ⟨clock, .close c p⟩ :: rest ∧
      (∀ e ∈ asks, e.event.isAsk = true) ∧ ∀ e ∈ rest, e.event.isClose = false

theorem sheds_establish (hk : w.manager.config.kind = .push) {conn : Conn}
    (hc : w.conns[c]? = some conn) (p : PeerAddress) : Sheds w (w.establish t q c p) (some c) := by
  have hclose := journal_closeConn hc
  have hparted : (w.closeConn c).ClosesNone (w.establish t q c p) := by
    simp only [establish, hk, play]
    split
    · exact closesNone_parted _ t q c _
    · exact .of_eq rfl
  obtain ⟨rest, hj, hrest⟩ := hparted
  refine ⟨[], w.clock, conn.remote, rest, ?_, by simp, hrest⟩
  rw [hj, hclose, List.append_nil, List.append_assoc]
  rfl

theorem Approaches.sheds (h : Approaches t u v) (h' : Sheds v w c?) : Sheds u w c? := by
  obtain ⟨asks, hj, ha⟩ := h.asks
  cases c? with
  | none => exact h.abstains.adds.trans h'
  | some c =>
    obtain ⟨more, clock, p, rest, hj', hm, hrest⟩ := h'
    refine ⟨asks ++ more, clock, p, rest, by rw [hj', hj, List.append_assoc u.journal], ?_, hrest⟩
    exact fun e he => (List.mem_append.mp he).elim (ha e) (hm e)

theorem Tries.sheds (h : Tries t q u s v) (hk : u.manager.config.kind = .push) :
    Sheds u v ((u.reply q s).bind Except.toOption) := by
  have hsleep : ∀ (w : Overlay) job delay, w.ClosesNone (w.sleep t job delay) :=
    fun _ _ _ => .of_eq rfl
  cases h with
  | connects h hn | shakes h _ hn =>
    rw [hn, Option.bind_none]
    exact h.sheds (hsleep _ _ _)
  | crashes h hn =>
    rw [hn, Option.bind_none]
    exact h.sheds (closesNone_finish _ _ _)
  | fails h hr =>
    rw [hr, Option.bind_some, Except.toOption]
    exact h.sheds (closesNone_failAttempt _ _ _ _)
  | establishes h hc hr =>
    rw [hr, Option.bind_some, Except.toOption]
    refine h.sheds (sheds_establish ?_ hc _)
    rw [(Grows.stirs h.stirs).config, hk]
  | parts c o => exact closesNone_parted u t q c o
  | discards r o =>
    obtain ⟨e, -, he⟩ := u.discarded_eq t o
    rw [he]
    exact closesNone_finish u t e

theorem Sheds.left (h : Sheds v w c?) (hj : v.journal = u.journal) : Sheds u w c? := by
  cases c? <;> simpa only [Sheds, ClosesNone, Adds, hj] using h

theorem closesNone_resume (hc : w.Connless) (t : TaskId) {job : Job}
    (hq : ∀ q, job.role ≠ .attempt q) : w.ClosesNone (w.resume t job) := by
  cases job with
  | setup manual maxFail stage => exact (abstains_pollSetup w t manual maxFail stage).adds
  | shutdown stage => exact (abstains_pollShutdown w t stage).adds
  | guardAttempt slot p attempt => exact closesNone_pollGuard w t slot p attempt
  | attempt q s => exact absurd rfl (hq q)
  | watch r => exact closesNone_pollWatch w t r
  | closeRelay r pending => exact closesNone_pollCloseRelay hc t r pending
  | releaseCreator k pending => exact (abstains_pollRelease w t k pending).adds

/-- Where relays keep no connections, only those that are established are closed. -/
theorem Sound.sheds_act (h : w.Sound) (hk : w.manager.config.kind = .push) (hc : w.Connless)
    (x : Act) : Sheds w (w.act x) (w.established? x) := by
  have hnone : w.established? x = none → w.ClosesNone (w.act x) →
      Sheds w (w.act x) (w.established? x) := fun he hn => by rwa [he]
  rcases w.act_cases x with hp | ⟨t, rfl, hg | ⟨job, hg⟩⟩
  · exact hnone (established?_outside hp) (closesNone_act hp)
  · exact hnone (by simp [established?, hg]) (h.abstains_of_not_going hg).adds
  · by_cases hq : ∃ q, job.role = .attempt q
    · obtain ⟨q, hq⟩ := hq
      obtain ⟨s, rfl⟩ := Job.eq_attempt hq
      simp only [established?, hg, Option.bind_some]
      exact ((h.tries hg).sheds hk).left rfl
    · have hother := not_exists.mp hq
      refine hnone (established?_other hg hother) ?_
      rw [act_of_going hg]
      exact closesNone_resume (w := { w with ready := w.ready.erase t }) hc t hother

/-! ## Handshakes that are waited for -/

theorem Job.shakes_iff {job : Job} :
    job.shakes c = true ↔ ∃ q o, job = .attempt q (.shaking c o) := by
  unfold Job.shakes
  split
  · simp
  · next h => simpa using fun q o he => h q c o he

theorem Job.isFresh_of_shakes {job : Job} (h : job.shakes c = true) : job.isFresh = false := by
  obtain ⟨q, o, rfl⟩ := Job.shakes_iff.mp h
  rfl

/-- A handshake is waited for over a connection that is there. -/
theorem Sound.lt_of_shakes (h : w.Sound) (hd : w.Doing (Job.shakes c) a) : c < w.conns.length := by
  obtain ⟨-, task, ht, hj⟩ := hd
  obtain ⟨q, o, hjob⟩ := Job.shakes_iff.mp hj
  have hrefers := h.refers a task ht
  rw [hjob] at hrefers
  obtain ⟨conn, hc, -⟩ := hrefers
  exact (List.getElem?_eq_some_iff.mp hc).1

theorem Nears.not_shakes {n : Nat} (h : v.Nears t q n) (hn : n ≤ 2) :
    ¬v.Doing (Job.shakes c) t := by
  rintro ⟨hf, task, ht, hj⟩
  obtain ⟨q', o, hjob⟩ := Job.shakes_iff.mp hj
  rcases h with hend | ⟨s, due, hs, ⟨task', ht', hjob'⟩, -⟩
  · exact absurd (hf.symm.trans hend) (by simp)
  · obtain rfl := Option.some.inj (ht.symm.trans ht')
    obtain ⟨-, rfl⟩ := Job.attempt.inj (hjob.symm.trans hjob')
    exact absurd (Nat.lt_of_lt_of_le hs hn) (by simp [AttemptStage.rank])

theorem Doing.of_sleep {P : Job → Bool} {job : Job} {delay : Nat}
    (h : (w.sleep t job delay).Doing P t) : P job = true := by
  obtain ⟨-, task, ht, hj⟩ := h
  rwa [job_of_setJob ht] at hj

/-- An attempt that comes to wait for a handshake does so over a new connection. -/
theorem Tries.shakes_new (h : Tries t q u s v) (hlt : t < u.tasks.length)
    (hd : v.Doing (Job.shakes c) t) : u.reply q s = none ∧ u.conns.length ≤ c := by
  have hnot : ∀ {n}, v.Nears t q n → n ≤ 2 → u.reply q s = none ∧ u.conns.length ≤ c :=
    fun hn hle => absurd hd (hn.not_shakes hle)
  cases h with
  | connects h hn => exact absurd hd.of_sleep (by simp [Job.shakes])
  | shakes h hc hn =>
    obtain rfl : _ = c := by simpa [Job.shakes] using hd.of_sleep
    exact ⟨hn, hc⟩
  | fails => exact hnot (nears_failAttempt (n := 0) _ _ _) (Nat.zero_le 2)
  | crashes => exact hnot (nears_finish (n := 0) _ _) (Nat.zero_le 2)
  | establishes h =>
    refine hnot (nears_establish (n := 2) ?_ (Nat.lt_succ_self 1) _ _) (Nat.le_refl 2)
    exact Nat.lt_of_lt_of_le hlt (Grows.stirs h.stirs).tasks.length_le
  | parts c o => exact hnot (nears_parted (n := 1) hlt Nat.one_pos c o) (Nat.le_succ 1)
  | discards r o => exact hnot (nears_discarded (n := 0) u o) (Nat.zero_le 2)

/-- Whoever waits for a handshake does as before, or has just made a connection that was not
established. -/
theorem Sound.shakes_act (h : w.Sound) (hd : (w.act x).Doing (Job.shakes c) a) :
    w.Doing (Job.shakes c) a ∧ (x = .poll a → w.going? a = none) ∨
      x = .poll a ∧ w.established? x = none ∧ w.conns.length ≤ c := by
  by_cases hx : x = .poll a
  swap
  · have hold := (h.doing_act hx fun _ => Job.isFresh_of_shakes).mp hd
    exact .inl ⟨hold, fun he => absurd he hx⟩
  subst hx
  cases hg : w.going? a with
  | none =>
    refine .inl ⟨?_, fun _ => rfl⟩
    rcases h.act_of_not_going hg with he | he | ⟨task, -, -, -, he⟩ <;> rw [he] at hd
    · exact hd
    · exact hd
    · exact absurd (hd.1.symm.trans (isFinished_finish _ _ _)) (by simp)
  | some job =>
    have hlt := h.ready a (going?_eq_some.mp hg).1
    obtain ⟨-, task, ht, hj⟩ := id hd
    obtain ⟨q', o, hjob⟩ := Job.shakes_iff.mp hj
    have hrole : w.role? a = some (.attempt q') := by
      rw [← (h.grows_act (.poll a)).role?_eq hlt]
      exact role?_eq_some.mpr ⟨task, ht, by rw [hjob]; rfl⟩
    obtain ⟨s, rfl⟩ := Job.eq_attempt (Option.some.inj ((role?_of_going hg).symm.trans hrole))
    obtain ⟨hnone, hle⟩ := (h.tries hg).shakes_new hlt hd
    refine .inr ⟨rfl, ?_, hle⟩
    have hreply : w.reply q' s = none := hnone
    simp [established?, hg, hreply]

/-! ## Connections that are done with -/

/-- Connection `c` is there, and nobody waits for a handshake over it. -/
structure Spent (c : ConnId) (w : Overlay) : Prop where
  there : c < w.conns.length
  idle : ∀ a, ¬w.Doing (Job.shakes c) a

theorem Spent.act (h : w.Spent c) (hs : w.Sound) (x : Act) : (w.act x).Spent c where
  there := Nat.lt_of_lt_of_le h.there (hs.grows_act x).conns.length_le
  idle a hd := by
    rcases hs.shakes_act hd with ⟨hold, -⟩ | ⟨-, -, hle⟩
    · exact h.idle a hold
    · exact absurd h.there (Nat.not_lt.mpr hle)

theorem doing_shakes {o : Outcome} (hg : w.going? t = some (.attempt q (.shaking c o))) :
    w.Doing (Job.shakes c) t := by
  obtain ⟨-, hf, task, ht, -, hj⟩ := going?_eq_some.mp hg
  exact ⟨hf, task, ht, Job.shakes_iff.mpr ⟨q, o, hj⟩⟩

/-- No attempt is answered with it again. -/
theorem Spent.not_established (h : w.Spent c) (x : Act) : w.established? x ≠ some c := by
  intro he
  obtain ⟨t, q, s, rfl, hg, hr⟩ := established?_eq_some.mp he
  rcases reply_ok hr with hle | ⟨o, rfl⟩
  · exact absurd h.there (Nat.not_lt.mpr hle)
  · exact h.idle t (doing_shakes hg)

/-- No two attempts wait for a handshake over the same connection. -/
def Apart (w : Overlay) : Prop :=
  ∀ a b c, w.Doing (Job.shakes c) a → w.Doing (Job.shakes c) b → a = b

theorem Apart.act (h : w.Apart) (hs : w.Sound) (x : Act) : (w.act x).Apart := by
  intro a b c ha hb
  rcases hs.shakes_act ha with ⟨ha, -⟩ | ⟨hxa, -, hle⟩ <;>
    rcases hs.shakes_act hb with ⟨hb, -⟩ | ⟨hxb, -, hle'⟩
  · exact h a b c ha hb
  · exact absurd (hs.lt_of_shakes ha) (Nat.not_lt.mpr hle')
  · exact absurd (hs.lt_of_shakes hb) (Nat.not_lt.mpr hle)
  · exact Act.poll.inj (hxa.symm.trans hxb)

theorem grows_establish (hk : w.manager.config.kind = .push)
    (hr : w.role? t = some (.attempt q)) {conn : Conn} (hc : w.conns[c]? = some conn)
    (p : PeerAddress) : w.Grows (w.establish t q c p) := by
  have hclose : Stirs t w (w.closeConn c) := stirs_closeConn w c
  have hr' := hclose.role? hr
  obtain ⟨conn', hc', -⟩ := Stirs.remote hclose hc
  have hj : ∀ o, (w.closeConn c).Refers t (.attempt q (.partingFrom c o)) := fun _ => ⟨conn', hc'⟩
  have hparts : Attempts t q .any (w.closeConn c) (w.establish t q c p) := by
    simp only [establish, hk]
    exact attempts_play (hj _) trivial
      (attempts_parted (Course.any_sound t q) hr' (hj _) trivial)
  exact (Grows.stirs hclose).trans (.turns (hparts.turns hr'))

theorem Tries.lt_of_ok (h : Tries t q u s v) (hk : u.manager.config.kind = .push)
    (hr : u.role? t = some (.attempt q)) (hok : u.reply q s = some (.ok c)) :
    c < v.conns.length := by
  cases h with
  | connects _ hn | shakes _ _ hn | crashes _ hn | fails _ hn =>
    exact absurd (hn.symm.trans hok) (by simp)
  | establishes h hc hr' =>
    obtain rfl := Except.ok.inj (Option.some.inj (hr'.symm.trans hok))
    have hg := grows_establish ((Grows.stirs h.stirs).config ▸ hk) (h.stirs.role? hr) hc
    exact Nat.lt_of_lt_of_le (List.getElem?_eq_some_iff.mp hc).1 (hg _).conns.length_le
  | parts | discards => exact absurd hok (by simp [reply])

/-- With its handshake a connection is done with. -/
theorem Sound.spent_of_established (h : w.Sound) (hk : w.manager.config.kind = .push)
    (ha : w.Apart) (he : w.established? x = some c) : (w.act x).Spent c := by
  obtain ⟨t, q, s, rfl, hg, hr⟩ := established?_eq_some.mp he
  refine ⟨(h.tries hg).lt_of_ok hk (role?_of_going hg) hr, fun a hd => ?_⟩
  rcases h.shakes_act hd with ⟨hold, hng⟩ | ⟨-, hnone, -⟩
  · rcases reply_ok hr with hle | ⟨o, rfl⟩
    · exact absurd (h.lt_of_shakes hold) (Nat.not_lt.mpr hle)
    · obtain rfl := ha a t c hold (doing_shakes hg)
      exact absurd ((hng rfl).symm.trans hg) (by simp)
  · exact absurd (hnone.symm.trans he) (by simp)

/-! ## How often a connection is closed -/

/-- How often connection `c` was closed. -/
def closings (c : ConnId) (w : Overlay) : Nat := w.journal.countP fun e => e.event.closes c

theorem Event.closes_iff {e : Event} : e.closes c = true ↔ ∃ p, e = .close c p := by
  unfold Event.closes
  split <;> simp_all

theorem Event.not_closes {e : Event} (h : e.isClose = false) : e.closes c = false := by
  cases e <;> first | rfl | exact absurd h (by simp [Event.isClose])

theorem hasClosed_iff : w.HasClosed c ↔ 0 < w.closings c := by
  simp only [HasClosed, closings, List.countP_pos_iff, Event.closes_iff]

theorem countP_closes_eq_zero {l : List Entry} (h : ∀ e ∈ l, e.event.isClose = false) :
    l.countP (fun e => e.event.closes c) = 0 :=
  List.countP_eq_zero.mpr fun e he => by simp [Event.not_closes (h e he)]

theorem Sheds.closings (h : Sheds u v c?) (c : ConnId) :
    v.closings c = u.closings c + if c? = some c then 1 else 0 := by
  cases c? with
  | none =>
    obtain ⟨more, hj, hm⟩ := h
    simp [Overlay.closings, hj, countP_closes_eq_zero hm]
  | some d =>
    obtain ⟨asks, clock, p, rest, hj, hasks, hrest⟩ := h
    have hzero := countP_closes_eq_zero (c := c) fun e he => Event.isClose_of_isAsk (hasks e he)
    have hd : (Event.close d p).closes c = decide (d = c) := rfl
    simp only [Overlay.closings, hj, List.countP_append, List.countP_cons, hzero,
      countP_closes_eq_zero hrest, hd]
    simp

/-- No relay keeps a connection, and each connection that was closed was closed once and is done
with. -/
structure Shedding (w : Overlay) : Prop where
  sound : w.Sound
  kind : w.manager.config.kind = .push
  connless : w.Connless
  apart : w.Apart
  spent : ∀ c, w.HasClosed c → w.Spent c
  once : ∀ c, w.closings c ≤ 1

theorem shedding_start {config : RelayConfig} (hk : config.kind = .push) (mine : PeerAddress) :
    (start config mine).Shedding where
  sound := sound_start config mine
  kind := hk
  connless k h := absurd h (by simp [wires, start])
  apart a b c h := by
    obtain ⟨-, task, ht, -⟩ := h
    exact absurd ht (by simp [start])
  spent c h := by
    obtain ⟨e, he, -⟩ := h
    exact absurd he (by simp [start])
  once c := by simp [closings, start]

theorem Shedding.sheds (h : w.Shedding) (x : Act) : Sheds w (w.act x) (w.established? x) :=
  h.sound.sheds_act h.kind h.connless x

theorem Shedding.act (h : w.Shedding) (x : Act) : (w.act x).Shedding where
  sound := h.sound.act x
  kind := by rw [(h.sound.grows_act x).config, h.kind]
  connless k hk := by
    have hmakes := h.sound.makes_act x
    generalize w.established? x = c? at hmakes
    cases hmakes with
    | nothing _ hw => exact h.connless k (hw ▸ hk)
    | bare _ hw =>
      rw [hw] at hk
      exact (List.mem_append.mp hk).elim (h.connless k) List.mem_singleton.mp
    | keeps ho => exact absurd (h.kind.symm.trans ho) (by simp)
  apart := h.apart.act h.sound x
  spent c hc := by
    by_cases he : w.established? x = some c
    · exact h.sound.spent_of_established h.kind h.apart he
    · refine (h.spent c (hasClosed_iff.mpr ?_)).act h.sound x
      have hpos := hasClosed_iff.mp hc
      rwa [(h.sheds x).closings, if_neg he] at hpos
  once c := by
    rw [(h.sheds x).closings]
    split
    · next he =>
      have hzero : ¬0 < w.closings c := fun hpos =>
        (h.spent c (hasClosed_iff.mpr hpos)).not_established x he
      omega
    · exact h.once c

theorem shedding_run {config : RelayConfig} (hk : config.kind = .push) (mine : PeerAddress)
    (acts : List Act) : ((start config mine).run acts).Shedding := by
  induction acts using List.reverseRecOn with
  | nil => exact shedding_start hk mine
  | append_singleton acts x ih => exact run_concat _ acts x ▸ ih.act x

/-- If all that comes between `old` and an entry only asks, whatever else is not in `old` comes after
that entry. -/
theorem mem_take_of_asks {old asks rest : List Entry} {e e' : Entry} {n : Nat}
    (ha : ∀ e ∈ asks, e.event.isAsk = true)
    (hn : (old ++ asks ++ e :: rest)[n]? = some e') (hold : old.length ≤ n)
    (hask : e'.event.isAsk = false) (hne : e' ≠ e) : e ∈ (old ++ asks ++ e :: rest).take n := by
  have he : (old ++ asks ++ e :: rest)[(old ++ asks).length]? = some e := by
    rw [List.getElem?_append_right (Nat.le_refl _), Nat.sub_self, List.getElem?_cons_zero]
  refine List.mem_of_getElem? (i := (old ++ asks).length) ?_
  rw [List.getElem?_take_of_lt, he]
  rcases Nat.lt_trichotomy (old ++ asks).length n with hlt | heq | hgt
  · exact hlt
  · subst heq
    exact absurd (Option.some.inj (hn.symm.trans he)) hne
  · rw [List.getElem?_append_left hgt, List.getElem?_append_right hold] at hn
    exact absurd ((ha e' (List.mem_of_getElem? hn)).symm.trans hask) (by simp)

/-- Connection `c` was closed once, and that came before every offer that is in the journal from
place `n` on. -/
def PartedFirst (c : ConnId) (n : Nat) (w : Overlay) : Prop :=
  w.closings c = 1 ∧ ∀ m e, w.journal[m]? = some e → n ≤ m → e.event.offered?.isSome = true →
    (w.journal.take m).countP (fun e => e.event.closes c) = 1

/-- Where relays keep no connections, one that is established is closed before any offer that is
still to come. -/
theorem parted_first {config : RelayConfig} (hk : config.kind = .push) (mine : PeerAddress)
    {acts : List Act} {i : Nat} (h : (start config mine).EstablishedAt acts c i) :
    ((start config mine).run acts).PartedFirst c
      ((start config mine).run (acts.take i)).journal.length := by
  obtain ⟨x, hx, he⟩ := h
  have hu := shedding_run hk mine (acts.take i)
  have honce := (shedding_run hk mine acts).once c
  have hg := grows_run (hu.act x).sound (acts.drop (i + 1))
  have hsheds := hu.sheds x
  rw [← run_at hx] at hg
  rw [he] at hsheds
  generalize (start config mine).run acts = w at honce hg
  obtain ⟨asks, clock, p, rest, hj, hasks, -⟩ := hsheds
  obtain ⟨more, hmore⟩ := hg.journal
  rw [hj, List.append_assoc _ _ more, List.cons_append] at hmore
  have hone : ∀ l : List Entry, ⟨clock, .close c p⟩ ∈ l → l.Sublist w.journal →
      l.countP (fun e => e.event.closes c) = 1 := by
    intro l hl hsub
    have hle := (hsub.countP_le (p := fun e => e.event.closes c)).trans honce
    have hpos : 0 < l.countP fun e => e.event.closes c :=
      List.countP_pos_iff.mpr ⟨_, hl, Event.closes_iff.mpr ⟨p, rfl⟩⟩
    omega
  refine ⟨hone _ ?_ (List.Sublist.refl _), fun m e hm hle hoff => ?_⟩
  · rw [← hmore]
    exact List.mem_append_right _ (List.mem_cons_self ..)
  · refine hone _ ?_ (List.take_sublist m _)
    rw [← hmore] at hm ⊢
    refine mem_take_of_asks hasks hm hle ?_ ?_
    · cases hev : e.event <;> first | rfl | simp [hev, Event.offered?] at hoff
    · rintro rfl
      simp [Event.offered?] at hoff

end Overlay

end RelayUpkeep
