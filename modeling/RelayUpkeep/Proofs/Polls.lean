import RelayUpkeep.Proofs.Growth
import Mathlib.Data.List.Induction

/-! # Every poll is a chain of moves -/

namespace RelayUpkeep.Overlay

variable {t : TaskId} {w : Overlay}

/-- Each member of the reservation lock is a task that was started. -/
def GateInRange (w : Overlay) : Prop := ∀ u, w.InGate u → u < w.tasks.length

/-! ## Scripts, connections and failures -/

theorem quiet_play {s : Script} {waiting : Outcome → Job} {next : Overlay → Outcome → Overlay}
    (h : w.role? t = some (waiting s.outcome).role) (hj : w.Refers t (waiting s.outcome))
    (hn : Quiet t w (next w s.outcome)) : Quiet t w (w.play t s waiting next) := by
  unfold play
  split
  · exact hn
  · next hd => exact (Stir.sleep w _ _ h hj hd).one.quiet (.refl _)

theorem stirs_closeConn (w : Overlay) (c : ConnId) : Stirs t w (w.closeConn c) := by
  unfold closeConn
  split
  · exact (Stir.log w _ rfl (by simp [Event.isReserve])).one.trans (Stir.dropConn _ c).one
  · exact .refl

@[simp] theorem role?_closeConn (w : Overlay) (c : ConnId) (a : TaskId) :
    (w.closeConn c).role? a = w.role? a := by
  unfold closeConn
  split
  · exact role?_dropConn c a
  · rfl

theorem stirs_markFailed (w : Overlay) (p : PeerAddress) : Stirs t w (w.markFailed p).1 := by
  have ht := FailedCache.ttl_add w.manager.failed p w.now
  unfold markFailed
  cases hc : w.manager.failed.add p w.now with
  | mk failed crash =>
    rw [hc] at ht
    have hm : Stirs t w (w.withManager fun m => { m with failed }) :=
      (Stir.manage w w.manager.gate w.manager.creator failed (fun _ h => .inr h) ht
        (.inl ⟨rfl, rfl⟩)).one
    cases crash with
    | none => exact hm.trans (Stir.log _ _ rfl (by simp [Event.isReserve])).one
    | some c => exact hm

theorem quiet_failAttempt (w : Overlay) (p : PeerAddress) (e : RelayError) :
    Quiet t w (w.failAttempt t p e) := by
  have h := stirs_markFailed (t := t) w p
  unfold failAttempt
  split <;> next hc =>
    rw [hc] at h
    exact h.quiet (.finish _ _)

/-! ## Attempts -/

theorem quiet_discarded (w : Overlay) (o : Outcome) : Quiet t w (w.discarded t o) := by
  unfold discarded
  split <;> exact .finish _ _

theorem refused_discard {q : PeerAddress} {r : RelayId} {answer : Option Admission}
    (h : w.role? t = some (.attempt q)) :
    Quiet t (w.refused r answer) ((w.log (.offer r answer)).discard t q r) := by
  have hr : (w.refused r answer).role? t = some (.attempt q) := by
    unfold refused
    rw [role?_shutRelay]
    exact h
  unfold discard refused at *
  split <;> next hs =>
    simp only [hs] at hr ⊢
    first
    | exact .finish _ _
    | exact (stirs_closeConn _ _).quiet
        (quiet_play (by simpa [Job.role] using hr) trivial (quiet_discarded _ _))

theorem welcome_fresh {r : RelayId} {relay : Relay} (hr : w.relays[r]? = some relay)
    (hs : relay.signal = .live none) :
    w.welcome t r = ((w.setSignal r (.live (some .manager))).publish).finish t .done := by
  simp [welcome, listen, hr, hs, CloseSignal.listen, signalled]

theorem offer_refused {q p : PeerAddress} {r : RelayId} (h : w.verdict p ≠ some .added) :
    w.offer t q r p = (w.log (.offer r (w.verdict p))).discard t q r := by
  unfold verdict at h ⊢
  unfold offer Pool.add
  split_ifs at h ⊢ <;> first | rfl | exact absurd rfl h

theorem offer_admitted {q p : PeerAddress} {r : RelayId} {relay : Relay}
    (hr : w.relays[r]? = some relay) (hs : relay.signal = .live none)
    (h : w.verdict p = some .added) :
    w.offer t q r p = (w.admitted r p).finish t .done := by
  unfold verdict at h
  unfold offer Pool.add
  split_ifs at h ⊢ <;> first | exact welcome_fresh hr hs | simp at h

variable {k : Course} {q : PeerAddress}

/-- What becomes of an offer is what the pool answers at that moment. -/
theorem attempts_offer {u : Overlay} {r : RelayId} {p : PeerAddress} (hm : Made w u r p)
    (h : w.role? t = some (.attempt q)) (hk : k.offers p) :
    Attempts t q k w (u.offer t q r p) := by
  have hv : u.verdict p = w.verdict p := by simp [verdict, hm.manager]
  by_cases ha : w.verdict p = some .added
  · obtain ⟨kind, conn, watcher, hr⟩ := hm.relay
    exact .accept .refl hm hk ha (offer_admitted hr rfl (hv.trans ha))
  · refine .refuse .refl hm hk ha ?_
    rw [offer_refused (hv ▸ ha), hv]
    exact refused_discard (hm.role? h)

theorem attempts_play {s : Script} {stage : Outcome → AttemptStage}
    {next : Overlay → Outcome → Overlay} (hj : w.Refers t (.attempt q (stage s.outcome)))
    (hk : k.stage w (stage s.outcome)) (hn : Attempts t q k w (next w s.outcome)) :
    Attempts t q k w (w.play t s (fun o => .attempt q (stage o)) next) := by
  unfold play
  split
  · exact hn
  · next hd => exact .waits .refl hj hk hd rfl

theorem attempts_failAttempt (hk : ∀ e : Exit, e.isFailure = true → k.ends e) (p : PeerAddress)
    (e : RelayError) : Attempts t q k w (w.failAttempt t p e) := by
  have h := stirs_markFailed (t := t) w p
  unfold failAttempt
  split <;> next hc =>
    rw [hc] at h
    exact .ends h (hk _ rfl) rfl

theorem stirs_dropLink (w : Overlay) (id : PeerId) : Stirs t w (w.dropLink id) := by
  unfold dropLink
  split
  · exact (Stir.dropConn _ _).one
  · exact .refl

/-- A link that is dead on arrival drops before anything else is done. -/
def arrive (w : Overlay) (id : PeerId) : Overlay :=
  if (w.behaviour id).dead then w.dropLink id else w

theorem stirs_arrive (w : Overlay) (id : PeerId) : Stirs t w (w.arrive id) := by
  unfold arrive
  split
  · exact stirs_dropLink w id
  · exact .refl

theorem Stirs.remote {u v : Overlay} (h : Stirs t u v) {c : ConnId} {conn : Conn}
    (hc : u.conns[c]? = some conn) :
    ∃ conn', v.conns[c]? = some conn' ∧ conn'.remote = conn.remote := by
  obtain ⟨conn', hc', hg⟩ := (Grows.stirs h).conns c conn hc
  exact ⟨conn', hc', hg.remote⟩

theorem attempts_parted (hs : k.Sound t q) (h : w.role? t = some (.attempt q)) {c : ConnId}
    {o : Outcome} (hj : w.Refers t (.attempt q (.partingFrom c o)))
    (hk : k.stage w (.partingFrom c o)) : Attempts t q k w (w.parted t q c o) := by
  obtain ⟨conn, hc⟩ := hj
  cases o with
  | crash text => exact .ends .refl (hs.unparted hk _ rfl) rfl
  | succeed | fail =>
    simp only [parted, hc]
    exact attempts_offer (.push w conn.remote) h (hs.parted (by simp) hc hk)

theorem attempts_establish (hs : k.Sound t q) {v : Overlay}
    (h : v.role? t = some (.attempt q)) (hv : Stirs t w v) {d : ConnId} {conn : Conn}
    (hd : v.conns[d]? = some conn) (hp : conn.remote = w.partner q) {c : ConnId}
    (hk : k.stage w (.shaking c .succeed)) :
    Attempts t q k v (v.establish t q d conn.remote) := by
  have hconfig := (Grows.stirs hv).config
  unfold establish
  split
  · next hkind =>
    refine attempts_offer (.openTcp v d conn hd) h ?_
    exact hp ▸ hs.keep (hconfig ▸ hkind) hk
  · next hkind =>
    have hc := stirs_closeConn (t := t) v d
    obtain ⟨conn', hd', hremote⟩ := Stirs.remote hc hd
    have hb : v.closeScript d = (w.behaviour conn'.remote.id).close := by
      simp [closeScript, hd, hremote, behaviour, (Frame.stirs hv).behaviours]
    have hj : (v.closeConn d).Refers t
        (.attempt q (.partingFrom d (v.closeScript d).outcome)) := ⟨conn', hd'⟩
    have hk' : k.stage (v.closeConn d) (.partingFrom d (v.closeScript d).outcome) :=
      hb ▸ hs.part (hconfig ▸ hkind) (hv.trans hc) hd' (hremote.trans hp) hk
    exact hc.attempts (attempts_play hj hk' (attempts_parted hs (hc.role? h) hj hk'))

theorem attempts_shaken (hs : k.Sound t q) (h : w.role? t = some (.attempt q)) {c : ConnId}
    {o : Outcome} (hj : w.Refers t (.attempt q (.shaking c o))) (hk : k.stage w (.shaking c o)) :
    Attempts t q k w (w.shaken t q c o) := by
  obtain ⟨conn, hc, rfl⟩ := hj
  cases o with
  | crash text => exact .ends .refl (hs.unshaken (by simp) hk _ rfl) rfl
  | fail e => exact attempts_failAttempt (hs.unshaken (by simp) hk) conn.remote e
  | succeed =>
    have ha := stirs_arrive (t := t) w conn.remote.id
    obtain ⟨conn', hc', hremote⟩ := Stirs.remote ha hc
    simp only [shaken, hc]
    refine ha.attempts ?_
    cases hb : (w.behaviour conn.remote.id).standIn with
    | none =>
      have he := attempts_establish hs (ha.role? h) ha hc'
        (hremote.trans (by simp [partner, hb])) hk
      rwa [hremote] at he
    | some other =>
      have ho : Stirs t _ ((w.arrive conn.remote.id).openConn other).1 :=
        (Stir.openConn _ other).one
      have hd : ((w.arrive conn.remote.id).openConn other).1.conns[
          ((w.arrive conn.remote.id).openConn other).2]? = some ⟨other, true⟩ :=
        List.getElem?_concat_length
      refine ho.attempts (attempts_establish hs (ho.role? (ha.role? h)) (ha.trans ho) hd ?_ hk)
      simp [partner, hb]

theorem attempts_connected (hs : k.Sound t q) (h : w.role? t = some (.attempt q)) {o : Outcome}
    (hk : k.stage w (.connecting o)) : Attempts t q k w (w.connected t q o) := by
  cases o with
  | crash text => exact .ends .refl (hs.unconnected (by simp) hk _ rfl) rfl
  | fail e => exact attempts_failAttempt (hs.unconnected (by simp) hk) q e
  | succeed =>
    have ho : Stirs t w ((w.openConn q).1.log (.handshake t (w.openConn q).2 q)) :=
      (Stir.openConn w q).one.trans (Stir.log _ _ rfl (by simp [Event.isReserve])).one
    have hc : ((w.openConn q).1.log (.handshake t (w.openConn q).2 q)).conns[
        (w.openConn q).2]? = some ⟨q, true⟩ := List.getElem?_concat_length
    have hk' := hs.connect hc (hs.stirs ho hk)
    have hj : ((w.openConn q).1.log (.handshake t (w.openConn q).2 q)).Refers t
        (.attempt q (.shaking (w.openConn q).2 (w.behaviour q.id).handshake.outcome)) :=
      ⟨_, hc, rfl⟩
    simp only [connected]
    refine ho.attempts ?_
    exact attempts_play hj hk' (attempts_shaken hs (ho.role? h) hj hk')

theorem attempts_enterAttempt (hs : k.Sound t q) (h : w.role? t = some (.attempt q))
    (hk : k.stage w .entering) : Attempts t q k w (w.enterAttempt t q) := by
  have hl : Stirs t w (w.log (.connect t q)) := (Stir.log w _ rfl (by simp [Event.isReserve])).one
  have hk' := hs.enter (hs.stirs hl hk)
  exact hl.attempts (attempts_play trivial hk' (attempts_connected hs (hl.role? h) hk'))

theorem attempts_pollAttempt (hs : k.Sound t q) (h : w.role? t = some (.attempt q))
    {stage : AttemptStage} (hj : w.Refers t (.attempt q stage)) (hk : k.stage w stage) :
    Attempts t q k w (w.pollAttempt t q stage) := by
  cases stage with
  | entering => exact attempts_enterAttempt hs h hk
  | connecting o => exact attempts_connected hs h hk
  | shaking c o => exact attempts_shaken hs h hj hk
  | partingFrom c o => exact attempts_parted hs h hj hk
  | discarding r o =>
    simp only [pollAttempt, discarded]
    split <;> exact .ends .refl (hs.discarded hk _) rfl

/-! ## Guards -/

theorem quiet_pollGuard {slot : Nat} {p : PeerAddress} (h : w.role? t = some (.guard slot p))
    (attempt : Option TaskId) : Quiet t w (w.pollGuard t slot p attempt) := by
  unfold pollGuard
  split
  · have hr : (w.spawn (.attempt p .entering) (some t)).1.role? t = some (.guard slot p) :=
      role?_append h
    have hst : w.Starts t (.attempt p .entering) := ⟨_, h, by simp [Role.starts]⟩
    refine (Stir.spawn w (.attempt p .entering) hst).one.quiet ?_
    refine (Stir.setJob _ (.guardAttempt slot p (some w.tasks.length)) hr ?_).one.quiet (.refl _)
    exact ⟨⟨.attempt p .entering, some t, false⟩, by simp [spawn], rfl, rfl⟩
  · split
    · exact .refl w
    · exact quiet_failAttempt _ _ _
    · exact quiet_failAttempt _ _ _
    · exact .finish _ _

/-! ## Setups -/

theorem releaseGate_eq (w : Overlay) : w.releaseGate =
    (w.manager.gate.waiting.head?.elim id fun u => (wake · u))
      (w.withManager fun m => { m with gate := m.gate.release }) := by
  simp only [releaseGate, FairLock.release, withManager]
  cases w.manager.gate.waiting.head? <;> rfl

theorem releaseGate_frame (w : Overlay) : ∃ rs, w.releaseGate =
    { w with manager := { w.manager with gate := w.manager.gate.release }, ready := rs } := by
  rw [releaseGate_eq]
  cases w.manager.gate.waiting.head? with
  | none => exact ⟨w.ready, rfl⟩
  | some b =>
    obtain ⟨rs, h, -⟩ := (w.withManager fun m => { m with gate := m.gate.release }).wake_eq b
    exact ⟨rs, h⟩

theorem leaveGate_frame (w : Overlay) (t : TaskId) : ∃ gate rs, w.leaveGate t =
    { w with manager := { w.manager with gate }, ready := rs } := by
  unfold leaveGate
  split
  · exact ⟨_, w.releaseGate_frame⟩
  · exact ⟨_, w.ready, rfl⟩

theorem stirs_releaseGate (ho : w.Own t) (hg : w.GateInRange) : Stirs t w w.releaseGate := by
  have hm : Stirs t w (w.withManager fun m => { m with gate := m.gate.release }) := by
    refine (Stir.manage w w.manager.gate.release w.manager.creator w.manager.failed ?_ rfl
      (.inr ho)).one
    rintro u (hu | hu)
    · exact .inr (.inr (List.mem_of_mem_head? hu))
    · exact .inr (.inr (List.mem_of_mem_tail hu))
  rw [releaseGate_eq]
  cases hn : w.manager.gate.waiting.head? with
  | none => exact hm
  | some next =>
    refine hm.trans (Stir.wake _ next ?_).one
    exact hg next (.inr (List.mem_of_mem_head? hn))

@[simp] theorem role?_releaseGate (w : Overlay) (a : TaskId) :
    w.releaseGate.role? a = w.role? a := by
  obtain ⟨rs, h⟩ := w.releaseGate_frame
  rw [h]
  rfl

theorem stirs_acquire (ho : w.Own t) :
    Stirs t w (w.withManager fun m => { m with gate := (m.gate.acquire t).1 }) := by
  refine (Stir.manage w (w.manager.gate.acquire t).1 w.manager.creator w.manager.failed ?_ rfl
    (.inr ho)).one
  intro u hu
  unfold FairLock.acquire at hu
  split at hu
  · exact hu.imp (fun h => (Option.some.inj h).symm) (fun h => .inr h)
  · rcases hu with hu | hu
    · exact .inr (.inl hu)
    · rcases List.mem_append.mp hu with hu | hu
      · exact .inr (.inr hu)
      · exact .inl (List.mem_singleton.mp hu)

theorem gateInRange_acquire (ht : t < w.tasks.length) (hg : w.GateInRange) :
    (w.withManager fun m => { m with gate := (m.gate.acquire t).1 }).GateInRange := by
  intro u hu
  simp only [InGate, withManager, FairLock.acquire] at hu
  split at hu
  · rcases hu with hu | hu
    · exact Option.some.inj hu ▸ ht
    · exact hg u (.inr hu)
  · rcases hu with hu | hu
    · exact hg u (.inl hu)
    · rcases List.mem_append.mp hu with hu | hu
      · exact hg u (.inr hu)
      · exact List.mem_singleton.mp hu ▸ ht

theorem stirs_spawnAll {role : Role} (hr : w.role? t = some role) (jobs : List Job)
    (h : ∀ job ∈ jobs, role.starts job) : Stirs t w (w.spawnAll jobs (some t)).1 := by
  induction jobs using List.reverseRecOn with
  | nil => exact .refl
  | append_singleton jobs job ih =>
    have hs : (w.spawnAll (jobs ++ [job]) (some t)).1 =
        ((w.spawnAll jobs (some t)).1.spawn job (some t)).1 := by
      simp [spawnAll, List.foldl_append]
    have hi := ih fun j hj => h j (List.mem_append_left _ hj)
    rw [hs]
    exact hi.tail (.spawn _ job ⟨role, Stirs.role? hi hr, h job (by simp)⟩)

/-- The tasks that were just started play the roles of their jobs. -/
theorem plays_spawnAll {jobs : List Job} {parent : Option TaskId} {a : TaskId}
    (h : a ∈ (w.spawnAll jobs parent).2) :
    ∃ job ∈ jobs, (w.spawnAll jobs parent).1.Plays a job.role parent := by
  rw [spawnAll_eq] at h ⊢
  obtain ⟨h₁, h₂⟩ := List.mem_range'_1.mp h
  have hlt : a - w.tasks.length < jobs.length := Nat.sub_lt_left_of_lt_add h₁ h₂
  refine ⟨jobs[a - w.tasks.length], List.getElem_mem hlt, ⟨_, parent, false⟩, ?_, rfl, rfl⟩
  simp [List.getElem?_append_right h₁, hlt]

theorem turns_takeTurn {manual : List PeerAddress} {maxFail : Nat}
    (h : w.role? t = some (.setup manual maxFail)) (r : Round) :
    Turns t w (w.takeTurn t manual maxFail r) := by
  unfold takeTurn
  split
  · exact (Move.publish w).one.turns (.finish _ _)
  · next draws r _ =>
    have hs := stirs_spawnAll h
      (draws.map fun d => .guardAttempt d.1 d.2 none)
      (by rintro _ hj; obtain ⟨_, -, rfl⟩ := List.mem_map.mp hj; rfl)
    refine hs.turns ((Stir.setJob _ _ (hs.role? h) ?_).one.turns (.refl _))
    intro a ha
    obtain ⟨job, hj, hp⟩ := plays_spawnAll ha
    obtain ⟨⟨slot, p⟩, -, rfl⟩ := List.mem_map.mp hj
    exact ⟨slot, p, hp⟩

theorem turns_startRound {manual : List PeerAddress} {maxFail : Nat}
    (h : w.role? t = some (.setup manual maxFail)) (candidates : List PeerAddress) :
    Turns t w (w.startRound t manual maxFail candidates) := by
  simp only [startRound]
  split
  · split <;> exact .finish _ _
  · exact turns_takeTurn h _

theorem FailedCache.ttl_removeFailed (c : FailedCache) (now : Instant) (ps : List PeerAddress) :
    (c.removeFailed now ps).2.ttl = c.ttl := by
  induction ps generalizing c with
  | nil => rfl
  | cons p ps ih => exact ih (c.afterLookup p now)

/-- Collecting candidates drops failures that have run out, and changes nothing else. -/
theorem manager_candidates (m : Manager) (now : Instant) (me : PeerAddress)
    (manual known : List PeerAddress) : ∃ failed, (m.candidates now me manual known).2 =
      { m with failed } ∧ failed.ttl = m.failed.ttl := by
  unfold Manager.candidates
  simp only
  split
  · exact ⟨_, rfl, FailedCache.ttl_removeFailed _ _ _⟩
  · exact ⟨m.failed, rfl, rfl⟩

theorem turns_collect {manual : List PeerAddress} {maxFail : Nat}
    (h : w.role? t = some (.setup manual maxFail)) :
    Turns t w (w.collect t manual maxFail) := by
  have hs : Stirs t w (if manual.isEmpty then w.log (.readRouting t) else w) := by
    split
    · exact (Stir.log w _ rfl (by simp [Event.isReserve])).one
    · exact .refl
  unfold collect
  revert hs
  generalize (if manual.isEmpty then w.log (.readRouting t) else w) = v
  intro hs
  obtain ⟨failed, hm, hf⟩ :=
    manager_candidates v.manager v.now v.node.address manual v.routing
  simp only [hm]
  have hs' : Stirs t w { v with manager := { v.manager with failed } } :=
    hs.tail (.manage v v.manager.gate v.manager.creator failed (fun _ h => .inr h) hf
      (.inl ⟨rfl, rfl⟩))
  exact hs'.turns (turns_startRound (hs'.role? h) _)

theorem turns_reserved {manual : List PeerAddress} {maxFail : Nat}
    (h : w.role? t = some (.setup manual maxFail)) (hg : w.GateInRange) (o : Outcome) :
    Turns t w (w.reserved t manual maxFail o) := by
  have ho : w.Own t := ⟨_, h, rfl⟩
  unfold reserved
  split
  · exact (stirs_releaseGate ho hg).turns (.finish _ _)
  · exact (stirs_releaseGate ho hg).turns (.finish _ _)
  · have hn : Stirs t w { w with granted := w.granted + 1 } := (Stir.grant w _).one
    have hl : Stirs t w ({ w with granted := w.granted + 1 }.log (.granted w.granted)) :=
      hn.tail (.log _ _ rfl (by simp [Event.isReserve]))
    have hc : Stirs t w (({ w with granted := w.granted + 1 }.log
        (.granted w.granted)).withManager fun m => { m with creator := some w.granted }) :=
      hl.tail (.manage _ w.manager.gate _ w.manager.failed (fun _ h => .inr h) rfl
        (.inr (hl.own ho)))
    have hs : Stirs t w (({ w with granted := w.granted + 1 }.log
        (.granted w.granted)).withManager
          fun m => { m with creator := some w.granted }).releaseGate :=
      hc.trans (stirs_releaseGate (hc.own ho) hg)
    exact hs.turns (turns_collect (hs.role? h))

theorem turns_reserve {manual : List PeerAddress} {maxFail : Nat}
    (h : w.role? t = some (.setup manual maxFail)) (hg : w.GateInRange) :
    Turns t w (w.reserve t manual maxFail) := by
  have hs : Stirs t w w.releaseGate := stirs_releaseGate ⟨_, h, rfl⟩ hg
  unfold reserve
  split
  · exact hs.turns (turns_collect (hs.role? h))
  · split
    · exact hs.turns (.finish _ _)
    · next hup =>
      have hl : Stirs t w (w.log (.reserve t 0 w.manager.config.maxRelays)) :=
        (Stir.log w _ rfl fun _ => by simpa using hup).one
      refine hl.turns ?_
      unfold play
      split
      · exact turns_reserved (hl.role? h) hg _
      · next hd =>
        refine (Stir.sleep _ (.setup manual maxFail (.reserving w.reserveScript.outcome)) _
          (hl.role? h) trivial hd).one.turns (.refl _)

theorem turns_enterSetup {manual : List PeerAddress} {maxFail : Nat}
    (h : w.role? t = some (.setup manual maxFail)) (hg : w.GateInRange) :
    Turns t w (w.enterSetup t manual maxFail) := by
  have hs := stirs_acquire (w := w) ⟨_, h, rfl⟩
  have hg' := gateInRange_acquire (lt_of_role? h) hg
  unfold enterSetup
  split
  · exact .finish _ _
  · refine hs.turns ?_
    simp only
    split
    · exact turns_reserve (hs.role? h) hg'
    · refine (Stir.setJob _ (.setup manual maxFail .queued) ?_ trivial).one.turns (.refl _)
      exact hs.role? h

theorem turns_judge {manual : List PeerAddress} {maxFail : Nat}
    (h : w.role? t = some (.setup manual maxFail)) (r : Round) (attempts : List TaskId) :
    Turns t w (w.judge t manual maxFail r attempts) := by
  unfold judge
  simp only
  split
  · exact (Move.publish w).one.turns (.finish _ _)
  · split
    · exact .finish _ _
    · exact turns_takeTurn h _

theorem turns_pollSetup {manual : List PeerAddress} {maxFail : Nat}
    (h : w.role? t = some (.setup manual maxFail)) (hg : w.GateInRange) (stage : SetupStage) :
    Turns t w (w.pollSetup t manual maxFail stage) := by
  cases stage with
  | entering => exact turns_enterSetup h hg
  | queued =>
    simp only [pollSetup]
    split
    · exact turns_reserve h hg
    · exact .refl _
  | reserving o => exact turns_reserved h hg o
  | settling r attempts =>
    simp only [pollSetup]
    split
    · exact turns_judge h r attempts
    · exact .refl _

/-! ## Watchers and shutdowns -/

theorem turns_pollWatch {r : RelayId} (h : w.role? t = some (.watch r)) :
    Turns t w (w.pollWatch t r) := by
  unfold pollWatch
  split
  · exact .finish _ _
  · split
    · exact .refl _
    · split
      · next hh =>
        have hm := (Move.lose w r h hh).one
        split <;> next hl =>
          rw [hl] at hm
          exact hm.turns (.finish _ _)
      · exact .finish _ _

theorem quiet_ended (w : Overlay) (o : Outcome) : Quiet t w (w.ended t o) := by
  cases o <;> exact .finish _ _

theorem turns_pollCloseRelay {r : RelayId} (h : w.role? t = some (.close r))
    (pending : Option Outcome) : Turns t w (w.pollCloseRelay t r pending) := by
  cases pending with
  | some o => exact (quiet_ended w o).turns
  | none =>
    have hm := (Move.shut w r h).one
    simp only [pollCloseRelay]
    split
    · next hs =>
      rw [hs] at hm
      exact hm.turns (.finish _ _)
    · next v c hs =>
      have hr : v.role? t = some (.close r) := by
        have hv := role?_shutRelay (w := w) r t
        rw [hs] at hv
        exact hv.trans h
      rw [hs] at hm
      have hr' := (role?_closeConn v c t).trans hr
      exact hm.turns ((stirs_closeConn v c).turns (Quiet.turns (quiet_play hr' trivial
        (quiet_ended _ _))))

theorem turns_pollRelease {creator : CreatorId} (h : w.role? t = some (.release creator))
    (pending : Option Outcome) : Turns t w (w.pollRelease t creator pending) := by
  cases pending with
  | some o => exact (quiet_ended w o).turns
  | none =>
    have hl : Stirs t w (w.log (.release creator)) :=
      (Stir.log w _ rfl (by simp [Event.isReserve])).one
    have hr := hl.role? h
    simp only [pollRelease]
    exact hl.turns (Quiet.turns (quiet_play hr trivial (quiet_ended _ _)))

theorem turns_concludeShutdown (hadRelays : Bool) (parts : List TaskId) :
    Turns t w (w.concludeShutdown t hadRelays parts) := by
  have hm : Moves t w (if hadRelays then w.publish else w) := by
    split
    · exact (Move.publish w).one
    · exact .refl
  unfold concludeShutdown
  simp only
  split <;> exact hm.turns (.finish _ _)

/-- The tasks that a shutdown starts: one for each relay, and one for the reserved channels. -/
def shutdownParts (w : Overlay) (drained : List RelayId) : List Job :=
  drained.map (.closeRelay · none) ++ w.manager.creator.toList.map (.releaseCreator · none)

/-- The state in which a shutdown has just started its parts. -/
def partsStarted (w : Overlay) (t : TaskId) (drained : List RelayId) : Overlay × List TaskId :=
  (w.withManager fun m => { m with creator := none }).releaseGate.spawnAll
    (w.shutdownParts drained) (some t)

theorem stirs_partsStarted (h : w.role? t = some .shutdown) (hg : w.GateInRange)
    (drained : List RelayId) : Stirs t w (w.partsStarted t drained).1 := by
  have ho : w.Own t := ⟨_, h, rfl⟩
  have hc : Stirs t w (w.withManager fun m => { m with creator := none }) :=
    (Stir.manage w _ _ w.manager.failed (fun _ h => .inr h) rfl (.inr ho)).one
  have hr : Stirs t w (w.withManager fun m => { m with creator := none }).releaseGate :=
    hc.trans (stirs_releaseGate (hc.own ho) hg)
  refine hr.trans (stirs_spawnAll (hr.role? h) _ ?_)
  intro job hj
  rcases List.mem_append.mp hj with hj | hj <;> obtain ⟨_, -, rfl⟩ := List.mem_map.mp hj <;> rfl

theorem refers_partsStarted (drained : List RelayId) (hadRelays : Bool) :
    (w.partsStarted t drained).1.Refers t
      (.shutdown (.closing hadRelays (w.partsStarted t drained).2)) := by
  intro a ha
  obtain ⟨job, hj, hp⟩ := plays_spawnAll ha
  rcases List.mem_append.mp hj with hj | hj
  · obtain ⟨r, -, rfl⟩ := List.mem_map.mp hj
    exact .inl ⟨r, hp⟩
  · obtain ⟨k, -, rfl⟩ := List.mem_map.mp hj
    exact .inr ⟨k, hp⟩

/-- Parts are started if there is anything to close. -/
theorem partsStarted_ne_nil {drained : List RelayId} (h : drained ≠ []) :
    (w.partsStarted t drained).2.isEmpty = false := by
  obtain ⟨r, rest, rfl⟩ := List.exists_cons_of_ne_nil h
  simp [partsStarted, spawnAll_eq, shutdownParts, List.range'_succ]

theorem closeAll_of_ne_nil {drained : List RelayId} (h : drained ≠ []) :
    w.closeAll t drained = (w.partsStarted t drained).1.setJob t
      (.shutdown (.closing true (w.partsStarted t drained).2)) := by
  have hp : (w.partsStarted t drained).2.isEmpty = false := partsStarted_ne_nil h
  have hd : (!drained.isEmpty) = true := by simpa using h
  change (if (w.partsStarted t drained).2.isEmpty then
    (w.partsStarted t drained).1.concludeShutdown t false [] else
    (w.partsStarted t drained).1.setJob t
      (.shutdown (.closing (!drained.isEmpty) (w.partsStarted t drained).2))) = _
  rw [hp, hd]
  rfl

theorem quiet_closeAll (h : w.role? t = some .shutdown) (hg : w.GateInRange)
    (drained : List RelayId) : Quiet t w (w.closeAll t drained) := by
  have hs := stirs_partsStarted h hg drained
  change Quiet t w (if (w.partsStarted t drained).2.isEmpty then
    (w.partsStarted t drained).1.concludeShutdown t false [] else
    (w.partsStarted t drained).1.setJob t
      (.shutdown (.closing (!drained.isEmpty) (w.partsStarted t drained).2)))
  split
  · refine hs.quiet ?_
    unfold concludeShutdown
    simp only
    split <;> exact .finish _ _
  · refine hs.quiet ((Stir.setJob _ _ (hs.role? h) ?_).one.quiet (.refl _))
    exact refers_partsStarted drained _

/-- The state in which a shutdown has drained the pool and asked for the lock. -/
def stopped (w : Overlay) (t : TaskId) : Overlay :=
  w.drained.withManager fun m => { m with gate := (m.gate.acquire t).1 }

theorem enterShutdown_eq (w : Overlay) (t : TaskId) : w.enterShutdown t =
    if (w.manager.gate.acquire t).2 then (w.stopped t).closeAll t w.pooled
    else (w.stopped t).setJob t (.shutdown (.queued w.pooled)) := rfl

theorem quiet_enterShutdown (h : w.role? t = some .shutdown) (hg : w.GateInRange) :
    Quiet t w.drained (w.enterShutdown t) := by
  have ha : Stirs t w.drained (w.stopped t) := stirs_acquire ⟨_, h, rfl⟩
  have hg' : (w.stopped t).GateInRange :=
    gateInRange_acquire (w := w.drained) (lt_of_role? h) hg
  refine ha.quiet ?_
  rw [enterShutdown_eq]
  split
  · exact quiet_closeAll (ha.role? h) hg' _
  · exact (Stir.setJob _ (.shutdown (.queued w.pooled)) (ha.role? h) trivial).one.quiet (.refl _)

theorem turns_enterShutdown (h : w.role? t = some .shutdown) (hg : w.GateInRange) :
    Turns t w (w.enterShutdown t) :=
  (Move.drain w h).one.turns (quiet_enterShutdown h hg).turns

theorem turns_pollShutdown (h : w.role? t = some .shutdown) (hg : w.GateInRange)
    (stage : ShutdownStage) : Turns t w (w.pollShutdown t stage) := by
  cases stage with
  | entering => exact turns_enterShutdown h hg
  | queued drained =>
    simp only [pollShutdown]
    split
    · exact (quiet_closeAll h hg drained).turns
    · exact .refl _
  | closing hadRelays parts =>
    simp only [pollShutdown]
    split
    · exact turns_concludeShutdown _ _
    · exact .refl _

/-! ## All of them -/

theorem stirs_leaveGate (ho : w.Own t) (hg : w.GateInRange) : Stirs t w (w.leaveGate t) := by
  unfold leaveGate
  split
  · exact stirs_releaseGate ho hg
  · next hh =>
    refine (Stir.manage w (w.manager.gate.leave t) w.manager.creator w.manager.failed ?_ rfl
      (.inr ho)).one
    simp only [FairLock.leave, if_neg hh]
    exact fun u hu => .inr (hu.imp id List.mem_of_mem_erase)

theorem Serves.mono {u v : Overlay} (hg : u.Grows v) {a : TaskId} (h : u.Serves t a) :
    v.Serves t a := by
  rcases h with ⟨slot, p, h⟩ | ⟨r, h⟩ | ⟨k, h⟩
  · exact .inl ⟨slot, p, h.mono hg⟩
  · exact .inr (.inl ⟨r, h.mono hg⟩)
  · exact .inr (.inr ⟨k, h.mono hg⟩)

theorem stirs_cancelAll (ts : List TaskId) (h : ∀ u ∈ ts, w.Serves t u) :
    Stirs t w (ts.foldl cancel w) := by
  induction ts generalizing w with
  | nil => exact .refl
  | cons u ts ih =>
    refine (Stir.cancel w u (h u (by simp))).one.trans (ih fun a ha => ?_)
    exact (h a (List.mem_cons_of_mem u ha)).mono (.cancel w u)

theorem quiet_abandon {job : Job} (h : w.role? t = some job.role) (hg : w.GateInRange)
    (hj : w.Refers t job) : Quiet t w (w.abandon t job) := by
  unfold abandon
  split
  · refine (stirs_cancelAll _ fun u hu => ?_).quiet (.finish _ _)
    obtain ⟨slot, p, hp⟩ := hj u hu
    exact .inl ⟨slot, p, hp⟩
  · refine (stirs_cancelAll _ fun u hu => ?_).quiet (.finish _ _)
    rcases hj u hu with ⟨r, hp⟩ | ⟨k, hp⟩
    · exact .inr (.inl ⟨r, hp⟩)
    · exact .inr (.inr ⟨k, hp⟩)
  · exact (stirs_leaveGate ⟨_, h, rfl⟩ hg).quiet (.finish _ _)
  · exact (stirs_leaveGate ⟨_, h, rfl⟩ hg).quiet (.finish _ _)
  · exact .finish _ _

theorem turns_resume {job : Job} (h : w.role? t = some job.role) (hg : w.GateInRange)
    (hj : w.Refers t job) : Turns t w (w.resume t job) := by
  cases job with
  | setup manual maxFail stage => exact turns_pollSetup h hg stage
  | shutdown stage => exact turns_pollShutdown h hg stage
  | guardAttempt slot p attempt => exact (quiet_pollGuard h attempt).turns
  | attempt p stage =>
    exact (attempts_pollAttempt (Course.any_sound t p) h hj trivial).turns h
  | watch r => exact turns_pollWatch h
  | closeRelay r pending => exact turns_pollCloseRelay h pending
  | releaseCreator creator pending => exact turns_pollRelease h pending

/-- Whatever a task does in one poll is a chain of moves, after which it may end. -/
theorem turns_poll (hg : w.GateInRange)
    (hj : ∀ task, w.tasks[t]? = some task → w.Refers t task.job) : Turns t w (w.poll t) := by
  have hg' : ({ w with ready := w.ready.erase t } : Overlay).GateInRange := hg
  refine (Stir.rest w).one.turns ?_
  unfold poll
  simp only
  split
  · exact .refl _
  · next task ht =>
    have hr : ({ w with ready := w.ready.erase t } : Overlay).role? t = some task.job.role :=
      role?_eq_some.mpr ⟨task, ht, rfl⟩
    have hj' : ({ w with ready := w.ready.erase t } : Overlay).Refers t task.job :=
      (hj task ht).mono { Grows.refl w with }
    split
    · exact .refl _
    · split
      · exact (quiet_abandon hr hg' hj').turns
      · exact turns_resume hr hg' hj'

end RelayUpkeep.Overlay
