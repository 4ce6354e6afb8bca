import RelayUpkeep.Proofs.Iterations

/-! # Before a round starts

A setup that has not collected its candidates yet is busy with the lock and the channels only. The
candidates that it collects are not pooled, and no two of them are copies of one peer. -/

namespace RelayUpkeep

/-- The candidates are distinct peers that are not in the pool. -/
theorem Manager.eligible_spec (m : Manager) (me : PeerAddress) (seen : List PeerId)
    (ps : List PeerAddress) : ((m.eligible me seen ps).map PeerAddress.id).Nodup ∧
      ∀ p ∈ m.eligible me seen ps, m.pool.containsPeer p = false ∧ p.id ∉ seen := by
  induction ps generalizing seen with
  | nil => simp [eligible]
  | cons p ps ih =>
    unfold eligible
    split
    · exact ih seen
    · next h =>
      simp only [not_or] at h
      obtain ⟨-, -, hpool, hseen⟩ := h
      obtain ⟨hn, hall⟩ := ih (p.id :: seen)
      refine ⟨?_, ?_⟩
      · rw [List.map_cons]
        refine List.nodup_cons.mpr ⟨fun hmem => ?_, hn⟩
        obtain ⟨x, hx, hid⟩ := List.mem_map.mp hmem
        exact (hall x hx).2 (by simp [hid])
      · intro x hx
        rcases List.mem_cons.mp hx with rfl | hx
        · exact ⟨by simpa using hpool, hseen⟩
        · obtain ⟨hfree, hnot⟩ := hall x hx
          exact ⟨hfree, fun hmem => hnot (List.mem_cons_of_mem _ hmem)⟩

/-- The stages before a round has started. -/
def SetupStage.isEarly : SetupStage → Bool
  | .settling .. => false
  | _ => true

namespace Overlay

variable {t : TaskId} {u v w : Overlay} {manual : List PeerAddress} {maxFail : Nat}

/-- The lock or the channels changed hands, and nothing else happened. -/
def Reserves (u v : Overlay) : Prop :=
  ∃ gate creator granted more ready, v = { u with
    manager := { u.manager with gate, creator }, granted, journal := u.journal ++ more, ready } ∧
    ∀ e ∈ more, e.event.isPlain = true

namespace Reserves

theorem of_ready (w : Overlay) (gate : FairLock TaskId) (creator : Option CreatorId)
    (granted : Nat) (ready : List TaskId) :
    w.Reserves { w with manager := { w.manager with gate, creator }, granted, ready } :=
  ⟨gate, creator, granted, [], ready, by simp, by simp⟩

theorem refl (w : Overlay) : w.Reserves w := .of_ready w _ _ _ _

theorem trans (h : u.Reserves v) (h' : v.Reserves w) : u.Reserves w := by
  obtain ⟨gate, creator, granted, more, ready, rfl, hp⟩ := h
  obtain ⟨gate', creator', granted', rest, ready', rfl, hp'⟩ := h'
  refine ⟨gate', creator', granted', more ++ rest, ready', by simp, ?_⟩
  intro e he
  exact (List.mem_append.mp he).elim (hp e) (hp' e)

theorem log (w : Overlay) {e : Event} (h : e.isPlain = true) : w.Reserves (w.log e) :=
  ⟨_, _, _, [⟨w.clock, e⟩], _, rfl, by simpa using h⟩

theorem releaseGate (w : Overlay) : w.Reserves w.releaseGate := by
  obtain ⟨rs, h⟩ := w.releaseGate_frame
  rw [h]
  exact .of_ready w _ _ _ _

end Reserves

/-- What a setup comes to in one poll before its round has started. -/
inductive Opens (t : TaskId) (manual : List PeerAddress) (maxFail : Nat) (w : Overlay) :
    Overlay → Prop
  | stays {v : Overlay} (h : w.Reserves v) : Opens t manual maxFail w v
  | waits {v : Overlay} (stage : SetupStage) (h : w.Reserves v) (hs : stage.isEarly = true)
      (hup : w.manager.isShutDown = false) :
      Opens t manual maxFail w (v.setJob t (.setup manual maxFail stage))
  | sleeps {v : Overlay} (o : Outcome) (delay : Nat) (h : w.Reserves v)
      (hup : w.manager.isShutDown = false) :
      Opens t manual maxFail w (v.sleep t (.setup manual maxFail (.reserving o)) delay)
  | ends {v : Overlay} (e : Exit) (h : w.Reserves v) (he : e.isFailure = true) :
      Opens t manual maxFail w (v.finish t e)
  | collects {v : Overlay} (h : w.Reserves v) (hup : w.manager.isShutDown = false) :
      Opens t manual maxFail w (v.collect t manual maxFail)

theorem Reserves.isShutDown (h : u.Reserves v) :
    v.manager.isShutDown = u.manager.isShutDown := by
  obtain ⟨gate, creator, granted, more, ready, rfl, -⟩ := h
  rfl

theorem Reserves.opens (h : u.Reserves v) (h' : v.Opens t manual maxFail w) :
    u.Opens t manual maxFail w := by
  have hup := h.isShutDown
  cases h' with
  | stays hr => exact .stays (h.trans hr)
  | waits stage hr hs hv => exact .waits stage (h.trans hr) hs (hup ▸ hv)
  | sleeps o delay hr hv => exact .sleeps o delay (h.trans hr) (hup ▸ hv)
  | ends e hr he => exact .ends e (h.trans hr) he
  | collects hr hv => exact .collects (h.trans hr) (hup ▸ hv)

/-- The setup collects its candidates when its channels are granted. -/
theorem reserved_succeed (w : Overlay) (t : TaskId) (manual : List PeerAddress) (maxFail : Nat) :
    ∃ v, w.Reserves v ∧ w.reserved t manual maxFail .succeed = v.collect t manual maxFail := by
  have hg : w.Reserves { w with granted := w.granted + 1 } := .of_ready w _ _ _ _
  have hl := hg.trans (.log { w with granted := w.granted + 1 } (e := .granted w.granted) rfl)
  have hm := hl.trans (.of_ready _ w.manager.gate (some w.granted) (w.granted + 1) w.ready)
  exact ⟨_, hm.trans (.releaseGate _), rfl⟩

theorem opens_reserved (hup : w.manager.isShutDown = false) (o : Outcome) :
    w.Opens t manual maxFail (w.reserved t manual maxFail o) := by
  cases o with
  | crash text => exact .ends _ (.releaseGate w) rfl
  | fail e => exact .ends _ (.releaseGate w) rfl
  | succeed =>
    obtain ⟨v, hv, he⟩ := w.reserved_succeed t manual maxFail
    rw [he]
    exact .collects hv hup

theorem opens_reserve (hup : w.manager.isShutDown = false) :
    w.Opens t manual maxFail (w.reserve t manual maxFail) := by
  unfold reserve
  split
  · exact .collects (.releaseGate w) hup
  · split
    · exact .ends _ (.releaseGate w) rfl
    · refine (Reserves.log w (e := .reserve t 0 w.manager.config.maxRelays) rfl).opens ?_
      unfold play
      split
      · exact opens_reserved (w := w.log _) hup _
      · exact .sleeps _ _ (.refl _) hup

theorem opens_enterSetup (w : Overlay) :
    w.Opens t manual maxFail (w.enterSetup t manual maxFail) := by
  unfold enterSetup
  split
  · exact .ends _ (.refl w) rfl
  · next hsd =>
    have hup : w.manager.isShutDown = false := by simpa using hsd
    have ha : w.Reserves (w.withManager fun m => { m with gate := (m.gate.acquire t).1 }) :=
      .of_ready w _ _ _ _
    refine ha.opens ?_
    simp only
    split
    · exact opens_reserve hup
    · exact .waits .queued (.refl _) rfl hup

theorem opens_pollSetup {stage : SetupStage} (hs : stage.isEarly = true)
    (hup : stage = .entering ∨ w.manager.isShutDown = false) :
    w.Opens t manual maxFail (w.pollSetup t manual maxFail stage) := by
  cases stage with
  | entering => exact opens_enterSetup w
  | queued =>
    have hup := hup.resolve_left (by simp)
    simp only [pollSetup]
    split
    · exact opens_reserve hup
    · exact .stays (.refl w)
  | reserving o => exact opens_reserved (hup.resolve_left (by simp)) o
  | settling r as => exact absurd hs (by simp [SetupStage.isEarly])

/-! ## Collecting -/

/-- The candidates that a setup finds. -/
def found (w : Overlay) (manual : List PeerAddress) : List PeerAddress :=
  (w.manager.candidates w.now w.node.address manual w.routing).1

theorem Manager.eligible_congr {m m' : Manager} (h : m'.pool = m.pool) (me : PeerAddress)
    (seen : List PeerId) (ps : List PeerAddress) :
    m'.eligible me seen ps = m.eligible me seen ps := by
  induction ps generalizing seen with
  | nil => rfl
  | cons p ps ih => simp only [Manager.eligible, h, ih]

theorem Reserves.found (h : u.Reserves v) (manual : List PeerAddress) :
    v.found manual = u.found manual := by
  obtain ⟨gate, creator, granted, more, ready, rfl, -⟩ := h
  simp only [Overlay.found, Manager.candidates]
  split <;> refine Manager.eligible_congr ?_ _ _ _ <;> rfl

/-- The state in which a setup starts its round. -/
def collected (w : Overlay) (t : TaskId) (manual : List PeerAddress) : Overlay :=
  let v := if manual.isEmpty then w.log (.readRouting t) else w
  { v with manager := (w.manager.candidates w.now w.node.address manual w.routing).2 }

theorem collect_eq (w : Overlay) : w.collect t manual maxFail =
    (w.collected t manual).startRound t manual maxFail (w.found manual) := by
  unfold collect collected found
  split <;> rfl

/-- Collecting forgets failures that have run out. -/
theorem collected_eq (w : Overlay) (t : TaskId) (manual : List PeerAddress) :
    ∃ failed more, w.collected t manual = { w with
      manager := { w.manager with failed }, journal := w.journal ++ more } ∧
      failed.ttl = w.manager.failed.ttl ∧ ∀ e ∈ more, e.event.isPlain = true := by
  obtain ⟨failed, hm, ht⟩ :=
    manager_candidates w.manager w.now w.node.address manual w.routing
  unfold collected
  rw [hm]
  split
  · exact ⟨failed, [⟨w.clock, .readRouting t⟩], rfl, ht, by simp [Event.isPlain]⟩
  · exact ⟨failed, [], by simp, ht, by simp⟩

theorem found_spec (w : Overlay) (manual : List PeerAddress) :
    ((w.found manual).map PeerAddress.id).Nodup ∧
      ∀ p ∈ w.found manual, w.manager.pool.containsPeer p = false := by
  obtain ⟨ps, h⟩ : ∃ ps, w.found manual = w.manager.eligible w.node.address [] ps := by
    simp only [found, Manager.candidates]
    split
    · exact ⟨_, rfl⟩
    · exact ⟨_, rfl⟩
  have hs := w.manager.eligible_spec w.node.address [] ps
  rw [h]
  exact ⟨hs.1, fun p hp => (hs.2 p hp).1⟩

end Overlay

end RelayUpkeep
