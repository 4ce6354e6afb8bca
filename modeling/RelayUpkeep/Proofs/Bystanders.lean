import RelayUpkeep.Proofs.Closing
import RelayUpkeep.Proofs.Replies

/-! # What setups and shutdowns leave to others

Only attempts and those who shut a relay down close connections, and only attempts, their guards and
the watchers of relays have a peer remembered as failed. Setups and shutdowns do neither, but that
setups have the manager forget what has run out. -/

namespace RelayUpkeep

/-- A connection is closed. -/
def Event.isClose : Event → Bool
  | .close .. => true
  | _ => false

theorem Event.isClose_of_isAsk {e : Event} (h : e.isAsk = true) : e.isClose = false := by
  cases e <;> first | rfl | exact absurd h (by simp [isAsk])

namespace FailedCache

variable {now : Instant} {c c' c'' : FailedCache}

/-- What has run out may be forgotten, and nothing is remembered anew. -/
structure Forgets (now : Instant) (c c' : FailedCache) : Prop where
  old : ∀ e ∈ c'.entries, e ∈ c.entries
  keeps : ∀ e ∈ c.entries, now ≤ e.2 → e ∈ c'.entries

theorem Forgets.refl (c : FailedCache) : c.Forgets now c := ⟨fun _ h => h, fun _ h _ => h⟩

theorem Forgets.trans (h : c.Forgets now c') (h' : c'.Forgets now c'') : c.Forgets now c'' :=
  ⟨fun e he => h.old e (h'.old e he), fun e he hl => h'.keeps e (h.keeps e he hl) hl⟩

theorem forgets_afterLookup (c : FailedCache) (p : PeerAddress) (now : Instant) :
    c.Forgets now (c.afterLookup p now) where
  old _ he := List.mem_of_mem_filter he
  keeps e he hl := List.mem_filter.mpr ⟨he, by simp [isLive, hl]⟩

theorem forgets_removeFailed (c : FailedCache) (now : Instant) (ps : List PeerAddress) :
    c.Forgets now (c.removeFailed now ps).2 := by
  induction ps generalizing c with
  | nil => exact .refl c
  | cons p ps ih => exact (c.forgets_afterLookup p now).trans (ih _)

/-- What has run out is not missed. -/
theorem Forgets.contains (h : c.Forgets now c') (p : PeerAddress) {later : Instant}
    (hl : now ≤ later) : c'.contains p later = c.contains p later := by
  rw [Bool.eq_iff_iff, FailedCache.contains, FailedCache.contains, List.any_eq_true,
    List.any_eq_true]
  constructor
  · rintro ⟨e, he, hp⟩
    exact ⟨e, h.old e he, hp⟩
  · rintro ⟨e, he, hp⟩
    have hlive : later ≤ e.2 := by simpa [isLive] using (Bool.and_eq_true_iff.mp hp).2
    exact ⟨e, h.keeps e he (Nat.le_trans hl hlive), hp⟩

end FailedCache

theorem Manager.forgets_candidates (m : Manager) (now : Instant) (me : PeerAddress)
    (manual known : List PeerAddress) :
    m.failed.Forgets now (m.candidates now me manual known).2.failed := by
  unfold candidates
  simp only
  split
  · exact FailedCache.forgets_removeFailed _ _ _
  · exact .refl _

namespace Overlay

variable {t : TaskId} {u v w : Overlay} {manual : List PeerAddress} {maxFail : Nat}

/-- No connection is closed, and no peer comes to be remembered as failed. -/
structure Abstains (u v : Overlay) : Prop where
  adds : u.Adds (fun e => e.isClose = false) v
  clock : v.clock = u.clock
  failed : u.manager.failed.Forgets u.now v.manager.failed

namespace Abstains

theorem of_eq (hj : v.journal = u.journal) (hc : v.clock = u.clock)
    (hf : v.manager.failed = u.manager.failed) : u.Abstains v :=
  ⟨.of_eq hj, hc, hf ▸ .refl _⟩

theorem refl (w : Overlay) : w.Abstains w := .of_eq rfl rfl rfl

theorem trans (h : u.Abstains v) (h' : v.Abstains w) : u.Abstains w := by
  have hnow : v.now = u.now := by rw [now, now, h.clock]
  exact ⟨h.adds.trans h'.adds, h'.clock.trans h.clock, h.failed.trans (hnow ▸ h'.failed)⟩

theorem log (w : Overlay) {e : Event} (h : e.isClose = false) : w.Abstains (w.log e) :=
  ⟨.log w h, rfl, .refl _⟩

theorem publish (w : Overlay) : w.Abstains w.publish :=
  ⟨⟨[_], rfl, by simp [Event.isClose]⟩, rfl, .refl _⟩

theorem finish (w : Overlay) (t : TaskId) (e : Exit) : w.Abstains (w.finish t e) := by
  obtain ⟨rs, h, -⟩ := w.finish_eq t e
  rw [h]
  exact .of_eq rfl rfl rfl

theorem releaseGate (w : Overlay) : w.Abstains w.releaseGate := by
  obtain ⟨rs, h⟩ := w.releaseGate_frame
  rw [h]
  exact .of_eq rfl rfl rfl

theorem play {s : Script} {waiting : Outcome → Job} {next : Overlay → Outcome → Overlay}
    (hn : ∀ o, w.Abstains (next w o)) : w.Abstains (w.play t s waiting next) := by
  unfold Overlay.play
  split
  · exact hn _
  · exact .of_eq rfl rfl rfl

end Abstains

theorem Approaches.abstains (h : Approaches t u v) : u.Abstains v := by
  obtain ⟨-, ⟨conns, ready, journal, rfl⟩, ha⟩ := h
  exact ⟨ha.mono fun _ => Event.isClose_of_isAsk, rfl, .refl _⟩

/-! ## Setups -/

theorem abstains_takeTurn (w : Overlay) (t : TaskId) (manual : List PeerAddress) (maxFail : Nat)
    (r : Round) : w.Abstains (w.takeTurn t manual maxFail r) := by
  rw [takeTurn_eq]
  split_ifs
  · exact (Abstains.publish w).trans (.finish _ _ _)
  · exact (Abstains.publish w).trans (.finish _ _ _)
  · rw [staffed, spawnAll_eq]
    exact .of_eq rfl rfl rfl

theorem abstains_collected (w : Overlay) (t : TaskId) (manual : List PeerAddress) :
    w.Abstains (w.collected t manual) := by
  have hf := w.manager.forgets_candidates w.now w.node.address manual w.routing
  unfold collected
  split
  · exact ⟨⟨[_], rfl, by simp [Event.isClose]⟩, rfl, hf⟩
  · exact ⟨.of_eq rfl, rfl, hf⟩

theorem abstains_collect (w : Overlay) (t : TaskId) (manual : List PeerAddress) (maxFail : Nat) :
    w.Abstains (w.collect t manual maxFail) := by
  rw [collect_eq]
  refine (w.abstains_collected t manual).trans ?_
  simp only [startRound]
  split
  · split <;> exact .finish _ _ _
  · exact abstains_takeTurn _ _ _ _ _

theorem abstains_reserved (w : Overlay) (t : TaskId) (manual : List PeerAddress) (maxFail : Nat)
    (o : Outcome) : w.Abstains (w.reserved t manual maxFail o) := by
  cases o with
  | crash text => exact (Abstains.releaseGate w).trans (.finish _ _ _)
  | fail e => exact (Abstains.releaseGate w).trans (.finish _ _ _)
  | succeed =>
    have hg : w.Abstains (({ w with granted := w.granted + 1 }.log
        (.granted w.granted)).withManager fun m => { m with creator := some w.granted }) :=
      ⟨⟨[_], rfl, by simp [Event.isClose]⟩, rfl, .refl _⟩
    exact hg.trans ((Abstains.releaseGate _).trans (abstains_collect _ _ _ _))

theorem abstains_reserve (w : Overlay) (t : TaskId) (manual : List PeerAddress) (maxFail : Nat) :
    w.Abstains (w.reserve t manual maxFail) := by
  unfold reserve
  split
  · exact (Abstains.releaseGate w).trans (abstains_collect _ _ _ _)
  · split
    · exact (Abstains.releaseGate w).trans (.finish _ _ _)
    · exact (Abstains.log w rfl).trans (.play fun o => abstains_reserved _ _ _ _ o)

theorem abstains_judge (w : Overlay) (t : TaskId) (manual : List PeerAddress) (maxFail : Nat)
    (r : Round) (as : List TaskId) : w.Abstains (w.judge t manual maxFail r as) := by
  rw [judge_eq]
  split_ifs
  · exact (Abstains.publish w).trans (.finish _ _ _)
  · exact .finish _ _ _
  · exact abstains_takeTurn _ _ _ _ _

theorem abstains_pollSetup (w : Overlay) (t : TaskId) (manual : List PeerAddress) (maxFail : Nat)
    (stage : SetupStage) : w.Abstains (w.pollSetup t manual maxFail stage) := by
  cases stage with
  | entering =>
    simp only [pollSetup, enterSetup]
    split
    · exact .finish _ _ _
    · have hg : w.Abstains (w.withManager fun m => { m with gate := (m.gate.acquire t).1 }) :=
        .of_eq rfl rfl rfl
      split
      · exact hg.trans (abstains_reserve _ _ _ _)
      · exact hg.trans (.of_eq rfl rfl rfl)
  | queued =>
    simp only [pollSetup]
    split
    · exact abstains_reserve _ _ _ _
    · exact .refl w
  | reserving o => exact abstains_reserved _ _ _ _ o
  | settling r as =>
    simp only [pollSetup]
    split
    · exact abstains_judge _ _ _ _ _ _
    · exact .refl w

/-! ## Shutdowns -/

theorem abstains_concludeShutdown (w : Overlay) (t : TaskId) (hadRelays : Bool)
    (parts : List TaskId) : w.Abstains (w.concludeShutdown t hadRelays parts) := by
  obtain ⟨e, h⟩ := concludeShutdown_eq w t hadRelays parts
  rw [h]
  split
  · exact (Abstains.publish w).trans (.finish _ _ _)
  · exact .finish _ _ _

theorem abstains_closeAll (w : Overlay) (t : TaskId) (drained : List RelayId) :
    w.Abstains (w.closeAll t drained) := by
  obtain ⟨-, gate, rs, hp⟩ := w.partsStarted_frame t drained
  have hs : w.Abstains (w.partsStarted t drained).1 := by
    rw [hp]
    exact .of_eq rfl rfl rfl
  rcases w.closeAll_cases t drained with ⟨-, h⟩ | ⟨-, h⟩ <;> rw [h]
  · exact hs.trans (.finish _ _ _)
  · exact hs.trans (.of_eq rfl rfl rfl)

theorem abstains_pollShutdown (w : Overlay) (t : TaskId) (stage : ShutdownStage) :
    w.Abstains (w.pollShutdown t stage) := by
  cases stage with
  | entering =>
    have hs : w.Abstains (w.stopped t) := .of_eq rfl rfl rfl
    simp only [pollShutdown, enterShutdown_eq]
    split
    · exact hs.trans (abstains_closeAll _ _ _)
    · exact hs.trans (.of_eq rfl rfl rfl)
  | queued drained =>
    simp only [pollShutdown]
    split
    · exact abstains_closeAll _ _ _
    · exact .refl w
  | closing hadRelays parts =>
    simp only [pollShutdown]
    split
    · exact abstains_concludeShutdown _ _ _ _
    · exact .refl w

theorem abstains_ended (w : Overlay) (t : TaskId) (o : Outcome) : w.Abstains (w.ended t o) := by
  rw [ended_eq]
  exact .finish _ _ _

theorem abstains_pollRelease (w : Overlay) (t : TaskId) (k : CreatorId) (pending : Option Outcome) :
    w.Abstains (w.pollRelease t k pending) := by
  cases pending with
  | some o => exact abstains_ended w t o
  | none =>
    simp only [pollRelease]
    exact (Abstains.log w rfl).trans (.play fun o => abstains_ended _ t o)

/-! ## Attempts that fail -/

theorem failAttempt_eq (w : Overlay) (t : TaskId) (p : PeerAddress) (e : RelayError) :
    ∃ end' more, end' ≠ .cancelled ∧ (∀ e ∈ more, e.event.isClose = false) ∧
      w.failAttempt t p e = ({ w with
        manager := { w.manager with failed := (w.manager.failed.add p w.now).1 },
        journal := w.journal ++ more } : Overlay).finish t end' := by
  unfold failAttempt markFailed
  rcases w.manager.failed.add p w.now with ⟨failed, none | crash⟩
  · exact ⟨.failed e, [⟨w.clock, .markFailed p⟩], by simp, by simp [Event.isClose], rfl⟩
  · exact ⟨.crashed crash, [], by simp, by simp, by rw [List.append_nil]; rfl⟩

/-! ## Tasks that are asked to end -/

theorem abstains_abandon (w : Overlay) (t : TaskId) (job : Job) : w.Abstains (w.abandon t job) := by
  obtain ⟨tasks, gate, rs, -, h⟩ := w.abandon_frame t job
  rw [h]
  refine Abstains.trans ?_ (.finish _ _ _)
  exact .of_eq rfl rfl rfl

theorem Sound.abstains_of_not_going (h : w.Sound) (hg : w.going? t = none) :
    w.Abstains (w.act (.poll t)) := by
  rcases h.act_of_not_going hg with he | he | ⟨task, -, -, -, he⟩ <;> rw [he]
  · exact .refl w
  · exact .of_eq rfl rfl rfl
  · have hr : w.Abstains { w with ready := w.ready.erase t } := .of_eq rfl rfl rfl
    exact hr.trans (abstains_abandon _ t task.job)

end Overlay

end RelayUpkeep
