import RelayUpkeep.Proofs.OutsideActs

/-! # The advertised address mirrors the pool

The pool changes at three places and the address is derived anew at six. Once a relay was ever
pooled the two agree between any two polls, but for a shutdown that has drained the pool and is yet
to publish; and they agree whenever an observer is told of a lost relay. -/

namespace RelayUpkeep

/-- An address shows all of some relays, and is otherwise the one that the node came with. -/
structure PeerAddress.Shows (mine a : PeerAddress) (relays : List PeerAddress) : Prop where
  id : a.id = mine.id
  socket : a.socket = mine.socket
  firewalledTcp : a.firewalledTcp = relays.isEmpty
  firewalledUdp : a.firewalledUdp = relays.isEmpty
  relayed : a.relayed = !relays.isEmpty
  relaySockets : a.relaySockets = relays.map PeerAddress.socket

/-- Nothing is cut off as long as there are no more relays than an address can carry. -/
theorem PeerAddress.shows_advertising (mine : PeerAddress) {relays : List PeerAddress}
    (h : relays.length ≤ maxRelays) : mine.Shows (mine.advertising relays) relays where
  id := rfl
  socket := rfl
  firewalledTcp := rfl
  firewalledUdp := rfl
  relayed := rfl
  relaySockets := List.take_of_length_le (by simpa using h)

/-- An address advertises no relay. -/
structure PeerAddress.Bare (a : PeerAddress) : Prop where
  relayed : a.relayed = false
  relaySockets : a.relaySockets = []
  firewalledTcp : a.firewalledTcp = true
  firewalledUdp : a.firewalledUdp = true

theorem PeerAddress.bare_advertising (mine : PeerAddress) : (mine.advertising []).Bare :=
  ⟨rfl, rfl, rfl, rfl⟩

theorem PeerAddress.Bare.advertising_nil {a : PeerAddress} (h : a.Bare) : a.advertising [] = a := by
  obtain ⟨h₁, h₂, h₃, h₄⟩ := h
  obtain ⟨id, socket, firewalledTcp, firewalledUdp, relayed, relaySockets⟩ := a
  simp only at h₁ h₂ h₃ h₄
  subst h₁ h₂ h₃ h₄
  rfl

theorem RelayConfig.maxRelays_le {config : RelayConfig} (h : config.validate = .ok ()) :
    config.maxRelays ≤ RelayUpkeep.maxRelays := by
  unfold validate problem? at h
  split at h
  · exact absurd h (by simp)
  · next hp =>
    split_ifs at hp with h₁ h₂
    exact Nat.le_of_not_lt h₂

/-- The pool took a relay in. -/
def Event.isAdmission : Event → Bool
  | .offer _ (some .added) => true
  | _ => false

/-- A shutdown has drained a pool that was not empty, and is yet to publish. -/
def Job.isDraining : Job → Bool
  | .shutdown (.queued drained) => !drained.isEmpty
  | .shutdown (.closing hadRelays _) => hadRelays
  | _ => false

theorem Job.role_of_isDraining {job : Job} (h : job.isDraining = true) : job.role = .shutdown := by
  unfold isDraining at h
  split at h
  · rfl
  · rfl
  · exact absurd h (by simp)

namespace Overlay

variable {t : TaskId} {u v w : Overlay} {mine : PeerAddress}

/-- Someone gives a shutdown up. -/
def givesUp (w : Overlay) : Act → Bool
  | .cancel t => w.role? t = some .shutdown
  | _ => false

/-- No shutdown is cancelled, nobody else replaces the address of the node, and the clock does not
overflow. -/
def Undisturbed (w : Overlay) (a : Act) : Prop :=
  w.InTime ∧ a.movesNode = false ∧ w.givesUp a = false

instance (w : Overlay) (a : Act) : Decidable (w.Undisturbed a) :=
  inferInstanceAs
    (Decidable ((Instant.add? w.now w.manager.config.failedWait).isSome = true ∧ _ ∧ _))

def everPooled (w : Overlay) : Bool := w.journal.any fun e => e.event.isAdmission

/-- Some shutdown is between draining the pool and publishing for the last time. -/
def isDraining (w : Overlay) : Bool := w.running.any fun (_, task) => task.job.isDraining

def Draining (w : Overlay) (d : TaskId) : Prop :=
  w.isFinished d = false ∧ ∃ task, w.tasks[d]? = some task ∧ task.job.isDraining = true

theorem Draining.isDraining {d : TaskId} (h : w.Draining d) : w.isDraining = true := by
  obtain ⟨hf, task, ht, hj⟩ := h
  exact List.any_eq_true.mpr ⟨(d, task), mem_running.mpr ⟨ht, hf⟩, hj⟩

/-! ## The invariant -/

/-- The address that the node came with shows through, each observer saw the address of the pool
that it saw, and the address is that of the pool unless a shutdown is yet to publish. -/
structure Mirrors (mine : PeerAddress) (w : Overlay) : Prop where
  node : ∀ relays, w.node.address.advertising relays = mine.advertising relays
  told : ∀ e ∈ w.journal, ∀ o lost sight, e.event = .lost o lost sight →
    sight.address = mine.advertising sight.pooled ∧
      sight.pooled.length ≤ w.manager.pool.capacity
  pool : w.everPooled = true ∨ mine.Bare →
    w.node.address = mine.advertising w.manager.pool.addresses ∨
    w.manager.pool.members = [] ∧ ∃ d, w.Draining d

theorem mirrors_start (config : RelayConfig) (mine : PeerAddress) :
    (start config mine).Mirrors mine where
  node _ := rfl
  told := by simp [start]
  pool h := .inl (h.resolve_left (by simp [start, everPooled])).advertising_nil.symm

theorem everPooled_plain {more : List Entry} (h : v.journal = u.journal ++ more)
    (hm : ∀ e ∈ more, e.event.isAdmission = false) : v.everPooled = u.everPooled := by
  simp only [everPooled, h, List.any_append]
  have hf : more.any (fun e => e.event.isAdmission) = false :=
    List.any_eq_false.mpr (by simpa using hm)
  rw [hf, Bool.or_false]

theorem isAdmission_of_isPlain {e : Event} (h : e.isPlain = true) : e.isAdmission = false := by
  cases e <;> first | rfl | exact absurd h (by simp [Event.isPlain])

/-- What was told stays told, and events of other kinds tell nothing of lost relays. -/
theorem Mirrors.told_append (h : u.Mirrors mine) {more : List Entry}
    (hj : v.journal = u.journal ++ more)
    (hc : v.manager.pool.capacity = u.manager.pool.capacity)
    (hm : ∀ e ∈ more, ∀ o lost sight, e.event = .lost o lost sight →
      sight.address = mine.advertising sight.pooled ∧
        sight.pooled.length ≤ u.manager.pool.capacity) :
    ∀ e ∈ v.journal, ∀ o lost sight, e.event = .lost o lost sight →
      sight.address = mine.advertising sight.pooled ∧
        sight.pooled.length ≤ v.manager.pool.capacity := by
  rw [hj, hc]
  intro e he
  exact (List.mem_append.mp he).elim (h.told e) (hm e)

theorem Mirrors.calm (h : u.Mirrors mine) (hc : u.Calm v) (hd : ∀ d, u.Draining d → v.Draining d) :
    v.Mirrors mine := by
  obtain ⟨more, hj, hp⟩ := hc.journal
  refine ⟨fun relays => hc.address ▸ h.node relays, ?_, ?_⟩
  · refine h.told_append hj (by rw [hc.pool]) fun e he o lost sight hev => ?_
    exact absurd (hp e he) (by simp [hev, Event.isPlain])
  · rw [everPooled_plain hj fun e he => isAdmission_of_isPlain (hp e he), hc.address, hc.pool]
    intro hever
    refine (h.pool hever).imp id ?_
    rintro ⟨hm, d, hdr⟩
    exact ⟨hm, d, hd d hdr⟩

/-- Publishing puts the address right. -/
theorem Mirrors.publish (hn : ∀ relays, w.node.address.advertising relays = mine.advertising relays)
    (ht : ∀ e ∈ w.journal, ∀ o lost sight, e.event = .lost o lost sight →
      sight.address = mine.advertising sight.pooled ∧
        sight.pooled.length ≤ w.manager.pool.capacity) : w.publish.Mirrors mine where
  node relays := hn relays
  told e he o lost sight hev := by
    rcases List.mem_append.mp he with he | he
    · exact ht e he o lost sight hev
    · rw [List.mem_singleton.mp he] at hev
      exact absurd hev (by simp)
  pool _ := .inl (hn _)

theorem Draining.role? {d : TaskId} (h : w.Draining d) : w.role? d = some .shutdown := by
  obtain ⟨-, task, ht, hj⟩ := h
  exact role?_eq_some.mpr ⟨task, ht, Job.role_of_isDraining hj⟩

theorem Draining.frame {d : TaskId} (h : u.Draining d) (hf : Frame t u v) (hd : d ≠ t) :
    v.Draining d := by
  obtain ⟨hfin, task, ht, hj⟩ := h
  obtain ⟨task', ht', hx⟩ := hf.jobs d task ht
  refine ⟨?_, task', ht', ?_⟩
  · simpa [isFinished, hf.exits d hd] using hfin
  · rwa [hx.resolve_left hd]

/-! ## Losses -/

/-- Observers that are told of a lost relay see the address of the pool that is left. -/
theorem Mirrors.tellAll (h : w.Mirrors mine)
    (ha : w.node.address = mine.advertising w.manager.pool.addresses)
    (hb : w.manager.pool.Sound) (address : PeerAddress) (os : List Observer) :
    (w.tellAll address os).1.Mirrors mine := by
  rw [tellAll_eq]
  refine ⟨h.node, h.told_append rfl rfl fun e he o lost sight hev => ?_, fun _ => .inl ha⟩
  obtain ⟨o', -, rfl⟩ := List.mem_map.mp he
  obtain ⟨-, -, rfl⟩ := Event.lost.inj hev
  exact ⟨ha, by simpa [sight, Pool.addresses, Pool.len] using hb.bounded⟩

theorem Mirrors.relayLost (h : w.Mirrors mine)
    (httl : w.manager.failed.ttl = w.manager.config.failedWait) (hs : w.manager.pool.Sound)
    (ht : w.InTime) (r : RelayId) (address : PeerAddress) :
    (w.relayLost r address).1.Mirrors mine := by
  rcases w.relayLost_cases r address with ⟨-, he⟩ | ⟨-, hover, -⟩ | ⟨-, -, he⟩
  · rw [he]
    exact h
  · rw [httl] at hover
    exact absurd ht (by simp [InTime, hover])
  · rw [he]
    have hp : ((w.bereft r address).log (.markFailed address)).publish.Mirrors mine := by
      refine .publish h.node (h.told_append rfl rfl fun e he o lost sight hev => ?_)
      rw [List.mem_singleton.mp he] at hev
      exact absurd hev (by simp)
    exact hp.tellAll (h.node _) (hs.remove r) _ _

theorem Mirrors.lose (h : w.Mirrors mine) (hs : w.Linked) (ht : w.InTime) (r : RelayId) :
    (w.lose r).1.Mirrors mine := by
  rcases w.lose_cases r with he | ⟨relay, -, hl⟩
  · rw [he]
    exact h
  · have hsig : ∀ s, (w.setSignal r s).Mirrors mine := fun s =>
      h.calm (.of_eq rfl rfl rfl) fun d hd => hd
    generalize (w.lose r).1 = v at hl
    cases hl with
    | unheard | ownerless => exact hsig _
    | noted => exact (hsig _).calm (.log _ rfl) fun d hd => hd
    | told => exact (hsig _).relayLost hs.ttl hs.pool ht r relay.address

/-! ## Moves -/

theorem everPooled_offer {r : RelayId} {answer : Option Admission} (h : answer ≠ some .added)
    (hj : v.journal = u.journal ++ [⟨w.clock, .offer r answer⟩]) :
    v.everPooled = u.everPooled := by
  refine everPooled_plain hj fun e he => ?_
  obtain rfl := List.mem_singleton.mp he
  cases answer with
  | none => rfl
  | some a => cases a <;> first | rfl | exact absurd rfl h

theorem Mirrors.refused (h : w.Mirrors mine) {r : RelayId} {answer : Option Admission}
    (ha : answer ≠ some .added) (hd : ∀ d, w.Draining d → (w.refused r answer).Draining d) :
    (w.refused r answer).Mirrors mine := by
  have hl : (w.log (.offer r answer)).Mirrors mine := by
    refine ⟨h.node, h.told_append rfl rfl fun e he o lost sight hev => ?_, ?_⟩
    · rw [List.mem_singleton.mp he] at hev
      exact absurd hev (by simp)
    · rw [everPooled_offer ha rfl]
      exact h.pool
  exact hl.calm (.shutRelay _ _) hd

/-- Any task but a shutdown keeps the mirror. -/
theorem Mirrors.move (h : u.Mirrors mine) (hs : u.Linked) (ht : u.InTime) (hm : Move t u v)
    (hr : u.role? t ≠ some .shutdown) : v.Mirrors mine := by
  have hd : ∀ {x}, Frame t u x → ∀ d, u.Draining d → x.Draining d := by
    intro x hf d hdr
    refine hdr.frame hf ?_
    rintro rfl
    exact hr hdr.role?
  cases hm with
  | stir hst => exact h.calm (.stir hst) (hd (.stir hst))
  | publish => exact .publish h.node h.told
  | @accept v r p q hrole hmade ha =>
    have hv := h.calm (.made hmade) (hd (.made hmade))
    refine .publish hv.node (hv.told_append rfl rfl fun e he o lost sight hev => ?_)
    rw [List.mem_singleton.mp he] at hev
    exact absurd hev (by simp)
  | @refuse v r p q hrole hmade ha =>
    have hv := h.calm (.made hmade) (hd (.made hmade))
    refine hv.refused ha fun d hdr => hdr.frame (t := t) (.refused v r _) ?_
    rintro rfl
    have hold := hmade.role? hrole
    rw [hdr.role?] at hold
    exact absurd hold (by simp)
  | shut r hrole => exact h.calm (.shutRelay _ _) (hd (.shutRelay _ _))
  | lose r hrole => exact h.lose hs ht r
  | drain hrole => exact absurd hrole hr

theorem Mirrors.moves (h : u.Mirrors mine) (hs : u.Sound) (ht : u.InTime) (hm : Moves t u v)
    (hlt : t < u.tasks.length) (hf : u.isFinished t = false) (hr : u.role? t ≠ some .shutdown) :
    v.Mirrors mine := by
  induction hm with
  | refl => exact h
  | tail hm hmove ih =>
    exact ih.move (hs.moves hm hlt hf).toLinked (ht.moves hm) hmove
      ((Grows.moves hm).role?_eq hlt ▸ hr)

theorem Mirrors.finish (h : w.Mirrors mine) (hr : w.Draining t → False) (e : Exit) :
    (w.finish t e).Mirrors mine := by
  refine h.calm (.finish w t e) fun d hdr => hdr.frame (.finish w e) ?_
  rintro rfl
  exact hr hdr

theorem Mirrors.turns (h : u.Mirrors mine) (hs : u.Sound) (ht : u.InTime) (hm : Turns t u v)
    (hlt : t < u.tasks.length) (hf : u.isFinished t = false) (hr : u.role? t ≠ some .shutdown) :
    v.Mirrors mine := by
  obtain ⟨x, hx, rfl | ⟨e, rfl⟩⟩ := hm
  · exact h.moves hs ht hx hlt hf hr
  · exact (h.moves hs ht hx hlt hf hr).finish
      (fun hd => hr ((Grows.moves hx).role?_eq hlt ▸ hd.role?)) e

/-! ## Shutdowns -/

/-- Once the address is right it takes more than a calm step to put it wrong. -/
theorem Mirrors.calm_right (h : u.Mirrors mine)
    (ha : u.node.address = mine.advertising u.manager.pool.addresses) (hc : u.Calm v) :
    v.Mirrors mine := by
  obtain ⟨more, hj, hp⟩ := hc.journal
  refine ⟨fun relays => hc.address ▸ h.node relays, ?_, fun _ => .inl ?_⟩
  · refine h.told_append hj (by rw [hc.pool]) fun e he o lost sight hev => ?_
    exact absurd (hp e he) (by simp [hev, Event.isPlain])
  · rw [hc.address, hc.pool, ha]

theorem draining_of_job {job : Job} (hf : w.isFinished t = false) (ht : t < w.tasks.length)
    (hj : job.isDraining = true) : (w.setJob t job).Draining t := by
  refine ⟨hf, { w.tasks[t] with job }, ?_, hj⟩
  simp [setJob, ht]

theorem draining_closeAll (h : w.role? t = some .shutdown) (hg : w.GateInRange)
    (hf : w.isFinished t = false) {drained : List RelayId} (hd : drained ≠ []) :
    (w.closeAll t drained).Draining t := by
  have hs := stirs_partsStarted h hg drained
  rw [closeAll_of_ne_nil hd]
  refine draining_of_job ?_ (lt_of_role? (hs.role? h)) rfl
  exact (hs.isFinished t).trans hf

theorem draining_enterShutdown (h : w.role? t = some .shutdown) (hg : w.GateInRange)
    (hf : w.isFinished t = false) (hp : w.pooled ≠ []) : (w.enterShutdown t).Draining t := by
  have hg' : (w.stopped t).GateInRange :=
    gateInRange_acquire (w := w.drained) (lt_of_role? h) hg
  rw [enterShutdown_eq]
  split
  · exact draining_closeAll (w := w.stopped t) h hg' hf hp
  · exact draining_of_job hf (lt_of_role? h) (by simpa [Job.isDraining] using hp)

theorem concludeShutdown_eq (w : Overlay) (t : TaskId) (hadRelays : Bool) (parts : List TaskId) :
    ∃ e, w.concludeShutdown t hadRelays parts =
      (if hadRelays then w.publish else w).finish t e := by
  unfold concludeShutdown
  simp only
  split
  · exact ⟨_, rfl⟩
  · exact ⟨_, rfl⟩

/-- A shutdown that empties the pool has the address put right when its parts have ended. -/
theorem Mirrors.enterShutdown (h : w.Mirrors mine) (hr : w.role? t = some .shutdown)
    (hg : w.GateInRange) (hf : w.isFinished t = false) (hp : w.pooled ≠ []) :
    (w.enterShutdown t).Mirrors mine := by
  have hc := Calm.quiet (quiet_enterShutdown hr hg)
  obtain ⟨more, hjournal, hplain⟩ := hc.journal
  refine ⟨fun relays => hc.address ▸ h.node relays, ?_, fun _ => .inr ⟨?_, t, ?_⟩⟩
  · refine h.told_append hjournal (by rw [hc.pool]; rfl) fun e he o lost sight hev => ?_
    exact absurd (hplain e he) (by simp [hev, Event.isPlain])
  · rw [hc.pool]
    rfl
  · exact draining_enterShutdown hr hg hf hp

theorem Mirrors.pollShutdown (h : w.Mirrors mine) (hg : w.GateInRange)
    (hf : w.isFinished t = false) {stage : ShutdownStage} {task : Task}
    (ht : w.tasks[t]? = some task) (hj : task.job = .shutdown stage) :
    (w.pollShutdown t stage).Mirrors mine := by
  have hr : w.role? t = some .shutdown := role?_eq_some.mpr ⟨task, ht, by simp [hj, Job.role]⟩
  have hmine : w.Draining t → (Job.shutdown stage).isDraining = true := by
    rintro ⟨-, task', ht', hd⟩
    obtain rfl := Option.some.inj (ht.symm.trans ht')
    exact hj ▸ hd
  have hothers : ∀ {v}, Frame t w v → ((Job.shutdown stage).isDraining = true → v.Draining t) →
      ∀ d, w.Draining d → v.Draining d := by
    intro v hfr hown d hd
    by_cases hdt : d = t
    · subst hdt
      exact hown (hmine hd)
    · exact hd.frame hfr hdt
  cases stage with
  | entering =>
    simp only [Overlay.pollShutdown]
    have hfr := Frame.turns (turns_enterShutdown hr hg)
    by_cases hp : w.pooled = []
    · have hempty : w.manager.pool.members = [] := List.map_eq_nil_iff.mp hp
      have hc : w.Calm w.drained := by
        refine .of_eq rfl ?_ rfl
        simp [drained, withManager, ← hempty]
      exact h.calm (hc.trans (.quiet (quiet_enterShutdown hr hg)))
        (hothers hfr (by simp [Job.isDraining]))
    · exact h.enterShutdown hr hg hf hp
  | queued drained =>
    simp only [Overlay.pollShutdown]
    split
    · have hq := quiet_closeAll hr hg drained
      refine h.calm (.quiet hq) (hothers (.turns hq.turns) fun hd => ?_)
      exact draining_closeAll hr hg hf (by simpa [Job.isDraining] using hd)
    · exact h
  | closing hadRelays parts =>
    simp only [Overlay.pollShutdown]
    split
    · obtain ⟨e, he⟩ := concludeShutdown_eq w t hadRelays parts
      rw [he]
      cases hadRelays with
      | true => exact (Mirrors.publish h.node h.told).calm_right (h.node _) (.finish _ _ _)
      | false => exact h.finish (fun hd => by simpa [Job.isDraining] using hmine hd) e
    · exact h

/-! ## Runs -/

/-- Shutdowns, whatever their number. -/
def shutdowns (_ : TaskId) (role : Role) : Prop := role = .shutdown

theorem firm_shutdowns {a : TaskId} {role : Role} (h : shutdowns a role) : role.isFirm = true := by
  rw [h]
  rfl

theorem uncancelled_act (h : w.Uncancelled shutdowns) (hs : w.Sound) {a : Act}
    (ha : w.givesUp a = false) : (w.act a).Uncancelled shutdowns := by
  refine h.act hs (fun _ _ => firm_shutdowns) ?_
  rintro b rfl _ role hr rfl
  simp [givesUp, hr] at ha

theorem Mirrors.poll (h : w.Mirrors mine) (hs : w.Sound) (ht : w.InTime)
    (hc : w.Uncancelled shutdowns) (hready : t ∈ w.ready) : (w.poll t).Mirrors mine := by
  have hrest : ({ w with ready := w.ready.erase t } : Overlay).Mirrors mine :=
    h.calm (.of_eq rfl rfl rfl) fun d hd => hd
  have hlt := hs.ready t hready
  cases hf : w.isFinished t with
  | true => exact poll_finished hf ▸ hrest
  | false =>
    by_cases hr : w.role? t = some .shutdown
    · obtain ⟨task, htask, hrole⟩ := role?_eq_some.mp hr
      rw [poll_resume htask hf (hc t task htask hrole)]
      cases hj : task.job with
      | shutdown stage => exact hrest.pollShutdown hs.gate hf htask hj
      | setup | guardAttempt | attempt | watch | closeRelay | releaseCreator =>
        simp [hj, Job.role] at hrole
    · exact h.turns hs ht (hs.poll_turns t) hlt hf hr

theorem Draining.outside {d : TaskId} (h : u.Draining d) (ho : u.Outside v) : v.Draining d := by
  obtain ⟨hf, task, ht, hj⟩ := h
  obtain ⟨task', ht', hk⟩ := ho.jobs d task ht
  exact ⟨(isFinished_of_exits ho.exits d).trans hf, task', ht', hk ▸ hj⟩

theorem Mirrors.act (h : w.Mirrors mine) (hs : w.Sound) (hc : w.Uncancelled shutdowns) {a : Act}
    (ha : w.Undisturbed a) : (w.act a).Mirrors mine := by
  obtain ⟨hin, hmoves, -⟩ := ha
  rcases w.poll_cases a with ⟨t, ht, rfl, he⟩ | ⟨t, -, rfl, he⟩ | hp
  · rw [he]
    exact h.poll hs hin hc ht
  · rwa [he]
  · have ho : w.Outside (w.act a) := outside_act hp hmoves
    exact h.calm ho.toCalm fun d hd => hd.outside ho

theorem mirrors_run (config : RelayConfig) (mine : PeerAddress) {acts : List Act}
    (ha : (start config mine).Along Undisturbed acts) :
    ((start config mine).run acts).Mirrors mine := by
  have h : ((start config mine).run acts).Sound ∧
      ((start config mine).run acts).Uncancelled shutdowns ∧
      ((start config mine).run acts).Mirrors mine := by
    refine run_induction (P := fun v => v.Sound ∧ v.Uncancelled shutdowns ∧ v.Mirrors mine)
      ⟨sound_start config mine, ?_, mirrors_start config mine⟩ ?_ acts ha
    · intro a task hat
      exact absurd hat (by simp [start])
    · rintro v a ⟨hs, hc, hm⟩ hallowed
      exact ⟨hs.act a, uncancelled_act hc hs hallowed.2.2, hm.act hs hc hallowed⟩
  exact h.2.2

/-- The advertised address is that of the pool, all of its relays are in it, and every observer
that is told of a lost relay finds it so. -/
theorem address_mirrors_pool (config : RelayConfig) (hc : config.validate = .ok ())
    (mine : PeerAddress) (acts : List Act) (ha : (start config mine).Along Undisturbed acts) :
    let w := (start config mine).run acts
    (w.everPooled = true → w.isDraining = false →
      w.node.address = mine.advertising w.manager.pool.addresses ∧
      mine.Shows w.node.address w.manager.pool.addresses) ∧
    ∀ e ∈ w.journal, ∀ o lost sight, e.event = .lost o lost sight →
      sight.address = mine.advertising sight.pooled ∧ mine.Shows sight.address sight.pooled := by
  intro w
  have hm : w.Mirrors mine := mirrors_run config mine ha
  have hs : w.Sound := sound_run (sound_start config mine) acts
  have hcap : w.manager.pool.capacity ≤ maxRelays := by
    rw [(grows_run (sound_start config mine) acts).capacity]
    exact RelayConfig.maxRelays_le hc
  have hshow : ∀ {a relays}, a = mine.advertising relays →
      relays.length ≤ w.manager.pool.capacity → mine.Shows a relays := by
    rintro _ relays rfl hlen
    exact mine.shows_advertising (Nat.le_trans hlen hcap)
  refine ⟨fun hever hd => ?_, fun e he o lost sight hev => ?_⟩
  · have hright := (hm.pool (.inl hever)).resolve_right fun ⟨_, d, hdr⟩ => by
      simp [hdr.isDraining] at hd
    exact ⟨hright, hshow hright (by simpa [Pool.addresses, Pool.len] using hs.pool.bounded)⟩
  · obtain ⟨hright, hlen⟩ := hm.told e he o lost sight hev
    exact ⟨hright, hshow hright hlen⟩

/-- Two relays are pooled, and the first is lost again. -/
theorem address_mirrors_pool_sample :
    let acts : List Act := [.observe ⟨"observer", true, false⟩, .setUp [.sample 2, .sample 3] 0,
      .poll 0, .poll 1, .poll 2, .poll 3, .poll 4, .dropConn 0, .poll 5]
    let w := (start {} (.sample 1)).run acts
    w.manager.pool.addresses = [.sample 3] ∧
      w.node.address = (PeerAddress.sample 1).advertising [.sample 3] ∧
      (w.journal.any fun e => e.event matches .lost ..) = true := by
  intro acts w
  have hp : w.manager.pool.addresses = [.sample 3] := by decide +kernel
  have h := address_mirrors_pool {} rfl (.sample 1) acts (by decide +kernel)
  have ha := (h.1 (by decide +kernel) (by decide +kernel)).1
  exact ⟨hp, hp ▸ ha, by decide +kernel⟩

end Overlay

end RelayUpkeep
