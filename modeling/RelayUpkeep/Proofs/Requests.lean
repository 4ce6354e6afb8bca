import RelayUpkeep.Proofs.Advancing
import RelayUpkeep.Proofs.Partings

/-! # What is asked for in a step

Attempts ask for connections, setups for channels and for the known peers, and a part of a shutdown
gives channels back. Each step asks for what is read off the task that goes on, and for nothing
else. -/

namespace RelayUpkeep

/-- Something is asked for, or channels change hands. -/
def Event.isRequest : Event → Bool
  | .connect .. | .reserve .. | .granted _ | .release _ | .readRouting _ => true
  | _ => false

/-- The task that asks. -/
def Event.asker? : Event → Option TaskId
  | .connect a _ | .reserve a _ _ | .readRouting a => some a
  | _ => none

namespace Overlay

variable {t : TaskId} {q p : PeerAddress} {r : RelayId} {u v w : Overlay}
  {manual : List PeerAddress} {maxFail : Nat} {stage : SetupStage} {x : Act}

/-- What has been asked for so far. -/
def requests (w : Overlay) : List Event := (w.journal.map Entry.event).filter Event.isRequest

theorem requests_congr (h : v.journal = u.journal) : v.requests = u.requests := by
  rw [requests, h, requests]

theorem requests_append {more : List Entry} (h : v.journal = u.journal ++ more) :
    v.requests = u.requests ++ (more.map Entry.event).filter Event.isRequest := by
  rw [requests, h, List.map_append, List.filter_append, requests]

theorem requests_log (w : Overlay) (e : Event) :
    (w.log e).requests = w.requests ++ [e].filter Event.isRequest := by
  have hj : (w.log e).journal = w.journal ++ [⟨w.clock, e⟩] := rfl
  exact requests_append hj

theorem requests_log_of_not {e : Event} (w : Overlay) (h : e.isRequest = false) :
    (w.log e).requests = w.requests := by
  simp [requests_log, h]

@[simp] theorem requests_publish (w : Overlay) : w.publish.requests = w.requests :=
  requests_log_of_not w (e := .publish (w.node.address.advertising w.manager.pool.addresses)) rfl

@[simp] theorem requests_finish (w : Overlay) (t : TaskId) (e : Exit) :
    (w.finish t e).requests = w.requests := requests_congr (journal_finish w t e)

theorem requests_play {s : Script} {waiting : Outcome → Job} {next : Overlay → Outcome → Overlay}
    (hn : (next w s.outcome).requests = w.requests) :
    (w.play t s waiting next).requests = w.requests := by
  unfold play
  split
  · exact hn
  · rfl

/-! ## Connections and relays -/

@[simp] theorem requests_dropConn (w : Overlay) (c : ConnId) :
    (w.dropConn c).requests = w.requests := by
  rcases w.dropConn_eq c with ⟨-, h⟩ | ⟨-, rs, h, -⟩
  · rw [h]
  · rw [h]
    rfl

@[simp] theorem requests_dropLink (w : Overlay) (id : PeerId) :
    (w.dropLink id).requests = w.requests := by
  unfold dropLink
  split
  · exact requests_dropConn _ _
  · rfl

@[simp] theorem requests_closeConn (w : Overlay) (c : ConnId) :
    (w.closeConn c).requests = w.requests := by
  unfold closeConn
  split
  · next conn _ =>
    rw [requests_dropConn]
    exact requests_log_of_not w rfl
  · rfl

@[simp] theorem requests_shutRelay (w : Overlay) (r : RelayId) :
    (w.shutRelay r).1.requests = w.requests := requests_congr (journal_shutRelay w r)

theorem requests_relayLost (w : Overlay) (r : RelayId) (p : PeerAddress) :
    (w.relayLost r p).1.requests = w.requests := by
  rcases w.relayLost_cases r p with ⟨-, h⟩ | ⟨-, -, h⟩ | ⟨-, -, h⟩ <;> rw [h]
  · rfl
  · have htold : ((((w.bereft r p).log (.markFailed p)).publish).tellAll p
        w.manager.observers).1.requests =
        ((w.bereft r p).log (.markFailed p)).publish.requests := by
      rw [tellAll_eq]
      refine (requests_append rfl).trans ?_
      simp [Event.isRequest]
    rw [htold, requests_publish]
    exact requests_log_of_not (w.bereft r p) rfl

theorem requests_lose (w : Overlay) (r : RelayId) : (w.lose r).1.requests = w.requests := by
  rcases w.lose_cases r with h | ⟨relay, -, h⟩
  · rw [h]
  · generalize (w.lose r).1 = v at h
    cases h with
    | unheard | ownerless => rfl
    | noted => exact requests_log_of_not (w.setSignal r (.lost true)) rfl
    | told => exact requests_relayLost (w.setSignal r (.lost true)) r relay.address

theorem requests_failAttempt (w : Overlay) (t : TaskId) (p : PeerAddress) (e : RelayError) :
    (w.failAttempt t p e).requests = w.requests := by
  unfold failAttempt markFailed
  rcases w.manager.failed.add p w.now with ⟨failed, none | crash⟩
  · exact (requests_finish _ _ _).trans
      (requests_log_of_not (w.withManager fun m => { m with failed }) rfl)
  · exact requests_finish _ _ _

/-! ## Attempts -/

theorem requests_discarded (w : Overlay) (t : TaskId) (o : Outcome) :
    (w.discarded t o).requests = w.requests := by
  obtain ⟨e, -, h⟩ := w.discarded_eq t o
  rw [h, requests_finish]

theorem requests_discard (w : Overlay) (t : TaskId) (q : PeerAddress) (r : RelayId) :
    (w.discard t q r).requests = w.requests := by
  rw [discard_eq]
  split
  · simp
  · refine (requests_play ?_).trans ((requests_closeConn _ _).trans (requests_shutRelay _ _))
    exact requests_discarded _ _ _

theorem requests_offer {relay : Relay} (hr : w.relays[r]? = some relay)
    (hs : relay.signal = .live none) : (w.offer t q r p).requests = w.requests := by
  by_cases ha : w.verdict p = some .added
  · rw [offer_admitted hr hs ha, requests_finish]
    exact (requests_publish _).trans (requests_log_of_not (w.withManager fun m => { m with
      pool := { m.pool with members := m.pool.members ++ [⟨r, p⟩] } }) rfl)
  · rw [offer_refused ha, requests_discard]
    exact requests_log_of_not w rfl

theorem requests_parted (w : Overlay) (t : TaskId) (q : PeerAddress) (c : ConnId) (o : Outcome) :
    (w.parted t q c o).requests = w.requests := by
  rcases w.parted_cases t q c o with ⟨e, -, h⟩ | ⟨p, h⟩ <;> rw [h]
  · exact requests_finish _ _ _
  · exact requests_offer (w := (w.addPushRelay p).1) (w.addPushRelay_last p) rfl

theorem requests_establish (w : Overlay) (t : TaskId) (q : PeerAddress) (c : ConnId)
    (p : PeerAddress) : (w.establish t q c p).requests = w.requests := by
  unfold establish
  split
  · exact requests_offer (w := (w.addOpenRelay c p).1) (w.addOpenRelay_last c p) rfl
  · exact (requests_play (requests_parted _ _ _ _ _)).trans (requests_closeConn _ _)

theorem requests_shaken (w : Overlay) (t : TaskId) (q : PeerAddress) (c : ConnId) (o : Outcome) :
    (w.shaken t q c o).requests = w.requests := by
  cases o with
  | crash text => exact requests_finish _ _ _
  | fail e => exact requests_failAttempt _ _ _ _
  | succeed =>
    simp only [shaken]
    split
    · exact requests_finish _ _ _
    · next conn _ =>
      have hdead : (if (w.behaviour conn.remote.id).dead then w.dropLink conn.remote.id
          else w).requests = w.requests := by
        split
        · exact requests_dropLink _ _
        · rfl
      split
      · exact (requests_establish _ _ _ _ _).trans hdead
      · exact (requests_establish _ _ _ _ _).trans hdead

theorem requests_connected (w : Overlay) (t : TaskId) (q : PeerAddress) (o : Outcome) :
    (w.connected t q o).requests = w.requests := by
  cases o with
  | crash text => exact requests_finish _ _ _
  | fail e => exact requests_failAttempt _ _ _ _
  | succeed =>
    exact (requests_play (requests_shaken _ _ _ _ _)).trans
      (requests_log_of_not (w.openConn q).1 rfl)

/-- An attempt asks for a connection first of all. -/
theorem requests_enterAttempt (w : Overlay) (t : TaskId) (q : PeerAddress) :
    (w.enterAttempt t q).requests = w.requests ++ [.connect t q] :=
  (requests_play (requests_connected _ _ _ _)).trans (requests_log w (.connect t q))

theorem requests_pollGuard (w : Overlay) (t : TaskId) (slot : Nat) (p : PeerAddress)
    (attempt : Option TaskId) : (w.pollGuard t slot p attempt).requests = w.requests := by
  cases attempt with
  | none => rfl
  | some a =>
    simp only [pollGuard]
    split
    · rfl
    · exact requests_failAttempt _ _ _ _
    · exact requests_failAttempt _ _ _ _
    · exact requests_finish _ _ _

/-! ## Setups -/

theorem requests_takeTurn (w : Overlay) (t : TaskId) (manual : List PeerAddress) (maxFail : Nat)
    (r : Round) : (w.takeTurn t manual maxFail r).requests = w.requests := by
  rw [takeTurn_eq]
  split_ifs
  · simp
  · simp
  · rw [staffed, spawnAll_eq]
    rfl

theorem requests_collect (w : Overlay) (t : TaskId) (manual : List PeerAddress) (maxFail : Nat) :
    (w.collect t manual maxFail).requests =
      w.requests ++ if manual = [] then [.readRouting t] else [] := by
  have hstart : (w.collect t manual maxFail).requests = (w.collected t manual).requests := by
    rw [collect_eq]
    simp only [startRound]
    split
    · split <;> exact requests_finish _ _ _
    · exact requests_takeTurn _ _ _ _ _
  rw [hstart, collected]
  cases manual with
  | nil => exact requests_log w (.readRouting t)
  | cons => simp [requests]

/-- What a setup asks for in a step. -/
def inquiries (w : Overlay) (t : TaskId) (manual : List PeerAddress) (stage : SetupStage) :
    List Event :=
  (if w.asks t stage then [.reserve t 0 w.manager.config.maxRelays] else []) ++
  (if w.hears? t stage = some .succeed then [.granted w.granted] else []) ++
  (if w.supplied t stage ∧ manual = [] then [.readRouting t] else [])

theorem requests_passing (w : Overlay) (gate : FairLock TaskId) (ready : List TaskId)
    (more : List Entry) : (w.passing gate ready more).requests =
      w.requests ++ (more.map Entry.event).filter Event.isRequest :=
  requests_append rfl

theorem requests_granting (w : Overlay) (gate : FairLock TaskId) (ready : List TaskId)
    (more : List Entry) : (w.granting gate ready more).requests =
      w.requests ++ (more.map Entry.event).filter Event.isRequest ++ [.granted w.granted] := by
  have hj : (w.granting gate ready more).journal =
      w.journal ++ (more ++ [⟨w.clock, .granted w.granted⟩]) := List.append_assoc ..
  rw [requests_append hj]
  simp [Event.isRequest]

/-- A setup that does not have the lock asks for nothing. -/
theorem inquiries_of_not_seizes (h : u.seizes t stage = false) (hn : ∀ o, stage ≠ .reserving o) :
    u.inquiries t manual stage = [] := by
  have hasks : u.asks t stage = false := by simp [asks, h]
  have hhears : u.hears? t stage = none := by
    cases stage with
    | reserving o => exact absurd rfl (hn o)
    | entering | queued | settling => simp [hears?, hasks]
  simp [inquiries, supplied, h, hasks, hhears]

theorem hears?_of_seizes (h : u.seizes t stage = true) :
    u.hears? t stage = if u.asks t stage then u.reserveScript.immediate? else none := by
  cases stage with
  | reserving => simp [seizes] at h
  | entering | queued | settling => rfl

/-- What a setup asks for when it hears the answer to its reservation. -/
theorem Heard.inquiries {o : Outcome} {more : List Entry} (h : u.Heard t stage o more)
    (manual : List PeerAddress) : u.inquiries t manual stage =
      (more.map Entry.event).filter Event.isRequest ++
        if o = .succeed then .granted u.granted :: if manual = [] then [.readRouting t] else []
        else [] := by
  have hmore : (more.map Entry.event).filter Event.isRequest =
      if u.asks t stage then [.reserve t 0 u.manager.config.maxRelays] else [] := by
    cases h with
    | later o => simp [asks, seizes]
    | atOnce h => simp [h, asking, Event.isRequest]
  rw [hmore, Overlay.inquiries, h.hears?]
  by_cases ho : o = .succeed <;> simp [ho, h.supplied_iff]

/-- A setup asks for what is read off its stage. -/
theorem Prepares.requests {v : Overlay} (h : u.Prepares t manual maxFail stage v) :
    v.requests = u.requests ++ u.inquiries t manual stage := by
  have hpass : ∀ gate ready, (u.passing gate ready []).requests = u.requests := fun gate ready => by
    simp [requests_passing]
  cases h with
  | refused ready hdown =>
    rw [requests_finish, hpass, inquiries_of_not_seizes (by simp [seizes, hdown]) (by simp),
      List.append_nil]
  | queues gate ready hup hh =>
    have hseizes : u.seizes t .entering = false := by
      simpa [seizes, hup] using Option.isSome_iff_ne_none.mpr hh
    rw [inquiries_of_not_seizes hseizes (by simp), List.append_nil]
    exact hpass gate ready
  | lines ready hh =>
    rw [hpass, inquiries_of_not_seizes (by simpa [seizes] using hh) (by simp), List.append_nil]
  | reuses gate ready h hc =>
    have hasks : u.asks t stage = false := by
      simp [asks, Option.isSome_iff_ne_none.mp hc]
    rw [requests_collect, hpass]
    simp [inquiries, supplied, hears?_of_seizes h, hasks, h, hc]
  | denied gate ready h hc hdown =>
    have hasks : u.asks t stage = false := by simp [asks, hdown]
    rw [requests_finish, hpass]
    simp [inquiries, supplied, hears?_of_seizes h, hasks, hc]
  | waits gate ready h hd =>
    have hlate : u.reserveScript.immediate? = none := by simp [Script.immediate?, hd]
    have hseizes : u.seizes t stage = true := by
      simp only [asks, Bool.and_eq_true] at h
      exact h.1.1
    have hc : u.manager.creator = none := by
      simp only [asks, Bool.and_eq_true] at h
      simpa using h.1.2
    refine (requests_passing u gate ready [u.asking t]).trans ?_
    simp [inquiries, supplied, hears?_of_seizes hseizes, h, hlate, hc, asking, Event.isRequest]
  | crashes gate ready text h =>
    rw [requests_finish, requests_passing, h.inquiries manual]
    simp
  | fails gate ready e h =>
    rw [requests_finish, requests_passing, h.inquiries manual]
    simp
  | gains gate ready h =>
    rw [requests_collect, requests_granting, h.inquiries manual]
    simp

theorem requests_judge (w : Overlay) (t : TaskId) (manual : List PeerAddress) (maxFail : Nat)
    (r : Round) (as : List TaskId) : (w.judge t manual maxFail r as).requests = w.requests := by
  rw [judge_eq]
  split_ifs
  · simp
  · simp
  · exact requests_takeTurn _ _ _ _ _

/-! ## Shutdowns -/

theorem requests_concludeShutdown (w : Overlay) (t : TaskId) (hadRelays : Bool)
    (parts : List TaskId) : (w.concludeShutdown t hadRelays parts).requests = w.requests := by
  obtain ⟨e, h⟩ := w.concludeShutdown_eq t hadRelays parts
  rw [h, requests_finish]
  split
  · exact requests_publish w
  · rfl

theorem requests_closeAll (w : Overlay) (t : TaskId) (drained : List RelayId) :
    (w.closeAll t drained).requests = w.requests := by
  obtain ⟨-, gate, rs, hp⟩ := w.partsStarted_frame t drained
  have hs : (w.partsStarted t drained).1.requests = w.requests := by
    rw [hp]
    rfl
  rcases w.closeAll_cases t drained with ⟨-, h⟩ | ⟨-, h⟩ <;> rw [h]
  · exact (requests_finish _ _ _).trans hs
  · exact hs

theorem requests_pollShutdown (w : Overlay) (t : TaskId) (stage : ShutdownStage) :
    (w.pollShutdown t stage).requests = w.requests := by
  cases stage with
  | entering =>
    simp only [pollShutdown, enterShutdown_eq]
    split
    · exact requests_closeAll (w.stopped t) _ _
    · rfl
  | queued drained =>
    simp only [pollShutdown]
    split
    · exact requests_closeAll _ _ _
    · rfl
  | closing hadRelays parts =>
    simp only [pollShutdown]
    split
    · exact requests_concludeShutdown _ _ _ _
    · rfl

theorem requests_ended (w : Overlay) (t : TaskId) (o : Outcome) :
    (w.ended t o).requests = w.requests := by
  rw [ended_eq, requests_finish]

theorem requests_pollCloseRelay (w : Overlay) (t : TaskId) (r : RelayId)
    (pending : Option Outcome) : (w.pollCloseRelay t r pending).requests = w.requests := by
  cases pending with
  | some o => exact requests_ended _ _ _
  | none =>
    rw [pollCloseRelay_eq]
    split
    · simp
    · refine (requests_play ?_).trans ((requests_closeConn _ _).trans (requests_shutRelay _ _))
      exact requests_ended _ _ _

theorem requests_pollRelease (w : Overlay) (t : TaskId) (k : CreatorId) :
    (w.pollRelease t k none).requests = w.requests ++ [.release k] :=
  (requests_play (requests_ended _ _ _)).trans (requests_log w (.release k))

theorem requests_pollWatch (w : Overlay) (t : TaskId) (r : RelayId) :
    (w.pollWatch t r).requests = w.requests := by
  have hl := requests_lose w r
  unfold pollWatch
  split
  · exact requests_finish _ _ _
  · split
    · rfl
    · split
      · split <;> next he =>
          rw [he] at hl
          exact (requests_finish _ _ _).trans hl
      · exact requests_finish _ _ _

theorem requests_abandon (w : Overlay) (t : TaskId) (job : Job) :
    (w.abandon t job).requests = w.requests := by
  obtain ⟨tasks, gate, rs, -, h⟩ := w.abandon_frame t job
  rw [h, requests_finish]
  rfl

/-! ## Steps -/

/-- What a task asks for when it goes on. -/
def jobRequests (w : Overlay) (t : TaskId) : Job → List Event
  | .setup manual _ stage => w.inquiries t manual stage
  | .attempt q .entering => [.connect t q]
  | .releaseCreator k none => [.release k]
  | _ => []

/-- What is asked for in a step. -/
def requested (w : Overlay) : Act → List Event
  | .poll t => ((w.going? t).map (w.jobRequests t)).getD []
  | _ => []

theorem requests_act (hp : x.isPoll = false) : (w.act x).requests = w.requests := by
  cases x with
  | poll => exact absurd hp (by simp [Act.isPoll])
  | elapse ms =>
    obtain ⟨rs, h, -⟩ := w.advanceTo_eq (w.clock + ms)
    simp only [Overlay.act, h]
    rfl
  | closeRelay r =>
    simp only [Overlay.act]
    split <;> rfl
  | cancel b =>
    simp only [Overlay.act]
    split
    · rcases w.cancel_eq b with ⟨-, h⟩ | ⟨-, rs, h, -⟩
      · rw [h]
      · rw [h]
        rfl
    · rfl
  | listen r label nested =>
    simp only [Overlay.act]
    rcases w.listen_note_cases r label nested false with h | ⟨relay, -, ⟨-, h⟩ | ⟨-, h⟩⟩ <;> rw [h]
    · rfl
    · exact requests_log_of_not (w.setSignal r (.lost true)) rfl
  | dropConn c => exact requests_dropConn w c
  | setUp | shutDown | observe | behave | learn | nodeDown | reservation | hold | dropManager
    | moveTo => rfl

theorem requests_going {job : Job} (h : w.going? t = some job) :
    (w.act (.poll t)).requests = w.requests ++ w.jobRequests t job := by
  have hnone : ∀ {v : Overlay} {es : List Event}, es = [] → v.requests = w.requests →
      v.requests = w.requests ++ es := by
    rintro v _ rfl hv
    rw [hv, List.append_nil]
  have hact := act_of_going h
  cases job with
  | setup manual maxFail stage =>
    cases stage with
    | entering | queued | reserving => exact (prepares_act h rfl).requests
    | settling r as =>
      refine hnone (inquiries_of_not_seizes rfl (by simp)) ?_
      rw [hact]
      simp only [resume, pollSetup]
      split
      · exact requests_judge _ _ _ _ _ _
      · rfl
  | shutdown stage => exact hnone rfl (hact ▸ requests_pollShutdown _ _ _)
  | guardAttempt slot p attempt => exact hnone rfl (hact ▸ requests_pollGuard _ _ _ _ _)
  | attempt q s =>
    cases s with
    | entering => exact hact ▸ requests_enterAttempt _ t q
    | connecting o => exact hnone rfl (hact ▸ requests_connected _ _ _ _)
    | shaking c o => exact hnone rfl (hact ▸ requests_shaken _ _ _ _ _)
    | partingFrom c o => exact hnone rfl (hact ▸ requests_parted _ _ _ _ _)
    | discarding r o => exact hnone rfl (hact ▸ requests_discarded _ _ _)
  | watch r => exact hnone rfl (hact ▸ requests_pollWatch _ _ _)
  | closeRelay r pending => exact hnone rfl (hact ▸ requests_pollCloseRelay _ _ _ _)
  | releaseCreator k pending =>
    cases pending with
    | none => exact hact ▸ requests_pollRelease _ t k
    | some o => exact hnone rfl (hact ▸ requests_ended _ _ _)

/-- Each step asks for what is read off the task that goes on. -/
theorem Sound.requests_act (h : w.Sound) (x : Act) :
    (w.act x).requests = w.requests ++ w.requested x := by
  rcases w.act_cases x with hp | ⟨t, rfl, hg | ⟨job, hg⟩⟩
  · have hnone : w.requested x = [] := by
      cases x <;> first | rfl | exact absurd hp (by simp [Act.isPoll])
    rw [hnone, List.append_nil, Overlay.requests_act hp]
  · simp only [requested, hg, Option.map_none, Option.getD_none, List.append_nil]
    rcases h.act_of_not_going hg with he | he | ⟨task, -, -, -, he⟩ <;> rw [he]
    · rfl
    · exact requests_abandon _ _ _
  · simp only [requested, hg, Option.map_some, Option.getD_some]
    exact requests_going hg

theorem mem_requested {e : Event} : e ∈ w.requested x ↔
    ∃ a job, x = .poll a ∧ w.going? a = some job ∧ e ∈ w.jobRequests a job := by
  cases x with
  | poll a =>
    cases hg : w.going? a with
    | none =>
      refine iff_of_false (by simp [requested, hg]) ?_
      rintro ⟨b, job, hab, hb, -⟩
      obtain rfl := Act.poll.inj hab
      exact absurd (hg.symm.trans hb) (by simp)
    | some job =>
      simp only [requested, hg, Option.map_some, Option.getD_some]
      constructor
      · exact fun he => ⟨a, job, rfl, hg, he⟩
      · rintro ⟨b, job', hab, hb, he⟩
        obtain rfl := Act.poll.inj hab
        obtain rfl := Option.some.inj (hg.symm.trans hb)
        exact he
  | _ => simp [requested]

theorem mem_inquiries {e : Event} : e ∈ w.inquiries t manual stage ↔
    (e = .reserve t 0 w.manager.config.maxRelays ∧ w.asks t stage = true) ∨
    (e = .granted w.granted ∧ w.hears? t stage = some .succeed) ∨
    (e = .readRouting t ∧ w.supplied t stage = true ∧ manual = []) := by
  simp only [inquiries, List.mem_append, or_assoc]
  refine or_congr ?_ (or_congr ?_ ?_) <;> split_ifs with h <;> simp [h]

/-- Tasks ask on their own behalf. -/
theorem asker_of_mem_jobRequests {e : Event} {job : Job} {a : TaskId}
    (he : e ∈ w.jobRequests t job) (ha : e.asker? = some a) : a = t := by
  cases job with
  | setup manual maxFail stage =>
    rcases mem_inquiries.mp he with ⟨rfl, -⟩ | ⟨rfl, -⟩ | ⟨rfl, -⟩
    · exact (Option.some.inj ha).symm
    · exact absurd ha (by simp [Event.asker?])
    · exact (Option.some.inj ha).symm
  | attempt q s =>
    cases s with
    | entering =>
      obtain rfl := List.mem_singleton.mp he
      exact (Option.some.inj ha).symm
    | _ => exact absurd he (by simp [jobRequests])
  | releaseCreator k pending =>
    cases pending with
    | none =>
      obtain rfl := List.mem_singleton.mp he
      exact absurd ha (by simp [Event.asker?])
    | some o => exact absurd he (by simp [jobRequests])
  | _ => exact absurd he (by simp [jobRequests])

theorem connect_mem_jobRequests {a : TaskId} {job : Job} :
    .connect a p ∈ w.jobRequests t job ↔ t = a ∧ job = .attempt p .entering := by
  constructor
  · intro h
    obtain rfl := asker_of_mem_jobRequests h rfl
    refine ⟨rfl, ?_⟩
    cases job with
    | attempt q s =>
      cases s with
      | entering =>
        obtain ⟨-, rfl⟩ := Event.connect.inj (List.mem_singleton.mp h)
        rfl
      | _ => exact absurd h (by simp [jobRequests])
    | setup => exact absurd (mem_inquiries.mp h) (by simp)
    | releaseCreator k pending => cases pending <;> exact absurd h (by simp [jobRequests])
    | _ => exact absurd h (by simp [jobRequests])
  · rintro ⟨rfl, rfl⟩
    simp [jobRequests]

/-- Those who have asked for something have been started. -/
def Known (w : Overlay) : Prop :=
  ∀ e ∈ w.requests, ∀ a, e.asker? = some a → a < w.tasks.length

theorem known_start (config : RelayConfig) (address : PeerAddress) :
    (start config address).Known := by
  intro e he
  exact absurd he (by simp [requests, start])

theorem Known.act (h : w.Known) (hs : w.Sound) (x : Act) : (w.act x).Known := by
  intro e he a ha
  rw [hs.requests_act x, List.mem_append] at he
  refine Nat.lt_of_lt_of_le ?_ (hs.grows_act x).tasks.length_le
  rcases he with he | he
  · exact h e he a ha
  · obtain ⟨b, job, -, hgo, hmem⟩ := mem_requested.mp he
    obtain rfl := asker_of_mem_jobRequests hmem ha
    exact lt_of_role? (role?_of_going hgo)

theorem known_run (config : RelayConfig) (mine : PeerAddress) (acts : List Act) :
    ((start config mine).run acts).Known := by
  induction acts using List.reverseRecOn with
  | nil => exact known_start config mine
  | append_singleton acts x ih =>
    rw [run_concat]
    exact ih.act (sound_run (sound_start config mine) acts) x

end Overlay

end RelayUpkeep
