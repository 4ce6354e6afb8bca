import RelayUpkeep.Proofs.Fairness
import RelayUpkeep.Proofs.Reference

/-! # A setup against its reference

Which candidates succeed is a matter of how their peers answer, and not of when. A setup that runs
alone fills a slot for each that does, whatever the order in which the attempts settle, and so comes
to what the reference tells. -/

namespace RelayUpkeep

def Outcome.isCrash : Outcome → Bool
  | .crash _ => true
  | _ => false

/-- Nobody else sets up or shuts down and setup `t₀` is not called off, the node stays up, and peers
answer as they did. -/
def Act.isAside (t₀ : TaskId) : Act → Bool
  | setUp .. | shutDown | behave .. => false
  | cancel t => t ≠ t₀
  | nodeDown isDown => !isDown
  | _ => true

namespace Overlay

variable {t t₀ : TaskId} {u v w : Overlay} {r : Round} {as : List TaskId}
  {draws : List (Nat × PeerAddress)} {manual : List PeerAddress} {maxFail : Nat}
  {succeeds : PeerAddress → Bool} {goal : SetupResult}

/-! ## The fate of an attempt -/

/-- Whether an attempt on a peer brings a relay. A push relay is offered after its connection has
been closed, so a peer that crashes in the closing brings none. -/
def yields (w : Overlay) (q : PeerAddress) : Bool :=
  (w.behaviour q.id).connect.outcome = .succeed && (w.behaviour q.id).handshake.outcome = .succeed &&
    (w.manager.config.kind = .openTcp || !(w.behaviour q.id).close.outcome.isCrash)

/-- An attempt on a peer that brings a relay if and only if `succeeds` tells so. -/
def fatefulCourse (succeeds : PeerAddress → Bool) (q : PeerAddress) : Course where
  stage w s := w.Honest ∧ w.yields = succeeds ∧
    match s with
    | .entering => True
    | .connecting o => o = (w.behaviour q.id).connect.outcome
    | .shaking _ o => (w.behaviour q.id).connect.outcome = .succeed ∧
        o = (w.behaviour q.id).handshake.outcome
    | .partingFrom c o => (w.behaviour q.id).connect.outcome = .succeed ∧
        (w.behaviour q.id).handshake.outcome = .succeed ∧ w.manager.config.kind = .push ∧
        o = (w.behaviour q.id).close.outcome ∧
        ∃ conn, w.conns[c]? = some conn ∧ conn.remote.id = q.id
    | .discarding .. => False
  ends e := e.isFailure = true ∧ succeeds q = false
  offers p := p.id = q.id ∧ succeeds q = true

theorem yields_eq (hb : v.behaviours = u.behaviours)
    (hc : v.manager.config = u.manager.config) : v.yields = u.yields := by
  funext q
  unfold yields behaviour
  rw [hb, hc]

theorem fatefulCourse_mono {q : PeerAddress} {s : AttemptStage} (hg : u.Grows v)
    (hb : v.behaviours = u.behaviours) (h : (fatefulCourse succeeds q).stage u s) :
    (fatefulCourse succeeds q).stage v s := by
  obtain ⟨hh, hy, hs⟩ := h
  refine ⟨hh.of_eq hb, (yields_eq hb hg.config).trans hy, ?_⟩
  cases s with
  | partingFrom c o =>
    obtain ⟨hc, hk, hp, ho, conn, hconn, hid⟩ := hs
    obtain ⟨conn', hconn', hx⟩ := hg.conns c conn hconn
    simp only [behaviour, hb, hg.config] at hc hk hp ho ⊢
    exact ⟨hc, hk, hp, ho, conn', hconn', hx.remote ▸ hid⟩
  | entering => trivial
  | connecting | shaking => simpa only [behaviour, hb] using hs
  | discarding => exact hs

theorem fatefulCourse_sound (t : TaskId) (q : PeerAddress) :
    (fatefulCourse succeeds q).Sound t q where
  stirs h hk := fatefulCourse_mono (.stirs h) (Frame.stirs h).behaviours hk
  enter hk := ⟨hk.1, hk.2.1, rfl⟩
  unconnected {w o} ho hk e he := by
    obtain ⟨-, rfl, rfl⟩ := hk
    exact ⟨he, by simp [yields, ho]⟩
  connect _ hk := ⟨hk.1, hk.2.1, hk.2.2.symm, rfl⟩
  unshaken {w c o} ho hk e he := by
    obtain ⟨-, rfl, -, rfl⟩ := hk
    exact ⟨he, by simp [yields, ho]⟩
  keep {w c} hkind hk := by
    obtain ⟨hh, rfl, hc, hs⟩ := hk
    exact ⟨hh.partner q, by simp [yields, hc, ← hs, hkind]⟩
  part {w v c d conn} hkind hv hd hp hk := by
    obtain ⟨hh, hy, hc, hs⟩ := hk
    have hb := (Frame.stirs hv).behaviours
    have hg := Grows.stirs hv
    have hid : conn.remote.id = q.id := hp ▸ hh.partner q
    refine ⟨hh.of_eq hb, (yields_eq hb hg.config).trans hy, ?_⟩
    simp only [behaviour, hb, hg.config, hid] at hc hs hkind ⊢
    exact ⟨hc, hs.symm, hkind, trivial, conn, hd, hid⟩
  unparted {w c text} hk e he := by
    obtain ⟨-, rfl, -, -, hkind, ho, -⟩ := hk
    exact ⟨he, by simp [yields, ← ho, hkind, Outcome.isCrash]⟩
  parted {w c o conn} ho hc hk := by
    obtain ⟨-, rfl, hcon, hsh, -, hclose, conn', hc', hid⟩ := hk
    obtain rfl := Option.some.inj (hc.symm.trans hc')
    refine ⟨hid, ?_⟩
    have hcrash : o.isCrash = false := by
      cases o with
      | crash text => exact absurd rfl (ho text)
      | succeed | fail => rfl
    simp [yields, hcon, hsh, ← hclose, hcrash]
  discarded hk := absurd hk.2.2 (by simp)

/-! ## The setup and its attempts -/

/-- Setup `t₀` runs alone and has not ended. Its attempts succeed as `succeeds` tells, and neither
it nor one of them was asked to end. -/
structure Solo (t₀ : TaskId) (succeeds : PeerAddress → Bool) (w : Overlay) : Prop where
  lone : w.Lone t₀
  going : w.isFinished t₀ = false
  upright : w.node.isDown = false
  yields : w.yields = succeeds
  steady : w.Uncancelled fun a role => role.isFirm = true ∧ (a = t₀ ∨ t₀ < a ∧ role.works = true)
  course : w.OnCourse (fatefulCourse succeeds)
  fates : ∀ a q, t₀ < a → w.role? a = some (.attempt q) → w.isFinished a = true →
    w.succeeded a = succeeds q

theorem Crewed.young (h : w.Crewed t₀ r as draws) (hl : w.Linked) {g : TaskId} (hg : g ∈ as) :
    t₀ < g := by
  obtain ⟨d, -, task, ht, -, hp⟩ := h.draw hg
  exact (hl.parents g task t₀ ht hp).1

theorem Crewed.younger (h : w.Crewed t₀ r as draws) (hl : w.Linked) {g a : TaskId}
    {q : PeerAddress} (hg : g ∈ as) (hgu : w.Guards g a q) : t₀ < a := by
  obtain ⟨task, ht, -, hp⟩ := hl.attempt_of_guards hgu
  exact Nat.lt_trans (h.young hl hg) (hl.parents a task g ht hp).1

/-- A poll keeps what is known of a setup that runs alone, if the one who went on keeps to it. -/
theorem Solo.turns (h : u.Solo t₀ succeeds) (hs : u.Sound) (hm : Turns t u v)
    (hlt : t < u.tasks.length) (hf : u.isFinished t = false) (hl : v.Lone t₀)
    (hgo : v.isFinished t₀ = false)
    (hself : ∀ (task : Task) q s, v.tasks[t]? = some task → task.job = .attempt q s →
      v.isFinished t = false → (fatefulCourse succeeds q).stage v s)
    (hfate : ∀ q, u.role? t = some (.attempt q) → v.isFinished t = true →
      v.succeeded t = succeeds q) : v.Solo t₀ succeeds := by
  have hg := Grows.turns hm
  have hframe := Frame.turns hm
  have hy : v.yields = succeeds := (yields_eq hframe.behaviours hg.config).trans h.yields
  refine ⟨hl, hgo, hframe.isDown.trans h.upright, hy, ?_, ?_, ?_⟩
  · exact h.steady.turns (fun _ _ hp => hp.1) hs hm hlt hf
  · exact h.course.turns hm hlt (fun _ _ => fatefulCourse_mono hg hframe.behaviours)
      (fun _ => ⟨hl.honest, hy, trivial⟩) hself
  · intro a q ha hr hfa
    by_cases hat : a = t
    · subst hat
      exact hfate q (hg.role?_eq hlt ▸ hr) hfa
    · have hexit := hframe.exits a hat
      have hfu : u.isFinished a = true := by rwa [Overlay.isFinished, hexit] at hfa
      obtain ⟨e, he⟩ := isFinished_iff.mp hfu
      rw [succeeded, hexit]
      exact h.fates a q ha (hg.role?_eq (hs.exits _ he) ▸ hr) hfu

/-- An attempt that goes on keeps to its course. -/
theorem Solo.attempts (h : w.Solo t₀ succeeds) (hs : w.Sound) {q : PeerAddress}
    (hr : w.role? t = some (.attempt q)) (hf : w.isFinished t = false) :
    Attempts t q (fatefulCourse succeeds q) w (w.poll t) := by
  obtain ⟨r, as, draws, hc, -⟩ := h.lone.crewed hr rfl hf
  obtain ⟨g, hg, hgu⟩ := hc.attempts t q hr hf
  have hyoung := hc.younger hs.toLinked hg hgu
  refine hs.attempts_poll (fatefulCourse_sound t q) hr hf ?_ fun task s ht hj =>
    h.course t task q s ht hj hf
  intro task ht hcan
  obtain ⟨task', ht', hrole⟩ := role?_eq_some.mp hr
  obtain rfl := Option.some.inj (ht.symm.trans ht')
  have hno := h.steady t task ht (by simp [hrole, Role.isFirm, Role.works, hyoung])
  exact absurd (hno.symm.trans hcan) (by simp)

/-- Whoever else goes on leaves the setup alone, and its crew in place. -/
theorem Solo.poll_other (h : w.Solo t₀ succeeds) (hs : w.Sound) (ht : t ∈ w.ready)
    (hne : t ≠ t₀) : (w.poll t).Solo t₀ succeeds ∧
      ∀ {r as draws}, w.Crewed t₀ r as draws → (w.poll t).Crewed t₀ r as draws := by
  have hl := (h.lone.poll hs ht).1
  cases hf : w.isFinished t with
  | true =>
    rw [poll_finished hf] at hl ⊢
    exact ⟨{ h with lone := hl }, fun hc => { hc with }⟩
  | false =>
    have hlt := hs.ready t ht
    have hm := hs.poll_turns t
    have hgo : (w.poll t).isFinished t₀ = false := by
      rw [Overlay.isFinished, (Frame.turns hm).exits t₀ hne.symm]
      exact h.going
    obtain ⟨role, hr⟩ : ∃ role, w.role? t = some role :=
      ⟨_, role?_eq_some.mpr ⟨_, List.getElem?_eq_getElem hlt, rfl⟩⟩
    have hother : (∀ q, role ≠ .attempt q) → (w.poll t).Solo t₀ succeeds := by
      intro hno
      refine h.turns hs hm hlt hf hl hgo ?_ ?_
      · intro task q s htask hj _
        exact absurd ((Grows.turns hm).role_of_job hr htask hj).symm (hno q)
      · exact fun q hq => absurd (Option.some.inj (hr.symm.trans hq)) (hno q)
    cases role with
    | setup | shutdown => exact absurd (h.lone.alone t _ hr rfl hf) hne
    | guard slot p => exact ⟨hother (by simp), fun hc => hc.poll_guard hs hr hf⟩
    | watch | close | release =>
      exact ⟨hother (by simp), fun hc => hc.turns hs hm hf hr rfl rfl⟩
    | attempt q =>
      have hk : (fatefulCourse succeeds q).Sound t q := fatefulCourse_sound t q
      have ha := h.attempts hs hr hf
      have hself : ∀ p, (fatefulCourse succeeds q).offers p → p.id = q.id := fun _ hp => hp.1
      obtain ⟨r, as, draws, hc, -⟩ := h.lone.crewed hr rfl hf
      refine ⟨h.turns hs hm hlt hf hl hgo ?_ ?_,
        fun hc => hc.attempt hs hr hf hself ha fun _ he => he.1⟩
      · intro task q' s htask hj hft
        obtain rfl : q' = q := Role.attempt.inj ((Grows.turns hm).role_of_job hr htask hj)
        exact hc.stage hs hr hf hself ha hk htask hj hft
      · intro q' hq hft
        obtain rfl : q = q' := by simpa [hr] using hq
        rcases hc.fate hs hr hf hself ha hft with ⟨e, he, hfail, hno⟩ | ⟨hsucc, p, -, hyes⟩
        · rw [succeeded, he, Option.any_some, hfail, hno]
          rfl
        · rw [hsucc, hyes]

/-! ### What happens beside it -/

theorem alone_of_isAside {a : Act} (h : a.isAside t₀ = true) : w.Alone a := by
  cases a <;> trivial

theorem behaviours_aside {a : Act} (h : a.isAside t₀ = true) (hp : a.isPoll = false) :
    (w.act a).behaviours = w.behaviours ∧
      (w.node.isDown = false → (w.act a).node.isDown = false) := by
  cases a with
  | poll => exact absurd hp (by simp [Act.isPoll])
  | setUp | shutDown | behave => exact absurd h (by simp [Act.isAside])
  | nodeDown isDown =>
    have hdown : isDown = false := by simpa [Act.isAside] using h
    exact ⟨rfl, fun _ => hdown⟩
  | elapse ms =>
    obtain ⟨rs, he, -⟩ := w.advanceTo_eq (w.clock + ms)
    rw [act, he]
    exact ⟨rfl, id⟩
  | closeRelay r =>
    simp only [act]
    split <;> exact ⟨rfl, id⟩
  | cancel t =>
    simp only [act]
    split
    · have hf := Frame.cancel (t := t) w t
      exact ⟨hf.behaviours, fun hd => hf.isDown.trans hd⟩
    · exact ⟨rfl, id⟩
  | listen r label nested =>
    obtain ⟨relays, more, he, -⟩ := w.listen_note_frame r label nested
    rw [act, he]
    exact ⟨rfl, id⟩
  | dropConn c =>
    have hf := Frame.dropConn (t := 0) w c
    exact ⟨hf.behaviours, fun hd => hf.isDown.trans hd⟩
  | observe | learn | reservation | hold | dropManager | moveTo => exact ⟨rfl, id⟩

/-- What happens beside the setup leaves it alone, and its crew in place. -/
theorem Solo.beside (h : w.Solo t₀ succeeds) (hs : w.Sound) {a : Act} (ha : a.isAside t₀ = true)
    (hp : a.isPoll = false) : (w.act a).Solo t₀ succeeds ∧
      ∀ {r as draws}, w.Crewed t₀ r as draws → (w.act a).Crewed t₀ r as draws := by
  have hg := hs.grows_act a
  have halone : w.Alone a := alone_of_isAside ha
  obtain ⟨hb, hup⟩ := behaviours_aside (w := w) ha hp
  have hy := yields_eq hb hg.config
  refine ⟨⟨(h.lone.act hs halone).1, ?_, hup h.upright, hy.trans h.yields, ?_, ?_, ?_⟩, ?_⟩
  · rw [isFinished, (hs.still_act (Act.ne_poll hp t₀) h.lone.lt).2]
    exact h.going
  · refine h.steady.act hs (fun _ _ hf => hf.1) ?_
    rintro b rfl hcall role hr ⟨-, rfl | ⟨-, hw⟩⟩
    · exact absurd ha (by simp [Act.isAside])
    · obtain ⟨⟨job, parent, cancelled⟩, ht, rfl⟩ := role?_eq_some.mp hr
      rw [isCall, ht] at hcall
      cases job <;> simp [Job.role, Role.works] at hw hcall
  · exact h.course.keep hg (fun _ _ _ _ => halone.attempt hs hp) fun _ _ => fatefulCourse_mono hg hb
  · intro b q hlt hr hf
    obtain ⟨⟨job, parent, cancelled⟩, hb, hrole⟩ := role?_eq_some.mp hr
    cases job <;> simp only [Job.role, Role.attempt.injEq, reduceCtorEq] at hrole
    obtain rfl := hrole
    obtain ⟨before, hbefore, hj⟩ := halone.attempt hs hp hb rfl
    have hexit := (hs.still_act (Act.ne_poll hp b) (List.getElem?_eq_some_iff.mp hbefore).1).2
    rw [isFinished, hexit] at hf
    rw [succeeded, hexit]
    exact h.fates b _ hlt (role?_eq_some.mpr ⟨before, hbefore, by rw [hj]; rfl⟩) hf
  · intro r as draws hc
    cases hm : a.movesNode with
    | true =>
      cases a with
      | moveTo => exact { hc with }
      | _ => exact absurd hm (by simp [Act.movesNode])
    | false => exact hc.outside hs halone hp (outside_act hp hm)

/-! ## Turns of the round -/

/-- How a setup tells its result. The relays that it returns are those in the pool. -/
def Gives (w : Overlay) (e : Exit) : SetupResult → Prop
  | .satisfied => e = .relays (w.views w.pooled)
  | .maxFailExceeded => ∃ reason, e = .failed (.maxFailuresExceeded reason)
  | .noCandidates => ∃ reason, e = .failed (.noCandidates reason)

/-- The setup has just ended with its result. -/
def Ended (w : Overlay) (t₀ : TaskId) (goal : SetupResult) : Prop :=
  ∃ e, w.exit? t₀ = some e ∧ w.Gives e goal

/-- A round is under way that comes to its result. -/
def Pursues (w : Overlay) (t₀ : TaskId) (succeeds : PeerAddress → Bool) (goal : SetupResult)
    (r : Round) (as : List TaskId) : Prop :=
  ∃ draws, w.Crewed t₀ r as draws ∧ 0 < r.wanted ∧
    (∀ task : Task, w.tasks[t₀]? = some task →
      ∃ manual maxFail, task.job = .setup manual maxFail (.settling r as)) ∧
    r.awaits draws succeeds (w.manager.config.joinPolicy.required r.wanted) = goal

/-- The crew has just been started. -/
def Fresh (w : Overlay) (as : List TaskId) : Prop :=
  as ≠ [] ∧ ∀ g ∈ as, ∃ slot p, w.Pends g (.guardAttempt slot p none) 0

/-- The setup has ended with its result, or has started a crew and has fewer candidates left. -/
def Reaches (w : Overlay) (t₀ : TaskId) (succeeds : PeerAddress → Bool) (goal : SetupResult)
    (left : Nat) : Prop :=
  w.Ended t₀ goal ∨ w.isFinished t₀ = false ∧ ∃ r as, r.candidates.length < left ∧ w.Fresh as ∧
    w.Pursues t₀ succeeds goal r as

theorem gives_satisfied (w : Overlay) (t : TaskId) :
    (w.finish t (.relays (w.views w.pooled))).Gives (.relays (w.views w.pooled)) .satisfied := by
  have hview : ∀ e, (w.finish t e).view? = w.view? := by
    intro e
    funext s
    rw [view?, view?, relays_finish]
  simp only [Gives, views, hview, pooled, manager_finish]

theorem fresh_staffed (hexits : ∀ x ∈ w.exits, x.1 < w.tasks.length) (ht : t₀ < w.tasks.length)
    (hd : r.draws ≠ []) :
    (w.staffed t₀ manual maxFail r).Fresh (List.range' w.tasks.length r.draws.length) := by
  refine ⟨by simpa using hd, fun g hg => ?_⟩
  obtain ⟨hle, hlt⟩ := List.mem_range'_1.mp hg
  have hne := Nat.ne_of_gt (Nat.lt_of_lt_of_le ht hle)
  have hi := Nat.sub_lt_left_of_lt_add hle hlt
  refine ⟨r.draws[g - w.tasks.length].1, r.draws[g - w.tasks.length].2,
    ⟨⟨.guardAttempt _ _ none, some t₀, false⟩, ?_, rfl⟩, ?_, .inl ?_⟩
  · rw [staffed_tasks _ _ _ _ _ _ hne, List.getElem?_append_right hle, List.getElem?_map,
      List.getElem?_eq_getElem hi]
    rfl
  · exact (w.isFinished_staffed _ _ _ _ g).trans
      (not_isFinished_of_le hexits hle)
  · simp only [staffed, setJob, spawnAll_eq, List.length_map]
    exact List.mem_append_right _ hg

theorem takeTurn_reaches (succeeds : PeerAddress → Bool) (hu : w.Unstaffed)
    (hf : w.isFinished t₀ = false) (hexits : ∀ x ∈ w.exits, x.1 < w.tasks.length)
    (hr : w.role? t₀ = some (.setup manual maxFail)) (hup : w.manager.isShutDown = false)
    (hp : w.Poised r) (hw : 0 < r.wanted) : (w.takeTurn t₀ manual maxFail r).Reaches t₀ succeeds
      (r.result succeeds (w.manager.config.joinPolicy.required r.wanted)) r.candidates.length := by
  have hpub : w.publish.isFinished t₀ = false := hf
  rw [takeTurn_eq, r.result_eq]
  split_ifs with _ hd
  · exact .inl ⟨_, exit?_finish_self hpub _, _, rfl⟩
  · exact .inl ⟨_, exit?_finish_self hpub _, _, rfl⟩
  · have hcrew := crewed_staffed hu hexits hr hup hp
    exact .inr ⟨(w.isFinished_staffed _ _ _ _ t₀).trans hf, _, _,
      Round.length_drop_draws_lt hd, fresh_staffed hexits (lt_of_role? hr) hd, _, hcrew, hw,
      fun task ht => ⟨manual, maxFail, job_of_setJob ht⟩, by rw [manager_staffed]; rfl⟩

/-- When all of the crew have ended, those whose candidates succeed have brought a relay. -/
theorem Solo.countP_hasJoined (h : w.Solo t₀ succeeds) (hs : w.Sound)
    (hc : w.Crewed t₀ r as draws) (hall : ∀ g ∈ as, w.isFinished g = true) :
    as.countP w.hasJoined = (draws.map Prod.snd).countP succeeds := by
  refine hc.assigned.countP_hasJoined (fun g hg => hc.told h.going g hg (hall g hg)) ?_
  intro g hg a q hgu hfa
  exact h.fates a q (hc.younger hs.toLinked hg hgu) (hs.toLinked.attempt_of_guards hgu).role? hfa

/-- When all of the crew have ended, the round is judged as its reference is. -/
theorem Solo.judge_reaches (h : w.Solo t₀ succeeds) (hs : w.Sound) (hc : w.Crewed t₀ r as draws)
    (hw : 0 < r.wanted) (hr : w.role? t₀ = some (.setup manual maxFail))
    (hall : ∀ g ∈ as, w.isFinished g = true) :
    (w.judge t₀ manual maxFail r as).Reaches t₀ succeeds
      (r.awaits draws succeeds (w.manager.config.joinPolicy.required r.wanted))
      r.candidates.length := by
  have hfilled := hc.assigned.filled_settle hs fun g hg => hc.told h.going g hg (hall g hg)
  have hcount := h.countP_hasJoined hs hc hall
  have hwanted := r.wanted_settle (w.endings as)
  have hdown : w.isTornDown = false := by simp [isTornDown, hc.up, h.upright]
  have hpub : w.publish.isFinished t₀ = false := h.going
  rw [judge_eq, Round.awaits_eq (hcount ▸ hfilled) (s := w.grievance r as), hdown]
  simp only [Round.isSatisfied, JoinPolicy.isSatisfied, hwanted, hw, decide_true, Bool.true_and,
    decide_eq_true_eq, Bool.false_eq_true, if_false]
  split
  · exact .inl ⟨_, exit?_finish_self hpub _, gives_satisfied _ t₀⟩
  · have hretry : ((r.settle (w.endings as)).retry (w.grievance r as)).wanted = r.wanted := hwanted
    have hnext := takeTurn_reaches (r := (r.settle (w.endings as)).retry (w.grievance r as))
      succeeds (hc.unstaffed h.going hall) h.going hs.exits hr hc.up
      (hc.poised hs h.going hall _) (hretry ▸ hw)
    rw [hretry] at hnext
    exact r.candidates_settle _ ▸ hnext

/-! ## Polls -/

theorem Solo.rest (h : w.Solo t₀ succeeds) (t : TaskId) :
    ({ w with ready := w.ready.erase t } : Overlay).Solo t₀ succeeds :=
  { h with
    lone := ⟨h.lone.call, h.lone.honest, h.lone.course, h.lone.alone, h.lone.staff.rest t⟩ }

theorem Solo.resume (h : w.Solo t₀ succeeds) {task : Task} (ht : w.tasks[t₀]? = some task) :
    w.poll t₀ = ({ w with ready := w.ready.erase t₀ } : Overlay).resume t₀ task.job := by
  obtain ⟨manual, maxFail, hr⟩ := h.lone.call
  obtain ⟨task', ht', hrole⟩ := role?_eq_some.mp hr
  obtain rfl := Option.some.inj (ht.symm.trans ht')
  exact poll_resume ht h.going (h.steady t₀ task ht (by simp [hrole, Role.isFirm]))

/-- What the setup does itself leaves it alone, unless it ends. -/
theorem Solo.poll_self (h : w.Solo t₀ succeeds) (hs : w.Sound)
    (hgo : (w.poll t₀).isFinished t₀ = false) : (w.poll t₀).Solo t₀ succeeds := by
  have hm := hs.poll_turns t₀
  obtain ⟨manual, maxFail, hr⟩ := h.lone.call
  refine h.turns hs hm h.lone.lt h.going (h.lone.poll_setup hs h.going) hgo ?_ ?_
  · intro task q s htask hj _
    exact absurd ((Grows.turns hm).role_of_job hr htask hj) (by simp [Job.role])
  · intro q hq
    exact absurd (hr.symm.trans hq) (by simp)

theorem Pursues.job (h : w.Pursues t₀ succeeds goal r as) (ht : t₀ < w.tasks.length) :
    ∃ (task : Task) (manual : List PeerAddress) (maxFail : Nat), w.tasks[t₀]? = some task ∧
      task.job = .setup manual maxFail (.settling r as) := by
  obtain ⟨draws, -, -, hj, -⟩ := h
  obtain ⟨manual, maxFail, hjob⟩ := hj _ (List.getElem?_eq_getElem ht)
  exact ⟨_, manual, maxFail, List.getElem?_eq_getElem ht, hjob⟩

/-- A step that leaves the crew in place leaves the round under way. -/
theorem Pursues.keep (h : u.Pursues t₀ succeeds goal r as) (hg : u.Grows v)
    (hcrew : ∀ {draws}, u.Crewed t₀ r as draws → v.Crewed t₀ r as draws)
    (hjob : ∀ task : Task, v.tasks[t₀]? = some task →
      ∃ before : Task, u.tasks[t₀]? = some before ∧ task.job = before.job) :
    v.Pursues t₀ succeeds goal r as := by
  obtain ⟨draws, hc, hw, hj, hgoal⟩ := h
  refine ⟨draws, hcrew hc, hw, fun task ht => ?_, by rw [hg.config]; exact hgoal⟩
  obtain ⟨before, hb, he⟩ := hjob task ht
  rw [he]
  exact hj before hb

/-- What happens when the setup does not go on itself leaves it alone, and its crew in place. -/
theorem Solo.still (h : w.Solo t₀ succeeds) (hs : w.Sound) {x : Act} (hx : x.isAside t₀ = true)
    (hno : x = .poll t₀ → t₀ ∉ w.ready) : (w.act x).Solo t₀ succeeds ∧
      ∀ {r as draws}, w.Crewed t₀ r as draws → (w.act x).Crewed t₀ r as draws := by
  rcases w.poll_cases x with ⟨t, ht, rfl, hv⟩ | ⟨t, -, rfl, hv⟩ | hpoll
  · rw [hv]
    exact h.poll_other hs ht fun he => hno (by rw [he]) (he ▸ ht)
  · rw [hv]
    exact ⟨h, id⟩
  · exact h.beside hs hx hpoll

/-- The setup waits for its crew. -/
theorem Solo.waits (h : w.Solo t₀ succeeds) (hs : w.Sound)
    (hp : w.Pursues t₀ succeeds goal r as) {x : Act} (hx : x.isAside t₀ = true)
    (hwait : x = .poll t₀ → t₀ ∈ w.ready → ∃ g ∈ as, w.isFinished g = false) :
    (w.act x).Solo t₀ succeeds ∧ (w.act x).Pursues t₀ succeeds goal r as := by
  by_cases hself : x = .poll t₀ ∧ t₀ ∈ w.ready
  · obtain ⟨rfl, hready⟩ := hself
    obtain ⟨g, hg, hgo⟩ := hwait rfl hready
    obtain ⟨task, manual, maxFail, ht, hj⟩ := hp.job h.lone.lt
    have hall : (as.all ({ w with ready := w.ready.erase t₀ } : Overlay).isFinished) = false :=
      List.all_eq_false.mpr ⟨g, hg, Bool.eq_false_iff.mp hgo⟩
    rw [Overlay.act, if_pos hready, h.resume ht, hj, Overlay.resume, pollSetup, hall]
    refine ⟨h.rest t₀, hp.keep { Grows.refl w with } (fun hc => { hc with }) fun task ht => ?_⟩
    exact ⟨task, ht, rfl⟩
  · have hno : x = .poll t₀ → t₀ ∉ w.ready := fun he hready => hself ⟨he, hready⟩
    obtain ⟨hv, hcrew⟩ := h.still hs hx hno
    refine ⟨hv, hp.keep (hs.grows_act x) hcrew ?_⟩
    by_cases he : x = .poll t₀
    · rw [he, Overlay.act, if_neg (hno he)]
      exact fun task ht => ⟨task, ht, rfl⟩
    · exact (hs.still_act he h.lone.lt).1

/-- When the crew has ended, the setup judges the round. -/
theorem Solo.judges (h : w.Solo t₀ succeeds) (hs : w.Sound)
    (hp : w.Pursues t₀ succeeds goal r as) (hall : ∀ g ∈ as, w.isFinished g = true) :
    (w.poll t₀).Reaches t₀ succeeds goal r.candidates.length := by
  obtain ⟨task, manual, maxFail, ht, hj⟩ := hp.job h.lone.lt
  obtain ⟨draws, hc, hw, -, rfl⟩ := hp
  have hc' : ({ w with ready := w.ready.erase t₀ } : Overlay).Crewed t₀ r as draws := { hc with }
  have hall' : (as.all ({ w with ready := w.ready.erase t₀ } : Overlay).isFinished) = true :=
    List.all_eq_true.mpr hall
  rw [h.resume ht, hj, Overlay.resume, pollSetup, if_pos hall']
  refine (h.rest t₀).judge_reaches (hs.rest t₀) hc' hw ?_ hall
  exact role?_eq_some.mpr ⟨task, ht, by rw [hj]; rfl⟩

/-! ## The opening -/

/-- The setup has not collected its candidates yet. -/
def Opening (w : Overlay) (t₀ : TaskId) (manual : List PeerAddress) (maxFail : Nat) : Prop :=
  ∃ (task : Task) (stage : SetupStage), w.tasks[t₀]? = some task ∧
    task.job = .setup manual maxFail stage ∧ stage.isEarly = true

/-- The setup goes on, and collects its candidates in this poll. -/
def Collects (w : Overlay) (t₀ : TaskId) (manual : List PeerAddress) (maxFail : Nat) : Prop :=
  w.manager.isShutDown = false ∧ ∃ v, w.Reserves v ∧ w.poll t₀ = v.collect t₀ manual maxFail

/-- What a setup comes to that has collected its candidates. -/
def prospect (w : Overlay) (manual : List PeerAddress) (maxFail : Nat) : SetupResult :=
  let wanted := min w.manager.pool.remaining (w.found manual).length
  reference w.yields wanted (w.manager.config.joinPolicy.required wanted) maxFail 0 0
    (w.found manual)

/-- Before it has collected its candidates, nobody works for the setup. -/
theorem Opening.staff (h : w.Opening t₀ manual maxFail) (hs : w.Solo t₀ succeeds) :
    w.Unstaffed ∧ ∃ (task : Task) (stage : SetupStage), w.tasks[t₀]? = some task ∧
      task.job = .setup manual maxFail stage ∧ stage.isEarly = true ∧
      (stage = .entering ∨ w.manager.isShutDown = false) := by
  obtain ⟨task, stage, ht, hj, hearly⟩ := h
  cases hs.lone.staff with
  | none hu hjob =>
    obtain ⟨manual', maxFail', stage', hj', -, hup⟩ := hjob hs.going task ht
    rw [hj] at hj'
    injection hj' with hm hf hst
    exact ⟨hu, task, stage, ht, hj, hearly, hst ▸ hup⟩
  | crew r as draws hc hjob =>
    obtain ⟨manual', maxFail', hj'⟩ := hjob hs.going task ht
    rw [hj] at hj'
    injection hj' with hm hf hst
    exact absurd hearly (by simp [hst, SetupStage.isEarly])

/-- A setup that finds candidates and room starts the round that comes to its result. -/
theorem Solo.collect (h : w.Solo t₀ succeeds) (hs : w.Sound) (ho : w.Opening t₀ manual maxFail)
    (hc : w.Collects t₀ manual maxFail) (hfound : w.found manual ≠ [])
    (hroom : 0 < w.manager.pool.remaining) :
    (w.poll t₀).Reaches t₀ succeeds (w.prospect manual maxFail) (w.found manual).length := by
  obtain ⟨hu, task, stage, ht, hj, -⟩ := ho.staff h
  obtain ⟨hup, x, hx, hv⟩ := hc
  have hk : w.Kept (x.collected t₀ manual) := hx.kept.trans (x.kept_collected t₀ manual)
  have hf := (hk.isFinished t₀).trans h.going
  have hr : (x.collected t₀ manual).role? t₀ = some (.setup manual maxFail) :=
    (hk.role? t₀).trans (role?_eq_some.mpr ⟨task, ht, by rw [hj]; rfl⟩)
  have hremain : (x.collected t₀ manual).manager.pool.remaining = w.manager.pool.remaining := by
    rw [hk.pool]
  have hwanted := Round.wanted_start w.manager.pool.remaining (w.found manual) maxFail
  have hpos : 0 < min w.manager.pool.remaining (w.found manual).length :=
    Nat.lt_min.mpr ⟨hroom, List.length_pos_iff.mpr hfound⟩
  obtain ⟨hn, hfree⟩ := w.found_spec manual
  have hpoised := poised_start (w := x.collected t₀ manual) (hk.pool ▸ hs.pool) hn
    (hk.pool ▸ hfree) maxFail
  rw [hremain] at hpoised
  rw [hv, collect_eq, hx.found]
  simp only [startRound, hremain]
  rw [if_neg (by rw [hwanted]; exact Nat.ne_of_gt hpos)]
  have hturn := takeTurn_reaches succeeds
    (r := Round.start w.manager.pool.remaining (w.found manual) maxFail) (hk.unstaffed hu) hf
    (hk.ends hs.exits) hr (hk.up.trans hup) hpoised (hwanted ▸ hpos)
  rw [hk.config, hwanted] at hturn
  simp only [Round.result, hwanted, Round.filled_start] at hturn
  simp only [prospect, h.yields]
  exact hturn

end Overlay

end RelayUpkeep
