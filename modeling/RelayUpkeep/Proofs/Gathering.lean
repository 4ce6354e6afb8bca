import RelayUpkeep.Proofs.Fates
import RelayUpkeep.Proofs.Staying

/-! # What a setup that runs alone brings together

As long as no relay is lost, the pool of a manager that one setup works for holds those whom it held
before, and those whom the attempts of the setup have brought. A relay joins the pool when an
attempt succeeds, and only then. The relays in the pool are what the setup returns. -/

namespace RelayUpkeep.Overlay

variable {t t₀ a : TaskId} {u v w : Overlay} {q : PeerAddress} {y : Act} {ids : List PeerId}
  {x : PeerId} {succeeds : PeerAddress → Bool} {r : Round} {as : List TaskId}
  {draws : List (Nat × PeerAddress)} {manual : List PeerAddress} {maxFail : Nat}
  {stage : SetupStage} {views : List RelayView}

/-! ## The pool without losses -/

/-- The peers of the pooled relays. -/
def pooledPeers (w : Overlay) : List PeerId := w.manager.pool.members.map fun m => m.address.id

theorem Sound.nodup_pooledPeers (h : w.Sound) : w.pooledPeers.Nodup := h.pool.peers

/-- No relay was lost in between. -/
def Lossless (u v : Overlay) : Prop := ∀ r, v.isLost r = true → u.isLost r = true

theorem Sound.members_prefix (h : w.Sound) (hup : (w.act y).manager.isShutDown = false)
    (hl : w.Lossless (w.act y)) :
    w.manager.pool.members <+: (w.act y).manager.pool.members := by
  have hu : w.Untroubled (fun _ => false) (w.act y) :=
    ⟨hup, fun r hr => .inl (hl r hr), fun r hr => absurd hr (by simp)⟩
  simpa [staying] using (h.retains_act hu).staying

/-- Only attempts have relays join the pool. -/
theorem Turns.members_sublist (h : Turns t u v) (hlt : t < u.tasks.length)
    (hr : ∀ q, u.role? t ≠ some (.attempt q)) :
    v.manager.pool.members.Sublist u.manager.pool.members := by
  refine h.keep (P := fun x => x.manager.pool.members.Sublist u.manager.pool.members) hlt
    (.refl _) (fun x y hx hrole hm => ?_) fun x e hx => ?_
  · cases hm.pool with
    | same hp => rwa [hp]
    | joined hq => exact absurd (hrole ▸ hq) (hr _)
    | lost _ hp =>
      rw [hp]
      exact List.eraseP_sublist.trans hx
    | cleared _ _ hp =>
      rw [hp]
      exact List.nil_sublist _
  · rwa [manager_finish]

/-- Where no attempt goes on, the pool stays as it is. -/
theorem Sound.pooledPeers_act (h : w.Sound) (hup : (w.act y).manager.isShutDown = false)
    (hl : w.Lossless (w.act y)) (hno : ∀ a q, y = .poll a → a ∈ w.ready →
      w.isFinished a = false → w.role? a ≠ some (.attempt q)) :
    (w.act y).pooledPeers = w.pooledPeers := by
  have hsublist : (w.act y).manager.pool.members.Sublist w.manager.pool.members := by
    rcases w.poll_cases y with ⟨a, ha, rfl, he⟩ | ⟨a, -, rfl, he⟩ | hp
    · rw [he]
      cases hf : w.isFinished a with
      | true => rw [poll_finished hf]
      | false => exact (h.poll_turns a).members_sublist (h.ready a ha) fun q => hno a q rfl ha hf
    · rw [he]
    · rw [(quiet_act hp).1]
  have hsame := hsublist.antisymm (h.members_prefix hup hl).sublist
  rw [pooledPeers, hsame, pooledPeers]

/-! ## What attempts bring -/

/-- An attempt of the crew that goes on succeeds and brings its peer, or does neither. -/
theorem Crewed.brings (h : u.Crewed t₀ r as draws) (hs : u.Sound) {k : Course}
    (hr : u.role? t = some (.attempt q)) (hf : u.isFinished t = false)
    (hend : ∀ e, k.ends e → e.isFailure = true) (hoffer : ∀ p, k.offers p → p.id = q.id)
    (ha : Attempts t q k u v) :
    v.succeeded t = false ∧ v.pooledPeers = u.pooledPeers ∨
      v.succeeded t = true ∧ v.pooledPeers = u.pooledPeers ++ [q.id] := by
  cases ha with
  | @waits x _ s delay hst hj hkx hd he =>
    have hsleep : Stir t x (x.sleep t (.attempt q s) delay) := .sleep x _ delay (hst.role? hr) hj hd
    have hmoves := hst.tail hsleep
    have hfv := (Stirs.isFinished hmoves t).trans hf
    subst he
    left
    constructor
    · exact Bool.eq_false_iff.mpr fun hsucc =>
        absurd (isFinished_of_succeeded hsucc) (by simp [hfv])
    · rw [pooledPeers, (Calm.stirs hmoves).pool, pooledPeers]
  | @ends x _ e hst hkx he =>
    have hfx := (hst.isFinished t).trans hf
    subst he
    left
    constructor
    · simp [succeeded, exit?_finish_self hfx e, hend e hkx]
    · rw [pooledPeers, manager_finish, (Calm.stirs hst).pool, pooledPeers]
  | @accept x z _ new p hst hm hkx hv he =>
    have hmove : Move t x (z.admitted new p) := .accept (hst.role? hr) hm hv
    have hfz := (hmove.isFinished t).trans
      ((hst.isFinished t).trans hf)
    subst he
    right
    constructor
    · rw [succeeded, exit?_finish_self hfz]
      rfl
    · rw [pooledPeers, manager_finish, admitted_pool, hm.manager, (Calm.stirs hst).pool,
        List.map_append, pooledPeers, List.map_singleton, hoffer p hkx]
  | refuse hst hm hkx hv _ => exact absurd (h.accepted hs hr hf hst (hoffer _ hkx)) hv

/-- An attempt for setup `t` has succeeded, and its candidate is the peer `x`. -/
def Brings (t : TaskId) (x : PeerId) (w : Overlay) : Prop :=
  ∃ a q, w.TriesFor t a q ∧ w.succeeded a = true ∧ q.id = x

theorem Brings.mono (h : u.Brings t x) (hg : u.Grows v) : v.Brings t x := by
  obtain ⟨a, q, htry, hsucc, hid⟩ := h
  exact ⟨a, q, htry.mono hg, hg.succeeded hsucc, hid⟩

/-- Whoever is brought was brought before, or by an attempt that has just gone on. -/
theorem Sound.brings_act (h : w.Sound) (hx : (w.act y).Brings t x) : w.Brings t x ∨
    ∃ a q, y = .poll a ∧ a ∈ w.ready ∧ w.isFinished a = false ∧ w.role? a = some (.attempt q) ∧
      (w.act y).succeeded a = true ∧ q.id = x := by
  obtain ⟨a, q, htry, hsucc, hid⟩ := hx
  have hlt : a < w.tasks.length := by
    by_contra hnew
    exact absurd (isFinished_of_succeeded hsucc)
      (by simp [h.new_act y (Nat.le_of_not_lt hnew)])
  have hback := htry.back (h.act y).toLinked (h.grows_act y) hlt
  by_cases hself : y = .poll a ∧ a ∈ w.ready ∧ w.isFinished a = false
  · exact .inr ⟨a, q, hself.1, hself.2.1, hself.2.2, hback.role?, hsucc, hid⟩
  · rw [succeeded, (h.idle_act hlt hself).2] at hsucc
    exact .inl ⟨a, q, hback, hsucc, hid⟩

/-- When one setup works for the manager, all attempts are for it. -/
theorem Solo.triesFor (h : w.Solo t₀ succeeds) (hs : w.Sound) (hr : w.role? a = some (.attempt q))
    (hf : w.isFinished a = false) : w.TriesFor t₀ a q := by
  obtain ⟨r, as, draws, hc, -⟩ := h.lone.crewed hr rfl hf
  obtain ⟨g, hg, hgu⟩ := hc.attempts a q hr hf
  obtain ⟨d, -, hplays⟩ := hc.draw hg
  obtain ⟨slot, hrole⟩ := hgu.role?
  obtain ⟨-, rfl⟩ : d.1 = slot ∧ d.2 = q := by simpa [hplays.role?] using hrole
  exact ⟨g, d.1, hplays, hs.toLinked.attempt_of_guards hgu⟩

/-- The pool holds the peers `ids`, and those that attempts for setup `t` have brought. -/
def Gathers (t : TaskId) (ids : List PeerId) (w : Overlay) : Prop :=
  ∀ x, x ∈ w.pooledPeers ↔ x ∈ ids ∨ w.Brings t x

theorem gathers_of_untried (h : ∀ g slot p, ¬w.Plays g (.guard slot p) (some t)) :
    w.Gathers t w.pooledPeers := by
  refine fun x => ⟨.inl, fun hx => hx.resolve_right ?_⟩
  rintro ⟨a, q, ⟨g, slot, hp, -⟩, -⟩
  exact h g slot q hp

theorem Gathers.act (h : w.Gathers t₀ ids) (hs : w.Sound) (hsolo : w.Solo t₀ succeeds)
    (hup : (w.act y).manager.isShutDown = false) (hl : w.Lossless (w.act y)) :
    (w.act y).Gathers t₀ ids := by
  intro x
  have hg := hs.grows_act y
  by_cases hattempt : ∃ a q, y = .poll a ∧ a ∈ w.ready ∧ w.isFinished a = false ∧
    w.role? a = some (.attempt q)
  · obtain ⟨a, q, rfl, hready, hf, hr⟩ := hattempt
    obtain ⟨r, as, draws, hc, -⟩ := hsolo.lone.crewed hr rfl hf
    have hact : w.act (.poll a) = w.poll a := by rw [Overlay.act, if_pos hready]
    have hbrings := hc.brings (k := fatefulCourse succeeds q) hs hr hf (fun _ he => he.1)
      (fun _ hp => hp.1) (hsolo.attempts hs hr hf)
    rw [← hact] at hbrings
    rcases hbrings with ⟨hno, hpool⟩ | ⟨hyes, hpool⟩
    · rw [hpool, h x]
      refine or_congr_right ⟨fun hx => hx.mono hg, fun hx => (hs.brings_act hx).resolve_right ?_⟩
      rintro ⟨b, q', he, -, -, -, hsucc, -⟩
      obtain rfl := Act.poll.inj he
      exact absurd hsucc (by simp [hno])
    · rw [hpool, List.mem_append, List.mem_singleton, h x, or_assoc]
      refine or_congr_right ⟨?_, fun hx => (hs.brings_act hx).imp id ?_⟩
      · rintro (hx | rfl)
        · exact hx.mono hg
        · exact ⟨a, q, (hsolo.triesFor hs hr hf).mono hg, hyes, rfl⟩
      · rintro ⟨b, q', he, -, -, hr', -, hid⟩
        obtain rfl := Act.poll.inj he
        obtain rfl : q = q' := by simpa [hr] using hr'
        exact hid.symm
  · rw [hs.pooledPeers_act hup hl fun a q he hr hf hrole => hattempt ⟨a, q, he, hr, hf, hrole⟩, h x]
    refine or_congr_right ⟨fun hx => hx.mono hg, fun hx => (hs.brings_act hx).resolve_right ?_⟩
    rintro ⟨b, q', he, hready, hf, hr, -⟩
    exact hattempt ⟨b, q', he, hready, hf, hr⟩

theorem mem_drawn : q ∈ w.drawn t ↔ ∃ g slot, w.Plays g (.guard slot q) (some t) := by
  constructor
  · intro hq
    obtain ⟨g, -, hg⟩ := List.mem_filterMap.mp hq
    obtain ⟨slot, hp⟩ := draw?_eq_some.mp hg
    exact ⟨g, slot, hp⟩
  · rintro ⟨g, slot, hp⟩
    exact List.mem_filterMap.mpr
      ⟨g, List.mem_range.mpr (lt_of_role? hp.role?), draw?_eq_some.mpr ⟨slot, hp⟩⟩

/-- When the crew of an iteration has ended, the setup has brought those whom it has drawn and who
succeed. -/
theorem Gathers.brought (h : w.Gathers t ids) (hs : w.Sound) (hm : w.Mustered)
    (hj : w.job? t = some (.setup manual maxFail (.settling r as)))
    (hf : w.isFinished t = false) (hall : ∀ g ∈ as, w.isFinished g = true)
    (hfate : w.Fated t succeeds) (x : PeerId) :
    x ∈ w.pooledPeers ↔ x ∈ ids ∨ ∃ q ∈ w.drawn t, succeeds q = true ∧ q.id = x := by
  rw [h x]
  refine or_congr_right ⟨?_, ?_⟩
  · rintro ⟨a, q, htry, hsucc, hid⟩
    obtain ⟨g, slot, hguard, -⟩ := id htry
    refine ⟨q, mem_drawn.mpr ⟨g, slot, hguard⟩, ?_, hid⟩
    rw [← hfate a q htry (isFinished_of_succeeded hsucc), hsucc]
  · rintro ⟨q, hq, hsucc, hid⟩
    obtain ⟨g, slot, hguard⟩ := mem_drawn.mp hq
    have hfg : w.isFinished g = true :=
      (hm.crew t manual maxFail r as hj hf g slot q hguard).elim (hall g) id
    rcases hm.told t g slot q hguard hfg with hx | ⟨a, hga, hfa⟩
    · exact absurd (isFinished_of_exit? hx) (by simp [hf])
    · have htry : w.TriesFor t a q := ⟨g, slot, hguard, hs.toLinked.attempt_of_guards hga⟩
      exact ⟨a, q, htry, (hfate a q htry hfa).trans hsucc, hid⟩

/-! ## What a setup returns -/

/-- A setup that returns relays when it judges its round has the round satisfied, and returns those
in the pool. -/
theorem satisfied_of_judge (hf : w.isFinished t = false)
    (he : (w.judge t manual maxFail r as).exit? t = some (.relays views)) :
    (r.settle (w.endings as)).isSatisfied w.manager.config.joinPolicy = true ∧
      views = w.views w.pooled := by
  have hp : w.publish.isFinished t = false := hf
  rw [judge_eq] at he
  split at he
  · next hsat =>
    rw [exit?_finish_self hp] at he
    injection he with he
    injection he with hviews
    exact ⟨hsat, hviews.symm⟩
  · split at he
    · rw [exit?_finish_self hf] at he
      exact absurd he (by simp)
    · rcases w.takeTurn_cases t manual maxFail
        ((r.settle (w.endings as)).retry (w.grievance r as)) with ⟨e, hv⟩ | hv
      · rw [hv, exit?_finish_self hp] at he
        exact absurd he (by simp)
      · rw [hv, exit?, exits_staffed, ← exit?] at he
        exact absurd (isFinished_of_exit? he) (by simp [hf])

theorem Linked.peers_views (h : w.Linked) :
    ((w.views w.pooled).map fun view => view.address.id) = w.pooledPeers := by
  have haddresses := congrArg (List.map PeerAddress.id) h.addresses_views
  rw [Pool.addresses, List.map_map, List.map_map] at haddresses
  exact haddresses

/-- A setup that returns relays from its round has waited for all of its crew. -/
theorem returns_satisfied (hgo : w.going? t = some (.setup manual maxFail (.settling r as)))
    (he : (w.act (.poll t)).exit? t = some (.relays views)) :
    (∀ a ∈ as, w.isFinished a = true) ∧
      (r.settle (w.endings as)).isSatisfied w.manager.config.joinPolicy = true ∧
      views = w.views w.pooled := by
  obtain ⟨-, hf, -⟩ := going?_eq_some.mp hgo
  obtain ⟨hcause, -⟩ := (advances_act hgo).ended hf he
  cases hcause with
  | full hs => exact absurd hs (by simp [SetupStage.isEarly])
  | satisfied _ _ _ hall =>
    have hall' : as.all ({ w with ready := w.ready.erase t } : Overlay).isFinished = true :=
      List.all_eq_true.mpr hall
    rw [act_of_going hgo, resume, pollSetup, if_pos hall'] at he
    exact ⟨hall, satisfied_of_judge (w := { w with ready := w.ready.erase t }) hf he⟩

/-- When its round is over a setup returns the relays in the pool. If it finds the pool full it
returns none. -/
theorem returns_pool (hgo : w.going? t = some (.setup manual maxFail stage))
    (he : (w.act (.poll t)).exit? t = some (.relays views)) :
    (w.collects t = true ∧ w.manager.pool.remaining = 0 ∧ views = []) ∨
      ∃ r as, stage = .settling r as ∧ (∀ a ∈ as, w.isFinished a = true) ∧
        views = w.views w.pooled := by
  obtain ⟨-, hf, -⟩ := going?_eq_some.mp hgo
  obtain ⟨hcause, -⟩ := (advances_act hgo).ended hf he
  cases hcause with
  | full hs hsupplied hroom =>
    exact .inl ⟨collects_eq_true.mpr ⟨_, _, _, hgo, hsupplied⟩, hroom, rfl⟩
  | satisfied r as =>
    obtain ⟨hall, -, hviews⟩ := returns_satisfied hgo he
    exact .inr ⟨r, as, rfl, hall, hviews⟩

/-- A setup that finds the pool full ends at once. -/
theorem ends_of_full (hc : w.collects t = true) (hroom : w.manager.pool.remaining = 0) :
    (w.act (.poll t)).isFinished t = true := by
  obtain ⟨manual, maxFail, stage, hgo, hsupplied⟩ := collects_eq_true.mp hc
  have hearly := isEarly_of_supplied hsupplied
  have hadv := advances_act hgo
  generalize w.act (.poll t) = v at hadv
  cases hadv with
  | rests _ hn | waits _ _ _ _ _ hn => exact absurd (hn.symm.trans hsupplied) (by simp)
  | ends => exact isFinished_finish _ _ _
  | draws hk hnext _ hdraws =>
    cases hnext with
    | first =>
      refine absurd (List.eq_nil_of_length_eq_zero ?_) hdraws
      rw [Round.length_draws, Round.wanted_start, hroom]
      simp
    | again => exact absurd hearly (by simp [SetupStage.isEarly])

end RelayUpkeep.Overlay
