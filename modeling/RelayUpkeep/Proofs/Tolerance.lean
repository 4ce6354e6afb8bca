import RelayUpkeep.Proofs.Gathering

/-! # More tolerance never hurts

Two calls that find the same candidates, who succeed in the one as in the other, come to what is
foreseen of them. So the more tolerant of the two is satisfied if the other is, and whom the one
tries tells whom the other does. -/

namespace RelayUpkeep

namespace Overlay

/-! ## Calls -/

/-- A call that is made after some acts, and what happens from then on. -/
structure Call where
  config : RelayConfig
  mine : PeerAddress
  before : List Act
  manual : List PeerAddress
  maxFail : Nat
  acts : Nat → Act

namespace Call

variable {c d : Call} {succeeds : PeerAddress → Bool} {i j m n : Nat} {e : Exit}

/-- The state in which the call is made. -/
def prior (c : Call) : Overlay := (start c.config c.mine).run c.before

def task (c : Call) : TaskId := c.prior.tasks.length

def made (c : Call) : Overlay := c.prior.act (.setUp c.manual c.maxFail)

def state (c : Call) (n : Nat) : Overlay := c.made.after c.acts n

theorem sound_prior (c : Call) : c.prior.Sound := sound_run (sound_start c.config c.mine) c.before

theorem sound (c : Call) : c.made.Sound := c.sound_prior.act _

theorem grows (c : Call) (hmn : m ≤ n) : (c.state m).Grows (c.state n) :=
  c.sound.grows_after c.acts hmn

theorem called (c : Call) (n : Nat) : (c.state n).Called c.task c.manual c.maxFail := by
  rw [state, after_eq_run]
  exact (called_setUp c.config c.mine c.before c.manual c.maxFail).1.run _

theorem balanced (c : Call) (n : Nat) : ((c.state n).itinerary c.task).Balanced
    ((c.state n).exit? c.task ≠ some .cancelled) := by
  obtain ⟨hcalled, -, hnone⟩ := called_setUp c.config c.mine c.before c.manual c.maxFail
  rw [state, after_eq_run]
  refine hcalled.balanced_run ?_ _
  rw [hnone]
  exact ⟨[], .refl _, .inl rfl⟩

theorem candid (c : Call) (n : Nat) : (c.state n).Candid := by
  have hrun : c.state n = (start c.config c.mine).run
      (c.before ++ [.setUp c.manual c.maxFail] ++ (List.range n).map c.acts) := by
    rw [run_append, run_concat, ← after_eq_run]
    rfl
  rw [hrun]
  exact candid_run _ _ _

theorem config_state (c : Call) (n : Nat) : (c.state n).manager.config = c.config := by
  have hprior : (start c.config c.mine).Grows c.prior :=
    grows_run (sound_start c.config c.mine) c.before
  have hmade : c.prior.Grows c.made := c.sound_prior.grows_act _
  exact ((hprior.trans hmade).trans (c.grows (Nat.zero_le n))).config

theorem not_finished_made (c : Call) : (c.state 0).isFinished c.task = false :=
  c.sound_prior.new_act _ (Nat.le_refl _)

/-- The call goes on: it is not given up and its node is not torn down meanwhile, it collects its
candidates at moment `m`, and its attempts succeed as `succeeds` tells. -/
structure Proceeds (c : Call) (succeeds : PeerAddress → Bool) (m : Nat) : Prop where
  kept : ∀ n, c.acts n ≠ .cancel c.task
  turn : c.acts m = .poll c.task
  collects : (c.state m).collects c.task = true
  up : ∀ n, (c.state n).isFinished c.task = false → (c.state n).isTornDown = false
  fated : ∀ n, (c.state n).isFinished c.task = false → (c.state n).Fated c.task succeeds

/-- What is foreseen of a call that collects its candidates at moment `m`. -/
def prospect (c : Call) (succeeds : PeerAddress → Bool) (m : Nat) : SetupResult :=
  (c.state m).outlook succeeds c.manual c.maxFail

/-- Whom such a call is foreseen to try. -/
def tour (c : Call) (succeeds : PeerAddress → Bool) (m : Nat) : List PeerAddress :=
  (c.state m).tour succeeds c.manual c.maxFail

namespace Proceeds

variable (h : c.Proceeds succeeds m)

include h

theorem steady (n : Nat) : (c.state n).Steady c.task := by
  induction n with
  | zero =>
    rintro a task ht rfl
    have hself : (c.state 0).tasks[c.task]? =
        some ⟨.setup c.manual c.maxFail .entering, none, false⟩ := List.getElem?_concat_length
    rw [Option.some.inj (ht.symm.trans hself)]
  | succ n ih => exact (c.called n).sound.steady_act ih (c.called n).role rfl (h.kept n)

/-- When the candidates are collected the call has not ended. -/
theorem not_finished : (c.state m).isFinished c.task = false := by
  obtain ⟨manual, maxFail, stage, hgo, -⟩ := collects_eq_true.mp h.collects
  exact (going?_eq_some.mp hgo).2.1

/-- A call that collects its candidates is on the way to what is foreseen of it. -/
theorem nearer : (c.state (m + 1)).ComesNearer c.task c.manual c.maxFail succeeds
    (c.prospect succeeds m) (c.tour succeeds m) ((c.state m).eligible c.manual).length := by
  have hm := c.called m
  have hnext := hm.sound.collects_nearer succeeds hm.mustered (h.steady m) hm.role
    (h.up m h.not_finished) h.collects
  rwa [← h.turn] at hnext

/-- It stays on the way until it has come there. -/
theorem follows (hmn : m < n) : (c.state n).HasCome c.task (c.prospect succeeds m)
    (c.tour succeeds m) ∨ ∃ r as draws, (c.state n).Bound c.task c.manual c.maxFail succeeds
      (c.prospect succeeds m) (c.tour succeeds m) r as draws := by
  induction hmn with
  | refl =>
    refine h.nearer.imp id ?_
    rintro ⟨r, as, draws, -, -, hb⟩
    exact ⟨r, as, draws, hb⟩
  | @step n _ ih =>
    have hn := c.called n
    rcases ih with hcome | ⟨r, as, draws, hb⟩
    · exact .inl (hcome.act hn.sound hn.role _)
    · exact hb.act hn.sound (c.candid n) (h.kept n) (h.up n hb.going) (h.fated n hb.going)

/-- In a fair run it comes there. -/
theorem ends (hfair : c.made.Fair c.acts) : ∃ n e, (c.state n).exit? c.task = some e := by
  obtain ⟨n, -, e, he, -⟩ :=
    hfair.bound_comes (n := m + 1) c.sound h.kept c.candid h.up h.fated h.nearer
  exact ⟨n, e, he⟩

/-- Whenever it has ended, it has come to what is foreseen of it, and has dialled everyone whom it
has drawn. -/
theorem ended (he : (c.state n).exit? c.task = some e) :
    e.result? = some (c.prospect succeeds m) ∧ (c.state n).drawn c.task = c.tour succeeds m ∧
      ((c.state n).dialled c.task).Perm ((c.state n).drawn c.task) := by
  have hf := isFinished_of_exit? he
  have hmn : m < n := by
    by_contra hnm
    exact absurd ((c.grows (Nat.le_of_not_lt hnm)).isFinished hf) (by simp [h.not_finished])
  rcases h.follows hmn with ⟨e', he', hresult, hdrawn⟩ | ⟨r, as, draws, hb⟩
  · obtain rfl := Option.some.inj (he.symm.trans he')
    refine ⟨hresult, hdrawn, (c.called n).all_tried (c.balanced n) he ?_⟩
    rintro rfl
    exact absurd hresult (by simp [Exit.result?])
  · exact absurd hf (by simp [hb.going])

/-- The step in which the call ends. -/
theorem ends_at (he : (c.state n).exit? c.task = some e) :
    ∃ k stage, m ≤ k ∧ c.acts k = .poll c.task ∧
      (c.state k).going? c.task = some (.setup c.manual c.maxFail stage) ∧
      (c.state (k + 1)).exit? c.task = some e := by
  induction n with
  | zero => exact absurd (isFinished_of_exit? he) (by simp [c.not_finished_made])
  | succ n ih =>
    have hn := c.called n
    have hg := hn.sound.grows_act (c.acts n)
    cases hf : (c.state n).isFinished c.task with
    | true =>
      obtain ⟨e', he'⟩ := Option.isSome_iff_exists.mp hf
      obtain rfl := Option.some.inj (he.symm.trans (hg.exit? he'))
      exact ih he'
    | false =>
      rcases goes_act (lt_of_role? hn.role) (c.acts n) with hidle | ⟨hpoll, job, hgo⟩ |
        ⟨-, -, -, -, task, ht, hc⟩
      · have hsame := (hn.sound.idle_act (lt_of_role? hn.role) hidle).2
        exact absurd (isFinished_of_exit? (hsame.symm.trans he)) (by simp [hf])
      · obtain ⟨stage, rfl⟩ :=
          Job.eq_setup (Option.some.inj ((role?_of_going hgo).symm.trans hn.role))
        refine ⟨n, stage, ?_, hpoll, hgo, he⟩
        by_contra hlt
        have hearly := (c.grows (Nat.lt_of_not_le hlt)).isFinished (isFinished_of_exit? he)
        exact absurd hearly (by simp [h.not_finished])
      · exact absurd ((h.steady n).task ht) (by simp [hc])

/-- Once the candidates are collected they are drawn in their order. -/
theorem drawsFrom (hmn : m < n) :
    (c.state n).DrawsFrom c.task ((c.state m).eligible c.manual) := by
  induction hmn with
  | refl =>
    have hm := c.called m
    have hnext := hm.sound.collects_drawsFrom hm.mustered hm.role h.collects
    rwa [← h.turn] at hnext
  | @step n _ ih => exact ih.act (c.called n).sound (c.called n).role (c.acts n)

end Proceeds

/-! ## Calls that run alone -/

/-- The call runs alone: nobody works for its manager when it is made, nor sets up or shuts down
later. The manager and its node are up, and each peer answers for itself, and as it did. -/
structure Alone (c : Call) : Prop where
  idle : c.prior.isIdle = true
  honest : c.prior.Honest
  node : c.prior.node.isDown = false
  manager : c.prior.manager.isShutDown = false
  aside : ∀ n, (c.acts n).isAside c.task = true

/-- No relay is lost while the call goes on. -/
def Lossless (c : Call) : Prop :=
  ∀ n, (c.state n).isFinished c.task = false → (c.state n).Lossless (c.state (n + 1))

namespace Alone

variable (h : c.Alone)

include h

theorem solo (hf : (c.state n).isFinished c.task = false) :
    (c.state n).Solo c.task c.prior.yields ∧ (c.state n).manager.isShutDown = false := by
  induction n with
  | zero =>
    exact ⟨solo_setUp c.sound_prior h.idle h.honest h.node c.manual c.maxFail, h.manager⟩
  | succ n ih =>
    have hs := (c.called n).sound
    obtain ⟨hsolo, hup⟩ := ih ((hs.grows_act (c.acts n)).unfinished hf)
    refine ⟨?_, (hsolo.isShutDown_act hs (c.acts n)).trans hup⟩
    by_cases hself : c.acts n = .poll c.task ∧ c.task ∈ (c.state n).ready
    · have hnext : c.state (n + 1) = (c.state n).poll c.task := after_poll hself.1 hself.2
      rw [hnext] at hf ⊢
      exact hsolo.poll_self hs hf
    · exact (hsolo.still hs (h.aside n) fun he hready => hself ⟨he, hready⟩).1

/-- The attempts of a call that runs alone succeed as its peers behave. -/
theorem proceeds (hturn : c.acts m = .poll c.task)
    (hcollects : (c.state m).collects c.task = true) : c.Proceeds c.prior.yields m where
  kept n he := by
    have haside := h.aside n
    rw [he] at haside
    exact absurd haside (by simp [Act.isAside])
  turn := hturn
  collects := hcollects
  up n hf := by
    obtain ⟨hsolo, hup⟩ := h.solo hf
    rw [isTornDown, hup, hsolo.upright, Bool.or_false]
  fated n hf a q htry hfa := by
    obtain ⟨hsolo, -⟩ := h.solo hf
    obtain ⟨g, slot, ⟨guard, hg, -, hpg⟩, attempt, ha, -, hpa⟩ := id htry
    have hl := (c.called n).sound.toLinked
    have hyoung := Nat.lt_trans (hl.parents g guard c.task hg hpg).1
      (hl.parents a attempt g ha hpa).1
    exact hsolo.fates a q hyoung htry.role? hfa

/-- A call that runs alone gathers those whom its attempts bring. -/
theorem gathers (hp : c.Proceeds succeeds m) (hl : c.Lossless) (hmn : m ≤ n)
    (hf : (c.state n).isFinished c.task = false) :
    (c.state n).Gathers c.task (c.state m).pooledPeers := by
  induction hmn with
  | refl =>
    obtain ⟨manual, maxFail, stage, hgo, hsupplied⟩ := collects_eq_true.mp hp.collects
    exact gathers_of_untried ((c.called m).mustered.early _ _ _ _ (job?_of_going hgo)
      (isEarly_of_supplied hsupplied))
  | @step n _ ih =>
    have hs := (c.called n).sound
    have hn := (hs.grows_act (c.acts n)).unfinished hf
    exact (ih hn).act hs (h.solo hn).1 (h.solo hf).2 (hl n hn)

end Alone

/-- The peers of the relays that a call is foreseen to return. -/
def harvest (c : Call) (succeeds : PeerAddress → Bool) (m : Nat) : List PeerId :=
  if (c.state m).manager.pool.remaining = 0 then []
  else (c.state m).pooledPeers ++ ((c.tour succeeds m).filter succeeds).map PeerAddress.id

namespace Proceeds

variable {r : Round} {as : List TaskId} {k : Nat}

/-- Candidates are collected once. -/
theorem eq_of_collects (h : c.Proceeds succeeds m) (hmk : m ≤ k)
    (hc : (c.state k).collects c.task = true) : m = k := by
  refine (Nat.lt_or_eq_of_le hmk).resolve_left fun hlt => ?_
  exact absurd hc (by simp [(h.drawsFrom hlt).not_collects])

theorem lt_of_settling (h : c.Proceeds succeeds m) (hmk : m ≤ k)
    (hgo : (c.state k).going? c.task = some (.setup c.manual c.maxFail (.settling r as))) :
    m < k := by
  refine (Nat.lt_or_eq_of_le hmk).resolve_right ?_
  rintro rfl
  obtain ⟨manual, maxFail, stage, hgo', hsupplied⟩ := collects_eq_true.mp h.collects
  obtain ⟨-, -, rfl⟩ := Job.setup.inj (Option.some.inj (hgo.symm.trans hgo'))
  exact absurd (isEarly_of_supplied hsupplied) (by simp [SetupStage.isEarly])

/-- A call that goes on after it has collected its candidates has found room. -/
theorem room (h : c.Proceeds succeeds m) (hlt : m < k)
    (hf : (c.state k).isFinished c.task = false) :
    (c.state m).manager.pool.remaining ≠ 0 := by
  intro hroom
  have hend : (c.state (m + 1)).isFinished c.task = true := by
    have hend := ends_of_full h.collects hroom
    rwa [← h.turn] at hend
  exact absurd ((c.grows hlt).isFinished hend) (by simp [hf])

/-- None of those who are tried is pooled when they are collected. -/
theorem nodup_gathered (h : c.Proceeds succeeds m) (hlt : m < k)
    (hdrawn : (c.state k).drawn c.task = c.tour succeeds m) :
    ((c.state m).pooledPeers ++
      ((c.tour succeeds m).filter succeeds).map PeerAddress.id).Nodup := by
  obtain ⟨left, hleft, -⟩ := h.drawsFrom hlt
  obtain ⟨hnodup, hfree⟩ := (c.state m).found_spec c.manual
  rw [found_eq, ← hleft, hdrawn] at hnodup hfree
  refine List.nodup_append.mpr ⟨(c.called m).sound.nodup_pooledPeers, ?_, ?_⟩
  · refine hnodup.sublist (.map _ ?_)
    exact List.filter_sublist.trans (List.sublist_append_left _ _)
  · intro x hx y hy hxy
    obtain ⟨member, hmem, rfl⟩ := List.mem_map.mp hx
    obtain ⟨q, hq, rfl⟩ := List.mem_map.mp hy
    have hno := hfree q (List.mem_append_left _ (List.mem_of_mem_filter hq))
    exact List.any_eq_false.mp hno member hmem (by simpa [PeerAddress.same] using hxy)

end Proceeds

/-- What a call that runs alone returns are the relays of those who were pooled when it collected
its candidates, and of those whom it has tried and who succeed. -/
theorem Alone.returns (h : c.Alone) (hp : c.Proceeds succeeds m) (hl : c.Lossless)
    {views : List RelayView}
    (he : (c.state n).exit? c.task = some (.relays views)) :
    (views.map fun view => view.address.id).Perm (c.harvest succeeds m) := by
  obtain ⟨k, stage, hmk, hturn, hgo, hek⟩ := hp.ends_at he
  have hk := c.called k
  obtain ⟨-, hf, -⟩ := going?_eq_some.mp hgo
  obtain ⟨-, hdrawn, -⟩ := hp.ended hek
  have hact : c.state (k + 1) = (c.state k).act (.poll c.task) := hturn ▸ rfl
  rw [hact] at hek hdrawn
  rw [drawn_congr ((advances_act hgo).ended hf hek).2] at hdrawn
  unfold harvest
  rcases returns_pool hgo hek with ⟨hcollects, hroom, rfl⟩ | ⟨r, as, rfl, hall, rfl⟩
  · obtain rfl := hp.eq_of_collects hmk hcollects
    rw [if_pos hroom]
    exact .refl _
  · have hlt := hp.lt_of_settling hmk hgo
    have hbrought := (h.gathers hp hl hmk hf).brought hk.sound hk.mustered (job?_of_going hgo) hf
      hall (hp.fated k hf)
    rw [if_neg (hp.room hlt hf), hk.sound.toLinked.peers_views]
    refine (List.perm_ext_iff_of_nodup hk.sound.nodup_pooledPeers
      (hp.nodup_gathered hlt hdrawn)).mpr fun x => ?_
    rw [hbrought x, hdrawn, List.mem_append, List.mem_map]
    simp only [List.mem_filter, and_assoc]

/-! ## Two calls -/

/-- Two calls find the same when they collect their candidates: the same peers are pooled, there is
room for as many relays, and the same candidates are eligible. -/
structure Alike (c d : Call) (i j : Nat) : Prop where
  pool : (d.state j).pooledPeers.Perm (c.state i).pooledPeers
  room : (d.state j).manager.pool.remaining = (c.state i).manager.pool.remaining
  found : (d.state j).eligible d.manual = (c.state i).eligible c.manual

/-- How many relays a call wants that collects its candidates at moment `m`. -/
def wanted (c : Call) (m : Nat) : Nat :=
  min (c.state m).manager.pool.remaining ((c.state m).eligible c.manual).length

theorem prospect_eq (c : Call) (succeeds : PeerAddress → Bool) (m : Nat) :
    c.prospect succeeds m = foreseen succeeds c.config.joinPolicy c.maxFail
      (c.state m).manager.pool.remaining ((c.state m).eligible c.manual) := by
  rw [prospect, outlook, config_state]

theorem tour_eq (c : Call) (succeeds : PeerAddress → Bool) (m : Nat) :
    c.tour succeeds m = foreseenTrials succeeds c.config.joinPolicy c.maxFail
      (c.state m).manager.pool.remaining ((c.state m).eligible c.manual) := by
  rw [tour, Overlay.tour, config_state]

namespace Alike

variable (h : c.Alike d i j)

include h

/-- Who requires no more and allows no fewer failures is satisfied if the other one is. -/
theorem satisfied (hr : d.config.joinPolicy.required (c.wanted i) ≤
      c.config.joinPolicy.required (c.wanted i)) (hm : c.maxFail ≤ d.maxFail)
    (hc : c.prospect succeeds i = .satisfied) : d.prospect succeeds j = .satisfied := by
  rw [prospect_eq] at hc ⊢
  rw [h.room, h.found]
  exact foreseen_satisfied_of_tolerant hr hm hc

theorem tour_prefix (hr : d.config.joinPolicy.required (c.wanted i) ≤
      c.config.joinPolicy.required (c.wanted i)) (hm : d.maxFail = c.maxFail) :
    d.tour succeeds j <+: c.tour succeeds i := by
  rw [tour_eq, tour_eq, h.room, h.found, hm]
  exact trials_prefix_of_required_le hr

theorem prefix_tour (hp : d.config.joinPolicy = c.config.joinPolicy) (hm : c.maxFail ≤ d.maxFail) :
    c.tour succeeds i <+: d.tour succeeds j := by
  rw [tour_eq, tour_eq, h.room, h.found, hp]
  exact trials_prefix_of_budget_le hm

/-- Who allows more failures goes the same way unless the other one has failed too often. -/
theorem unchanged (hp : d.config.joinPolicy = c.config.joinPolicy) (hm : c.maxFail ≤ d.maxFail)
    (hc : c.prospect succeeds i ≠ .maxFailExceeded) :
    d.prospect succeeds j = c.prospect succeeds i ∧ d.tour succeeds j = c.tour succeeds i := by
  rw [prospect_eq] at hc
  rw [prospect_eq, prospect_eq, tour_eq, tour_eq, h.room, h.found, hp]
  exact foreseen_eq_of_budget_le hm hc

theorem harvest (ht : d.tour succeeds j = c.tour succeeds i) :
    (d.harvest succeeds j).Perm (c.harvest succeeds i) := by
  unfold Call.harvest
  rw [h.room, ht]
  split
  · exact .refl _
  · exact h.pool.append_right _

end Alike

end Call

end Overlay

/-- No policy that is accepted requires less than that any relay joins. -/
theorem RelayConfig.required_anySuccess_le {config : RelayConfig} (h : config.validate = .ok ())
    (wanted : Nat) : JoinPolicy.anySuccess.required wanted ≤ config.joinPolicy.required wanted := by
  cases Nat.eq_zero_or_pos wanted with
  | inl hzero => simp [hzero, JoinPolicy.required]
  | inr hpos => exact Nat.le_trans (Nat.min_le_right wanted 1) (RelayConfig.required_pos h hpos)

namespace Overlay

/-- More tolerance never hurts. Take two calls that find the same when they collect their
candidates, who succeed in the one as in the other. Both end. If the second requires no more relays
and allows no fewer failures, it returns relays if the first does. If it only requires fewer, whom
it tries is a prefix of whom the first tries. If it only allows more failures, it is the other way
round, and whoever has not failed too often comes to the same. None of the policies that are
accepted is stricter than that all succeed, or laxer than that any does. -/
theorem tolerance_never_hurts (c d : Call) (succeeds : PeerAddress → Bool) (i j : Nat)
    (hc : c.Proceeds succeeds i) (hd : d.Proceeds succeeds j) (h : c.Alike d i j) :
    let policy := c.config.joinPolicy
    let policy' := d.config.joinPolicy
    let wanted := c.wanted i
    (∀ config : RelayConfig, config.validate = .ok () → ∀ n,
      JoinPolicy.anySuccess.required n ≤ config.joinPolicy.required n ∧
        config.joinPolicy.required n ≤ JoinPolicy.allSucceed.required n) ∧
    (∀ k l n, k ≤ l → (JoinPolicy.atLeast k).required n ≤ (JoinPolicy.atLeast l).required n) ∧
    (c.made.Fair c.acts → ∃ n e, (c.state n).exit? c.task = some e) ∧
    (d.made.Fair d.acts → ∃ n e, (d.state n).exit? d.task = some e) ∧
    ∀ m n e e', (c.state m).exit? c.task = some e → (d.state n).exit? d.task = some e' →
      let tried := (c.state m).drawn c.task
      let tried' := (d.state n).drawn d.task
      ((c.state m).dialled c.task).Perm tried ∧ ((d.state n).dialled d.task).Perm tried' ∧
      (policy'.required wanted ≤ policy.required wanted → c.maxFail ≤ d.maxFail →
        (∃ views, e = .relays views) → ∃ views, e' = .relays views) ∧
      (policy'.required wanted ≤ policy.required wanted → d.maxFail = c.maxFail →
        tried' <+: tried) ∧
      (policy' = policy → c.maxFail ≤ d.maxFail → tried <+: tried' ∧
        (e.result? = some .satisfied ∨ e.result? = some .noCandidates →
          e'.result? = e.result? ∧ tried' = tried ∧
            (c.Alone ∧ c.Lossless → d.Alone ∧ d.Lossless → ∀ views views',
              e = .relays views → e' = .relays views' →
              (views'.map fun view => view.address.id).Perm
                (views.map fun view => view.address.id)))) := by
  intro policy policy' wanted
  refine ⟨fun config hv n => ⟨RelayConfig.required_anySuccess_le hv n, ?_⟩, ?_, hc.ends, hd.ends,
    ?_⟩
  · exact config.joinPolicy.required_le n
  · exact fun k l n hkl => JoinPolicy.required_atLeast_mono hkl n
  intro m n e e' he he'
  obtain ⟨hresult, htried, hdialled⟩ := hc.ended he
  obtain ⟨hresult', htried', hdialled'⟩ := hd.ended he'
  refine ⟨hdialled, hdialled', ?_, ?_, ?_⟩
  · intro hr hm hok
    rw [← Exit.result?_eq_satisfied, hresult, Option.some_inj] at hok
    rw [← Exit.result?_eq_satisfied, hresult', h.satisfied hr hm hok]
  · intro hr hm
    rw [htried, htried']
    exact h.tour_prefix hr hm
  · intro hp hm
    rw [htried, htried', hresult, hresult']
    refine ⟨h.prefix_tour hp hm, fun hok => ?_⟩
    have hc' : c.prospect succeeds i ≠ .maxFailExceeded := by
      rcases hok with hok | hok <;> simp [Option.some.inj hok]
    obtain ⟨hsame, htour⟩ := h.unchanged hp hm hc'
    refine ⟨by rw [hsame], htour, ?_⟩
    rintro ⟨ha, hl⟩ ⟨ha', hl'⟩ views views' rfl rfl
    have hgiven := ha.returns hc hl he
    have hgiven' := ha'.returns hd hl' he'
    exact (hgiven'.trans (h.harvest htour)).trans hgiven.symm

/-- Both of two relays are required, or any. One of the first two candidates fails. The call that
requires both tries a third candidate, and the other one does not. -/
theorem tolerance_never_hurts_sample :
    let c : Call :=
      { config := { maxRelays := 2, joinPolicy := .allSucceed }
        mine := .sample 1
        before := [.behave [.sample 3] { handshake := ⟨2, .fail (.transport "refused")⟩ }]
        manual := [.sample 2, .sample 3, .sample 4]
        maxFail := 1
        acts := roundRobin }
    let d : Call := { c with config := { c.config with joinPolicy := .anySuccess } }
    c.Proceeds c.prior.yields 2 ∧ d.Proceeds c.prior.yields 2 ∧ c.Alike d 2 2 ∧
      c.tour c.prior.yields 2 = [.sample 2, .sample 3, .sample 4] ∧
      d.tour c.prior.yields 2 = [.sample 2, .sample 3] ∧
      ∃ m n e e', (c.state m).exit? c.task = some e ∧ (d.state n).exit? d.task = some e' ∧
        ((∃ views, e = .relays views) → ∃ views, e' = .relays views) ∧
        (d.state n).drawn d.task <+: (c.state m).drawn c.task := by
  intro c d
  have haside : ∀ n, (roundRobin n).isAside 0 = true := by
    intro n
    unfold roundRobin
    split <;> rfl
  have hbehaviours : c.prior.behaviours = [((PeerAddress.sample 3).id,
      { handshake := ⟨2, .fail (.transport "refused")⟩ })] := by decide +kernel
  have hhonest : ∀ v : Overlay, v.behaviours = c.prior.behaviours → v.Honest := by
    intro v hv x hx other ho
    rw [hv, hbehaviours, List.mem_singleton] at hx
    rw [hx] at ho
    exact absurd ho (by simp)
  have hc : c.Alone :=
    ⟨by decide +kernel, hhonest _ rfl, by decide +kernel, by decide +kernel, haside⟩
  have hd : d.Alone :=
    ⟨by decide +kernel, hhonest _ rfl, by decide +kernel, by decide +kernel, haside⟩
  have hyields : d.prior.yields = c.prior.yields := by
    funext q
    rfl
  have hpc : c.Proceeds c.prior.yields 2 := hc.proceeds (by decide +kernel) (by decide +kernel)
  have hpd : d.Proceeds c.prior.yields 2 :=
    hyields ▸ hd.proceeds (by decide +kernel) (by decide +kernel)
  have halike : c.Alike d 2 2 := ⟨by decide +kernel, by decide +kernel, by decide +kernel⟩
  obtain ⟨-, -, hend, hend', hall⟩ :=
    tolerance_never_hurts c d c.prior.yields 2 2 hpc hpd halike
  obtain ⟨m, e, he⟩ := hend (fair_roundRobin c.sound)
  obtain ⟨n, e', he'⟩ := hend' (fair_roundRobin d.sound)
  obtain ⟨-, -, hok, hpolicy, -⟩ := hall m n e e' he he'
  have hrequired : d.config.joinPolicy.required (c.wanted 2) ≤
      c.config.joinPolicy.required (c.wanted 2) := by decide +kernel
  exact ⟨hpc, hpd, halike, by decide +kernel, by decide +kernel, m, n, e, e', he, he',
    hok hrequired (Nat.le_refl _), hpolicy hrequired rfl⟩

end Overlay

end RelayUpkeep
