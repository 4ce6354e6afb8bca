import RelayUpkeep.Proofs.Offerings

/-! # The relays that a satisfied round stands on

A round is judged by the slots that are filled, and not by the relays that are held. Each slot is
filled by an attempt that has offered a relay. A relay that was refused as a duplicate leaves its
slot without a relay of its own, and the round stands on as many relays as it requires if the slots
that it does not need, and the relays that the pool has from others, make up for such slots. -/

namespace RelayUpkeep.Overlay

variable {t a : TaskId} {w : Overlay} {x : Offer} {y : Act} {acts : List Act} {i k : Nat}
  {gone : RelayId → Bool} {manual : List PeerAddress} {maxFail : Nat} {it : Iteration}
  {views : List RelayView}

/-! ## When nothing is offered for a setup -/

theorem offersIn_eq_nil
    (h : ∀ a, y = .poll a → a ∈ w.attemptsOf t → w.isFinished a = true) :
    w.offersIn t y = [] := by
  unfold offersIn
  split
  · next a =>
    split_ifs with ha
    · have hact : (w.act (.poll a)).offers = w.offers := by
        rw [Overlay.act]
        split_ifs
        · rw [poll_finished (h a rfl ha)]
          rfl
        · rfl
      simp [hact]
    · rfl
  · rfl

theorem offersFor_eq_nil (h : ∀ (i : Nat) a, acts[i]? = some (.poll a) →
      a ∈ (w.run (acts.take i)).attemptsOf t → (w.run (acts.take i)).isFinished a = true) :
    w.offersFor t acts = [] := by
  induction acts generalizing w with
  | nil => rfl
  | cons y acts ih =>
    rw [offersFor, ih fun i => h (i + 1), List.append_nil]
    exact offersIn_eq_nil fun a ha => h 0 a (by simp [ha])

theorem Mustered.mem_attemptsOf_iff (h : w.Mustered) (hs : w.Sound) :
    a ∈ w.attemptsOf t ↔ ∃ q, w.TriesFor t a q := by
  rw [h.mem_attemptsOf hs]
  constructor
  · rintro ⟨g, slot, q, hguard, hga⟩
    exact ⟨q, g, slot, hguard, hs.toLinked.attempt_of_guards hga⟩
  · rintro ⟨q, g, slot, hguard, hp⟩
    exact ⟨g, slot, q, hguard, h.paired g a q hp⟩

/-- There are no attempts for a setup that is yet to be called. -/
theorem Mustered.attemptsOf_uncalled (h : w.Mustered) (hs : w.Sound) (hnew : w.tasks.length ≤ t) :
    w.attemptsOf t = [] := by
  refine List.eq_nil_iff_forall_not_mem.mpr fun a ha => ?_
  obtain ⟨g, slot, q, ⟨task, ht, -, hpar⟩, -⟩ := (h.mem_attemptsOf hs).mp ha
  have hlt := (hs.parents g task t ht hpar).1
  exact absurd (Nat.lt_trans hlt (List.getElem?_eq_some_iff.mp ht).1) (Nat.not_lt.mpr hnew)

/-- There are none for a setup that has not begun its round. -/
theorem Called.attemptsOf_early (h : w.Called t manual maxFail) (hi : w.iteration? t = none) :
    w.attemptsOf t = [] := by
  refine List.eq_nil_iff_forall_not_mem.mpr fun a ha => ?_
  obtain ⟨g, slot, q, hguard, -⟩ := (h.mustered.mem_attemptsOf h.sound).mp ha
  have hg : g ∈ w.guardsOf t := mem_guardsOf.mpr ⟨slot, q, hguard⟩
  rw [h.guardsOf_early hi] at hg
  exact absurd hg List.not_mem_nil

/-- When all who guard attempts for a setup have ended, the attempts have. -/
theorem Mustered.attempts_ended (h : w.Mustered) (hs : w.Sound) (hx : w.exit? t ≠ some .cancelled)
    (hall : ∀ g ∈ w.guardsOf t, w.isFinished g = true) (ha : a ∈ w.attemptsOf t) :
    w.isFinished a = true := by
  obtain ⟨g, slot, q, hguard, hga⟩ := (h.mem_attemptsOf hs).mp ha
  have hg := hall g (mem_guardsOf.mpr ⟨slot, q, hguard⟩)
  obtain ⟨a', hga', hf⟩ := (h.told t g slot q hguard hg).resolve_left hx
  obtain ⟨rfl, -⟩ := hga.unique hga'
  exact hf

/-- Nothing is offered for a setup before it has found its candidates. -/
theorem Called.offersFor_before (h : w.Called t manual maxFail) (h₀ : w.iteration? t = none)
    (hi : w.FindsAt acts t i) : w.offersFor t (acts.take i) = [] := by
  refine offersFor_eq_nil fun j a hj ha => ?_
  have hlt : j < i := Nat.lt_of_lt_of_le (List.getElem?_eq_some_iff.mp hj).1 (by simp)
  rw [List.take_take, Nat.min_eq_left (Nat.le_of_lt hlt)] at ha
  have hv := h.run (acts.take j)
  cases hiter : (w.run (acts.take j)).iteration? t with
  | none =>
    rw [hv.attemptsOf_early hiter] at ha
    exact absurd ha List.not_mem_nil
  | some it =>
    -- the round would have begun with candidates that were found earlier
    obtain ⟨k, -, hk, -⟩ := h.underway h₀ hiter
    have hkj : k < j := Nat.lt_of_lt_of_le (List.getElem?_eq_some_iff.mp hk.1).1 (by simp)
    have hfinds := hk.append (acts.drop j)
    rw [List.take_append_drop] at hfinds
    exact absurd (h.findsAt_unique hi hfinds) (Nat.ne_of_lt (Nat.lt_trans hkj hlt))

/-- Nothing is offered for a setup after it has ended by itself. -/
theorem Called.offersFor_after (h : w.Called t manual maxFail) {e : Exit}
    (he : w.EndsAt acts t e i) (hne : e ≠ .cancelled) :
    w.offersFor t acts = w.offersFor t (acts.take i) := by
  obtain ⟨hact, -, hend⟩ := he
  have hlast : (w.run (acts.take i)).offersIn t (.poll t) = [] := by
    refine offersIn_eq_nil fun a hy ha => ?_
    obtain rfl := Act.poll.inj hy
    have hv := h.run (acts.take i)
    obtain ⟨q, htry⟩ := (hv.mustered.mem_attemptsOf_iff hv.sound).mp ha
    exact absurd (hv.role.symm.trans htry.role?) (by simp)
  have hrest : (w.run (acts.take (i + 1))).offersFor t (acts.drop (i + 1)) = [] := by
    refine offersFor_eq_nil fun j a hj ha => ?_
    have hz := h.run (acts.take (i + 1))
    have hv := hz.run ((acts.drop (i + 1)).take j)
    have hexit := (grows_run hz.sound ((acts.drop (i + 1)).take j)).exit? hend
    refine hv.mustered.attempts_ended hv.sound (by simp [hexit, hne]) (fun g hg => ?_) ha
    obtain ⟨slot, p, hp⟩ := mem_guardsOf.mp hg
    exact hv.mustered.done t e hexit hne g slot p hp
  conv_lhs => rw [← List.take_append_drop (i + 1) acts]
  rw [offersFor_append, hrest, List.append_nil, List.take_add_one, hact, Option.toList_some,
    offersFor_concat, hlast, List.append_nil]

/-! ## The slots -/

/-- What the attempts that filled slots for setup `t` have offered. -/
def fillings (w : Overlay) (t : TaskId) (acts : List Act) : List Offer :=
  (w.offersFor t acts).filter fun x => (w.run acts).succeeded x.attempt

/-- An attempt that has succeeded has offered a relay. -/
theorem offered_of_succeeded (config : RelayConfig) (mine : PeerAddress)
    (ha : a ∈ ((start config mine).run acts).attemptsOf t)
    (hsucc : ((start config mine).run acts).succeeded a = true) :
    ∃ x ∈ (start config mine).offersFor t acts, x.attempt = a := by
  have hs := sound_run (sound_start config mine)
  have hm := mustered_run config mine
  obtain ⟨q, htry⟩ := ((hm acts).mem_attemptsOf_iff (hs acts)).mp ha
  rw [succeeded, Option.any_eq_true] at hsucc
  obtain ⟨e, he, hfail⟩ := hsucc
  obtain ⟨g, slot, -, hp⟩ := id htry
  rcases (fares_run config mine acts hp).accounted he with ⟨error, i, rfl, -⟩ |
    ⟨c, i, j, rfl, -, hact, hoffers⟩ | ⟨crash, rfl⟩
  · exact absurd hfail (by simp [Exit.isFailure])
  · obtain ⟨conn, relay, answer, -, ho, -⟩ := hoffers
    rw [run_take_succ hact] at ho
    have hlt : a < ((start config mine).run (acts.take j)).tasks.length := by
      by_contra hnew
      have hidle : a ∉ ((start config mine).run (acts.take j)).ready := fun hr =>
        hnew ((hs (acts.take j)).ready a hr)
      rw [Overlay.act, if_neg hidle] at ho
      exact absurd (congrArg List.length ho) (by simp)
    have hgrows := (sound_start config mine).grows_take acts j
    have hback := htry.back (hs acts).toLinked hgrows hlt
    have hin : ((start config mine).run (acts.take j)).offersIn t (.poll a) =
        [⟨a, ((start config mine).run (acts.take j)).relays.length, answer⟩] := by
      rw [offersIn, if_pos (((hm _).mem_attemptsOf_iff (hs _)).mpr ⟨q, hback⟩), ho]
      simp
    exact ⟨_, mem_offersFor hact (hin ▸ List.mem_singleton_self _), rfl⟩
  · exact absurd hfail (by simp [Exit.isFailure])

/-- What is offered for a call is offered after it. -/
theorem offersFor_call (config : RelayConfig) (mine : PeerAddress) (before acts : List Act)
    (manual : List PeerAddress) (maxFail : Nat) :
    (start config mine).offersFor ((start config mine).run before).tasks.length
        (before ++ .setUp manual maxFail :: acts) =
      (((start config mine).run before).act (.setUp manual maxFail)).offersFor
        ((start config mine).run before).tasks.length acts := by
  have hnone : (start config mine).offersFor ((start config mine).run before).tasks.length
      before = [] := by
    refine offersFor_eq_nil fun i a _ ha => ?_
    have hs := sound_run (sound_start config mine) (before.take i)
    have hg := (sound_start config mine).grows_take before i
    rw [(mustered_run config mine _).attemptsOf_uncalled hs hg.tasks.length_le] at ha
    exact absurd ha List.not_mem_nil
  rw [offersFor_append, hnone, List.nil_append]
  rfl

theorem hasJoined_eq (w : Overlay) (g : TaskId) :
    w.hasJoined g = ((w.attemptOf? g).map w.succeeded).getD false := by
  rw [Bool.eq_iff_iff, hasJoined_iff]
  constructor
  · rintro ⟨a, q, hga, hsucc⟩
    simp [attemptOf?_eq_some.mpr ⟨q, hga⟩, hsucc]
  · intro h
    cases ha : w.attemptOf? g with
    | none => simp [ha] at h
    | some a =>
      obtain ⟨q, hga⟩ := attemptOf?_eq_some.mp ha
      exact ⟨a, q, hga, by simpa [ha] using h⟩

/-- When the crew of an iteration has ended, one slot is filled for each attempt that succeeded. -/
theorem Called.filled_eq (h : w.Called t manual maxFail) (h₀ : w.iteration? t = none)
    (hi : (w.run acts).iteration? t = some it) (hgo : (w.run acts).isFinished t = false)
    (hall : ∀ g ∈ it.crew, (w.run acts).isFinished g = true) (htrue : (w.run acts).Truthful) :
    ((w.run acts).settled it).filled =
      ((w.run acts).attemptsOf t).countP (w.run acts).succeeded := by
  have hv := h.run acts
  obtain ⟨j, past, -, hc, hguards⟩ := h.underway h₀ hi
  have hretold : ∀ g ∈ (w.run acts).guardsOf t, (w.run acts).Retold g := by
    intro g hg
    obtain ⟨slot, p, hp⟩ := mem_guardsOf.mp hg
    have hfg := (hv.mustered.crew t manual maxFail it.round it.crew
      (job?_of_iteration? hv.role hi) hgo g slot p hp).elim (hall g) id
    refine (htrue t g slot p hp hfg).resolve_left fun he => ?_
    exact absurd (isFinished_of_exit? he) (by simp [hgo])
  have hfilled := hc.filled_settled hv.sound List.getElem?_concat_length fun it' hit g hg =>
    hretold g (hguards ▸ List.mem_flatMap.mpr ⟨it', hit, hg⟩)
  rw [List.take_of_length_le (by simp), ← hguards] at hfilled
  rw [hfilled, ← (hv.mustered.attemptsOf_perm hv.sound t).countP_eq, List.countP_filterMap]
  exact List.countP_congr fun g _ => by rw [hasJoined_eq]

/-! ## Satisfied rounds -/

/-- In step `k` of a run setup `t` judges the round that is satisfied with iteration `it`, and it
returns `views`. -/
structure SatisfiedAt (w : Overlay) (acts : List Act) (t : TaskId) (it : Iteration)
    (views : List RelayView) (k : Nat) : Prop where
  ends : w.EndsAt acts t (.relays views) k
  going : (w.run (acts.take k)).isFinished t = false
  iteration : (w.run (acts.take k)).iteration? t = some it
  ended : ∀ g ∈ it.crew, (w.run (acts.take k)).isFinished g = true
  satisfied : ((w.run (acts.take k)).settled it).isSatisfied
    (w.run (acts.take k)).manager.config.joinPolicy = true
  views : views = (w.run (acts.take k)).views (w.run (acts.take k)).pooled

theorem Called.satisfiedAt (h : w.Called t manual maxFail) (hgo : w.isFinished t = false)
    (he : (w.run acts).exit? t = some (.relays views))
    (hi : (w.run acts).iteration? t = some it) : ∃ k, w.SatisfiedAt acts t it views k := by
  obtain ⟨k, hends⟩ := h.ends hgo he (by simp)
  have hiter := iteration?_congr (h.stage_ended hends)
  rw [hi] at hiter
  obtain ⟨hact, ⟨job, hg⟩, hend⟩ := id hends
  have hv := h.run (acts.take k)
  obtain rfl : job = .setup manual maxFail (.settling it.round it.crew) :=
    Option.some.inj ((job?_of_going hg).symm.trans (job?_of_iteration? hv.role hiter.symm))
  rw [run_take_succ hact] at hend
  obtain ⟨hall, hsat, hviews⟩ := returns_satisfied hg hend
  exact ⟨k, hends, (going?_eq_some.mp hg).2.1, hiter.symm, hall, hsat, hviews⟩

/-- As many slots are filled as the policy requires. -/
theorem SatisfiedAt.required_le (h : w.SatisfiedAt acts t it views k)
    (hc : w.Called t manual maxFail) (h₀ : w.iteration? t = none)
    (htrue : (w.run (acts.take k)).Truthful)
    (hoffered : ∀ a ∈ (w.run (acts.take k)).attemptsOf t,
      (w.run (acts.take k)).succeeded a = true →
        ∃ x ∈ w.offersFor t (acts.take k), x.attempt = a) :
    w.manager.config.joinPolicy.required it.round.wanted ≤ (w.fillings t acts).length := by
  have hgrows := hc.sound.grows_take acts k
  have hfilled := hc.filled_eq h₀ h.iteration h.going h.ended htrue
  have hsat := h.satisfied
  simp only [Round.isSatisfied, JoinPolicy.isSatisfied, settled, Round.wanted_settle,
    Bool.and_eq_true, decide_eq_true_eq] at hsat
  have hsub : ((w.run (acts.take k)).attemptsOf t).filter (w.run (acts.take k)).succeeded ⊆
      (w.fillings t acts).map Offer.attempt := by
    intro a ha
    obtain ⟨ha, hsucc⟩ := List.mem_filter.mp ha
    obtain ⟨x, hx, rfl⟩ := hoffered a ha hsucc
    rw [← hc.offersFor_after h.ends (by simp)] at hx
    exact List.mem_map_of_mem (List.mem_filter.mpr ⟨hx, hgrows.succeeded hsucc⟩)
  have hnodup := (nodup_attemptsOf (w.run (acts.take k)) t).filter (w.run (acts.take k)).succeeded
  calc w.manager.config.joinPolicy.required it.round.wanted
    _ ≤ ((w.run (acts.take k)).settled it).filled := by
      rw [← (grows_run hc.sound (acts.take k)).config]
      exact hsat.2
    _ = (((w.run (acts.take k)).attemptsOf t).filter (w.run (acts.take k)).succeeded).length := by
      rw [hfilled, List.countP_eq_length_filter]
    _ ≤ (w.fillings t acts).length := by
      simpa using (List.subperm_of_subset hnodup hsub).length_le

/-- What has become of the offers for a setup when its round is under way or over. -/
theorem Called.placed (h : w.Called t manual maxFail) (h₀ : w.iteration? t = none)
    (hi : (w.run acts).iteration? t = some it) (hu : w.Untroubled gone (w.run acts)) :
    ∀ x ∈ w.offersFor t acts, (w.run acts).Placed gone it.round.wanted x := by
  obtain ⟨j, past, hfinds, hc, -⟩ := h.underway h₀ hi
  have hz := h.run (acts.take j)
  have hrun := (w.run_take_drop acts j).symm
  have hfits : (w.run (acts.take j)).Fits gone it.round.wanted := by
    rw [hc.wanted]
    exact fits_start hz.sound.pool.bounded _ _
  have hrest := (hu.split (grows_run h.sound (acts.take j)) (h.sound.grows_take acts j)).2
  have hsplit : w.offersFor t acts = (w.run (acts.take j)).offersFor t (acts.drop j) := by
    conv_lhs => rw [← List.take_append_drop j acts]
    rw [offersFor_append, h.offersFor_before h₀ hfinds, List.nil_append]
  rw [hsplit, hrun]
  exact hz.sound.placed_run hfits (acts.drop j) (hrun ▸ hrest)

/-- What is held in a state of a run, when the round is under way or over, has relays for the slots
that are filled then. -/
theorem Called.holds (h : w.Called t manual maxFail) (h₀ : w.iteration? t = none)
    (hup : (w.run acts).manager.isShutDown = false)
    (hlost : ∀ r, (w.run acts).isLost r = true → r < w.relays.length)
    (hi : (w.run (acts.take i)).iteration? t = some it)
    (hslots : ∀ x ∈ w.fillings t acts, x ∈ w.offersFor t (acts.take i))
    {m : Nat} (hm : m ≤ it.round.wanted) :
    (∀ x ∈ w.fillings t acts, x.answer ≠ some .full → ∃ p, (w.run acts).peer? x.relay = some p ∧
      (p ∈ (w.run (acts.take i)).pooledPeers ∨
        ∃ r, w.lostSince (w.run acts) r = true ∧ (w.run acts).peer? r = some p)) ∧
    ((∃ x ∈ w.fillings t acts, x.answer = some .full) ∨
        m + (twins (w.fillings t acts)).length ≤ (w.fillings t acts).length +
          ((w.run acts).others (w.fillings t acts) (w.run (acts.take i)).pooledPeers).length →
      m ≤ (w.run (acts.take i)).pooledPeers.length) := by
  have hz := h.run (acts.take i)
  have hg := h.sound.grows_take acts i
  have hu := ((untroubled_lostSince hup hlost).split (grows_run h.sound (acts.take i)) hg).1
  have hplaced := fun x hx => h.placed h₀ hi hu x (hslots x hx)
  refine ⟨fun x hx ha => ?_, fun hmade => ?_⟩
  · obtain ⟨p, hp, hheld⟩ := (hplaced x hx).held hz.sound.toLinked ha
    refine ⟨p, hg.peer? hp, hheld.imp id ?_⟩
    rintro ⟨r, hr, ht⟩
    exact ⟨r, hr, hg.peer? ht⟩
  · rw [hg.others hz.sound.toLinked hplaced] at hmade
    refine hz.sound.le_length_held ?_ hplaced hm hmade
    exact (h.sound.relays_offersFor t acts).1.sublist (List.filter_sublist.map _)

/-- How many relays the round of a setup wants, if it has started one. -/
def wanted (w : Overlay) (t : TaskId) : Nat :=
  match w.job? t with
  | some (.setup _ _ (.settling r _)) => r.wanted
  | _ => 0

theorem wanted_of_iteration? (hi : w.iteration? t = some it) : w.wanted t = it.round.wanted := by
  unfold iteration? at hi
  split at hi
  · next r as hj =>
    obtain rfl := Option.some.inj hi
    simp [wanted, hj]
  · exact absurd hi (by simp)

theorem iteration?_of_wanted (h : 0 < w.wanted t) : ∃ it, w.iteration? t = some it := by
  unfold wanted at h
  split at h
  · next r as hj => exact ⟨⟨r, as⟩, iteration?_of_job? hj⟩
  · exact absurd h (Nat.lt_irrefl 0)

/-- A setup whose round wanted relays and was satisfied has as many slots filled as the policy
requires. If the manager is not shut down and no relay is lost but such as were there at the call,
each slot stands for a peer that is held, among the relays that are returned as well as in the pool
from then on, unless the pool had no room for its relay or the relay of that peer was lost since.
As many relays are held as the policy requires if there was no room for some relay, or if the
slots that were filled beyond what is required, and the relays held that none of the slots has
brought, are as many as the slots whose relays were refused as duplicates. -/
theorem satisfied_rounds_hold_relays (config : RelayConfig) (hc : config.validate = .ok ())
    (mine : PeerAddress) (before during : List Act) (manual : List PeerAddress) (maxFail : Nat) :
    let w := (start config mine).run before
    let t := w.tasks.length
    let called := w.act (.setUp manual maxFail)
    let v := called.run during
    let required := config.joinPolicy.required (v.wanted t)
    let slots := called.fillings t during
    v.manager.isShutDown = false → (∀ r, v.isLost r = true → r < w.relays.length) →
    ∀ views, v.exit? t = some (.relays views) → 0 < v.wanted t →
      required ≤ slots.length ∧
      ∀ held, (held = views.map fun view => view.address.id) ∨ held = v.pooledPeers →
        (∀ x ∈ slots, x.answer ≠ some .full → ∃ p, v.peer? x.relay = some p ∧
          (p ∈ held ∨ ∃ r, w.lostSince v r = true ∧ v.peer? r = some p)) ∧
        ((∃ x ∈ slots, x.answer = some .full) ∨
            required + (twins slots).length ≤ slots.length + (v.others slots held).length →
          required ≤ held.length ∧ 0 < held.length) := by
  intro w t called v required slots hup hlost views hexit hpos
  obtain ⟨hcalled, -, -⟩ := called_setUp config mine before manual maxFail
  have hw : w.Sound := sound_run (sound_start config mine) before
  have h₀ : called.iteration? t = none := iteration?_setUp w manual maxFail
  have hgo : called.isFinished t = false := hw.new_act _ (Nat.le_refl _)
  obtain ⟨it, hi⟩ := iteration?_of_wanted hpos
  have hwanted : v.wanted t = it.round.wanted := wanted_of_iteration? hi
  obtain ⟨k, hk⟩ := hcalled.satisfiedAt hgo hexit hi
  have hrequired : required ≤ slots.length := by
    have hrun : called.run (during.take k) =
        (start config mine).run (before ++ .setUp manual maxFail :: during.take k) := by
      rw [run_append, run_cons]
    have hconfig : called.manager.config = config :=
      (hw.grows_act _).config.trans (grows_run (sound_start config mine) before).config
    have hle := hk.required_le hcalled h₀ (hrun ▸ truthful_run config mine _) fun a ha hsucc => by
      rw [hrun] at ha hsucc
      exact offersFor_call config mine before (during.take k) manual maxFail ▸
        offered_of_succeeded config mine ha hsucc
    rwa [hconfig, ← hwanted] at hle
  have hbound : required ≤ it.round.wanted :=
    hwanted ▸ config.joinPolicy.required_le (v.wanted t)
  have hpositive : ∀ held : List PeerId,
      required ≤ held.length → required ≤ held.length ∧ 0 < held.length := fun _ h =>
    ⟨h, Nat.lt_of_lt_of_le (RelayConfig.required_pos hc hpos) h⟩
  refine ⟨hrequired, fun held hheld => ?_⟩
  rcases hheld with rfl | rfl
  · have hviews : (views.map fun view => view.address.id) =
        (called.run (during.take k)).pooledPeers := by
      rw [hk.views]
      exact (hcalled.run (during.take k)).sound.toLinked.peers_views
    obtain ⟨hstands, henough⟩ := hcalled.holds h₀ hup hlost hk.iteration
      (fun x hx => hcalled.offersFor_after hk.ends (by simp) ▸ List.mem_of_mem_filter hx) hbound
    rw [← hviews] at hstands henough
    exact ⟨hstands, fun hmade => hpositive _ (henough hmade)⟩
  · have hall : called.run (during.take during.length) = v := by rw [List.take_length]
    obtain ⟨hstands, henough⟩ := hcalled.holds h₀ hup hlost (hall ▸ hi)
      (fun x hx => by
        rw [List.take_length]
        exact List.mem_of_mem_filter hx) hbound
    rw [hall] at hstands henough
    exact ⟨hstands, fun hmade => hpositive _ (henough hmade)⟩

/-- One peer answers for both that are tried, and the second relay is refused. Another setup brings
a relay meanwhile, which makes up for it. A relay that was pooled at the call is lost. -/
theorem satisfied_rounds_hold_relays_sample :
    let config : RelayConfig := { joinPolicy := .allSucceed }
    let before : List Act :=
      [.behave [.sample 2, .sample 3] { standIn := some (.sample 4) }, .setUp [.sample 5] 0,
        .poll 0, .poll 1, .poll 2, .poll 1, .poll 0, .dropConn 0]
    let during : List Act :=
      [.poll 4, .setUp [.sample 6] 0, .poll 5, .poll 6, .poll 7, .poll 8, .poll 9, .poll 10,
        .poll 13, .poll 3, .poll 5, .poll 6, .poll 4]
    let views : List RelayView := [⟨.sample 4, .openTcp, false⟩, ⟨.sample 6, .openTcp, false⟩]
    let w := (start config (.sample 1)).run before
    let t := w.tasks.length
    let called := w.act (.setUp [.sample 2, .sample 3] 0)
    let v := called.run during
    config.validate = .ok () ∧ v.manager.isShutDown = false ∧ v.isLost 0 = true ∧
      called.fillings t during = [⟨8, 1, some .added⟩, ⟨9, 2, some .duplicate⟩] ∧
      v.exit? t = some (.relays views) ∧ config.joinPolicy.required (v.wanted t) = 2 ∧
      config.joinPolicy.required (v.wanted t) ≤ (views.map fun view => view.address.id).length ∧
      config.joinPolicy.required (v.wanted t) ≤ v.pooledPeers.length := by
  intro config before during views
  dsimp only
  have hvalid : config.validate = .ok () := by decide +kernel
  have hlost : ∀ r, ((((start config (.sample 1)).run before).act
      (.setUp [.sample 2, .sample 3] 0)).run during).isLost r = true →
      r < ((start config (.sample 1)).run before).relays.length := by
    have hall : ∀ r < 4, ((((start config (.sample 1)).run before).act
        (.setUp [.sample 2, .sample 3] 0)).run during).isLost r = true →
        r < ((start config (.sample 1)).run before).relays.length := by decide +kernel
    have hlen : ((((start config (.sample 1)).run before).act
        (.setUp [.sample 2, .sample 3] 0)).run during).relays.length = 4 := by decide +kernel
    exact fun r hr => hall r (hlen ▸ isLost_lt hr) hr
  obtain ⟨-, h⟩ := satisfied_rounds_hold_relays config hvalid (.sample 1) before during
    [.sample 2, .sample 3] 0 (by decide +kernel) hlost views (by decide +kernel)
    (by decide +kernel)
  refine ⟨hvalid, by decide +kernel, by decide +kernel, by decide +kernel, by decide +kernel,
    by decide +kernel, ?_, ?_⟩
  · exact ((h _ (.inl rfl)).2 (.inr (by decide +kernel))).1
  · exact ((h _ (.inr rfl)).2 (.inr (by decide +kernel))).1

/-- Two peers are tried, and one peer answers for both: the relay that comes second is refused, and
its slot counts as filled. And a round that goes on while the manager is shut down is satisfied with
no relay at all. -/
theorem refused_relays_satisfy_rounds :
    let config : RelayConfig := { joinPolicy := .allSucceed }
    let twins := (start config (.sample 1)).run
      [.behave [.sample 2, .sample 3] { standIn := some (.sample 4) },
        .setUp [.sample 2, .sample 3] 0, .poll 0, .poll 1, .poll 2, .poll 3, .poll 4, .poll 1,
        .poll 2, .poll 0]
    let late := (start config (.sample 1)).run
      [.behave [.sample 2] { handshake := ⟨50, .succeed⟩ }, .setUp [.sample 2] 0, .poll 0, .poll 1,
        .poll 2, .shutDown, .poll 3, .elapse 50, .poll 2, .poll 1, .poll 0]
    config.validate = .ok () ∧ twins.hasLoss = false ∧ late.hasLoss = false ∧
      twins.exit? 0 = some (.relays [⟨.sample 4, .openTcp, false⟩]) ∧ twins.wanted 0 = 2 ∧
      config.joinPolicy.required 2 = 2 ∧ twins.manager.isShutDown = false ∧
      late.exit? 0 = some (.relays []) ∧ late.wanted 0 = 1 ∧ config.joinPolicy.required 1 = 1 := by
  decide +kernel

end RelayUpkeep.Overlay
