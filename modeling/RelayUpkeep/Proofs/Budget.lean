import Mathlib.Data.List.Chain
import RelayUpkeep.Proofs.Chronicle
import RelayUpkeep.Proofs.Solo

/-! # The budget of a round

A round has no more iterations than its budget allows and than it has candidates. Each of them starts
attempts for empty slots only, and what it fills stays filled. When its attempts settle, so does the
round. -/

namespace RelayUpkeep

namespace Round

variable {r r₀ : Round} {room maxFail k slot : Nat} {candidates : List PeerAddress}

/-- Who fills a slot stays there. -/
def Retains (r r' : Round) : Prop :=
  ∀ (i : Nat) (p : PeerAddress), r.slots[i]? = some (some p) → r'.slots[i]? = some (some p)

theorem Retains.trans {r' r'' : Round} (h : r.Retains r') (h' : r'.Retains r'') : r.Retains r'' :=
  fun i p hp => h' i p (h i p hp)

/-- The round `r` has come of `r₀` by `k` iterations that failed. -/
structure After (r₀ : Round) (k : Nat) (r : Round) : Prop where
  wanted : r.wanted = r₀.wanted
  budget : r.maxFail = r₀.maxFail
  failures : r.failures = r₀.failures + k
  distinct : ((r.peers ++ r.candidates).map PeerAddress.id).Nodup
  among : ∀ p ∈ r.peers ++ r.candidates, p ∈ r₀.peers ++ r₀.candidates

theorem after_start (h : (candidates.map PeerAddress.id).Nodup) :
    After (start room candidates maxFail) 0 (start room candidates maxFail) :=
  ⟨rfl, rfl, rfl, by rwa [peers_start, List.nil_append], fun _ hp => hp⟩

/-- Slots that are filled once each are empty when they are filled. -/
theorem getElem?_settle_joined {ends done rest : List AttemptEnd} {p : PeerAddress}
    (hn : (ends.filterMap AttemptEnd.slot?).Nodup)
    (he : ∀ s ∈ ends.filterMap AttemptEnd.slot?, r.slots[s]? = some none)
    (h : ends = done ++ .joined slot p :: rest) : (r.settle done).slots[slot]? = some none := by
  subst h
  simp only [List.filterMap_append, List.filterMap_cons, AttemptEnd.slot?] at hn he
  rw [getElem?_settle fun hmem => (List.nodup_append.mp hn).2.2 slot hmem slot (by simp) rfl]
  exact he slot (by simp)

end Round

namespace Overlay

variable {t g : TaskId} {u v w x : Overlay} {y : Act} {r r₀ : Round} {as : List TaskId}
  {draws : List (Nat × PeerAddress)} {it next : Iteration} {its : List Iteration}
  {manual candidates : List PeerAddress} {maxFail room i k : Nat} {acts : List Act}

/-! ## Slots -/

theorem Assigned.retains (h : w.Assigned t r as draws) : r.Retains (r.settle (w.endings as)) := by
  intro i p hp
  rw [Round.getElem?_settle fun hmem => ?_, hp]
  exact absurd (hp.symm.trans (h.fills_empty hmem)) (by simp)

/-- Iteration `k` of a round with `n` slots is within the budget. It starts an attempt at least,
and no more than there are empty slots, each for an empty slot of its own. Who fills a slot stays
there; a slot that is filled was empty, and one is filled for each attempt that went well. Nobody
fills two slots. -/
structure Straight (t : TaskId) (candidates : List PeerAddress) (n maxFail k : Nat)
    (it : Iteration) (w : Overlay) : Prop where
  counted : it.round.failures = k
  within : k ≤ maxFail
  left : k < candidates.length
  wanted : it.round.wanted = n
  starts : it.crew ≠ []
  few : it.crew.length ≤ n - it.round.filled
  assigned : ∃ draws, w.Assigned t it.round it.crew draws
  retains : it.round.Retains (w.settled it)
  empty : ∀ done slot p rest, w.endings it.crew = done ++ .joined slot p :: rest →
    (it.round.settle done).slots[slot]? = some none
  grows : (w.settled it).filled = it.round.filled + it.crew.countP w.succeeded
  distinct : ((w.settled it).peers.map PeerAddress.id).Nodup
  among : ∀ p ∈ (w.settled it).peers, p ∈ candidates

theorem Launches.length_crew (h : w.Launches t r it) : it.crew.length = r.draws.length :=
  h.assigned.crew.length_eq

theorem Launches.crew_ne_nil (h : w.Launches t r it) : it.crew ≠ [] := by
  rw [← List.length_pos_iff, h.length_crew]
  exact List.length_pos_iff.mpr h.draws

/-- What an iteration may have filled in the end, and who is left. -/
theorem Launches.settled (h : w.Launches t r it) (hs : w.Sound)
    (hd : ((r.peers ++ r.candidates).map PeerAddress.id).Nodup) :
    (((w.settled it).peers ++ it.round.candidates).map PeerAddress.id).Nodup ∧
      ∀ p ∈ (w.settled it).peers ++ it.round.candidates, p ∈ r.peers ++ r.candidates := by
  have hassigned := h.assigned
  obtain ⟨round, crew⟩ := it
  obtain rfl : round = r.launched := h.round
  have hjoined : ∀ i p, .joined i p ∈ w.endings crew → (i, p) ∈ r.draws :=
    fun i p hj => (hassigned.joined hs hj).1
  have hall : r.launched.peers ++ r.draws.map Prod.snd ++ r.launched.candidates =
      r.peers ++ r.candidates := by
    rw [List.append_assoc]
    exact congrArg _ r.draws_append
  constructor
  · exact Round.nodup_settle_append (hall ▸ hd) hjoined
  · intro p hp
    rw [← hall, List.append_assoc]
    rcases List.mem_append.mp hp with hp | hp
    · rcases Round.mem_peers_settle hp with hp | ⟨i, hj⟩
      · exact List.mem_append_left _ hp
      · refine List.mem_append_right _ (List.mem_append_left _ ?_)
        exact List.mem_map_of_mem (hjoined i p hj)
    · exact List.mem_append_right _ (List.mem_append_right _ hp)

/-- When an iteration has failed, one more is counted. -/
theorem Launches.after (h : w.Launches t r it) (hs : w.Sound) (hr : Round.After r₀ k r) :
    Round.After r₀ (k + 1) (w.retried it.round it.crew) := by
  obtain ⟨hdistinct, hamong⟩ := h.settled hs hr.distinct
  have hround := h.round
  have hpeers : (w.retried it.round it.crew).peers = (w.settled it).peers := rfl
  refine ⟨?_, ?_, ?_, ?_, fun p hp => hr.among p (hamong p ?_)⟩
  · rw [wanted_retried, hround]
    exact hr.wanted
  · rw [maxFail_retried, hround]
    exact hr.budget
  · rw [failures_retried, hround]
    exact congrArg (· + 1) hr.failures
  · rw [hpeers, candidates_retried]
    exact hdistinct
  · rwa [hpeers, candidates_retried] at hp

theorem Launches.straight (h : w.Launches t r it) (hs : w.Sound)
    (hr : Round.After (Round.start room candidates maxFail) k r) (hk : k < candidates.length) :
    w.Straight t candidates (min room candidates.length) maxFail k it := by
  obtain ⟨hdistinct, hamong⟩ := h.settled hs hr.distinct
  have hround := h.round
  have hassigned := h.assigned
  have hfailures : r.failures = k := by
    rw [hr.failures]
    exact Nat.zero_add k
  have hwanted : r.wanted = min room candidates.length :=
    hr.wanted.trans (Round.wanted_start room candidates maxFail)
  refine ⟨?_, ?_, hk, ?_, h.crew_ne_nil, ?_, ⟨_, hassigned⟩, hassigned.retains, ?_, ?_, ?_, ?_⟩
  · rw [hround]
    exact hfailures
  · have hle := h.within
    rwa [hfailures, hr.budget] at hle
  · rw [hround]
    exact hwanted
  · have hlen := r.length_draws
    have hfilled : it.round.filled = r.filled := by rw [hround]; rfl
    rw [h.length_crew, hfilled, ← hwanted]
    omega
  · exact fun done slot p rest => Round.getElem?_settle_joined (hassigned.fills_apart hs)
      fun _ => hassigned.fills_empty
  · exact hassigned.filled_settle_succeeded hs
  · rw [List.map_append] at hdistinct
    exact (List.nodup_append.mp hdistinct).1
  · intro p hp
    have hmem := hr.among p (hamong p (List.mem_append_left _ hp))
    rwa [Round.peers_start, List.nil_append] at hmem

/-! ## One iteration after another -/

/-- All attempts of an iteration have settled, and the next one goes on from the slots that they
have left. -/
def Precedes (w : Overlay) (it next : Iteration) : Prop :=
  (∀ g ∈ it.crew, w.isSettled g = true) ∧ next.round.slots = (w.settled it).slots

theorem Fails.precedes (h : w.Fails it) (hn : w.Launches t (w.retried it.round it.crew) next) :
    w.Precedes it next := by
  refine ⟨h.settled, ?_⟩
  rw [hn.round]
  rfl

/-- Each iteration is launched by the round that the failures of those before have left. -/
theorem Chronicle.launched (h : w.Chronicle t r₀ its it) (hs : w.Sound)
    (hr : Round.After r₀ 0 r₀) : ∃ r, Round.After r₀ its.length r ∧ w.Launches t r it := by
  induction h with
  | first h => exact ⟨r₀, hr, h⟩
  | next _ _ hn ih =>
    obtain ⟨r, hafter, hlaunch⟩ := ih
    refine ⟨_, ?_, hn⟩
    rw [List.length_append, List.length_singleton]
    exact hlaunch.after hs hafter

theorem Chronicle.precedes (h : w.Chronicle t r₀ its it) : (its ++ [it]).IsChain w.Precedes := by
  induction h with
  | first => exact List.isChain_singleton _
  | next _ hf hn ih =>
    refine List.isChain_append.mpr ⟨ih, List.isChain_singleton _, ?_⟩
    simpa using hf.precedes hn

theorem Chronicle.retains (h : w.Chronicle t r₀ its it) :
    (its ++ [it]).Pairwise fun it later => it.round.Retains later.round := by
  induction h with
  | first => exact List.pairwise_singleton _ _
  | @next its it next h hf hn ih =>
    refine List.pairwise_append.mpr ⟨ih, List.pairwise_singleton _ _, fun it' hmem later hl => ?_⟩
    obtain rfl := List.mem_singleton.mp hl
    obtain ⟨draws, ha⟩ := h.assigned
    have hlast : it.round.Retains later.round := by
      intro i p hp
      rw [(hf.precedes hn).2]
      exact ha.retains i p hp
    rcases List.mem_append.mp hmem with hmem | hmem
    · exact ((List.pairwise_append.mp ih).2.2 it' hmem it (by simp)).trans hlast
    · obtain rfl := List.mem_singleton.mp hmem
      exact hlast

/-- All attempts of the iterations before the last one have settled. -/
theorem Chronicle.past (h : w.Chronicle t r₀ its it) {it' : Iteration} (hmem : it' ∈ its)
    (hg : g ∈ it'.crew) : w.isSettled g = true := by
  induction h with
  | first => exact absurd hmem (by simp)
  | next _ hf _ ih =>
    rcases List.mem_append.mp hmem with hmem | hmem
    · exact ih hmem
    · obtain rfl := List.mem_singleton.mp hmem
      exact hf.settled g hg

theorem Chronicle.length_le (h : w.Chronicle t r₀ its it) :
    (its ++ [it]).length ≤ ((its ++ [it]).flatMap Iteration.crew).length := by
  induction h with
  | first h => simpa using Nat.succ_le_of_lt (List.length_pos_iff.mpr h.crew_ne_nil)
  | next _ _ hn ih =>
    have hpos := List.length_pos_iff.mpr hn.crew_ne_nil
    simp only [List.flatMap_append, List.flatMap_singleton, List.length_append,
      List.length_singleton] at ih ⊢
    omega

/-! ## Attempts in flight -/

/-- Only attempts of the last iteration are in flight. -/
theorem Chronicle.inFlight (h : w.Chronicle t r₀ its it)
    (hg : w.guardsOf t = (its ++ [it]).flatMap Iteration.crew) :
    w.inFlight t = it.crew.filter fun g => !w.isSettled g := by
  have hpast : (its.flatMap Iteration.crew).filter (fun g => !w.isSettled g) = [] := by
    refine List.filter_eq_nil_iff.mpr fun g hmem => ?_
    obtain ⟨it', hmem, hcrew⟩ := List.mem_flatMap.mp hmem
    simp [h.past hmem hcrew]
  rw [Overlay.inFlight, hg, List.flatMap_append, List.filter_append, hpast, List.nil_append,
    List.flatMap_singleton]

/-- An iteration starts when no attempt is in flight. -/
theorem Called.starts_alone (h : w.Called t manual maxFail) (h₀ : w.iteration? t = none)
    (acts : List Act) (hs : (w.run acts).starts? t y = some next) :
    (w.run acts).inFlight t = [] := by
  have hv := h.run acts
  have hstep := hv.sound.continues hv.role y
  rw [starts?] at hs
  generalize (w.run acts).act y = v at hstep hs
  cases hstep with
  | stays hi =>
    rw [if_pos hi] at hs
    exact absurd hs (by simp)
  | starts hgo _ hn =>
    have hcur := job?_of_going hgo
    cases hn with
    | first hearly =>
      rw [inFlight, hv.guardsOf_early (iteration?_early hcur hearly), List.filter_nil]
    | again r as hfails =>
      have hiter := iteration?_of_job? hcur
      obtain ⟨_, _, -, hc, hg⟩ := h.underway h₀ hiter
      have hsettled := hv.settled (going?_eq_some.mp hgo).2.1 hiter hfails.ended
      rw [hc.inFlight hg]
      exact List.filter_eq_nil_iff.mpr fun g hg => by simp [hsettled g hg]

/-! ## Rounds come to an end -/

/-- An endless run in which each attempt of setup `t` settles, and the setup goes on when it can. -/
structure Sustains (t : TaskId) (w : Overlay) (acts : Nat → Act) : Prop where
  turns : ∀ n, t ∈ (w.after acts n).ready → ∃ m, n ≤ m ∧ acts m = .poll t
  ends : ∀ n g, g ∈ (w.after acts n).guardsOf t →
    ∃ m, n ≤ m ∧ (w.after acts m).isFinished g = true

/-- A setup in a round is ready unless it waits for someone. -/
def Alert (t : TaskId) (w : Overlay) : Prop :=
  ∀ it, w.iteration? t = some it → w.isFinished t = true ∨ t ∈ w.ready ∨
    ∃ g ∈ it.crew, w.isFinished g = false

/-- A setup that leaves an iteration has fewer candidates left in the next one. -/
theorem Sound.fewer_act (h : w.Sound) (hr : w.role? t = some (.setup manual maxFail))
    (hi : w.iteration? t = some it) (y : Act) :
    (w.act y).iteration? t = some it ∨ ∃ next, (w.act y).iteration? t = some next ∧
      next.round.candidates.length < it.round.candidates.length := by
  have hstep := h.continues hr y
  generalize w.act y = v at hstep ⊢
  cases hstep with
  | stays hsame => exact .inl (hsame.trans hi)
  | starts hgo hk hn _ hd =>
    obtain rfl : _ = SetupStage.settling it.round it.crew := by
      simpa using (job?_of_going hgo).symm.trans (job?_of_iteration? hr hi)
    refine .inr ⟨_, (h.iteration?_staffed hk hr hd).1, ?_⟩
    cases hn with
    | first hearly => exact absurd hearly (by simp [SetupStage.isEarly])
    | again =>
      rw [← candidates_retried w it.round it.crew]
      exact Round.length_drop_draws_lt hd

/-- When all of its crew have ended, a setup that goes on ends, or leaves the iteration. -/
theorem Called.moves_on (h : w.Called t manual maxFail) (hi : w.iteration? t = some it)
    (hf : w.isFinished t = false) (hready : t ∈ w.ready)
    (hall : ∀ g ∈ it.crew, w.isFinished g = true) :
    (w.act (.poll t)).isFinished t = true ∨ (w.act (.poll t)).iteration? t ≠ some it := by
  rcases goes_act (lt_of_role? h.role) (.poll t) with hno | ⟨-, job, hgo⟩ | ⟨-, -, -, he, -⟩
  · exact absurd ⟨rfl, hready, hf⟩ hno
  · obtain rfl := Option.some.inj
      ((job?_of_going hgo).symm.trans (job?_of_iteration? h.role hi))
    have hadv := advances_act hgo
    generalize w.act (.poll t) = v at hadv ⊢
    cases hadv with
    | rests _ _ hw =>
      obtain ⟨g, hg, hgf⟩ := hw _ _ rfl
      exact absurd ((hall g hg).symm.trans hgf) (by simp)
    | waits _ _ hearly => exact absurd hearly (by simp [SetupStage.isEarly])
    | ends => exact .inl (isFinished_finish _ _ _)
    | draws hk _ _ hd => exact .inr (hi ▸ (h.sound.iteration?_staffed hk h.role hd).2)
  · exact .inl (isFinished_of_exit? he)

theorem Called.alert_act (h : w.Called t manual maxFail) (ha : w.Alert t) (y : Act) :
    (w.act y).Alert t := by
  have hg := h.sound.grows_act y
  intro it hi
  by_cases hf : (w.act y).isFinished t = true
  · exact .inl hf
  by_cases hafter : ∃ g ∈ it.crew, (w.act y).isFinished g = false
  · exact .inr (.inr hafter)
  have hall : ∀ g ∈ it.crew, (w.act y).isFinished g = true := by simpa using hafter
  have hgo : w.isFinished t = false := hg.unfinished (by simpa using hf)
  have hsame : w.iteration? t = some it := by
    have hstep := h.sound.continues h.role y
    generalize hv : w.act y = v at hstep hi
    cases hstep with
    | stays hi' => exact hi'.symm.trans hi
    | @starts _ x r _ hk _ _ hd =>
      -- those who are new have not ended
      have hnew := (h.sound.iteration?_staffed hk h.role hd).1
      obtain rfl := Option.some.inj (hnew.symm.trans hi)
      have hmem : w.tasks.length ∈ List.range' w.tasks.length r.draws.length :=
        List.mem_range'_1.mpr ⟨Nat.le_refl _, Nat.lt_add_of_pos_right (List.length_pos_iff.mpr hd)⟩
      exact absurd (hall _ hmem) (by simp [h.sound.new_act])
  by_cases hbefore : ∃ g ∈ it.crew, w.isFinished g = false
  · obtain ⟨g, hmem, hgf⟩ := hbefore
    obtain ⟨slot, p, hp⟩ := h.sound.plays_crew h.role hsame hmem
    exact .inr (.inl ((h.sound.tells_parent hp hgf (hall g hmem)).resolve_left hf))
  · have hended : ∀ g ∈ it.crew, w.isFinished g = true := by simpa using hbefore
    have hready : t ∈ w.ready := by
      rcases ha it hsame with hend | hready | hwait
      · exact absurd (hend.symm.trans hgo) (by simp)
      · exact hready
      · exact absurd hwait hbefore
    by_cases hy : y = .poll t
    · subst hy
      exact .inl ((h.moves_on hsame hgo hready hended).resolve_right fun hne => hne hi)
    · refine .inr (.inl ((h.sound.leaves_act hgo hy 0 (.inl hready)).resolve_right fun ht => ?_))
      exact Nat.not_lt_zero _ ((h.sound.act y).timers _ ht).2.1

theorem Called.alert_run (h : w.Called t manual maxFail) (ha : w.Alert t) (acts : List Act) :
    (w.run acts).Alert t := by
  induction acts using List.reverseRecOn with
  | nil => exact ha
  | append_singleton acts y ih => exact run_concat w acts y ▸ (h.run acts).alert_act ih y

theorem Called.after (h : w.Called t manual maxFail) (acts : Nat → Act) (n : Nat) :
    (w.after acts n).Called t manual maxFail := by
  rw [after_eq_run]
  exact h.run _

theorem Called.alert_after (h : w.Called t manual maxFail) (ha : w.Alert t) (acts : Nat → Act)
    (n : Nat) : (w.after acts n).Alert t := by
  rw [after_eq_run]
  exact h.alert_run ha _

/-- If its attempts settle, a setup comes to the end of an iteration. -/
theorem Called.passes_iteration (h : w.Called t manual maxFail) (ha : w.Alert t)
    {acts : Nat → Act} (hs : w.Sustains t acts) {n : Nat}
    (hi : (w.after acts n).iteration? t = some it) :
    ∃ m, (w.after acts m).isFinished t = true ∨
      ∃ next, (w.after acts m).iteration? t = some next ∧
        next.round.candidates.length < it.round.candidates.length := by
  by_contra hno
  simp only [not_exists, not_or] at hno
  have hgo : ∀ m, (w.after acts m).isFinished t = false := fun m => by simpa using (hno m).1
  have hstay : ∀ m, n ≤ m → (w.after acts m).iteration? t = some it := by
    intro m hm
    induction hm with
    | refl => exact hi
    | @step m _ ih =>
      have hm := h.after acts m
      refine (hm.sound.fewer_act hm.role ih (acts m)).resolve_right ?_
      rintro ⟨next, hnext⟩
      exact (hno (m + 1)).2 next hnext
  -- some time all of the crew have ended, and the setup goes on after that
  have hn := h.after acts n
  obtain ⟨m, hm, hall⟩ := h.sound.all_end fun g hg => by
    obtain ⟨slot, p, hp⟩ := hn.sound.plays_crew hn.role hi hg
    exact hs.ends n g (mem_guardsOf.mpr ⟨slot, p, hp⟩)
  have hready : ∀ k, m ≤ k → t ∈ (w.after acts k).ready := by
    intro k hk
    rcases h.alert_after ha acts k it (hstay k (Nat.le_trans hm hk)) with hend | hready | ⟨g, hg, hgf⟩
    · exact absurd (hend.symm.trans (hgo k)) (by simp)
    · exact hready
    · exact absurd ((h.sound.grows_after acts hk).isFinished (hall g hg)) (by simp [hgf])
  obtain ⟨k, hk, hpoll⟩ := hs.turns m (hready m (Nat.le_refl m))
  have hend := (h.after acts k).moves_on (hstay k (Nat.le_trans hm hk)) (hgo k) (hready k hk)
    fun g hg => (h.sound.grows_after acts hk).isFinished (hall g hg)
  rw [← hpoll] at hend
  rcases hend with hend | hne
  · exact absurd (hend.symm.trans (hgo (k + 1))) (by simp)
  · exact hne (hstay (k + 1) (Nat.le_succ_of_le (Nat.le_trans hm hk)))

/-- If its attempts settle, a setup in a round comes to its end. -/
theorem Called.round_ends (h : w.Called t manual maxFail) (ha : w.Alert t) {acts : Nat → Act}
    (hs : w.Sustains t acts) {n : Nat} (hi : (w.after acts n).iteration? t = some it) :
    ∃ m, (w.after acts m).isFinished t = true := by
  induction hl : it.round.candidates.length using Nat.strong_induction_on generalizing n it with
  | _ left ih =>
    obtain ⟨m, hend | ⟨next, hnext, hlt⟩⟩ := h.passes_iteration ha hs hi
    · exact ⟨m, hend⟩
    · exact ih _ (hl ▸ hlt) hnext rfl

/-- In a fair run the attempts of a setup settle if those do that have been started before. -/
theorem Fair.sustains {acts : Nat → Act} (h : w.Fair acts) (hc : w.Called t manual maxFail)
    (hold : ∀ g ∈ w.guardsOf t, ∃ m, (w.after acts m).isFinished g = true) :
    w.Sustains t acts := by
  refine ⟨fun n hready => h.polls n t hready, fun n g hg => ?_⟩
  suffices hend : ∃ m, (w.after acts m).isFinished g = true by
    obtain ⟨m, hm⟩ := hend
    exact ⟨max n m, Nat.le_max_left n m,
      (hc.sound.grows_after acts (Nat.le_max_right n m)).isFinished hm⟩
  induction n with
  | zero => exact hold g hg
  | succ n ih =>
    have hn := hc.after acts n
    have hstep := hn.sound.continues hn.role (acts n)
    generalize hact : (w.after acts n).act (acts n) = v at hstep
    generalize hy : acts n = y at hstep
    cases hstep with
    | stays _ hd =>
      rw [← hact] at hd
      exact ih (hn.sound.guardsOf_act hd ▸ hg)
    | @starts _ x r _ hk _ _ hd =>
      have hguards := hn.sound.guardsOf_staffed hk hn.role hact
      rw [Overlay.after, hguards] at hg
      refine (List.mem_append.mp hg).elim ih fun hnew => ?_
      have hfresh : (x.staffed t manual maxFail r).Fresh (List.range' x.tasks.length r.draws.length) :=
        fresh_staffed (hk.ends hn.sound.exits) (hk.tasks ▸ lt_of_role? hn.role) hd
      obtain ⟨slot, p, hpends⟩ := hfresh.2 g (hk.tasks ▸ hnew)
      rw [← hact] at hpends
      obtain ⟨m, -, hend⟩ := h.guard_ends hc.sound
        (show (w.after acts (n + 1)).Pends g (.guardAttempt slot p none) 0 from hpends)
      exact ⟨m, hend⟩

/-! ## Calls -/

/-- A round keeps within its budget and keeps its slots straight, whatever happens to the node and to
others in the meantime. It has no more iterations than its budget allows and than it has candidates.
Each of them keeps the slots straight, and goes on from the slots of the one before; who fills a slot
stays there. An iteration starts only when no attempt is in flight, so that there are never more of
them than slots, and no more attempts are made in all than there are candidates. If they settle, the
round comes to its end. -/
theorem rounds_end_within_budget (config : RelayConfig) (mine : PeerAddress)
    (before during : List Act) (manual : List PeerAddress) (maxFail : Nat) :
    let u := (start config mine).run before
    let t := u.tasks.length
    let called := u.act (.setUp manual maxFail)
    let v := called.run during
    let its := called.iterations t during
    ∀ i, called.FindsAt during t i →
      let candidates := (called.run (during.take i)).eligible manual
      let wanted := min (called.run (during.take i)).manager.pool.remaining candidates.length
      (candidates.map PeerAddress.id).Nodup ∧
      its.length ≤ min (maxFail + 1) candidates.length ∧
      (∀ k it, its[k]? = some it → v.Straight t candidates wanted maxFail k it) ∧
      its.IsChain v.Precedes ∧
      (its.Pairwise fun it later => it.round.Retains later.round) ∧
      (∀ j y it, during[j]? = some y → (called.run (during.take j)).starts? t y = some it →
        (called.run (during.take j)).inFlight t = []) ∧
      (v.inFlight t).length ≤ wanted ∧
      its.flatMap Iteration.crew = v.guardsOf t ∧ (v.guardsOf t).length ≤ candidates.length ∧
      ∀ acts, v.Sustains t acts → ∃ n, (v.after acts n).isFinished t = true := by
  intro u t called v its i hi candidates wanted
  obtain ⟨hcalled, -, -⟩ := called_setUp config mine before manual maxFail
  have h₀ : called.iteration? t = none := iteration?_setUp u manual maxFail
  have hv : v.Called t manual maxFail := hcalled.run during
  have halert : v.Alert t :=
    hcalled.alert_run (fun it hit => absurd (h₀.symm.trans hit) (by simp)) during
  have hnodup : (candidates.map PeerAddress.id).Nodup := nodup_eligible _ manual
  have hfront : v.DrawsFrom t candidates := by
    have hafter := hcalled.drawsFrom_after hi (List.getElem?_eq_some_iff.mp hi.1).1
    rwa [List.take_length] at hafter
  obtain ⟨left, hleft, hstands⟩ := hfront
  have htotal : (v.guardsOf t).length ≤ candidates.length := by
    have hprefix : v.drawn t <+: candidates := ⟨left, hleft⟩
    rw [length_guardsOf]
    exact hprefix.length_le
  have halone : ∀ j y it, during[j]? = some y →
      (called.run (during.take j)).starts? t y = some it →
      (called.run (during.take j)).inFlight t = [] :=
    fun j _ _ _ hs => hcalled.starts_alone h₀ (during.take j) hs
  have hrec : called.Recorded during t manual maxFail its := hcalled.recorded h₀ during
  clear_value its
  cases hrec with
  | early hnone =>
    have hguards : v.guardsOf t = [] := hv.guardsOf_early hnone
    refine ⟨hnodup, by simp, by simp, .nil, .nil, halone, ?_, hguards.symm, htotal, fun acts _ => ?_⟩
    · rw [inFlight, hguards, List.filter_nil]
      exact Nat.zero_le _
    · -- there was nobody to draw, or no room
      refine ⟨0, hstands.resolve_right ?_⟩
      rintro ⟨_, _, r, as, hj, -⟩
      exact absurd ((iteration?_of_job? hj).symm.trans hnone) (by simp)
  | @underway i' past it hi' hc hj hg =>
    obtain rfl := hcalled.findsAt_unique hi hi'
    have hstart : Round.After ((called.run (during.take i')).firstRound manual maxFail) 0
        ((called.run (during.take i')).firstRound manual maxFail) := Round.after_start hnodup
    have hlen : (past ++ [it]).length ≤ candidates.length := by
      refine Nat.le_trans hc.length_le ?_
      rw [← hg]
      exact htotal
    have hstraight : ∀ k it', (past ++ [it])[k]? = some it' →
        v.Straight t candidates wanted maxFail k it' := by
      intro k it' hk
      obtain ⟨r, hafter, hlaunch⟩ := (hc.take hk).launched hv.sound hstart
      have hlt := (List.getElem?_eq_some_iff.mp hk).1
      rw [List.length_take_of_le (Nat.le_of_lt hlt)] at hafter
      exact hlaunch.straight hv.sound hafter (Nat.lt_of_lt_of_le hlt hlen)
    have hlast := hstraight past.length it List.getElem?_concat_length
    refine ⟨hnodup, ?_, hstraight, hc.precedes, hc.retains, halone, ?_, hg.symm, htotal,
      fun acts hs => hv.round_ends halert hs (show (v.after acts 0).iteration? t = some it from hj)⟩
    · refine Nat.le_min.mpr ⟨?_, hlen⟩
      rw [List.length_append, List.length_singleton]
      exact Nat.succ_le_succ hlast.within
    · rw [hc.inFlight hg]
      exact Nat.le_trans (List.length_filter_le _ _) (Nat.le_trans hlast.few (Nat.sub_le _ _))

/-- The first of two attempts fails, and the slot is drawn for once more. -/
theorem rounds_end_within_budget_sample :
    let config : RelayConfig := { maxRelays := 2, joinPolicy := .allSucceed }
    let before : List Act := [.behave [.sample 2] { connect := ⟨0, .fail (.transport "refused")⟩ }]
    let during : List Act :=
      [.poll 0, .poll 1, .poll 2, .poll 3, .poll 4, .poll 1, .poll 2, .poll 0]
    let called := ((start config (.sample 1)).run before).act
      (.setUp [.sample 2, .sample 3, .sample 4] 1)
    let v := called.run during
    called.FindsAt during 0 0 ∧ (called.iterations 0 during).map Iteration.crew = [[1, 2], [6]] ∧
      (called.iterations 0 during).length ≤ min (1 + 1) (called.eligible
        [.sample 2, .sample 3, .sample 4]).length ∧
      v.Sustains 0 roundRobin ∧ ∃ n, (v.after roundRobin n).isFinished 0 = true := by
  intro config before during called v
  have hfinds : called.FindsAt during 0 0 := ⟨rfl, by decide +kernel⟩
  obtain ⟨hcalled, -, -⟩ :=
    called_setUp config (.sample 1) before [.sample 2, .sample 3, .sample 4] 1
  have hv : v.Called 0 [.sample 2, .sample 3, .sample 4] 1 := hcalled.run during
  have hfair : v.Fair roundRobin := fair_roundRobin hv.sound
  have hsustains : v.Sustains 0 roundRobin := by
    refine hfair.sustains hv fun g hg => ?_
    have hguards : v.guardsOf 0 = [1, 2, 6] := by decide +kernel
    rw [hguards] at hg
    have hended : ∀ a ∈ [1, 2], v.isFinished a = true := by decide +kernel
    simp only [List.mem_cons, List.not_mem_nil, or_false] at hg
    rcases hg with rfl | rfl | rfl
    · exact ⟨0, hended 1 (by simp)⟩
    · exact ⟨0, hended 2 (by simp)⟩
    · have hpends : v.Pends 6 (.guardAttempt 0 (.sample 4) none) 0 :=
        ⟨⟨⟨_, some 0, false⟩, by decide +kernel, rfl⟩, by decide +kernel, .inl (by decide +kernel)⟩
      obtain ⟨m, -, hend⟩ := hfair.guard_ends hv.sound
        (show (v.after roundRobin 0).Pends 6 _ 0 from hpends)
      exact ⟨m, hend⟩
  obtain ⟨-, hlen, -, -, -, -, -, -, -, hends⟩ := rounds_end_within_budget config (.sample 1) before
    during [.sample 2, .sample 3, .sample 4] 1 0 hfinds
  exact ⟨hfinds, by decide +kernel, hlen, hsustains, hends roundRobin hsustains⟩

end Overlay

end RelayUpkeep
