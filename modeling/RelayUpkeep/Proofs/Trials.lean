import RelayUpkeep.Config.Basic
import RelayUpkeep.Proofs.Reference

/-! # Whom a round tries, and how much it tolerates

A round stops at the first iteration with which it has the relays that it requires, or when its
failures exceed the budget. One that requires fewer relays stops where another goes on, and has
tried nobody whom the other has not. One with a larger budget goes on where another gives up, and
does as the other does until then. -/

namespace RelayUpkeep

/-! ## Policies -/

namespace JoinPolicy

theorem required_atLeast_mono {m n : Nat} (h : m ≤ n) (wanted : Nat) :
    (atLeast m).required wanted ≤ (atLeast n).required wanted := by
  simp only [required]
  omega

end JoinPolicy

/-- A round that wants relays requires some. -/
theorem RelayConfig.required_pos {config : RelayConfig} (h : config.validate = .ok ()) {n : Nat}
    (hn : 0 < n) : 0 < config.joinPolicy.required n := by
  unfold validate problem? at h
  split at h
  · exact absurd h (by simp)
  · next hp =>
    split_ifs at hp with _ _ _ _ h₅
    cases hj : config.joinPolicy with
    | anySuccess => exact Nat.lt_min.mpr ⟨hn, Nat.one_pos⟩
    | allSucceed => exact hn
    | atLeast k =>
      have hk : k ≠ 0 := by
        rintro rfl
        exact h₅ hj
      simp only [JoinPolicy.required]
      omega

/-! ## Whom a round tries -/

/-- The candidates that a round draws, one iteration after the other. -/
def trials (succeeds : PeerAddress → Bool) (wanted required maxFail filled failures : Nat)
    (candidates : List PeerAddress) : List PeerAddress :=
  if maxFail < failures then []
  else if candidates.take (wanted - filled) = [] then []
  else if required ≤ filled + (candidates.take (wanted - filled)).countP succeeds then
    candidates.take (wanted - filled)
  else candidates.take (wanted - filled) ++ trials succeeds wanted required maxFail
    (filled + (candidates.take (wanted - filled)).countP succeeds) (failures + 1)
    (candidates.drop (wanted - filled))
termination_by candidates.length
decreasing_by
  rename_i hdraw _
  simp only [List.take_eq_nil_iff, not_or] at hdraw
  have hpos := List.length_pos_iff.mpr hdraw.2
  simp only [List.length_drop]
  omega

section

variable {succeeds : PeerAddress → Bool} {wanted required required' maxFail maxFail' filled
  failures : Nat} {candidates : List PeerAddress}

theorem reference_next (hm : failures ≤ maxFail) (hd : candidates.take (wanted - filled) ≠ []) :
    reference succeeds wanted required maxFail filled failures candidates =
      if required ≤ filled + (candidates.take (wanted - filled)).countP succeeds then .satisfied
      else reference succeeds wanted required maxFail
        (filled + (candidates.take (wanted - filled)).countP succeeds) (failures + 1)
        (candidates.drop (wanted - filled)) := by
  rw [reference, if_neg (Nat.not_lt.mpr hm), if_neg hd]

theorem trials_next (hm : failures ≤ maxFail) (hd : candidates.take (wanted - filled) ≠ []) :
    trials succeeds wanted required maxFail filled failures candidates =
      candidates.take (wanted - filled) ++
        if required ≤ filled + (candidates.take (wanted - filled)).countP succeeds then []
        else trials succeeds wanted required maxFail
          (filled + (candidates.take (wanted - filled)).countP succeeds) (failures + 1)
          (candidates.drop (wanted - filled)) := by
  rw [trials, if_neg (Nat.not_lt.mpr hm), if_neg hd]
  split
  · rw [List.append_nil]
  · rfl

/-- A round that draws nobody tries nobody. -/
theorem trials_of_draws_nil (hd : candidates.take (wanted - filled) = []) :
    trials succeeds wanted required maxFail filled failures candidates = [] := by
  rw [trials, if_pos hd]
  split <;> rfl

/-- A round that is satisfied is so if fewer relays are required or more failures allowed. -/
theorem satisfied_of_tolerant (hr : required' ≤ required) (hm : maxFail ≤ maxFail')
    (h : reference succeeds wanted required maxFail filled failures candidates = .satisfied) :
    reference succeeds wanted required' maxFail' filled failures candidates = .satisfied := by
  fun_induction reference succeeds wanted required maxFail filled failures candidates with
  | case1 | case2 => exact absurd h (by simp)
  | case3 filled failures candidates hbudget hdraw henough =>
    rw [reference_next (by omega) hdraw, if_pos (Nat.le_trans hr henough)]
  | case4 filled failures candidates hbudget hdraw hfew ih =>
    rw [reference_next (by omega) hdraw]
    split
    · rfl
    · exact ih h

/-- With fewer relays required a round stops earlier, if at all. -/
theorem trials_prefix_of_required_le (hr : required' ≤ required) :
    trials succeeds wanted required' maxFail filled failures candidates <+:
      trials succeeds wanted required maxFail filled failures candidates := by
  fun_induction trials succeeds wanted required maxFail filled failures candidates with
  | case1 filled failures candidates hbudget =>
    refine List.prefix_nil.mpr ?_
    rw [trials, if_pos hbudget]
  | case2 filled failures candidates hbudget hdraw =>
    exact List.prefix_nil.mpr (trials_of_draws_nil hdraw)
  | case3 filled failures candidates hbudget hdraw henough =>
    refine ⟨[], ?_⟩
    rw [trials_next (Nat.le_of_not_lt hbudget) hdraw, if_pos (Nat.le_trans hr henough),
      List.append_nil, List.append_nil]
  | case4 filled failures candidates hbudget hdraw hfew ih =>
    rw [trials_next (Nat.le_of_not_lt hbudget) hdraw]
    refine (List.prefix_append_right_inj _).mpr ?_
    split
    · exact List.nil_prefix
    · exact ih

/-- With a larger budget a round stops later, if at all. -/
theorem trials_prefix_of_budget_le (hm : maxFail ≤ maxFail') :
    trials succeeds wanted required maxFail filled failures candidates <+:
      trials succeeds wanted required maxFail' filled failures candidates := by
  fun_induction trials succeeds wanted required maxFail filled failures candidates with
  | case1 | case2 => exact List.nil_prefix
  | case3 filled failures candidates hbudget hdraw henough =>
    rw [trials_next (by omega) hdraw]
    exact List.prefix_append _ _
  | case4 filled failures candidates hbudget hdraw hfew ih =>
    have hle := Nat.le_trans (Nat.le_of_not_lt hbudget) hm
    rw [trials_next hle hdraw, if_neg hfew]
    exact (List.prefix_append_right_inj _).mpr ih

/-- A larger budget changes nothing for a round that has not exceeded the smaller one. -/
theorem unchanged_of_budget_le (hm : maxFail ≤ maxFail')
    (h : reference succeeds wanted required maxFail filled failures candidates ≠
      .maxFailExceeded) :
    reference succeeds wanted required maxFail' filled failures candidates =
        reference succeeds wanted required maxFail filled failures candidates ∧
      trials succeeds wanted required maxFail' filled failures candidates =
        trials succeeds wanted required maxFail filled failures candidates := by
  fun_induction reference succeeds wanted required maxFail filled failures candidates with
  | case1 => exact absurd rfl h
  | case2 filled failures candidates hbudget hdraw =>
    rw [trials_of_draws_nil hdraw, trials_of_draws_nil hdraw, reference, if_neg (by omega),
      if_pos hdraw]
    exact ⟨rfl, rfl⟩
  | case3 filled failures candidates hbudget hdraw henough =>
    have hle := Nat.le_of_not_lt hbudget
    have hle' := Nat.le_trans hle hm
    rw [reference_next hle' hdraw, trials_next hle' hdraw, trials_next hle hdraw, if_pos henough,
      if_pos henough, if_pos henough]
    exact ⟨rfl, rfl⟩
  | case4 filled failures candidates hbudget hdraw hfew ih =>
    have hle := Nat.le_of_not_lt hbudget
    have hle' := Nat.le_trans hle hm
    obtain ⟨hresult, htrials⟩ := ih h
    rw [reference_next hle' hdraw, trials_next hle' hdraw, trials_next hle hdraw, if_neg hfew,
      if_neg hfew, if_neg hfew, htrials]
    exact ⟨hresult, rfl⟩

end

namespace Round

variable {r : Round} {succeeds : PeerAddress → Bool} {required : Nat}

/-- Whom a round tries from its next turn on. -/
def whom (r : Round) (succeeds : PeerAddress → Bool) (required : Nat) : List PeerAddress :=
  trials succeeds r.wanted required r.maxFail r.filled r.failures r.candidates

/-- Whom a round tries after some candidates were drawn and their attempts are under way. -/
def ahead (r : Round) (draws : List (Nat × PeerAddress)) (succeeds : PeerAddress → Bool)
    (required : Nat) : List PeerAddress :=
  if required ≤ r.filled + (draws.map Prod.snd).countP succeeds then []
  else trials succeeds r.wanted required r.maxFail
    (r.filled + (draws.map Prod.snd).countP succeeds) (r.failures + 1) r.candidates

/-- A turn stops the round, or draws those whom it tries next. -/
theorem whom_eq (r : Round) : r.whom succeeds required =
    if r.maxFail < r.failures then []
    else if r.draws = [] then []
    else r.draws.map Prod.snd ++
      { r with candidates := r.candidates.drop r.draws.length }.ahead r.draws succeeds
        required := by
  unfold whom
  split_ifs with hm hd
  · rw [trials, if_pos hm]
  · exact trials_of_draws_nil (draws_eq_nil_iff.mp hd)
  · rw [trials_next (Nat.not_lt.mp hm) (mt draws_eq_nil_iff.mpr hd), map_snd_draws, ahead,
      map_snd_draws, drop_draws]
    rfl

/-- When the attempts have ended, the round has tried all whom it tries, or goes on. -/
theorem ahead_eq {draws : List (Nat × PeerAddress)} {ends : List AttemptEnd} {s : String}
    (h : (r.settle ends).filled = r.filled + (draws.map Prod.snd).countP succeeds) :
    r.ahead draws succeeds required =
      if required ≤ (r.settle ends).filled then []
      else ((r.settle ends).retry s).whom succeeds required := by
  obtain ⟨slots, hs, hl⟩ := r.settle_eq ends
  rw [hs] at h ⊢
  have hwanted : ({ r with slots } : Round).wanted = r.wanted := hl
  rw [ahead, ← h, ← hwanted]
  rfl

end Round

/-! ## What a call comes to -/

section

variable {succeeds : PeerAddress → Bool} {policy policy' : JoinPolicy} {maxFail maxFail' room : Nat}
  {found : List PeerAddress}

/-- What a call comes to that has found candidates, and room for so many relays. -/
def foreseen (succeeds : PeerAddress → Bool) (policy : JoinPolicy) (maxFail room : Nat)
    (found : List PeerAddress) : SetupResult :=
  if found = [] then .noCandidates
  else if room = 0 then .satisfied
  else reference succeeds (min room found.length) (policy.required (min room found.length))
    maxFail 0 0 found

/-- Whom such a call tries. -/
def foreseenTrials (succeeds : PeerAddress → Bool) (policy : JoinPolicy) (maxFail room : Nat)
    (found : List PeerAddress) : List PeerAddress :=
  trials succeeds (min room found.length) (policy.required (min room found.length)) maxFail 0 0
    found

theorem foreseen_satisfied_of_tolerant
    (hr : policy'.required (min room found.length) ≤ policy.required (min room found.length))
    (hm : maxFail ≤ maxFail') (h : foreseen succeeds policy maxFail room found = .satisfied) :
    foreseen succeeds policy' maxFail' room found = .satisfied := by
  unfold foreseen at h ⊢
  split_ifs at h ⊢
  · rfl
  · exact satisfied_of_tolerant hr hm h

theorem foreseen_eq_of_budget_le (hm : maxFail ≤ maxFail')
    (h : foreseen succeeds policy maxFail room found ≠ .maxFailExceeded) :
    foreseen succeeds policy maxFail' room found = foreseen succeeds policy maxFail room found ∧
      foreseenTrials succeeds policy maxFail' room found =
        foreseenTrials succeeds policy maxFail room found := by
  unfold foreseenTrials
  unfold foreseen at h ⊢
  split_ifs at h ⊢ with hfound hroom
  · refine ⟨rfl, ?_⟩
    rw [trials_of_draws_nil (by simp [hfound]), trials_of_draws_nil (by simp [hfound])]
  · refine ⟨rfl, ?_⟩
    rw [trials_of_draws_nil (by simp [hroom]), trials_of_draws_nil (by simp [hroom])]
  · exact unchanged_of_budget_le hm h

end

end RelayUpkeep
