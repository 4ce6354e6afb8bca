import RelayUpkeep.Proofs.Rounds

/-! # What a round comes to

The result of a round is told by its candidates alone: which of them succeed, how many relays are
wanted and required, and how many iterations may fail. -/

namespace RelayUpkeep

inductive SetupResult
  | satisfied
  | maxFailExceeded
  | noCandidates
  deriving DecidableEq, Repr

/-- `filled` slots are filled and `failures` iterations have failed. The next candidates are drawn
in order, one for each slot that is still empty. -/
def reference (succeeds : PeerAddress → Bool) (wanted required maxFail filled failures : Nat)
    (candidates : List PeerAddress) : SetupResult :=
  if maxFail < failures then .maxFailExceeded
  else if candidates.take (wanted - filled) = [] then .noCandidates
  else if required ≤ filled + (candidates.take (wanted - filled)).countP succeeds then .satisfied
  else reference succeeds wanted required maxFail
    (filled + (candidates.take (wanted - filled)).countP succeeds) (failures + 1)
    (candidates.drop (wanted - filled))
termination_by candidates.length
decreasing_by
  rename_i hdraw _
  simp only [List.take_eq_nil_iff, not_or] at hdraw
  have hpos := List.length_pos_iff.mpr hdraw.2
  simp only [List.length_drop]
  omega

namespace Round

variable {r : Round} {succeeds : PeerAddress → Bool} {required : Nat}

/-- What a round comes to from its next turn on. -/
def result (r : Round) (succeeds : PeerAddress → Bool) (required : Nat) : SetupResult :=
  reference succeeds r.wanted required r.maxFail r.filled r.failures r.candidates

/-- What a round comes to when some candidates were drawn and their attempts are under way. -/
def awaits (r : Round) (draws : List (Nat × PeerAddress)) (succeeds : PeerAddress → Bool)
    (required : Nat) : SetupResult :=
  if required ≤ r.filled + (draws.map Prod.snd).countP succeeds then .satisfied
  else reference succeeds r.wanted required r.maxFail
    (r.filled + (draws.map Prod.snd).countP succeeds) (r.failures + 1) r.candidates

theorem draws_eq_nil_iff : r.draws = [] ↔ r.candidates.take (r.wanted - r.filled) = [] := by
  rw [← map_snd_draws, List.map_eq_nil_iff]

/-- A turn stops the round with its result, or starts the attempts that it waits for. -/
theorem result_eq (r : Round) : r.result succeeds required =
    if r.maxFail < r.failures then .maxFailExceeded
    else if r.draws = [] then .noCandidates
    else { r with candidates := r.candidates.drop r.draws.length }.awaits r.draws succeeds
      required := by
  unfold result
  rw [reference]
  simp only [draws_eq_nil_iff, awaits, map_snd_draws]
  rw [drop_draws]
  rfl

/-- When the attempts have ended, the round is satisfied or goes on as its reference does. -/
theorem awaits_eq {draws : List (Nat × PeerAddress)} {ends : List AttemptEnd} {s : String}
    (h : (r.settle ends).filled = r.filled + (draws.map Prod.snd).countP succeeds) :
    r.awaits draws succeeds required =
      if required ≤ (r.settle ends).filled then .satisfied
      else ((r.settle ends).retry s).result succeeds required := by
  obtain ⟨slots, hs, hl⟩ := r.settle_eq ends
  rw [hs] at h ⊢
  have hwanted : ({ r with slots } : Round).wanted = r.wanted := hl
  rw [awaits, ← h, ← hwanted]
  rfl

end Round

end RelayUpkeep
