import RelayUpkeep.Proofs.Idling

/-! # A shutdown that nobody disturbs

A shutdown that nobody disturbs has one part for each relay that was pooled when it began and one
for the channels. It ends when the last part has ended, with the first complaint, and leaves nothing
to do for those that come later. -/

namespace RelayUpkeep.Overlay

variable {t s x : TaskId} {w : Overlay} {acts : Nat → Act} {n k m : Nat} {hadRelays : Bool}
  {parts : List TaskId}

theorem Thrifty.after (h : w.Thrifty) (hs : w.Sound) (hg : w.Gated) (acts : Nat → Act) (i : Nat) :
    (w.after acts i).Thrifty := by
  induction i with
  | zero => exact h
  | succ i ih => exact ih.act (hg.after hs acts i).toLined (hs.after acts i) (acts i)

theorem Tallied.after (h : w.Tallied) (hs : w.Sound) (acts : Nat → Act) (i : Nat) :
    (w.after acts i).Tallied := by
  induction i with
  | zero => exact h
  | succ i ih => exact ih.act (hs.after acts i) (acts i)

theorem isSchedule_roundRobin (i : Nat) : (roundRobin i).isSchedule = true := by
  unfold roundRobin
  split <;> rfl

end RelayUpkeep.Overlay
