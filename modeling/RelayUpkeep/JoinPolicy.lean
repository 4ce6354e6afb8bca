/-! # Join policies

How many of the relays that a round wants have to be held for the round to be satisfied.
-/

namespace RelayUpkeep

inductive JoinPolicy
  | anySuccess
  | allSucceed
  | atLeast (n : Nat)
  deriving DecidableEq, Repr

namespace JoinPolicy

def required : JoinPolicy → Nat → Nat
  | anySuccess, wanted => min wanted 1
  | allSucceed, wanted => wanted
  | atLeast n, wanted => min n wanted

/-- A round that wants nothing is never satisfied. -/
def isSatisfied (p : JoinPolicy) (succeeded wanted : Nat) : Bool :=
  0 < wanted && p.required wanted ≤ succeeded

def describe : JoinPolicy → String
  | anySuccess => "AnySuccess"
  | allSucceed => "AllSucceed"
  | atLeast n => "AtLeast(" ++ toString n ++ ")"

theorem required_le (p : JoinPolicy) (wanted : Nat) : p.required wanted ≤ wanted := by
  cases p <;> simp only [required] <;> omega

end JoinPolicy

end RelayUpkeep
