import RelayUpkeep.Error
import RelayUpkeep.JoinPolicy
import RelayUpkeep.Text.Blank

/-! # Setup rounds

A round has one slot for each relay that it still wants. In every iteration each empty slot draws a
candidate, all candidates drawn are tried at once, and when the last attempt has ended the round is
judged by the slots filled so far. A slot whose attempt failed is empty again.
-/

namespace RelayUpkeep

/-- How an attempt ended. -/
inductive AttemptEnd
  | joined (slot : Nat) (candidate : PeerAddress)
  | failed (candidate : PeerAddress) (error : RelayError)
  | aborted (report : String)
  deriving DecidableEq, Repr

/-- What the end of an attempt adds to the reason of a failed iteration. -/
def AttemptEnd.complaint? : AttemptEnd → Option String
  | joined _ _ => none
  | failed candidate error => some (candidate.id.text ++ ": " ++ error.message)
  | aborted report => some ("attempt aborted: " ++ report)

structure Round where
  candidates : List PeerAddress
  slots : List (Option PeerAddress)
  maxFail : Nat
  failures : Nat
  trail : String
  deriving DecidableEq, Repr

/-- What a round does next. -/
inductive Turn
  | stop (error : RelayError)
  | attempt (draws : List (Nat × PeerAddress)) (round : Round)
  deriving DecidableEq, Repr

namespace Round

def start (room : Nat) (candidates : List PeerAddress) (maxFail : Nat) : Round :=
  ⟨candidates, List.replicate (min room candidates.length) none, maxFail, 0, ""⟩

def wanted (r : Round) : Nat := r.slots.length

def filled (r : Round) : Nat := r.slots.countP Option.isSome

def emptySlots (r : Round) : List Nat :=
  (List.range r.wanted).filter fun i => r.slots[i]? == some none

/-- Each empty slot with its candidate, as far as the candidates go. -/
def draws (r : Round) : List (Nat × PeerAddress) :=
  r.emptySlots.zip r.candidates

/-- The failure budget is looked at before the candidates are. -/
def turn (r : Round) : Turn :=
  if r.maxFail < r.failures then .stop (.maxFailuresExceeded (Text.trimEnd r.trail))
  else
    match r.draws with
    | [] => .stop (.noCandidates (Text.trimEnd r.trail))
    | draws => .attempt draws { r with candidates := r.candidates.drop draws.length }

def fill (r : Round) : AttemptEnd → Round
  | .joined slot candidate => { r with slots := r.slots.set slot (some candidate) }
  | _ => r

/-- Fill the slots whose attempts succeeded. -/
def settle (r : Round) (ends : List AttemptEnd) : Round :=
  ends.foldl fill r

def isSatisfied (r : Round) (policy : JoinPolicy) : Bool :=
  policy.isSatisfied r.filled r.wanted

/-- Why an iteration was not enough, with its failed attempts in the order in which they ended. -/
def reason (r : Round) (policy : JoinPolicy) (ends : List AttemptEnd) : String :=
  "[" ++ toString r.filled ++ "/" ++ toString r.wanted ++ " succeeded, " ++
    toString (policy.required r.wanted) ++ " required" ++
    String.join ((ends.filterMap AttemptEnd.complaint?).map ("; " ++ ·)) ++ "]"

/-- Count a failed iteration. -/
def retry (r : Round) (reason : String) : Round :=
  { r with failures := r.failures + 1, trail := r.trail ++ reason ++ " " }

end Round

end RelayUpkeep
