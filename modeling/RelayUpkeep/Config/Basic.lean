import RelayUpkeep.Error
import RelayUpkeep.JoinPolicy
import RelayUpkeep.Span
import RelayUpkeep.Text.Blank

/-! # Settings of a relay manager -/

namespace RelayUpkeep

/-- A relay either keeps a connection open, or wakes the node by push notifications. -/
inductive RelayKind
  | openTcp
  | push
  deriving DecidableEq, Repr

namespace RelayKind

def text : RelayKind → String
  | openTcp => "OpenTcp"
  | push => "Push"

end RelayKind

structure RelayConfig where
  maxRelays : Nat := RelayUpkeep.maxRelays
  failedWait : Span := .ofSecs 60
  kind : RelayKind := .openTcp
  registrationId : Option String := none
  joinPolicy : JoinPolicy := .anySuccess
  filterFailedManual : Bool := true
  deriving DecidableEq, Repr

inductive ConfigProblem
  | noRelays
  | tooManyRelays
  | noWait
  | noRegistrationId
  | noThreshold
  deriving DecidableEq, Repr

def ConfigProblem.message : ConfigProblem → String
  | noRelays => "max_relays must be at least 1"
  | tooManyRelays => "max_relays must not exceed " ++ toString maxRelays
  | noWait => "failed_relay_wait_time must be non-zero"
  | noRegistrationId => "push relays require a gcm_registration_id"
  | noThreshold => "join_policy at_least must be at least 1"

namespace RelayConfig

/-- The settings for relays that wake the node by push notifications. -/
def forPush (registrationId : String) : RelayConfig :=
  { kind := .push, registrationId := some registrationId }

/-- Whether there is a registration id with more than white space in it. -/
def hasRegistrationId (c : RelayConfig) : Bool :=
  c.registrationId.any fun id => !Text.allBlank id

/-- The first problem with the settings. -/
def problem? (c : RelayConfig) : Option ConfigProblem :=
  if c.maxRelays = 0 then some .noRelays
  else if RelayUpkeep.maxRelays < c.maxRelays then some .tooManyRelays
  else if c.failedWait.nanos = 0 then some .noWait
  else if c.kind = .push ∧ !c.hasRegistrationId then some .noRegistrationId
  else if c.joinPolicy = .atLeast 0 then some .noThreshold
  else none

def validate (c : RelayConfig) : Except RelayError Unit :=
  match c.problem? with
  | some p => .error (.invalidConfig p.message)
  | none => .ok ()

def describe (c : RelayConfig) : String :=
  let id := match c.registrationId with
    | some id => "Some(" ++ Text.quoted id ++ ")"
    | none => "None"
  "RelayConfig \x7b max_relays: " ++ toString c.maxRelays ++
    ", failed_relay_wait_time: " ++ c.failedWait.text ++
    ", relay_type: " ++ c.kind.text ++
    ", gcm_registration_id: " ++ id ++
    ", join_policy: " ++ c.joinPolicy.describe ++
    ", filter_failed_manual_relays: " ++ toString c.filterFailedManual ++ " \x7d"

end RelayConfig

end RelayUpkeep
