import RelayUpkeep.Config.Basic
import RelayUpkeep.Toml.Document

/-! # The stored form of the settings

Settings are kept as a TOML document with one key each. A key that is absent has its default value,
and a key that is no setting is passed over. Waits are kept in whole seconds. Integers of the
format are signed 64-bit numbers.
-/

namespace RelayUpkeep

open Toml

/-- A value that is one of several named variants: its name alone, or a table with the name as its
only key, which holds what belongs to the variant. -/
def variant? : Node → Option (String × Option Node)
  | .string name => some (name, none)
  | .table _ [(name, content)] => some (name, some content)
  | _ => none

/-- A variant that nothing belongs to may hold an empty table or an empty array. -/
def isBare : Option Node → Bool
  | none => true
  | some (.table _ []) => true
  | some (.array []) => true
  | some _ => false

def natural? : Node → Option Nat
  | .integer n => if 0 ≤ n then some n.toNat else none
  | _ => none

def boolean? : Node → Option Bool
  | .boolean b => some b
  | _ => none

def string? : Node → Option String
  | .string s => some s
  | _ => none

namespace RelayKind

def storedName : RelayKind → String
  | openTcp => "open_tcp"
  | push => "push"

def ofNode? (n : Node) : Option RelayKind := do
  let (name, content) ← variant? n
  guard (isBare content)
  if name = "open_tcp" then some openTcp
  else if name = "push" then some push
  else none

end RelayKind

namespace JoinPolicy

def ofNode? (n : Node) : Option JoinPolicy := do
  let (name, content) ← variant? n
  if name = "at_least" then (content.bind natural?).map atLeast
  else do
    guard (isBare content)
    if name = "any_success" then some anySuccess
    else if name = "all_succeed" then some allSucceed
    else none

end JoinPolicy

/-- The value of a key, or a default where the key is absent. -/
def setting? {α : Type} (es : Entries) (key : String) (read : Node → Option α) (default : α) :
    Option α :=
  match es.find? key with
  | some n => read n
  | none => some default

namespace RelayConfig

def ofEntries? (es : Entries) : Option RelayConfig := do
  let base : RelayConfig := {}
  let maxRelays ← setting? es "max_relays" natural? base.maxRelays
  let failedWait ← setting? es "failed_relay_wait_secs" (fun n => (natural? n).map Span.ofSecs)
    base.failedWait
  let kind ← setting? es "relay_type" RelayKind.ofNode? base.kind
  let registrationId ← setting? es "gcm_registration_id" (fun n => (string? n).map some)
    base.registrationId
  let joinPolicy ← setting? es "join_policy" JoinPolicy.ofNode? base.joinPolicy
  let filterFailedManual ← setting? es "filter_failed_manual_relays" boolean?
    base.filterFailedManual
  return { maxRelays, failedWait, kind, registrationId, joinPolicy, filterFailedManual }

/-- Read settings and validate them. -/
def parse (text : String) : Except RelayError RelayConfig :=
  match (Toml.read? text).bind ofEntries? with
  | none => .error (.config "not a document of settings")
  | some c => (c.validate).map fun _ => c

/-- Read settings from the bytes of a file, which is absent if it cannot be read. -/
def load (file : Option ByteArray) : Except RelayError RelayConfig :=
  match file.bind String.fromUTF8? with
  | none => .error (.config "no text can be read")
  | some text => parse text

/-- A number as an integer of the format. -/
def writeNat? (n : Nat) : Option (List Char) :=
  if n < integerLimit then some (Nat.toDigits 10 n) else none

def line (key : String) (value : List Char) : List Char :=
  key.toList ++ " = ".toList ++ value ++ ['\n']

/-- A policy without a threshold is kept in a line, one with a threshold in a table of its own at
the end. -/
def policyLine : JoinPolicy → List Char
  | .anySuccess => line "join_policy" (writeString "any_success")
  | .allSucceed => line "join_policy" (writeString "all_succeed")
  | .atLeast _ => []

def policyTable? : JoinPolicy → Option (List Char)
  | .atLeast n => do
    let n ← writeNat? n
    return "\n[join_policy]\n".toList ++ line "at_least" n
  | _ => some []

/-- The stored form, unless a number is too great for it. -/
def render? (c : RelayConfig) : Option String := do
  let maxRelays ← writeNat? c.maxRelays
  let wait ← writeNat? c.failedWait.secs
  let table ← policyTable? c.joinPolicy
  let registrationId := match c.registrationId with
    | some id => line "gcm_registration_id" (writeString id)
    | none => []
  return String.ofList <|
    line "max_relays" maxRelays ++
    line "failed_relay_wait_secs" wait ++
    line "relay_type" (writeString c.kind.storedName) ++
    registrationId ++
    policyLine c.joinPolicy ++
    line "filter_failed_manual_relays" (toString c.filterFailedManual).toList ++
    table

end RelayConfig

end RelayUpkeep
