import RelayUpkeep.Peer.Basic
import RelayUpkeep.Text.Quoted
import RelayUpkeep.Text.TaskNumber

/-! # What can go wrong

An error is an answer that a caller can act on. A crash cuts a piece of work short; whoever waits
for that work hears of it by a text.
-/

namespace RelayUpkeep

inductive RelayError
  | noCandidates (detail : String)
  | maxFailuresExceeded (trail : String)
  | resourceUnavailable (reason : String)
  | shutDownRace (reason : String)
  | shutDown
  | handshakeRejected (peer : PeerId) (reason : String)
  | connectFailed (peer : PeerId) (reason : String)
  | transport (reason : String)
  | invalidConfig (reason : String)
  | config (reason : String)
  deriving DecidableEq, Repr

namespace RelayError

def message : RelayError → String
  | noCandidates detail => "No candidates: " ++ detail
  | maxFailuresExceeded trail => "Max failures exceeded: " ++ trail
  | resourceUnavailable reason => "Resource unavailable: " ++ reason
  | shutDownRace reason => "Shut down during relay setup: " ++ reason
  | shutDown => "Relay manager is shut down"
  | handshakeRejected peer reason => "Relay handshake rejected by " ++ peer.text ++ ": " ++ reason
  | connectFailed peer reason => "Connection to " ++ peer.text ++ " failed: " ++ reason
  | transport reason => "Transport error: " ++ reason
  | invalidConfig reason => "Invalid configuration: " ++ reason
  | config reason => "Configuration error: " ++ reason

/-- What a manager or a relay answers with: its message, in which no task has a number. -/
def report (e : RelayError) : String := Text.hideTaskNumbers e.message

/-- Whether the error ends a whole setup. -/
def isRoundTerminal : RelayError → Bool
  | noCandidates _ | maxFailuresExceeded _ | resourceUnavailable _ | shutDownRace _ | shutDown => true
  | _ => false

/-- Whether the error speaks of one candidate only. -/
def isCandidateFailure : RelayError → Bool
  | handshakeRejected _ _ | connectFailed _ _ => true
  | _ => false

/-- The reservation of channels fails with one kind of error, whatever the cause. -/
def asResourceUnavailable : RelayError → RelayError
  | resourceUnavailable reason => resourceUnavailable reason
  | e => resourceUnavailable e.message

end RelayError

inductive Crash
  | clockOverflow
  | collaborator (text : String)
  deriving DecidableEq, Repr

namespace Crash

def message : Crash → String
  | clockOverflow => "overflow when adding duration to instant"
  | collaborator text => text

/-- What whoever waits for the crashed work is told; the number of the task is not shown. -/
def report (c : Crash) : String :=
  "task # panicked with message " ++ Text.quoted c.message

end Crash

/-- What whoever waits for cancelled work is told. -/
def cancellationReport : String := "task # was cancelled"

end RelayUpkeep
