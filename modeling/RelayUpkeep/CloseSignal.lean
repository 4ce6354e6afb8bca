/-! # Close signals

A link is open, lost, or shut down, and never opens again. One listener can be attached to it; it
is called when the link is lost, or when it is attached to a link that was lost before any listener
was there. No second listener is called.
-/

namespace RelayUpkeep

inductive CloseSignal (α : Type)
  | live (listener : Option α)
  | lost (notified : Bool)
  | shutDown
  deriving DecidableEq, Repr

namespace CloseSignal

variable {α : Type}

def isClosed : CloseSignal α → Bool
  | live _ => false
  | lost _ | shutDown => true

/-- Attach a listener. The second component is the listener to call at once. -/
def listen : CloseSignal α → α → CloseSignal α × Option α
  | live _, l => (live (some l), none)
  | lost false, l => (lost true, some l)
  | lost true, _ => (lost true, none)
  | shutDown, _ => (shutDown, none)

/-- The link is lost. The second component is the listener to call, the third whether this
closed the link. -/
def lose : CloseSignal α → CloseSignal α × Option α × Bool
  | live listener => (lost listener.isSome, listener, true)
  | s => (s, none, false)

/-- The link is shut down. The second component tells whether this closed it. -/
def shut : CloseSignal α → CloseSignal α × Bool
  | live _ => (shutDown, true)
  | s => (s, false)

end CloseSignal

end RelayUpkeep
