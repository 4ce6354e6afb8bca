/-! # Fair locks

A lock is handed over in the order in which it was asked for.
-/

namespace RelayUpkeep

structure FairLock (α : Type) where
  holder : Option α
  waiting : List α
  deriving DecidableEq, Repr

namespace FairLock

variable {α : Type}

def free : FairLock α := ⟨none, []⟩

/-- Ask for the lock: whether it is held at once. -/
def acquire (l : FairLock α) (a : α) : FairLock α × Bool :=
  match l.holder with
  | none => (⟨some a, l.waiting⟩, true)
  | some _ => (⟨l.holder, l.waiting ++ [a]⟩, false)

/-- Give the lock to whoever waits longest. -/
def release (l : FairLock α) : FairLock α :=
  ⟨l.waiting.head?, l.waiting.tail⟩

/-- Give up the lock, or the place in the queue. -/
def leave [DecidableEq α] (l : FairLock α) (a : α) : FairLock α :=
  if l.holder = some a then l.release else { l with waiting := l.waiting.erase a }

end FairLock

end RelayUpkeep
