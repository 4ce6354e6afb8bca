import RelayUpkeep.Peer.Basic

/-! # The pool of relays

An ordered collection with a capacity. A relay is let in by the peer that it connects to, and taken
out by its own identity: two connections to one peer are different relays.
-/

namespace RelayUpkeep

abbrev RelayId := Nat

structure Member where
  relay : RelayId
  address : PeerAddress
  deriving DecidableEq, Repr

inductive Admission
  | added
  | full
  | duplicate
  deriving DecidableEq, Repr

structure Pool where
  capacity : Nat
  members : List Member
  deriving DecidableEq, Repr

namespace Pool

def empty (capacity : Nat) : Pool := ⟨capacity, []⟩

def len (p : Pool) : Nat := p.members.length

def remaining (p : Pool) : Nat := p.capacity - p.len

def containsPeer (p : Pool) (peer : PeerAddress) : Bool :=
  p.members.any fun m => m.address.same peer

def contains (p : Pool) (relay : RelayId) : Bool :=
  p.members.any fun m => m.relay == relay

/-- Want of room is found before a twin is. -/
def add (p : Pool) (m : Member) : Pool × Admission :=
  if p.capacity ≤ p.len then (p, .full)
  else if p.containsPeer m.address then (p, .duplicate)
  else ({ p with members := p.members ++ [m] }, .added)

def remove (p : Pool) (relay : RelayId) : Pool × Bool :=
  ({ p with members := p.members.eraseP fun m => m.relay == relay }, p.contains relay)

def drain (p : Pool) : List Member × Pool := (p.members, { p with members := [] })

def addresses (p : Pool) : List PeerAddress := p.members.map Member.address

end Pool

end RelayUpkeep
