import RelayUpkeep.Error
import RelayUpkeep.Span

/-! # Candidates that failed

Each peer that failed is remembered up to and including the end of its wait time. What has run out
is dropped when another peer is added, or when it is asked for.
-/

namespace RelayUpkeep

structure FailedCache where
  ttl : Span
  entries : List (PeerId × Instant)
  deriving DecidableEq, Repr

namespace FailedCache

def empty (ttl : Span) : FailedCache := ⟨ttl, []⟩

/-- An entry is live up to and including its expiry. -/
def isLive (now : Instant) (entry : PeerId × Instant) : Bool := now ≤ entry.2

def prune (c : FailedCache) (now : Instant) : FailedCache :=
  { c with entries := c.entries.filter (isLive now) }

def put (c : FailedCache) (id : PeerId) (expiry : Instant) : FailedCache :=
  { c with entries := (id, expiry) :: c.entries.filter (·.1 ≠ id) }

/-- Remember a failed peer. If its wait time ends beyond the range of the clock, nothing is put
in, but what has run out is gone all the same. -/
def add (c : FailedCache) (peer : PeerAddress) (now : Instant) : FailedCache × Option Crash :=
  match Instant.add? now c.ttl with
  | some expiry => ((c.prune now).put peer.id expiry, none)
  | none => (c.prune now, some .clockOverflow)

/-- Whether the peer failed within the wait time. -/
def contains (c : FailedCache) (peer : PeerAddress) (now : Instant) : Bool :=
  c.entries.any fun e => e.1 == peer.id && isLive now e

/-- The cache after `contains`: an entry of that peer that has run out is dropped. -/
def afterLookup (c : FailedCache) (peer : PeerAddress) (now : Instant) : FailedCache :=
  { c with entries := c.entries.filter fun e => e.1 != peer.id || isLive now e }

/-- The peers that are not in the cache, each looked up in turn. -/
def removeFailed (c : FailedCache) (now : Instant) :
    List PeerAddress → List PeerAddress × FailedCache
  | [] => ([], c)
  | p :: rest =>
    let (kept, c') := (c.afterLookup p now).removeFailed now rest
    (if c.contains p now then kept else p :: kept, c')

def len (c : FailedCache) (now : Instant) : Nat :=
  c.entries.countP (isLive now)

def isEmpty (c : FailedCache) (now : Instant) : Bool := c.len now == 0

end FailedCache

end RelayUpkeep
