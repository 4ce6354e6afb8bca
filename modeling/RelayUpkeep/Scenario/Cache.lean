import RelayUpkeep.FailedCache

/-! # Scripted runs of a cache of failed peers -/

namespace RelayUpkeep.Scenario

inductive CacheStep
  | add (peer : PeerAddress)
  | contains (peer : PeerAddress)
  | removeFailed (peers : List PeerAddress)
  | advance (nanos : Nat)
  | ttl
  deriving DecidableEq, Repr

inductive CacheAnswer
  | nothing
  | crash (c : Crash)
  | flag (b : Bool)
  | peers (ps : List PeerAddress)
  | span (d : Span)
  deriving DecidableEq, Repr

/-- A cache, and the instant that the clock shows. -/
structure CacheRun where
  cache : FailedCache
  now : Instant
  deriving DecidableEq, Repr

structure CacheReport where
  answer : CacheAnswer
  len : Nat
  isEmpty : Bool
  deriving DecidableEq, Repr

def CacheRun.step (r : CacheRun) : CacheStep → CacheRun × CacheAnswer
  | .add peer =>
    match r.cache.add peer r.now with
    | (cache, some crash) => ({ r with cache }, .crash crash)
    | (cache, none) => ({ r with cache }, .nothing)
  | .contains peer =>
    ({ r with cache := r.cache.afterLookup peer r.now }, .flag (r.cache.contains peer r.now))
  | .removeFailed peers =>
    let (kept, cache) := r.cache.removeFailed r.now peers
    ({ r with cache }, .peers kept)
  | .advance nanos => ({ r with now := r.now + nanos }, .nothing)
  | .ttl => (r, .span r.cache.ttl)

def CacheRun.play (r : CacheRun) : List CacheStep → List CacheReport
  | [] => []
  | s :: rest =>
    let (r, answer) := r.step s
    ⟨answer, r.cache.len r.now, r.cache.isEmpty r.now⟩ :: r.play rest

def cacheRun (ttl : Span) (steps : List CacheStep) : List CacheReport :=
  CacheRun.play ⟨.empty ttl, .start⟩ steps

end RelayUpkeep.Scenario
