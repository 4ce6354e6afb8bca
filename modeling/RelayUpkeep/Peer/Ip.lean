import RelayUpkeep.Text.Hex

/-! # Internet addresses and their text

An IPv6 address drops the first of its longest runs of zero groups when that run has at least two
groups, and ends in dotted form exactly when it carries a mapped IPv4 address.
-/

namespace RelayUpkeep

inductive IpAddr
  | v4 (bytes : Vector UInt8 4)
  | v6 (groups : Vector UInt16 8)
  deriving DecidableEq, Repr

namespace IpAddr

def dotted (bytes : List UInt8) : String :=
  ".".intercalate (bytes.map fun b => toString b.toNat)

def colons (groups : List UInt16) : String :=
  ":".intercalate (groups.map fun g => Text.lowerHex g.toNat)

/-- A run of zero groups: where it starts and how many groups it has. -/
structure ZeroRun where
  start : Nat
  length : Nat
  deriving DecidableEq

/-- The longest run of zeros from position `i` on, `best` being the longest one before and
`current` the one that ends at `i`. -/
def longestZeroRun (i : Nat) (best current : ZeroRun) : List UInt16 → ZeroRun
  | [] => best
  | g :: rest =>
    if g = 0 then
      let grown : ZeroRun := ⟨if current.length = 0 then i else current.start, current.length + 1⟩
      longestZeroRun (i + 1) (if best.length < grown.length then grown else best) grown rest
    else longestZeroRun (i + 1) best ⟨0, 0⟩ rest

/-- The IPv4 address that a group list of the form `::ffff:a.b.c.d` carries. -/
def mapped? : List UInt16 → Option (List UInt8)
  | [0, 0, 0, 0, 0, 0xFFFF, high, low] =>
    some [(high >>> 8).toUInt8, high.toUInt8, (low >>> 8).toUInt8, low.toUInt8]
  | _ => none

def groupsText (groups : List UInt16) : String :=
  match mapped? groups with
  | some bytes => "::ffff:" ++ dotted bytes
  | none =>
    let run := longestZeroRun 0 ⟨0, 0⟩ ⟨0, 0⟩ groups
    if 1 < run.length then
      colons (groups.take run.start) ++ "::" ++ colons (groups.drop (run.start + run.length))
    else colons groups

def text : IpAddr → String
  | v4 bytes => dotted bytes.toList
  | v6 groups => groupsText groups.toList

/-- The address with a port; an IPv6 address stands in brackets. -/
def withPort (ip : IpAddr) (port : UInt16) : String :=
  match ip with
  | v4 _ => ip.text ++ ":" ++ toString port.toNat
  | v6 _ => "[" ++ ip.text ++ "]:" ++ toString port.toNat

end IpAddr

end RelayUpkeep
