/-! # Spans of time and instants

Both are counted in nanoseconds. An instant holds whole seconds as a signed 64-bit number, so a
span cannot be added to every instant.
-/

namespace RelayUpkeep

def nanosPerSec : Nat := 1000000000

def nanosPerMilli : Nat := 1000000

structure Span where
  nanos : Nat
  deriving DecidableEq, Repr

namespace Span

def ofParts (secs subsecNanos : Nat) : Span := ⟨secs * nanosPerSec + subsecNanos⟩

def ofSecs (secs : Nat) : Span := ofParts secs 0

def secs (d : Span) : Nat := d.nanos / nanosPerSec

def subsecNanos (d : Span) : Nat := d.nanos % nanosPerSec

/-- The digits of `fraction / 10 ^ places` after the point, without trailing zeros. -/
def fractionDigits (places fraction : Nat) : List Char :=
  let digits := Nat.toDigits 10 fraction
  (List.replicate (places - digits.length) '0' ++ digits).reverse.dropWhile (· = '0') |>.reverse

def decimal (whole places fraction : Nat) (unit : String) : String :=
  let digits := fractionDigits places fraction
  toString whole ++ (if digits.isEmpty then "" else "." ++ String.ofList digits) ++ unit

/-- A span is shown in the largest unit of which it has a whole one. -/
def text (d : Span) : String :=
  if 0 < d.secs then decimal d.secs 9 d.subsecNanos "s"
  else if 1000000 ≤ d.nanos then decimal (d.nanos / 1000000) 6 (d.nanos % 1000000) "ms"
  else if 1000 ≤ d.nanos then decimal (d.nanos / 1000) 3 (d.nanos % 1000) "µs"
  else decimal d.nanos 0 0 "ns"

@[simp] theorem secs_ofSecs (n : Nat) : (ofSecs n).secs = n := by
  simp [secs, ofSecs, ofParts, nanosPerSec]

end Span

abbrev Instant := Nat

namespace Instant

/-- The first instant that is out of range: its whole seconds are the 63rd power of two. -/
def limit : Nat := 9223372036854775808 * nanosPerSec

/-- The clock counts from before the run: it shows a second when the run begins. -/
def start : Instant := nanosPerSec

def add? (t : Instant) (d : Span) : Option Instant :=
  if t + d.nanos < limit then some (t + d.nanos) else none

end Instant

end RelayUpkeep
