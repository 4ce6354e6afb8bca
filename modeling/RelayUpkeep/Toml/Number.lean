import RelayUpkeep.Text.Hex

/-! # Numbers and dates in a TOML document

Each reader answers with what it read and what follows; what does not belong to the form it reads
is left to whatever comes next.
-/

namespace RelayUpkeep.Toml

def isDigit (c : Char) : Bool := '0' ≤ c && c ≤ '9'

def digitValue (c : Char) : Nat := c.toNat - '0'.toNat

/-- Digits of a kind, with single underscores between them. -/
def digitRun (isDigit : Char → Bool) : List Char → List Char × List Char
  | [] => ([], [])
  | c :: rest =>
    if isDigit c then
      let (more, rest) := digitRun isDigit rest
      (c :: more, rest)
    else if c = '_' then
      match rest with
      | d :: rest' =>
        if isDigit d then
          let (more, rest) := digitRun isDigit rest'
          (d :: more, rest)
        else ([], c :: rest)
      | [] => ([], c :: rest)
    else ([], c :: rest)

/-- One digit at least, the first of them no underscore. -/
def digits? (isDigit : Char → Bool) : List Char → Option (List Char × List Char)
  | c :: rest => if isDigit c then some (digitRun isDigit (c :: rest)) else none
  | [] => none

/-- A sign, and whether it is a minus. -/
def sign : List Char → Bool × List Char
  | '-' :: rest => (true, rest)
  | '+' :: rest => (false, rest)
  | cs => (false, cs)

/-- Decimal digits without a leading zero. -/
def wholeDigits? : List Char → Option (List Char × List Char)
  | '0' :: rest => some (['0'], rest)
  | cs => digits? isDigit cs

def numberOf (base : Nat) (digits : List Char) : Nat :=
  digits.foldl (fun n c => base * n + (Text.hexValue? c).getD 0) 0

/-- Integers are signed 64-bit numbers: this is the 63rd power of two. -/
def integerLimit : Nat := 9223372036854775808

def integerInRange? (n : Int) : Option Int :=
  if -(integerLimit : Int) ≤ n ∧ n < (integerLimit : Int) then some n else none

def prefixedInteger? (base : Nat) (isDigit : Char → Bool) (cs : List Char) :
    Option (Int × List Char) := do
  let (digits, rest) ← digits? isDigit cs
  let n ← integerInRange? (numberOf base digits)
  return (n, rest)

def readInteger : List Char → Option (Int × List Char)
  | '0' :: 'x' :: cs => prefixedInteger? 16 (fun c => (Text.hexValue? c).isSome) cs
  | '0' :: 'o' :: cs => prefixedInteger? 8 (fun c => '0' ≤ c && c ≤ '7') cs
  | '0' :: 'b' :: cs => prefixedInteger? 2 (fun c => c = '0' || c = '1') cs
  | cs => do
    let (negative, cs) := sign cs
    let (digits, rest) ← wholeDigits? cs
    let n : Int := numberOf 10 digits
    let n ← integerInRange? (if negative then -n else n)
    return (n, rest)

/-- The exponent part of a float: a letter, a sign, and digits. -/
def exponent? : List Char → Option (Int × List Char)
  | c :: cs =>
    if c = 'e' ∨ c = 'E' then do
      let (negative, cs) := sign cs
      let (digits, rest) ← digits? isDigit cs
      let n : Int := numberOf 10 digits
      return (if negative then -n else n, rest)
    else none
  | [] => none

/-- The least magnitude that rounds to infinity in double precision. -/
def doubleOverflow : Nat := Nat.pow 2 1024 - Nat.pow 2 970

/-- Whether `m * 10 ^ e` is out of the range of double precision. -/
def overflows (m : Nat) (e : Int) : Bool :=
  let magnitude : Int := (Nat.toDigits 10 m).length + e
  if m = 0 || magnitude < 300 then false
  else if 400 < magnitude then true
  else if 0 ≤ e then doubleOverflow ≤ m * Nat.pow 10 e.toNat
  else doubleOverflow * Nat.pow 10 (-e).toNat ≤ m

/-- A decimal float that is no integer. One above the range is refused, one below it is not. -/
def decimalFloat? (cs : List Char) : Option (List Char) := do
  let (negative, cs) := sign cs
  let (whole, cs) ← wholeDigits? cs
  let (fraction, e, rest) ←
    match cs with
    | '.' :: cs => do
      let (fraction, cs) ← digits? isDigit cs
      match exponent? cs with
      | some (e, rest) => some (fraction, e, rest)
      | none => some (fraction, 0, cs)
    | cs => (exponent? cs).map fun (e, rest) => ([], e, rest)
  if !negative && overflows (numberOf 10 (whole ++ fraction)) (e - fraction.length) then none
  else some rest

def readFloat (cs : List Char) : Option (List Char) :=
  (decimalFloat? cs).or <|
    match (sign cs).2 with
    | 'i' :: 'n' :: 'f' :: rest => some rest
    | 'n' :: 'a' :: 'n' :: rest => some rest
    | _ => none

/-! ## Dates and times -/

def twoDigits? (least greatest : Nat) : List Char → Option (Nat × List Char)
  | a :: b :: rest =>
    let n := 10 * digitValue a + digitValue b
    if isDigit a && isDigit b && least ≤ n && n ≤ greatest then some (n, rest) else none
  | _ => none

def isLeapYear (y : Nat) : Bool := y % 4 = 0 && (y % 100 ≠ 0 || y % 400 = 0)

def daysInMonth (year month : Nat) : Nat :=
  if month = 2 then (if isLeapYear year then 29 else 28)
  else if month = 4 ∨ month = 6 ∨ month = 9 ∨ month = 11 then 30
  else 31

def fullDate? : List Char → Option (List Char)
  | a :: b :: c :: d :: '-' :: rest => do
    guard (isDigit a && isDigit b && isDigit c && isDigit d)
    let year := numberOf 10 [a, b, c, d]
    let (month, rest) ← twoDigits? 1 12 rest
    match rest with
    | '-' :: rest =>
      let (_, rest) ← twoDigits? 1 (daysInMonth year month) rest
      return rest
    | _ => none
  | _ => none

def hoursMinutes? (cs : List Char) : Option (List Char) := do
  let (_, rest) ← twoDigits? 0 23 cs
  match rest with
  | ':' :: rest =>
    let (_, rest) ← twoDigits? 0 59 rest
    return rest
  | _ => none

/-- A time of day; a leap second is allowed for. -/
def timeOfDay? (cs : List Char) : Option (List Char) := do
  match ← hoursMinutes? cs with
  | ':' :: rest =>
    let (_, rest) ← twoDigits? 0 60 rest
    match rest with
    | '.' :: c :: more => if isDigit c then return more.dropWhile isDigit else return rest
    | rest => return rest
  | _ => none

def offset? : List Char → Option (List Char)
  | 'Z' :: rest | 'z' :: rest => some rest
  | '+' :: rest | '-' :: rest => hoursMinutes? rest
  | _ => none

def readDate (cs : List Char) : Option (List Char) :=
  match fullDate? cs with
  | some (c :: rest) =>
    if c = 'T' ∨ c = 't' ∨ c = ' ' then
      match timeOfDay? rest with
      | some rest => some ((offset? rest).getD rest)
      | none => some (c :: rest)
    else some (c :: rest)
  | some [] => some []
  | none => timeOfDay? cs

end RelayUpkeep.Toml
