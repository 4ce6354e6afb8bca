import RelayUpkeep.Text.Hex

/-! # Strings in a TOML document

A string has four written forms: basic and literal strings on one line, and multi-line strings of
both kinds. Escapes stand in basic strings only. A reader gets what follows the opening quotes, and
answers with the text and what follows the closing quotes.
-/

namespace RelayUpkeep.Toml

/-- A character that may stand for itself in a comment or a literal string. -/
def isPlain (c : Char) : Bool :=
  c = '\t' || (' ' ≤ c && c ≠ '\x7f')

/-! ## Reading -/

def prepend (c : Char) : Option (List Char × List Char) → Option (List Char × List Char) :=
  Option.map fun (text, rest) => (c :: text, rest)

/-- The characters with a short escape. -/
def unescape? (c : Char) : Option Char :=
  if c = 'b' then some '\x08'
  else if c = 't' then some '\t'
  else if c = 'n' then some '\n'
  else if c = 'f' then some '\x0c'
  else if c = 'r' then some '\r'
  else if c = '"' then some '"'
  else if c = '\\' then some '\\'
  else none

/-- The character with a code point in hexadecimal digits. -/
def scalar? (digits : List Char) : Option Char := do
  let n ← Text.hexNumber? digits
  if n.isValidChar then some (Char.ofNat n) else none

def readBasic : List Char → Option (List Char × List Char)
  | [] => none
  | c :: rest =>
    if c = '"' then some ([], rest)
    else if c = '\\' then
      match rest with
      | 'u' :: a :: b :: c :: d :: rest =>
        (scalar? [a, b, c, d]).bind fun x => prepend x (readBasic rest)
      | 'U' :: a :: b :: c :: d :: e :: f :: g :: h :: rest =>
        (scalar? [a, b, c, d, e, f, g, h]).bind fun x => prepend x (readBasic rest)
      | e :: rest => (unescape? e).bind fun x => prepend x (readBasic rest)
      | [] => none
    else if isPlain c then prepend c (readBasic rest)
    else none

def readLiteral : List Char → Option (List Char × List Char)
  | [] => none
  | c :: rest =>
    if c = '\'' then some ([], rest)
    else if isPlain c then prepend c (readLiteral rest)
    else none

/-- At three quotes in a row the string ends; one or two quotes more belong to the text. -/
def closing? (quote : Char) : List Char → Option (List Char × List Char)
  | a :: b :: c :: rest =>
    if a = quote ∧ b = quote ∧ c = quote then
      match rest with
      | d :: e :: rest =>
        if d = quote ∧ e = quote then some ([quote, quote], rest)
        else if d = quote then some ([quote], e :: rest)
        else some ([], d :: e :: rest)
      | [d] => if d = quote then some ([quote], []) else some ([], [d])
      | [] => some ([], [])
    else none
  | _ => none

/-- Whether only spaces and tabs stand before the end of the line. -/
def endsLine : List Char → Bool
  | '\n' :: _ => true
  | '\r' :: '\n' :: _ => true
  | c :: rest => (c = ' ' || c = '\t') && endsLine rest
  | [] => false

/-- A backslash at the end of a line joins it to the next one: then `joining`, and blanks and line
ends are passed over. -/
def readMultiBasic (joining : Bool) : List Char → Option (List Char × List Char)
  | [] => none
  | c :: rest =>
    if c = '\n' then
      if joining then readMultiBasic true rest else prepend '\n' (readMultiBasic false rest)
    else if c = '\r' then
      match rest with
      | '\n' :: rest =>
        if joining then readMultiBasic true rest else prepend '\n' (readMultiBasic false rest)
      | _ => none
    else if joining && (c = ' ' || c = '\t') then readMultiBasic true rest
    else if c = '"' then
      match closing? '"' (c :: rest) with
      | some ended => some ended
      | none => prepend '"' (readMultiBasic false rest)
    else if c = '\\' then
      if endsLine rest then readMultiBasic true rest
      else
        match rest with
        | 'u' :: a :: b :: c :: d :: rest =>
          (scalar? [a, b, c, d]).bind fun x => prepend x (readMultiBasic false rest)
        | 'U' :: a :: b :: c :: d :: e :: f :: g :: h :: rest =>
          (scalar? [a, b, c, d, e, f, g, h]).bind fun x => prepend x (readMultiBasic false rest)
        | e :: rest => (unescape? e).bind fun x => prepend x (readMultiBasic false rest)
        | [] => none
    else if isPlain c then prepend c (readMultiBasic false rest)
    else none

def readMultiLiteral : List Char → Option (List Char × List Char)
  | [] => none
  | c :: rest =>
    if c = '\n' then prepend '\n' (readMultiLiteral rest)
    else if c = '\r' then
      match rest with
      | '\n' :: rest => prepend '\n' (readMultiLiteral rest)
      | _ => none
    else if c = '\'' then
      match closing? '\'' (c :: rest) with
      | some ended => some ended
      | none => prepend '\'' (readMultiLiteral rest)
    else if isPlain c then prepend c (readMultiLiteral rest)
    else none

/-- A line end right after the opening quotes is not part of the text. -/
def dropLineEnd : List Char → List Char
  | '\n' :: rest => rest
  | '\r' :: '\n' :: rest => rest
  | cs => cs

def readString : List Char → Option (String × List Char)
  | cs => Option.map (fun (text, rest) => (String.ofList text, rest)) <|
    match cs with
    | '"' :: '"' :: '"' :: rest => readMultiBasic false (dropLineEnd rest)
    | '"' :: rest => readBasic rest
    | '\'' :: '\'' :: '\'' :: rest => readMultiLiteral (dropLineEnd rest)
    | '\'' :: rest => readLiteral rest
    | _ => none

/-! ## Writing -/

inductive QuoteStyle
  | basic
  | literal
  | multiBasic
  | multiLiteral
  deriving DecidableEq, Repr

/-- A control character that only an escape can write. -/
def needsEscape (c : Char) : Bool :=
  (c < ' ' && c ≠ '\t' && c ≠ '\n') || c = '\x7f'

/-- The longest run of one character in a text. -/
def longestRun (x : Char) (cs : List Char) : Nat :=
  go 0 0 cs
where
  go (best current : Nat) : List Char → Nat
    | [] => best
    | c :: rest => if c = x then go (max best (current + 1)) (current + 1) rest else go best 0 rest

/-- The first form, from the plainest on, that writes the text without an escape; a basic string
where there is none. -/
def quoteStyle (cs : List Char) : QuoteStyle :=
  let escapes := cs.any needsEscape
  let backslash := cs.contains '\\'
  let lines := cs.contains '\n'
  if !escapes && !backslash && longestRun '"' cs = 0 && !lines then .basic
  else if !escapes && longestRun '\'' cs = 0 && !lines then .literal
  else if !escapes && !backslash && longestRun '"' cs ≤ 2 then .multiBasic
  else if !escapes && longestRun '\'' cs ≤ 2 then .multiLiteral
  else if lines then .multiBasic
  else .basic

def escape (c : Char) : List Char :=
  if c = '\x08' then ['\\', 'b']
  else if c = '\t' then ['\\', 't']
  else if c = '\n' then ['\\', 'n']
  else if c = '\x0c' then ['\\', 'f']
  else if c = '\r' then ['\\', 'r']
  else if c = '"' then ['\\', '"']
  else if c = '\\' then ['\\', '\\']
  else if c < ' ' || c = '\x7f' then '\\' :: 'u' :: Text.upperHex 4 c.toNat
  else [c]

/-- In a multi-line string line ends stand for themselves, and so do quotes, two in a row at
most. -/
def writeMultiBasic (quotes : Nat) : List Char → List Char
  | [] => []
  | c :: rest =>
    if c = '"' then
      if quotes = 2 then '\\' :: '"' :: writeMultiBasic 0 rest
      else '"' :: writeMultiBasic (quotes + 1) rest
    else if c = '\n' then '\n' :: writeMultiBasic 0 rest
    else escape c ++ writeMultiBasic 0 rest

/-- A text of several lines begins on the line after the opening quotes. -/
def leadIn (cs : List Char) : List Char :=
  if cs.contains '\n' then ['\n'] else []

def writeString (text : String) : List Char :=
  let cs := text.toList
  match quoteStyle cs with
  | .basic => '"' :: cs.flatMap escape ++ ['"']
  | .literal => '\'' :: cs ++ ['\'']
  | .multiBasic => ['"', '"', '"'] ++ leadIn cs ++ writeMultiBasic 0 cs ++ ['"', '"', '"']
  | .multiLiteral => ['\'', '\'', '\''] ++ leadIn cs ++ cs ++ ['\'', '\'', '\'']

end RelayUpkeep.Toml
