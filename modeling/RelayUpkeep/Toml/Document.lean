import RelayUpkeep.Toml.Node
import RelayUpkeep.Toml.Number
import RelayUpkeep.Toml.Quoted

/-! # Reading a TOML document

A document is read line by line into its tree. Values nest no deeper than `nestingLimit`, and a
dotted key has no more parts than that.
-/

namespace RelayUpkeep.Toml

def nestingLimit : Nat := 79

def skipBlanks (cs : List Char) : List Char :=
  cs.dropWhile fun c => c = ' ' || c = '\t'

/-- Pass over a comment, if there is one, and the end of the line or of the text. -/
def lineEnd? (cs : List Char) : Option (List Char) :=
  let cs := match skipBlanks cs with
    | '#' :: rest => rest.dropWhile isPlain
    | cs => cs
  match cs with
  | [] => some []
  | '\n' :: rest => some rest
  | '\r' :: '\n' :: rest => some rest
  | _ => none

/-! ## Keys -/

def isBareKeyChar (c : Char) : Bool :=
  c.isAlphanum || c = '-' || c = '_'

def readSimpleKey : List Char → Option (String × List Char)
  | '"' :: rest => (readBasic rest).map fun (text, rest) => (String.ofList text, rest)
  | '\'' :: rest => (readLiteral rest).map fun (text, rest) => (String.ofList text, rest)
  | cs =>
    match cs.takeWhile isBareKeyChar with
    | [] => none
    | key => some (String.ofList key, cs.dropWhile isBareKeyChar)

/-- The parts of a dotted key, `room` of them at most. -/
def readKey : Nat → List Char → Option (List String × List Char)
  | 0, _ => none
  | room + 1, cs => do
    let (key, rest) ← readSimpleKey (skipBlanks cs)
    match skipBlanks rest with
    | '.' :: rest =>
      let (path, rest) ← readKey room rest
      return (key :: path, rest)
    | rest => return ([key], rest)

/-! ## Values -/

def readScalar (cs : List Char) : Option (Node × List Char) :=
  match cs with
  | '"' :: _ | '\'' :: _ => (readString cs).map fun (text, rest) => (.string text, rest)
  | 't' :: 'r' :: 'u' :: 'e' :: rest => some (.boolean true, rest)
  | 'f' :: 'a' :: 'l' :: 's' :: 'e' :: rest => some (.boolean false, rest)
  | cs =>
    ((readDate cs).map fun rest => (.date, rest)).or <|
      ((readFloat cs).map fun rest => (.float, rest)).or <|
        (readInteger cs).map fun (n, rest) => (.integer n, rest)

/-- Pass over blanks, line ends and comments. -/
def skipGaps (inComment : Bool) : List Char → Option (List Char)
  | [] => some []
  | c :: rest =>
    if c = '\n' then skipGaps false rest
    else if c = '\r' then
      match rest with
      | '\n' :: rest => skipGaps false rest
      | _ => none
    else if inComment then (if isPlain c then skipGaps true rest else none)
    else if c = ' ' || c = '\t' then skipGaps false rest
    else if c = '#' then skipGaps true rest
    else some (c :: rest)

/-- The items of an array, each after gaps; a comma may stand before the closing bracket. -/
def readItems (item : List Char → Option (Node × List Char)) :
    Nat → List Char → Option (List Node × List Char)
  | 0, _ => none
  | fuel + 1, cs => do
    match ← skipGaps false cs with
    | ']' :: rest => return ([], rest)
    | cs =>
      let (node, cs) ← item cs
      match ← skipGaps false cs with
      | ',' :: rest =>
        let (nodes, rest) ← readItems item fuel rest
        return (node :: nodes, rest)
      | ']' :: rest => return ([node], rest)
      | _ => none

/-- A key with its value, as it stands on a line and between braces. -/
def readPair (value : List Char → Option (Node × List Char)) (cs : List Char) :
    Option (List String × Node × List Char) := do
  let (path, rest) ← readKey nestingLimit cs
  match rest with
  | '=' :: rest =>
    let (node, rest) ← value (skipBlanks rest)
    return (path, node, rest)
  | _ => none

/-- Put the value of a dotted key into a table. -/
def Entries.assignPath (path : List String) (value : Node) (origin : Origin) (es : Entries) :
    Option Entries := do
  let key ← path.getLast?
  es.assign path.dropLast key value origin

/-- The pairs between braces, on one line, the first of them already called for. -/
def readPairs (value : List Char → Option (Node × List Char)) :
    Nat → Entries → List Char → Option (Entries × List Char)
  | 0, _, _ => none
  | fuel + 1, es, cs => do
    let (path, node, rest) ← readPair value cs
    let es ← es.assignPath path node .braces
    match skipBlanks rest with
    | ',' :: rest => readPairs value fuel es rest
    | '}' :: rest => return (es, rest)
    | _ => none

/-- A value in which `room` more levels may open. -/
def readValue : Nat → List Char → Option (Node × List Char)
  | 0, cs => readScalar cs
  | room + 1, cs =>
    match cs with
    | '[' :: rest =>
      (readItems (readValue room) (rest.length + 1) rest).map fun (items, rest) =>
        (.array items, rest)
    | '{' :: rest =>
      match skipBlanks rest with
      | '}' :: rest => some (.table .braces [], rest)
      | rest =>
        (readPairs (readValue room) (rest.length + 1) [] rest).map fun (es, rest) =>
          (.table .braces es, rest)
    | cs => readScalar cs

/-! ## Lines -/

/-- What has been read: the tree, and the path of the table that lines are added to. -/
structure Draft where
  root : Entries
  here : List String

namespace Draft

def assign (d : Draft) (path : List String) (value : Node) : Option Draft := do
  let root ← Entries.updateAt false
    (fun origin es => es.assignPath path value origin) d.here .header d.root
  return { d with root }

def openTable (d : Draft) (path : List String) : Option Draft := do
  let key ← path.getLast?
  let root ← d.root.open? path.dropLast key
  return ⟨root, path⟩

def appendTable (d : Draft) (path : List String) : Option Draft := do
  let key ← path.getLast?
  let root ← d.root.append? path.dropLast key
  return ⟨root, path⟩

end Draft

/-- Read one line that is not blank. -/
def readLine (d : Draft) (cs : List Char) : Option (Draft × List Char) :=
  match cs with
  | '[' :: '[' :: rest => do
    let (path, rest) ← readKey nestingLimit rest
    match rest with
    | ']' :: ']' :: rest => return (← d.appendTable path, ← lineEnd? rest)
    | _ => none
  | '[' :: rest => do
    let (path, rest) ← readKey nestingLimit rest
    match rest with
    | ']' :: rest => return (← d.openTable path, ← lineEnd? rest)
    | _ => none
  | cs => do
    let (path, node, rest) ← readPair (readValue nestingLimit) cs
    return (← d.assign path node, ← lineEnd? rest)

def readLines : Nat → Draft → List Char → Option Entries
  | 0, _, _ => none
  | fuel + 1, d, cs =>
    match skipBlanks cs with
    | [] => some d.root
    | c :: rest =>
      if c = '#' || c = '\n' || c = '\r' then
        (lineEnd? (c :: rest)).bind (readLines fuel d)
      else (readLine d (c :: rest)).bind fun (d, rest) => readLines fuel d rest

/-- The table that a document writes. A byte order mark in front of it is passed over. -/
def read? (text : String) : Option Entries :=
  let cs := match text.toList with
    | '\uFEFF' :: rest => rest
    | cs => cs
  readLines (cs.length + 1) ⟨[], []⟩ cs

end RelayUpkeep.Toml
