import PipedCompiler.Toml.Quoting
import PipedCompiler.Toml.Tables

/-!
# TOML documents

A document is a sequence of lines: headers of tables, and keys with their values.
-/

namespace PipedCompiler.Toml

/-- Whether the character separates words on a line. -/
def isSpace (c : Char) : Bool :=
  c = ' ' || c = '\t'

/-- The characters without spaces in front. -/
def skipSpaces (cs : List Char) : List Char :=
  cs.dropWhile isSpace

/-- What follows spaces, line ends and comments. -/
def skipGap : (inComment : Bool) → List Char → Option (List Char)
  | _, [] => some []
  | _, '\n' :: cs => skipGap false cs
  | _, '\r' :: '\n' :: cs => skipGap false cs
  | true, c :: cs => if isPlain c then skipGap true cs else none
  | false, c :: cs =>
    if isSpace c then skipGap false cs
    else if c = '#' then skipGap true cs
    else some (c :: cs)

/-- What follows the end of a line, before which there may be spaces and a comment. -/
def afterLine? (cs : List Char) : Option (List Char) :=
  let cs := skipSpaces cs
  let cs := match cs with
    | '#' :: cs => cs.dropWhile isPlain
    | cs => cs
  match cs with
  | [] => some []
  | '\n' :: cs => some cs
  | '\r' :: '\n' :: cs => some cs
  | _ => none

/-- Whether the character may stand in a key without quotes. -/
def isBare (c : Char) : Bool :=
  c.isAlphanum || c = '-' || c = '_'

/-- One part of a key, and what follows. -/
def keyPart? (cs : List Char) : Option (String × List Char) :=
  match cs.takeWhile isBare with
  | [] => (lineString? cs).map fun (value, cs) => (String.ofList value, cs)
  | part => some (String.ofList part, cs.dropWhile isBare)

/-- How deep brackets and braces may be nested, and how many parts a key may have. -/
def depthLimit : Nat := 80

/-- A key, and what follows it and any spaces.  There are at most `bound` parts. -/
def key? : (bound : Nat) → List Char → Option (List String × List Char)
  | 0, _ => none
  | bound + 1, cs => do
    let (part, cs) ← keyPart? (skipSpaces cs)
    match skipSpaces cs with
    | '.' :: cs =>
      let (parts, cs) ← key? bound cs
      return (part :: parts, cs)
    | cs => return ([part], cs)

/-- Whether the character ends a value without quotes. -/
def endsScalar (c : Char) : Bool :=
  [' ', '\t', '\r', '\n', ',', ']', '\x7d', '#', '=', '[', '\x7b', '"', '\x27'].contains c

/-- A value without quotes or brackets, and what follows.  A date and its time may be separated by a
space. -/
def readScalar? (cs : List Char) : Option (Value × List Char) :=
  let word := cs.takeWhile (!endsScalar ·)
  let rest := cs.dropWhile (!endsScalar ·)
  match afterDate? word, rest with
  | some [], ' ' :: more =>
    let time := more.takeWhile (!endsScalar ·)
    match time with
    | d :: _ =>
      if d.isDigit then
        (scalar? (word ++ ' ' :: time)).map (·, more.dropWhile (!endsScalar ·))
      else (scalar? word).map (·, rest)
    | [] => (scalar? word).map (·, rest)
  | _, _ => (scalar? word).map (·, rest)

/-- A way to read a value. -/
abbrev ValueReader := List Char → Option (Value × List Char)

/-- The rest of an array of which some items, given in reverse, have been read.  There are at most
`bound` more. -/
def readItems (value : ValueReader) : (bound : Nat) → List Value → ValueReader
  | 0, _, _ => none
  | bound + 1, items, cs => do
    match ← skipGap false cs with
    | ']' :: cs => return (.array items.reverse, cs)
    | cs =>
      let (item, cs) ← value cs
      match ← skipGap false cs with
      | ',' :: cs => readItems value bound (item :: items) cs
      | ']' :: cs => return (.array (item :: items).reverse, cs)
      | _ => none

/-- A key and its value, and what follows.  `skip` leaves out what may stand on either side of the
equals sign. -/
def readEntry? (skip : List Char → Option (List Char)) (value : ValueReader)
    (cs : List Char) : Option ((List String × Value) × List Char) := do
  let (path, cs) ← key? depthLimit cs
  match ← skip cs with
  | '=' :: cs =>
    let (v, cs) ← value (← skip cs)
    return ((path, v), cs)
  | _ => none

/-- Sets a value at a whole key. -/
def assignAt (path : List String) (v : Value) (entries : List (String × Node)) :
    Option (List (String × Node)) :=
  match path.getLast? with
  | some key => Node.assign path.dropLast key v entries
  | none => none

/-- The rest of a table in braces of which some entries have been read.  There are at most `bound`
more.  Line ends and comments may stand wherever spaces may, except within a key. -/
def readEntries (value : ValueReader) : (bound : Nat) → List (String × Node) → ValueReader
  | 0, _, _ => none
  | bound + 1, entries, cs => do
    match ← skipGap false cs with
    | '\x7d' :: cs => return (.table (Node.finishEntries entries), cs)
    | cs =>
      let ((path, v), cs) ← readEntry? (skipGap false) value cs
      let entries ← assignAt path v entries
      match ← skipGap false cs with
      | ',' :: cs => readEntries value bound entries cs
      | '\x7d' :: cs => return (.table (Node.finishEntries entries), cs)
      | _ => none

/-- A value, and what follows.  Brackets and braces may be nested `depth` deep. -/
def readValue : (depth : Nat) → ValueReader
  | depth, cs =>
    match cs with
    | '[' :: cs =>
      match depth with
      | 0 => none
      | depth + 1 => readItems (readValue depth) (cs.length + 1) [] cs
    | '\x7b' :: cs =>
      match depth with
      | 0 => none
      | depth + 1 => readEntries (readValue depth) (cs.length + 1) [] cs
    | '"' :: cs => (string? ('"' :: cs)).map fun (s, cs) => (.string (String.ofList s), cs)
    | '\x27' :: cs => (string? ('\x27' :: cs)).map fun (s, cs) => (.string (String.ofList s), cs)
    | cs => readScalar? cs

/-- A document as far as it has been read. -/
structure Draft where
  /-- The header that lines belong to. -/
  header : List String
  entries : List (String × Node)

/-- The key of a header, and what follows its line. -/
def readHeader? (closing : List Char) (cs : List Char) : Option (List String × List Char) := do
  let (path, cs) ← key? depthLimit cs
  if closing.isPrefixOf cs then return (path, ← afterLine? (cs.drop closing.length)) else none

/-- Takes a header. -/
def Draft.open? (d : Draft) (path : List String)
    (define : List String → String → List (String × Node) → Option (List (String × Node))) :
    Option Draft := do
  let key ← path.getLast?
  return ⟨path, ← define path.dropLast key d.entries⟩

/-- Takes a key and its value. -/
def Draft.assign? (d : Draft) (path : List String) (v : Value) : Option Draft := do
  let key ← path.getLast?
  return { d with entries := ← Node.assignUnder d.header path.dropLast key v d.entries }

/-- Reads lines, at most `bound` of them. -/
def readLines : (bound : Nat) → Draft → List Char → Option Draft
  | 0, _, _ => none
  | bound + 1, d, cs => do
    match ← skipGap false cs with
    | [] => return d
    | '[' :: '[' :: cs =>
      let (path, cs) ← readHeader? [']', ']'] cs
      readLines bound (← d.open? path Node.addTable) cs
    | '[' :: cs =>
      let (path, cs) ← readHeader? [']'] cs
      readLines bound (← d.open? path Node.defineTable) cs
    | cs =>
      let ((path, v), cs) ← readEntry? (some ∘ skipSpaces) (readValue depthLimit) cs
      readLines bound (← d.assign? path v) (← afterLine? cs)

/-- The characters without a byte order mark in front. -/
def withoutMark (cs : List Char) : List Char :=
  match cs with
  | '\ufeff' :: cs => cs
  | cs => cs

/-- The entries of a document; `none` if it is not one. -/
def parse? (text : String) : Option (List (String × Value)) :=
  let cs := withoutMark text.toList
  (readLines (cs.length + 1) ⟨[], []⟩ cs).map fun d => Node.finishEntries d.entries

end PipedCompiler.Toml
