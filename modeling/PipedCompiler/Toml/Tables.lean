import PipedCompiler.Toml.Value

/-!
# Tables under construction

While a document is read, a table may be defined once by its own header, may come to be because
something below it is, or may be filled through dotted keys.  Which of these is the case decides how
it can still grow.
-/

namespace PipedCompiler.Toml

/-- How a table has come to be. -/
inductive Origin where
  /-- By a header of something below it. -/
  | implied
  /-- By a dotted key. -/
  | dotted
  /-- By its own header. -/
  | defined
  deriving Repr, DecidableEq

/-- What a key leads to. -/
inductive Node where
  | leaf (v : Value)
  | table (origin : Origin) (entries : List (String × Node))
  /-- Tables of one header, the last one first. -/
  | tables (items : List (List (String × Node)))

namespace Node

/-- The entries with another node at a key that has one. -/
def replace (entries : List (String × Node)) (key : String) (n : Node) : List (String × Node) :=
  entries.map fun e => if e.1 = key then (key, n) else e

/-- Edits the table at the end of a path.  Tables that are missing on the way come to be.  A path of
dotted keys does not lead through tables that have a header of their own. -/
def edit (dotted : Bool) (change : Origin → List (String × Node) → Option (List (String × Node))) :
    (path : List String) → Origin → List (String × Node) → Option (List (String × Node))
  | [], origin, entries => change origin entries
  | key :: path, _, entries =>
    match entries.lookup key with
    | none => do
      let origin := if dotted then .dotted else .implied
      return entries ++ [(key, .table origin (← edit dotted change path origin []))]
    | some (.leaf _) => none
    | some (.table origin inner) =>
      if dotted && origin = .defined then none
      else do return replace entries key (.table origin (← edit dotted change path origin inner))
    | some (.tables []) => none
    | some (.tables (last :: others)) => do
      return replace entries key (.tables ((← edit dotted change path .defined last) :: others))

/-- Sets a value at a dotted key. -/
def assign (path : List String) (key : String) (v : Value) (entries : List (String × Node)) :
    Option (List (String × Node)) :=
  let change (origin : Origin) (entries : List (String × Node)) :=
    if (origin = .dotted) = (path = []) then none
    else if (entries.lookup key).isSome then none
    else some (entries ++ [(key, .leaf v)])
  edit true change path .defined entries

/-- Sets a value at a dotted key of the table under a header. -/
def assignUnder (header path : List String) (key : String) (v : Value)
    (entries : List (String × Node)) : Option (List (String × Node)) :=
  edit false (fun _ inner => assign path key v inner) header .defined entries

/-- Defines a table by its header. -/
def defineTable (path : List String) (key : String) (entries : List (String × Node)) :
    Option (List (String × Node)) :=
  let change (_ : Origin) (entries : List (String × Node)) :=
    match entries.lookup key with
    | none => some (entries ++ [(key, .table .defined [])])
    | some (.table .implied inner) => some (replace entries key (.table .defined inner))
    | some _ => none
  edit false change path .defined entries

/-- Adds one more table of a header that may occur several times. -/
def addTable (path : List String) (key : String) (entries : List (String × Node)) :
    Option (List (String × Node)) :=
  let change (_ : Origin) (entries : List (String × Node)) :=
    match entries.lookup key with
    | none => some (entries ++ [(key, .tables [[]])])
    | some (.tables items) => some (replace entries key (.tables ([] :: items)))
    | some _ => none
  edit false change path .defined entries

mutual

/-- The value of a finished node. -/
def finish : Node → Value
  | .leaf v => v
  | .table _ entries => .table (finishEntries entries)
  | .tables items => .array (finishTables items).reverse

/-- The entries of a finished table. -/
def finishEntries : List (String × Node) → List (String × Value)
  | [] => []
  | (key, n) :: entries => (key, n.finish) :: finishEntries entries

/-- The values of finished tables. -/
def finishTables : List (List (String × Node)) → List Value
  | [] => []
  | entries :: items => .table (finishEntries entries) :: finishTables items

end

end Node

end PipedCompiler.Toml
