import PipedCompiler.Cache.Store
import PipedCompiler.CommandLine.LogFormat
import PipedCompiler.CommandLine.Switches
import PipedCompiler.Options
import PipedCompiler.Text.Decimal

/-!
# Orders

What a command line can ask for: to compile some roots, or to be the compiler process of a parent.
-/

namespace PipedCompiler.CommandLine

open PipedCompiler.Text

/-- Choices on how to compile, each as far as it has been made. -/
structure Choices where
  target : Option LanguageTarget := none
  stages : Option Stages := none
  libraryLayout : Option LibraryLayout := none
  newLine : Option NewLine := none
  omitsDefaultLibrary : Bool := false
  avoidsExistence : Bool := false
  deriving Repr, DecidableEq

/-- The options after some choices. -/
def Choices.apply (c : Choices) (o : CompileOptions) : CompileOptions where
  target := c.target.getD o.target
  stages := c.stages.getD o.stages
  libraryLayout := c.libraryLayout.getD o.libraryLayout
  newLine := c.newLine.getD o.newLine
  omitsDefaultLibrary := c.omitsDefaultLibrary || o.omitsDefaultLibrary
  asksExistence := !c.avoidsExistence && o.asksExistence

/-- How output is printed. -/
inductive Layout where
  /-- As it is. -/
  | js
  /-- Each below a heading. -/
  | verbose
  deriving Repr, DecidableEq

/-- An order to compile roots. -/
structure CompileOrder where
  files : List String := []
  settings : Option String := none
  choices : Choices := {}
  sourceRoots : List String := []
  cache : Option Cache.Kind := none
  timeoutMillis : Option Nat := none
  limit : Option Nat := none
  layout : Option Layout := none
  logFormat : Option LogFormat := none
  deriving Repr, DecidableEq

/-- An order to be a compiler process. -/
structure ChildOrder where
  root : Option String := none
  choices : Choices := {}
  timeoutMillis : Option Nat := none
  logFormat : Option LogFormat := none
  deriving Repr, DecidableEq

/-- What a command line asks for. -/
inductive Order where
  | compile (order : CompileOrder)
  | child (root : String) (order : ChildOrder)
  deriving Repr, DecidableEq

/-- Sets something that has not been set. -/
def once {α : Type} (old : Option α) (new : α) : Option (Option α) :=
  match old with
  | some _ => none
  | none => some (some new)

/-- Sets a truth value that is still false. -/
def onceTrue (old : Bool) : Option Bool :=
  if old then none else some true

/-- A switch that is given once, with a value that is read in some way. -/
def single {σ α : Type} (long : String) (read : String → Option α) (get : σ → Option α)
    (set : σ → Option α → σ) : Switch σ :=
  ⟨long, none, .value fun s a => do return set a (← once (get a) (← read s))⟩

/-- A switch that is given once, without a value. -/
def flag {σ : Type} (long : String) (get : σ → Bool) (set : σ → Bool → σ) : Switch σ :=
  ⟨long, none, .flag fun a => do return set a (← onceTrue (get a))⟩

/-- A path, which is not empty. -/
def path? (s : String) : Option String :=
  if s = "" then none else some s

/-- A number below `2 ^ 64`. -/
def count? (s : String) : Option Nat :=
  Decimal.natBelow? (Nat.pow 2 64) s.toList

/-- One of some named choices. -/
def among {α : Type} (names : List (String × α)) (s : String) : Option α :=
  names.lookup s

/-- The targets that can be asked for. -/
def targetNames : List (String × LanguageTarget) :=
  [("es3", .es3), ("es5", .es5), ("es2015", .es2015)]

/-- The layouts that can be asked for. -/
def layoutNames : List (String × Layout) :=
  [("js", .js), ("verbose", .verbose)]

/-- The switch that asks what can be said. -/
def helpSwitch {σ : Type} : Switch σ :=
  ⟨"help", some 'h', .answer .help⟩

/-- The switches of choices. -/
def choiceSwitches {σ : Type} (get : σ → Choices) (set : σ → Choices → σ) : List (Switch σ) := [
  single "target" (among targetNames) (get · |>.target)
    fun a v => set a { get a with target := v },
  single "stages" (among Stages.names) (get · |>.stages)
    fun a v => set a { get a with stages := v },
  single "lib-layout" (among LibraryLayout.names) (get · |>.libraryLayout)
    fun a v => set a { get a with libraryLayout := v },
  single "new-line" (among NewLine.names) (get · |>.newLine)
    fun a v => set a { get a with newLine := v },
  flag "no-default-lib" (get · |>.omitsDefaultLibrary)
    fun a v => set a { get a with omitsDefaultLibrary := v },
  flag "no-exists-query" (get · |>.avoidsExistence)
    fun a v => set a { get a with avoidsExistence := v }]

/-- The switch of the format of log lines. -/
def logSwitch {σ : Type} (get : σ → Option LogFormat) (set : σ → Option LogFormat → σ) : Switch σ :=
  single "log-format" (among LogFormat.names) get set

namespace CompileOrder

/-- The switches of an order to compile. -/
def switches : List (Switch CompileOrder) :=
  choiceSwitches (·.choices) (fun o v => { o with choices := v }) ++ [
    single "config" path? (·.settings) fun o v => { o with settings := v },
    ⟨"source-root", none, .value fun s o => do
      return { o with sourceRoots := o.sourceRoots ++ [← path? s] }⟩,
    single "cache" (among Cache.Kind.names) (·.cache) fun o v => { o with cache := v },
    single "timeout-ms" count? (·.timeoutMillis) fun o v => { o with timeoutMillis := v },
    single "max-concurrent" count? (·.limit) fun o v => { o with limit := v },
    { single "output" (among layoutNames) (·.layout) fun o v => { o with layout := v } with
      letter := some 'o' },
    logSwitch (·.logFormat) fun o v => { o with logFormat := v },
    helpSwitch]

/-- Reads an order to compile.  There has to be a root. -/
def ofWords (words : List String) : Except Refusal CompileOrder := do
  let order ← readWords switches (fun s o => some { o with files := o.files ++ [s] }) {} words
  if order.files.isEmpty then .error .usage else .ok order

end CompileOrder

namespace ChildOrder

/-- The switches of an order to be a compiler process. -/
def switches : List (Switch ChildOrder) :=
  choiceSwitches (·.choices) (fun o v => { o with choices := v }) ++ [
    single "timeout-ms" count? (·.timeoutMillis) fun o v => { o with timeoutMillis := v },
    logSwitch (·.logFormat) fun o v => { o with logFormat := v },
    helpSwitch]

/-- Reads an order to be a compiler process.  There has to be one root. -/
def ofWords (words : List String) : Except Refusal Order := do
  let order ← readWords switches
    (fun s o => do return { o with root := ← once o.root s }) {} words
  match order.root with
  | some root => .ok (.child root order)
  | none => .error .usage

end ChildOrder

namespace Order

/-- The switches in front of a command. -/
def switches : List (Switch (Option LogFormat)) := [
  logSwitch id fun _ v => v,
  helpSwitch,
  ⟨"version", some 'V', .answer .version⟩]

/-- The names of commands. -/
def commandNames : List String := ["compile", "child", "help"]

/-- Reads an order from the name of its command and what follows that. -/
def ofCommand (name : String) (words : List String) : Except Refusal Order :=
  match name with
  | "compile" => (CompileOrder.ofWords words).map .compile
  | "child" => ChildOrder.ofWords words
  | "help" =>
    match words with
    | [] => .error .help
    | [name] => .error (if commandNames.contains name then .help else .usage)
    | _ => .error .usage
  | _ => .error .usage

/-- Reads an order, after some words in front of its command. -/
def ofWordsAfter (r : Reading (Option LogFormat)) : List String → Except Refusal Order
  | [] => .error .usage
  | word :: words =>
    if r.pending.isNone && !r.onlyWords && !Reading.isDashed word then ofCommand word words
    else do ofWordsAfter (← r.take switches (fun _ _ => none) word) words

/-- Reads the words of a command line. -/
def ofWords (words : List String) : Except Refusal Order :=
  ofWordsAfter (.start none) words

end Order

end PipedCompiler.CommandLine
