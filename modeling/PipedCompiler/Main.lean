import PipedCompiler.CommandLine.Execution

/-!
# The program

Reads the command line, the environment and files, and lets compiles ask what they want to know.  A
compile runs in this process, so there is no limit on how long it may take, and no other program can
be set to do it.
-/

namespace PipedCompiler.CommandLine

open PipedCompiler.Text PipedCompiler.Bridge PipedCompiler.Compile PipedCompiler.Parent
open PipedCompiler.Worker PipedCompiler.Session

/-- Holds a dialogue with someone who answers requests. -/
def converse {α : Type} (ask : Request → IO (Except BridgeError Response)) :
    Dialogue α → IO (Except BridgeError α)
  | .done a => return .ok a
  | .contents path next => do
    match ← ask ⟨.contents, path⟩ with
    | .ok (.contents bs) => converse ask (next (some bs))
    | .ok _ => converse ask (next none)
    | .error e => return .error e
  | .presence path next => do
    match ← ask ⟨.presence, path⟩ with
    | .ok response => converse ask (next (response == .presence true))
    | .error e => return .error e

/-- The bytes of a file; `none` if there is no such file. -/
def readFile? (path : String) : IO (Option Bytes) := do
  try
    return some (← IO.FS.readBinFile path).toList
  catch _ => return none

/-- Writes a file, unless that is not possible. -/
def writeFile (path : String) (bs : Bytes) : IO Unit := do
  try
    IO.FS.writeBinFile path ⟨bs.toArray⟩
  catch _ => return ()

/-- Takes a file, or a directory in its place, into a tree. -/
def takeIn (t : FileTree) (path : String) : IO FileTree := do
  try
    return t.place path (← IO.FS.readBinFile path).toList
  catch e =>
    match e with
    | .noFileOrDirectory _ _ _ => return t
    | _ => return (t.createDirectories? path).getD t

/-- Takes a variable into an environment. -/
def takeVariable (env : Environment) (name : String) : IO Environment := do
  match ← IO.getEnv name with
  | some value => return env.insert name (bytesOf value)
  | none => return env

/-- The variables that decide where files are. -/
def placeVariables : List String :=
  [Settings.fileVariable, "XDG_CONFIG_HOME", "XDG_CACHE_HOME", "HOME"]

/-- The variables that a path refers to. -/
def variablesOf (path : String) : List String :=
  (Expansion.parts path.toList).filterMap fun part =>
    match part with
    | .literal _ => none
    | .reference name => some (String.ofList name)

/-- The paths of settings that may refer to variables. -/
def pathsOf (s : Settings) : List String :=
  s.sources.roots ++ s.cache.directory.toList ++ s.session.program.toList

/-- What the program finds, as far as an order needs it. -/
def situationOf (order : CompileOrder) : IO Situation := do
  let env ← placeVariables.foldlM takeVariable .empty
  let current := (← IO.currentDir).toString
  let start := { (FileTree.empty.createDirectories? current).getD .empty with current }
  let usual := env.settingsDirectory?.map fun directory =>
    FileTree.join (FileTree.join directory "srcbridge") "config.toml"
  let candidates := order.settings.toList ++ (env.text? Settings.fileVariable).toList
    ++ [Settings.localFile] ++ usual.toList
  let tree ← candidates.foldlM takeIn start
  match Settings.load tree env order.settings with
  | .ok s =>
    let names := (pathsOf (order.adjust s)).flatMap variablesOf
    return ⟨tree, ← names.foldlM takeVariable env, []⟩
  | .error _ => return ⟨tree, env, []⟩

/-- Writes what a report says, and gives its exit code. -/
def Report.publish (r : Report) : IO UInt32 := do
  (← IO.getStdout).write ⟨r.output.toArray⟩
  (← IO.getStderr).putStr r.errors
  return r.code.toUInt32

/-- Looks a file up in directories, and remembers what has been found. -/
def lookUp (roots : List String) (memo : IO.Ref (Table (Option Bytes))) (path : String) :
    IO (Option Bytes) := do
  match (← memo.get).get? path with
  | some known => return known
  | none =>
    let found ← (Sources.candidates roots path).findSomeM? readFile?
    memo.modify (·.insert path found)
    return found

/-- The result of a compile that has been asked for in this process. -/
def resultOf (root : String) (requests : Nat)
    (r : Except BridgeError (Except Halt Compiled)) : SessionResult :=
  match r with
  | .error _ => .error (.bridgeFailed root "")
  | .ok (.error _) => .error (.aborted root)
  | .ok (.ok c) =>
    match c.outcome with
    | .ok output => .ok ⟨root, output.text, requests, false⟩
    | .error ds => .error (.compilationFailed root ds)

/-- Compiles a root from directories. -/
def compileHere (options : CompileOptions) (roots : List String)
    (memo : IO.Ref (Table (Option Bytes))) (root : String) : IO SessionResult := do
  let requests ← IO.mkRef 0
  let ask (r : Request) : IO (Except BridgeError Response) := do
    match r.encode with
    | .error e => return .error e
    | .ok _ =>
      requests.modify (· + 1)
      let found ← lookUp roots memo r.path
      return .ok <| match r.kind with
        | .contents => .ofContents found
        | .presence => .presence found.isSome
  let result ← converse ask (compile options importLimit root)
  return resultOf root (← requests.get) result

/-- The file in which a directory keeps the output of a root. -/
def entryOf (options : CompileOptions) (store : Cache.Store) (root : String)
    (source : Option Bytes) : Option String :=
  match store, source with
  | .disk directory _, some bs =>
    some (Cache.Store.entryPath directory (Cache.key root bs options))
  | _, _ => none

/-- Compiles a root, unless its output has been kept. -/
def compileOrTake (options : CompileOptions) (roots : List String) (store : Cache.Store)
    (memo : IO.Ref (Table (Option Bytes))) (root : String) : IO SessionResult := do
  match entryOf options store root (← lookUp roots memo root) with
  | none => compileHere options roots memo root
  | some path =>
    match (← readFile? path).bind fun bs => (Utf8.decode bs).toOption with
    | some text => return .ok ⟨root, String.ofList text, 0, true⟩
    | none =>
      let result ← compileHere options roots memo root
      if let .ok output := result then writeFile path (bytesOf output.text)
      return result

/-- Carries out an order to compile. -/
def CompileOrder.perform (order : CompileOrder) : IO UInt32 := do
  let found ← situationOf order
  match Settings.load found.tree found.environment order.settings with
  | .error _ => (order.carryOut found).publish
  | .ok s =>
    let s := order.adjust s
    match setUp s order.choices found, s.sourceRoots found.environment, s.session.program with
    | .ok (k, c), .ok roots, none =>
      if let .disk directory _ := c.store then IO.FS.createDirAll directory
      let memo ← IO.mkRef .empty
      let results ← order.files.mapM (compileOrTake k.options roots c.store memo)
      (reportOf (order.layout.getD .js) k.options.target results c.tree).publish
    | _, _, _ => (order.carryOut found).publish

/-- Reads a response as it arrives. -/
partial def receive (kind : RequestKind) (input : IO.FS.Stream) (arrived : IO.Ref Bytes) :
    IO (Except BridgeError Response) := do
  let bs ← arrived.get
  match Response.read kind (.ofBytes bs) with
  | (.error (.truncated expected received), _) =>
    let more ← input.read 65536
    if more.isEmpty then
      return .error (.truncated expected received)
    arrived.set (bs ++ more.toList)
    receive kind input arrived
  | (response, rest) =>
    arrived.set rest.toBytes
    return response

/-- Carries out an order to be a compiler process. -/
def ChildOrder.perform (order : ChildOrder) (root : String) : IO UInt32 := do
  let input ← IO.getStdin
  let output ← IO.getStdout
  let arrived ← IO.mkRef []
  let ask (r : Request) : IO (Except BridgeError Response) := do
    match r.encode with
    | .error e => return .error e
    | .ok line =>
      output.write ⟨line.toArray⟩
      output.flush
      receive r.kind input arrived
  match ← converse ask (compile (order.choices.apply {}) importLimit root) with
  | .ok (.ok c) =>
    (← IO.getStderr).putStr (lossyString (shownLines c.reported))
    match c.outcome with
    | .ok compiled =>
      output.write ⟨(encodeOutput (bytesOf compiled.text)).toArray⟩
      return Exit.success.code.toUInt32
    | .error _ => return Exit.compilationFailed.code.toUInt32
  | .ok (.error _) => return 101
  | .error _ => return Exit.bridgeFailed.code.toUInt32

end PipedCompiler.CommandLine

open PipedCompiler.CommandLine in
/-- Carries out the words of the command line. -/
def main (words : List String) : IO UInt32 :=
  match Order.ofWords words with
  | .ok (.compile order) => order.perform
  | .ok (.child root order) => order.perform root
  | .error _ => (run words ⟨.empty, .empty, []⟩).publish
