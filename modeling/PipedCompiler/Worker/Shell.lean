import PipedCompiler.Worker.Escapes
import PipedCompiler.Worker.Machine
import PipedCompiler.Worker.Script

/-!
# Shells

What scripts do when a parent serves them: the commands that print, read, wait and end.
-/

namespace PipedCompiler.Worker

open PipedCompiler.Text PipedCompiler.Parent

/-- Where a command writes to and reads from. -/
structure Descriptors where
  output : Sink
  errors : Sink
  /-- Whether there is anything to read. -/
  reads : Bool

/-- Descriptors as a process is given them. -/
def Descriptors.standard : Descriptors := ⟨.parent, .errors, true⟩

/-- Where a command leaves a process. -/
inductive Flow (ρ : Type) where
  /-- The process goes on, and the command has a status. -/
  | goes (m : Machine ρ) (status : Nat)
  | ends (m : Machine ρ) (ending : Ending)

/-- What a process does with its arguments. -/
abbrev Utility (ρ : Type) := Descriptors → List String → Machine ρ → Flow ρ

namespace Utility

variable {ρ : Type} [Resolver ρ]

/-- Only has a status. -/
def constant (status : Nat) : Utility ρ :=
  fun _ _ m => .goes m status

/-- Writes its arguments, with escapes. -/
def echo : Utility ρ := fun d args m =>
  let (args, ending) := match args with
    | "-n" :: args => (args, "")
    | args => (args, "\n")
  .goes (m.write d.output (echoed (" ".intercalate args).toList ++ bytesOf ending)) 0

/-- Writes its arguments in a format. -/
def print : Utility ρ := fun d args m =>
  match args with
  | format :: args =>
    .goes (m.write d.output (printedAgain (args.length + 1) format.toList args)) 0
  | [] => .goes m 2

/-- The milliseconds of a number of seconds. -/
def millis? (s : String) : Option Nat :=
  match s.toList.splitOn '.' with
  | [whole] => (Decimal.nat? whole).map (1000 * ·)
  | [whole, part] => do
    let whole ← if whole = [] then some 0 else Decimal.nat? whole
    let part ← Decimal.nat? (part ++ ['0', '0', '0'] |>.take 3)
    return 1000 * whole + part
  | _ => none

/-- Waits. -/
def sleep : Utility ρ := fun _ args m =>
  match args with
  | [s] =>
    match millis? s with
    | some ms => .goes (m.sleep ms) 0
    | none => .goes m 1
  | _ => .goes m 1

/-- Reads some bytes and writes them. -/
def copy (d : Descriptors) (count : Nat) (m : Machine ρ) : Flow ρ :=
  if !d.reads then .goes m 0
  else
    match m.read? count with
    | some (bs, m) => .goes (m.write d.output bs) 0
    | none => .ends m .endless

/-- Copies the first bytes of what it reads. -/
def head : Utility ρ := fun d args m =>
  let count := match args with
    | ["-c", n] => Decimal.nat? n.toList
    | [arg] =>
      match arg.toList with
      | '-' :: 'c' :: n => Decimal.nat? n
      | _ => none
    | _ => none
  match count with
  | some count => copy d count m
  | none => .goes m 1

/-- Copies all that it reads. -/
def cat : Utility ρ := fun d args m =>
  if args ≠ [] && args ≠ ["-"] then .goes m 1
  else if d.reads && !m.isDeserted then .ends m .endless
  else copy d m.input.length m

/-- The number by which a script knows its own process. -/
def processId : String := "100"

/-- What a signal does to a process that does not expect it. -/
def signal (name : String) (m : Machine ρ) : Flow ρ :=
  if ["0", "CHLD", "CONT", "URG", "WINCH", "17", "18", "23", "28"].contains name then .goes m 0
  else if ["STOP", "TSTP", "TTIN", "TTOU", "19", "20", "21", "22"].contains name then
    .ends m .endless
  else .ends m .killed

/-- Sends a signal to the process itself. -/
def kill : Utility ρ := fun _ args m =>
  match args with
  | [pid] => if pid = processId then signal "TERM" m else .goes m 1
  | ["-s", name, pid] => if pid = processId then signal name m else .goes m 1
  | [name, pid] =>
    if pid = processId then signal (String.ofList (name.toList.drop 1)) m else .goes m 1
  | _ => .goes m 2

/-- The utility of a name. -/
def named? (name : String) : Option (Utility ρ) :=
  match name with
  | "true" => some (constant 0)
  | ":" => some (constant 0)
  | "false" => some (constant 1)
  | "echo" => some echo
  | "printf" => some print
  | "sleep" => some sleep
  | "head" => some head
  | "cat" => some cat
  | "kill" => some kill
  | _ => none

end Utility

namespace Script

/-- What a parameter stands for, given all of them, the name of the script first. -/
def valueOf (parameters : List String) (status : Nat) (name : Char) : String :=
  match name with
  | '*' => " ".intercalate (parameters.drop 1)
  | '@' => " ".intercalate (parameters.drop 1)
  | '#' => String.ofList (Decimal.digits (parameters.length - 1))
  | '?' => String.ofList (Decimal.digits status)
  | '$' => Utility.processId
  | c => parameters.getD (Decimal.digitValue c) ""

/-- What a word stands for. -/
def Word.values (parameters : List String) (status : Nat) (w : Word) : List String :=
  let cs := w.fragments.flatMap fun f =>
    match f with
    | .text cs => cs
    | .parameter name => (valueOf parameters status name).toList
  if w.splits then
    (cs.splitOn ' ').filterMap fun field => if field = [] then none else some (String.ofList field)
  else [String.ofList cs]

/-- Redirects a descriptor.  What goes to files is lost, and there is nothing to read in them. -/
def redirect (parameters : List String) (d : Descriptors) (r : Redirection) : Descriptors :=
  let target := " ".intercalate (r.target.values parameters 0)
  let sink :=
    if target = (if r.duplicates then "1" else "/dev/stdout") then d.output
    else if target = (if r.duplicates then "2" else "/dev/stderr") then d.errors
    else .nowhere
  match r.descriptor with
  | '0' => { d with reads := d.reads && r.duplicates }
  | '1' => { d with output := sink }
  | '2' => { d with errors := sink }
  | _ => d

variable {ρ : Type} [Resolver ρ]

/-- What is said about a command that there is not. -/
def notFound (parameters : List String) (name : String) : String :=
  parameters.headD "sh" ++ ": 1: " ++ name ++ ": not found\n"

/-- Runs a utility by its name. -/
def runNamed (parameters : List String) (d : Descriptors) (name : String) (args : List String)
    (m : Machine ρ) : Flow ρ :=
  match Utility.named? name with
  | some utility => utility d args m
  | none => .goes (m.write d.errors (bytesOf (notFound parameters name))) 127

/-- Ends the process by a status. -/
def exit (status : Nat) (args : List String) (m : Machine ρ) : Flow ρ :=
  match args with
  | [] => .ends m (.exited status)
  | n :: _ =>
    match Decimal.nat? n.toList with
    | some n => .ends m (.exited (n % 256))
    | none => .ends m (.exited 2)

/-- Runs the words of a command. -/
def runWords (parameters : List String) (d : Descriptors) (status : Nat) (words : List String)
    (m : Machine ρ) : Flow ρ :=
  match words with
  | [] => .goes m 0
  | "exit" :: args => exit status args m
  | ["exec"] => .goes m 0
  | "exec" :: name :: args =>
    match runNamed parameters d name args m with
    | .goes m status => .ends m (.exited status)
    | .ends m ending => .ends m ending
  | name :: args => runNamed parameters d name args m

/-- Runs a command. -/
def runCommand (parameters : List String) (status : Nat) (c : Command) (m : Machine ρ) : Flow ρ :=
  runWords parameters (c.redirections.foldl (redirect parameters) .standard) status
    (c.words.flatMap (Word.values parameters status)) m

/-- Whether a command follows one with the status. -/
def Separator.allows (s : Separator) (status : Nat) : Bool :=
  match s with
  | .always => true
  | .onSuccess => status = 0
  | .onFailure => status ≠ 0

/-- Runs commands. -/
def runAll (parameters : List String) : (status : Nat) → List Command → Machine ρ → Run ρ
  | status, [], m => m.finish (.exited status)
  | status, c :: cs, m =>
    if c.after.allows status then
      match runCommand parameters status c m with
      | .goes m status => runAll parameters status cs m
      | .ends m ending => m.finish ending
    else runAll parameters status cs m

/-- Runs a script. -/
def run (script : String) (parameters : List String) (m : Machine ρ) : Run ρ :=
  match commands? script with
  | some commands => runAll parameters 0 commands m
  | none => m.finish (.exited 2)

end Script

end PipedCompiler.Worker
