/-!
# Switches

How the words of a command line are taken apart.  A switch has a long name behind two dashes, and may
have a letter behind one.  Its value is the next word, or follows at once, behind an equals sign where
there is a long name.  Behind two dashes alone there are no more switches.
-/

namespace PipedCompiler.CommandLine

/-- Why the words of a command line are not carried out. -/
inductive Refusal where
  /-- They are not understood. -/
  | usage
  /-- They ask what can be said. -/
  | help
  /-- They ask which version this is. -/
  | version
  deriving Repr, DecidableEq

/-- What a switch does to what has been understood so far.  It may be out of place. -/
inductive Action (σ : Type) where
  | flag (set : σ → Option σ)
  | value (set : String → σ → Option σ)
  | answer (r : Refusal)

/-- A switch. -/
structure Switch (σ : Type) where
  long : String
  letter : Option Char
  action : Action σ

/-- How far the words of a command have been read. -/
structure Reading (σ : Type) where
  understood : σ
  /-- What to do with the next word if it is the value of a switch. -/
  pending : Option (String → σ → Option σ)
  /-- Whether there are no more switches. -/
  onlyWords : Bool

namespace Reading

variable {σ : Type}

/-- Before the first word. -/
def start (understood : σ) : Reading σ :=
  ⟨understood, none, false⟩

/-- Goes on with what is understood now, unless something was out of place. -/
def proceed (r : Reading σ) (understood : Option σ) : Except Refusal (Reading σ) :=
  match understood with
  | some understood => .ok { r with understood, pending := none }
  | none => .error .usage

/-- Whether the word would be read as a switch. -/
def isDashed (word : String) : Bool :=
  match word.toList with
  | '-' :: _ :: _ => true
  | _ => false

/-- Takes the letters behind one dash.  What follows a letter that takes a value is the value. -/
def takeLetters (switches : List (Switch σ)) (r : Reading σ) :
    List Char → Except Refusal (Reading σ)
  | [] => .ok r
  | c :: cs =>
    match switches.find? (·.letter = some c) with
    | none => .error .usage
    | some switch =>
      match switch.action, cs with
      | .answer refusal, _ => .error refusal
      | .flag set, cs => do takeLetters switches (← r.proceed (set r.understood)) cs
      | .value set, [] => .ok { r with pending := some set }
      | .value set, '=' :: cs => r.proceed (set (String.ofList cs) r.understood)
      | .value set, cs => r.proceed (set (String.ofList cs) r.understood)

/-- Takes a long name, and what follows an equals sign behind it. -/
def takeLong (switches : List (Switch σ)) (r : Reading σ) (cs : List Char) :
    Except Refusal (Reading σ) :=
  let name := String.ofList (cs.takeWhile (· ≠ '='))
  let attached := match cs.dropWhile (· ≠ '=') with
    | '=' :: value => some (String.ofList value)
    | _ => none
  match switches.find? (·.long = name) with
  | none => .error .usage
  | some switch =>
    match switch.action, attached with
    | .answer refusal, none => .error refusal
    | .flag set, none => r.proceed (set r.understood)
    | .value set, none => .ok { r with pending := some set }
    | .value set, some value => r.proceed (set value r.understood)
    | _, some _ => .error .usage

/-- Takes a word. -/
def take (switches : List (Switch σ)) (word : String → σ → Option σ) (r : Reading σ) (s : String) :
    Except Refusal (Reading σ) :=
  match r.pending with
  | some set => if isDashed s then .error .usage else r.proceed (set s r.understood)
  | none =>
    if r.onlyWords then r.proceed (word s r.understood)
    else
      match s.toList with
      | ['-', '-'] => .ok { r with onlyWords := true }
      | '-' :: '-' :: cs => takeLong switches r cs
      | '-' :: c :: cs => takeLetters switches r (c :: cs)
      | _ => r.proceed (word s r.understood)

/-- What has been understood, unless a value is missing. -/
def finish (r : Reading σ) : Except Refusal σ :=
  match r.pending with
  | some _ => .error .usage
  | none => .ok r.understood

end Reading

/-- Reads the words of a command. -/
def readWords {σ : Type} (switches : List (Switch σ)) (word : String → σ → Option σ) (start : σ)
    (words : List String) : Except Refusal σ := do
  (← words.foldlM (Reading.take switches word) (.start start)).finish

end PipedCompiler.CommandLine
