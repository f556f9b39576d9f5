import PipedCompiler.Table
import PipedCompiler.Text.Numbers
import PipedCompiler.Text.Utf8

/-!
# Environment variables

The variables of a process, and texts that refer to them: `$NAME` up to the last character that can
belong to the name, or any name between braces.  What a variable holds is put in as it is.
-/

namespace PipedCompiler

open PipedCompiler.Text

/-- The variables of a process. -/
abbrev Environment := Table Bytes

/-- What a variable holds; `none` if there is no such variable, or if it does not hold a text. -/
def Environment.text? (env : Environment) (name : String) : Option String :=
  match env.get? name with
  | some bs => (Utf8.decode bs).toOption.map String.ofList
  | none => none

/-- A text refers to a variable that is not there, or that does not hold a text. -/
structure MissingVariable where
  name : String
  deriving Repr, DecidableEq

/-- The wording of the error. -/
def MissingVariable.message (e : MissingVariable) : String :=
  s!"Missing environment variable: {e.name}"

namespace Expansion

/-- A part of a text. -/
inductive Part where
  /-- A character that stands for itself. -/
  | literal (c : Char)
  /-- The name of a variable. -/
  | reference (name : List Char)
  deriving Repr, DecidableEq

/-- Whether a name without braces goes on with the character. -/
def continuesName (c : Char) : Bool :=
  isLetterOrNumber c || c = '_'

/-- Whether a name in braces goes on with the character. -/
def isBraced (c : Char) : Bool :=
  c ≠ '\x7d'

/-- The first part of a text, and what follows it.  Braces that are not closed end with the text,
and a dollar sign that no name follows stands for itself. -/
def next? : List Char → Option (Part × List Char)
  | [] => none
  | '$' :: '\x7b' :: cs =>
    some (.reference (cs.takeWhile isBraced), (cs.dropWhile isBraced).drop 1)
  | '$' :: cs =>
    match cs.takeWhile continuesName with
    | [] => some (.literal '$', cs)
    | name => some (.reference name, cs.dropWhile continuesName)
  | c :: cs => some (.literal c, cs)

theorem length_lt_of_next? {cs rest : List Char} {p : Part} (h : next? cs = some (p, rest)) :
    rest.length < cs.length := by
  have hdrop (q : Char → Bool) (l : List Char) : (l.dropWhile q).length ≤ l.length :=
    (List.dropWhile_suffix q).sublist.length_le
  rw [next?.eq_def] at h
  split at h
  · cases h
  · next cs =>
    cases h
    have := hdrop isBraced cs
    simp only [List.length_drop, List.length_cons]
    omega
  · next cs _ =>
    split at h
    · cases h
      simp
    · cases h
      have := hdrop continuesName cs
      simp only [List.length_cons]
      omega
  · cases h
    simp

/-- The parts of a text. -/
def parts (cs : List Char) : List Part :=
  match _hnext : next? cs with
  | none => []
  | some (p, rest) => p :: parts rest
termination_by cs.length
decreasing_by exact length_lt_of_next? ‹_›

/-- What a part stands for. -/
def Part.value (env : Environment) : Part → Except MissingVariable (List Char)
  | .literal c => .ok [c]
  | .reference name =>
    match env.text? (String.ofList name) with
    | some text => .ok text.toList
    | none => .error ⟨String.ofList name⟩

/-- Goes on behind what has been made of a text so far, part by part. -/
def expandFrom (env : Environment) (made cs : List Char) : Except MissingVariable (List Char) :=
  match _hnext : next? cs with
  | none => .ok made
  | some (p, rest) => do
    let value ← p.value env
    expandFrom env (made ++ value) rest
termination_by cs.length
decreasing_by exact length_lt_of_next? ‹_›

end Expansion

/-- A text with its references replaced by what the variables hold. -/
def Environment.expand (env : Environment) (text : String) : Except MissingVariable String :=
  (Expansion.expandFrom env [] text.toList).map String.ofList

end PipedCompiler
