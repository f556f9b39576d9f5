/-!
# Scripts

Small scripts of the shell: simple commands one after the other, with quotes, parameters and
redirections.
-/

namespace PipedCompiler.Worker.Script

/-- A part of a word. -/
inductive Fragment where
  | text (cs : List Char)
  /-- A dollar sign and the name of a parameter. -/
  | parameter (name : Char)
  deriving Repr, DecidableEq

/-- A word. -/
structure Word where
  fragments : List Fragment
  /-- Whether what parameters stand for is split at white space. -/
  splits : Bool
  deriving Repr, DecidableEq

/-- What stands between commands. -/
inductive Separator where
  /-- The next command always follows. -/
  | always
  /-- The next command follows a success. -/
  | onSuccess
  /-- The next command follows a failure. -/
  | onFailure
  deriving Repr, DecidableEq

/-- A piece of a script. -/
inductive Lexeme where
  | word (w : Word)
  | separator (s : Separator)
  /-- A redirection of a descriptor, to another one if it duplicates. -/
  | arrow (descriptor : Char) (duplicates : Bool)
  deriving Repr, DecidableEq

/-- What encloses a character. -/
inductive Quotes where
  | none
  | single
  | double
  deriving Repr, DecidableEq

/-- A word that has been begun. -/
structure Draft where
  /-- The fragments, the last one first. -/
  fragments : List Fragment
  splits : Bool
  /-- Whether there are quotes in the word. -/
  quoted : Bool
  deriving Repr, DecidableEq

namespace Draft

/-- A word of which there is nothing yet. -/
def empty : Draft := ⟨[], false, false⟩

/-- Adds a character. -/
def push (d : Draft) (c : Char) : Draft :=
  match d.fragments with
  | .text cs :: fragments => { d with fragments := .text (cs ++ [c]) :: fragments }
  | fragments => { d with fragments := .text [c] :: fragments }

/-- Adds a parameter. -/
def pushParameter (d : Draft) (quotes : Quotes) (name : Char) : Draft :=
  { d with fragments := .parameter name :: d.fragments, splits := d.splits || quotes = .none }

/-- Notes that there are quotes. -/
def quote (d : Draft) : Draft :=
  { d with quoted := true }

/-- The word, if there is one. -/
def finish (d : Draft) : List Lexeme :=
  if d.fragments.isEmpty && !d.quoted then [] else [.word ⟨d.fragments.reverse, d.splits⟩]

/-- The descriptor that a word in front of an arrow stands for, and the words that do not belong to
the arrow. -/
def descriptor (d : Draft) (standard : Char) : Char × List Lexeme :=
  match d with
  | ⟨[.text [c]], false, false⟩ => if c.isDigit then (c, []) else (standard, d.finish)
  | d => (standard, d.finish)

end Draft

/-- Whether a parameter has the name. -/
def isParameter (c : Char) : Bool :=
  c.isDigit || c = '*' || c = '@' || c = '#' || c = '?' || c = '$'

/-- Whether a backslash between double quotes takes the meaning of the character away. -/
def isEscapable (c : Char) : Bool :=
  c = '$' || c = '"' || c = '\\' || c = '\x60'

/-- The pieces of a script; `none` if quotes are not closed, or if it uses more of the shell than is
known here. -/
def lexemes? : Quotes → Draft → List Char → Option (List Lexeme)
  | .none, d, [] => some d.finish
  | _, _, [] => none
  | .single, d, c :: cs =>
    if c = '\x27' then lexemes? .none d cs else lexemes? .single (d.push c) cs
  | .double, d, '"' :: cs => lexemes? .none d cs
  | .double, d, '\\' :: '\n' :: cs => lexemes? .double d cs
  | .double, d, '\\' :: c :: cs =>
    if isEscapable c then lexemes? .double (d.push c) cs
    else lexemes? .double ((d.push '\\').push c) cs
  | .none, d, '"' :: cs => lexemes? .double d.quote cs
  | .none, d, '\x27' :: cs => lexemes? .single d.quote cs
  | .none, d, '\\' :: '\n' :: cs => lexemes? .none d cs
  | .none, d, '\\' :: c :: cs => lexemes? .none (d.quote.push c) cs
  | quotes, d, '$' :: c :: cs =>
    if isParameter c then lexemes? quotes (d.pushParameter quotes c) cs
    else if c.isAlpha || c = '_' || c = '\x7b' || c = '(' then none
    else lexemes? quotes (d.push '$') (c :: cs)
  | .double, d, c :: cs => if c = '\x60' then none else lexemes? .double (d.push c) cs
  | .none, d, '&' :: '&' :: cs =>
    (lexemes? .none .empty cs).map (d.finish ++ .separator .onSuccess :: ·)
  | .none, d, '|' :: '|' :: cs =>
    (lexemes? .none .empty cs).map (d.finish ++ .separator .onFailure :: ·)
  | .none, d, '>' :: '&' :: cs =>
    let (descriptor, before) := d.descriptor '1'
    (lexemes? .none .empty cs).map (before ++ .arrow descriptor true :: ·)
  | .none, d, '>' :: cs =>
    let (descriptor, before) := d.descriptor '1'
    (lexemes? .none .empty cs).map (before ++ .arrow descriptor false :: ·)
  | .none, d, '<' :: cs =>
    let (descriptor, before) := d.descriptor '0'
    (lexemes? .none .empty cs).map (before ++ .arrow descriptor false :: ·)
  | .none, d, c :: cs =>
    if c = ' ' || c = '\t' then (lexemes? .none .empty cs).map (d.finish ++ ·)
    else if c = ';' || c = '\n' then
      (lexemes? .none .empty cs).map (d.finish ++ .separator .always :: ·)
    else if c = '&' || c = '|' || c = '(' || c = ')' || c = '\x60' then none
    else lexemes? .none (d.push c) cs

/-- Where a command reads or writes instead. -/
structure Redirection where
  descriptor : Char
  /-- Whether the target is another descriptor. -/
  duplicates : Bool
  target : Word
  deriving Repr, DecidableEq

/-- A command, and what it waits for. -/
structure Command where
  after : Separator
  words : List Word
  redirections : List Redirection
  deriving Repr, DecidableEq

namespace Command

/-- A command of which there is nothing yet. -/
def empty (after : Separator) : Command :=
  ⟨after, [], []⟩

/-- Whether there is nothing in a command. -/
def isEmpty (c : Command) : Bool :=
  c.words.isEmpty && c.redirections.isEmpty

/-- The commands of a script, after one that has been begun. -/
def ofLexemes? (c : Command) : List Lexeme → Option (List Command)
  | [] => some (if c.isEmpty then [] else [c])
  | .word w :: ls => ofLexemes? { c with words := c.words ++ [w] } ls
  | .separator s :: ls =>
    if c.isEmpty then if s = .always then ofLexemes? c ls else none
    else (ofLexemes? (.empty s) ls).map (c :: ·)
  | .arrow descriptor duplicates :: .word w :: ls =>
    let r : Redirection := ⟨descriptor, duplicates, w⟩
    ofLexemes? { c with redirections := c.redirections ++ [r] } ls
  | .arrow _ _ :: _ => none

end Command

/-- The commands of a script. -/
def commands? (script : String) : Option (List Command) :=
  (lexemes? .none .empty script.toList).bind (Command.ofLexemes? (.empty .always))

end PipedCompiler.Worker.Script
