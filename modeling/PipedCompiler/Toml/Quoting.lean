import PipedCompiler.Toml.Scalar

/-!
# TOML strings

Strings in double quotes have escapes, strings in single quotes have none, and either may be written
over several lines between three quotes.
-/

namespace PipedCompiler.Toml

/-- Whether the character may stand in a line. -/
def isPlain (c : Char) : Bool :=
  c = '\t' || (0x20 ≤ c.toNat && c.toNat ≠ 0x7f)

/-- The character of a one-letter escape. -/
def escape? (c : Char) : Option Char :=
  match c with
  | 'b' => some '\x08'
  | 'e' => some '\x1b'
  | 't' => some '\t'
  | 'n' => some '\n'
  | 'f' => some '\x0c'
  | 'r' => some '\r'
  | '"' => some '"'
  | '\\' => some '\\'
  | _ => none

/-- The character of a code point written in base sixteen. -/
def codePoint? (digits : List Char) : Option Char := do
  let n := numberOf 16 digits
  if digits.all (isDigitOf 16) && (n < 0xd800 || (0xe000 ≤ n && n ≤ 0x10ffff)) then
    some (Char.ofNat n)
  else none

/-- The rest of a string in double quotes, and what follows.  The characters so far are given in
reverse. -/
def basicRest (value : List Char) : List Char → Option (List Char × List Char)
  | [] => none
  | '"' :: cs => some (value.reverse, cs)
  | '\\' :: 'x' :: a :: b :: cs => do basicRest ((← codePoint? [a, b]) :: value) cs
  | '\\' :: 'u' :: a :: b :: c :: d :: cs => do basicRest ((← codePoint? [a, b, c, d]) :: value) cs
  | '\\' :: 'U' :: a :: b :: c :: d :: e :: f :: g :: h :: cs => do
    basicRest ((← codePoint? [a, b, c, d, e, f, g, h]) :: value) cs
  | '\\' :: c :: cs => do basicRest ((← escape? c) :: value) cs
  | c :: cs => if isPlain c then basicRest (c :: value) cs else none

/-- The rest of a string in single quotes, and what follows. -/
def literalRest (value : List Char) : List Char → Option (List Char × List Char)
  | [] => none
  | c :: cs =>
    if c = '\x27' then some (value.reverse, cs)
    else if isPlain c then literalRest (c :: value) cs
    else none

/-- What a backslash at the end of a line does to what follows. -/
inductive Joining where
  | none
  /-- The backslash has been read, but not yet the end of its line. -/
  | started
  /-- White space is dropped up to the next other character. -/
  | dropping
  deriving Repr, DecidableEq

/-- The rest of a string between three double quotes, and what follows. -/
def basicLinesRest : Joining → (value : List Char) → List Char → Option (List Char × List Char)
  | _, _, [] => Option.none
  | .started, value, '\r' :: '\n' :: cs => basicLinesRest .dropping value cs
  | .started, value, c :: cs =>
    if c = ' ' || c = '\t' then basicLinesRest .started value cs
    else if c = '\n' then basicLinesRest .dropping value cs
    else Option.none
  | .dropping, value, ' ' :: cs => basicLinesRest .dropping value cs
  | .dropping, value, '\t' :: cs => basicLinesRest .dropping value cs
  | .dropping, value, '\n' :: cs => basicLinesRest .dropping value cs
  | .dropping, value, '\r' :: '\n' :: cs => basicLinesRest .dropping value cs
  | _, value, '"' :: '"' :: '"' :: '"' :: '"' :: cs => some (('"' :: '"' :: value).reverse, cs)
  | _, value, '"' :: '"' :: '"' :: '"' :: cs => some (('"' :: value).reverse, cs)
  | _, value, '"' :: '"' :: '"' :: cs => some (value.reverse, cs)
  | _, value, '\\' :: 'x' :: a :: b :: cs => do
    basicLinesRest .none ((← codePoint? [a, b]) :: value) cs
  | _, value, '\\' :: 'u' :: a :: b :: c :: d :: cs => do
    basicLinesRest .none ((← codePoint? [a, b, c, d]) :: value) cs
  | _, value, '\\' :: 'U' :: a :: b :: c :: d :: e :: f :: g :: h :: cs => do
    basicLinesRest .none ((← codePoint? [a, b, c, d, e, f, g, h]) :: value) cs
  | _, value, '\\' :: '\r' :: '\n' :: cs => basicLinesRest .dropping value cs
  | _, value, '\\' :: c :: cs =>
    if c = ' ' || c = '\t' then basicLinesRest .started value cs
    else if c = '\n' then basicLinesRest .dropping value cs
    else do basicLinesRest .none ((← escape? c) :: value) cs
  | _, value, '\r' :: '\n' :: cs => basicLinesRest .none ('\n' :: '\r' :: value) cs
  | _, value, c :: cs =>
    if isPlain c || c = '\n' then basicLinesRest .none (c :: value) cs else Option.none

/-- The rest of a string between three single quotes, and what follows. -/
def literalLinesRest (value : List Char) : List Char → Option (List Char × List Char)
  | [] => none
  | '\x27' :: '\x27' :: '\x27' :: '\x27' :: '\x27' :: cs =>
    some (('\x27' :: '\x27' :: value).reverse, cs)
  | '\x27' :: '\x27' :: '\x27' :: '\x27' :: cs => some (('\x27' :: value).reverse, cs)
  | '\x27' :: '\x27' :: '\x27' :: cs => some (value.reverse, cs)
  | '\r' :: '\n' :: cs => literalLinesRest ('\n' :: '\r' :: value) cs
  | c :: cs => if isPlain c || c = '\n' then literalLinesRest (c :: value) cs else none

/-- The characters without a line end in front. -/
def withoutLineEnd (cs : List Char) : List Char :=
  match cs with
  | '\n' :: cs => cs
  | '\r' :: '\n' :: cs => cs
  | cs => cs

/-- A string on one line, and what follows. -/
def lineString? (cs : List Char) : Option (List Char × List Char) :=
  match cs with
  | '"' :: cs => basicRest [] cs
  | '\x27' :: cs => literalRest [] cs
  | _ => none

/-- A string, and what follows. -/
def string? (cs : List Char) : Option (List Char × List Char) :=
  match cs with
  | '"' :: '"' :: '"' :: cs => basicLinesRest .none [] (withoutLineEnd cs)
  | '\x27' :: '\x27' :: '\x27' :: cs => literalLinesRest [] (withoutLineEnd cs)
  | cs => lineString? cs

end PipedCompiler.Toml
