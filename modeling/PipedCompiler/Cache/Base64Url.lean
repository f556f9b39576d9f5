import PipedCompiler.Text.Utf8

/-!
# Base64 for names

Bytes as characters of which each stands for six bits; all may occur in the name of a file.
-/

namespace PipedCompiler.Cache.Base64Url

open PipedCompiler.Text

/-- The characters, in the order of what they stand for. -/
def alphabet : List Char :=
  "ABCDEFGHIJKLMNOPQRSTUVWXYZabcdefghijklmnopqrstuvwxyz0123456789-_".toList

/-- The character of six bits. -/
def sextet (n : Nat) : Char :=
  alphabet.getD (n % 64) 'A'

/-- The characters of some bytes, without any that only fill up. -/
def encode : Bytes → List Char
  | [] => []
  | [a] =>
    let n := a.toNat <<< 4
    [sextet (n >>> 6), sextet n]
  | [a, b] =>
    let n := (a.toNat <<< 10) ||| (b.toNat <<< 2)
    [sextet (n >>> 12), sextet (n >>> 6), sextet n]
  | a :: b :: c :: bs =>
    let n := (a.toNat <<< 16) ||| (b.toNat <<< 8) ||| c.toNat
    sextet (n >>> 18) :: sextet (n >>> 12) :: sextet (n >>> 6) :: sextet n :: encode bs

end PipedCompiler.Cache.Base64Url
