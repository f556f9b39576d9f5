/-!
# Positions in a text

Places in a text are byte offsets; people are shown lines and columns, both counted from one, a
column in characters, in numbers of 32 bits.
-/

namespace PipedCompiler.Text

/-- How many bytes the characters take. -/
def byteLength (cs : List Char) : Nat :=
  cs.foldr (fun c n => c.utf8Size + n) 0

@[simp] theorem byteLength_append (cs ds : List Char) :
    byteLength (cs ++ ds) = byteLength cs + byteLength ds := by
  induction cs with
  | nil => exact (Nat.zero_add _).symm
  | cons c cs ih =>
    show c.utf8Size + byteLength (cs ++ ds) = c.utf8Size + byteLength cs + byteLength ds
    rw [ih, Nat.add_assoc]

theorem byteLength_pos {cs : List Char} (h : cs ≠ []) : 0 < byteLength cs := by
  cases cs with
  | nil => exact absurd rfl h
  | cons c cs => exact Nat.lt_of_lt_of_le c.utf8Size_pos (Nat.le_add_right _ _)

/-- How many lines end before a place, and how many characters stand before it in its own line. -/
structure Counts where
  lines : Nat
  columns : Nat
  deriving Repr, DecidableEq

/-- Goes `left` bytes further from a place with the given counts that lies `past` bytes after the
start of its line.  Inside a character its line's bytes count instead of characters; past the end of
the text the place is the end. -/
def Counts.advance : List Char → (left lines columns past : Nat) → Counts
  | [], _, lines, columns, _ => ⟨lines, columns⟩
  | c :: cs, left, lines, columns, past =>
    if left = 0 then ⟨lines, columns⟩
    else if left < c.utf8Size then ⟨lines, past + left⟩
    else if c = '\n' then Counts.advance cs (left - 1) (lines + 1) 0 0
    else Counts.advance cs (left - c.utf8Size) lines (columns + 1) (past + c.utf8Size)

/-- The counts at a byte offset. -/
def counts (cs : List Char) (offset : Nat) : Counts :=
  Counts.advance cs offset 0 0 0

/-- A line and a column, counted from one.  Both are numbers of 32 bits, so that in a text that has
too many lines or characters counting starts again from zero. -/
structure Position where
  line : UInt32
  column : UInt32
  deriving Repr, DecidableEq

/-- A line or a column is a number. -/
scoped instance instCoeUInt32Nat : Coe UInt32 Nat := ⟨UInt32.toNat⟩

/-- The position of a place with the given counts. -/
def Counts.position (n : Counts) : Position :=
  ⟨n.lines.toUInt32 + 1, n.columns.toUInt32 + 1⟩

/-- The position of a byte offset. -/
def position (cs : List Char) (offset : Nat) : Position :=
  (counts cs offset).position

/-- How many lines the text has: one more than its line feeds. -/
def lineCount (cs : List Char) : Nat :=
  cs.count '\n' + 1

end PipedCompiler.Text
