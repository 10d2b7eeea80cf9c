/-! Stretches of a source text, measured in UTF-8 bytes. -/

namespace Covenant

/-- Splits off the characters that fill exactly `count` bytes. There are none when the text is too
short, or when the cut would fall inside a character. -/
def splitBytes? (count : Nat) (text : List Char) : Option (List Char × List Char) :=
  go count [] text
where
  go : Nat → List Char → List Char → Option (List Char × List Char)
    | 0, taken, rest => some (taken.reverse, rest)
    | _ + 1, _, [] => none
    | count + 1, taken, c :: rest =>
        if c.utf8Size ≤ count + 1 then go (count + 1 - c.utf8Size) (c :: taken) rest else none

/-- A first byte and a number of bytes. -/
structure Span where
  lo : Nat
  len : Nat
deriving DecidableEq

namespace Span

/-- Lengths are kept in 32 bits; a longer stretch is recorded with the greatest length. -/
def maxLen : Nat := 0xFFFFFFFF

/-- The greatest byte offset. -/
def maxOffset : Nat := 0xFFFFFFFFFFFFFFFF

def ofBounds (lo hi : Nat) : Span :=
  ⟨lo, min (hi - lo) maxLen⟩

def hi (span : Span) : Nat :=
  span.lo + span.len

/-- Moves an offset, which stops at either end of its range. -/
def move (offset : Nat) (delta : Int) : Nat :=
  min (offset + delta).toNat maxOffset

/-- Moves both ends. The upper end never falls below the lower one. -/
def offset (span : Span) (loDelta hiDelta : Int) : Span :=
  let lo := move span.lo loDelta
  ofBounds lo (max (move span.hi hiDelta) lo)

/-- The text of a span, if it lies inside the source and cuts no character. -/
def slice? (span : Span) (source : String) : Option String := do
  let (_, rest) ← splitBytes? span.lo source.toList
  let (text, _) ← splitBytes? span.len rest
  pure (String.ofList text)

def bounds (span : Span) : String :=
  s!"{span.lo}..{span.hi}"

def render (span : Span) : String :=
  s!"Span({span.bounds}, len: {span.len})"

end Span

end Covenant
