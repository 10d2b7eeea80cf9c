/-! Places in a source text. A position is what error messages and trees show; a cursor also
knows how many bytes precede it. -/

namespace Covenant

/-- A line and a column, both counted from one. Columns count characters. Both are kept in 32 bits.
Here they have no bound, which makes no difference for sources of up to 4294967294 bytes: on these
the steps that count in 32 bits (`Proofs/Checked`) do not overflow. -/
structure Position where
  line : Nat
  column : Nat
deriving DecidableEq

namespace Position

def start : Position := ⟨1, 1⟩

/-- The place after one more character: only a line feed starts a new line. -/
def next (pos : Position) (c : Char) : Position :=
  if c = '\n' then ⟨pos.line + 1, 1⟩ else ⟨pos.line, pos.column + 1⟩

def render (pos : Position) : String :=
  s!"{pos.line}:{pos.column}"

end Position

/-- A value tied to the place it speaks of. -/
structure Located (α : Type) where
  pos : Position
  value : α
deriving DecidableEq

/-- Appends the place of a message in words. -/
def Located.describe (located : Located String) : String :=
  s!"{located.value} at line {located.pos.line}, column {located.pos.column}"

/-- A place between two characters of a text. -/
structure Cursor where
  offset : Nat
  pos : Position
deriving DecidableEq

namespace Cursor

def start : Cursor := ⟨0, .start⟩

def next (cursor : Cursor) (c : Char) : Cursor :=
  ⟨cursor.offset + c.utf8Size, cursor.pos.next c⟩

/-- The cursor once `text` has been read. -/
def after (cursor : Cursor) (text : List Char) : Cursor :=
  text.foldl next cursor

@[simp] theorem after_nil (cursor : Cursor) : cursor.after [] = cursor := rfl

@[simp] theorem after_cons (cursor : Cursor) (c : Char) (text : List Char) :
    cursor.after (c :: text) = (cursor.next c).after text := rfl

@[simp] theorem after_append (cursor : Cursor) (left right : List Char) :
    cursor.after (left ++ right) = (cursor.after left).after right :=
  List.foldl_append

end Cursor

end Covenant
