import Covenant.Proofs.Token.Lines
import Covenant.Proofs.Token.Writing

/-! Steps that count in numbers of a fixed width and that rely on cases not to occur. Where one of
these cases does occur, a checked step stops with a panic, which is no outcome of a compilation. The
checked steps are there to be compared with the plain ones: they never panic and do the same. -/

namespace Covenant

/-- The cases that a compilation relies on not to occur. -/
inductive Panic where
  /-- A number that exceeds its width, or would be negative. -/
  | overflow
  /-- A buffer that holds tokens already. -/
  | dirtyBuffer
  /-- More than one byte for a character that has one byte of room. -/
  | wideChar
  /-- A span that ends before it starts. -/
  | reversedSpan
  /-- A span that leaves the source or cuts a character. -/
  | brokenSlice
  /-- Text taken from a token of another kind than expected. -/
  | otherKind
  /-- Text with escapes that is not longer than what it stands for. -/
  | notShortened
  /-- An expression that is none of the accesses one of which was just built. -/
  | notAnAccess
  /-- An opcode that takes bytes after it where it must not, or takes none where it must. -/
  | otherOperand
  /-- A label that was never made. -/
  | unknownLabel
  | reboundLabel
  | unboundLabel
  /-- More bytes asked of a number than it has. -/
  | wideImmediate
  /-- Code of another length than was counted before. -/
  | otherLength
  /-- A digit past the sixteenth. -/
  | unknownDigit
deriving DecidableEq

abbrev Checked (α : Type) := Except Panic α

namespace Checked

def require (condition : Prop) [Decidable condition] (panic : Panic) : Checked Unit :=
  if condition then pure () else throw panic

@[simp] theorem require_of {condition : Prop} [Decidable condition] (holds : condition)
    (panic : Panic) : require condition panic = .ok () :=
  if_pos holds

@[simp] theorem ok_bind {α β : Type} (value : α) (next : α → Checked β) :
    (Except.ok value >>= next) = next value := rfl

@[simp] theorem pure_eq_ok {α : Type} (value : α) : (pure value : Checked α) = .ok value := rfl

/-- Steps one after another, up to the first that fails. -/
def inOrder {ε α β : Type} (step : α → Checked (Except ε β)) :
    List α → Checked (Except ε (List β))
  | [] => return .ok []
  | item :: items => do
      match ← step item with
      | .error error => return .error error
      | .ok value =>
          match ← inOrder step items with
          | .error error => return .error error
          | .ok values => return .ok (value :: values)

theorem inOrder_eq {ε α β : Type} {step : α → Checked (Except ε β)} {plain : α → Except ε β}
    {items : List α} (same : ∀ item ∈ items, step item = .ok (plain item)) :
    inOrder step items = .ok (items.mapM plain) := by
  induction items with
  | nil => rfl
  | cons item items induction =>
      have rest := induction fun other member => same other (by simp [member])
      rw [inOrder, same item (by simp), rest, List.mapM_cons]
      cases plain item with
      | error error => rfl
      | ok value =>
          cases items.mapM plain <;> rfl

/-- A sum that must not exceed the greatest number of its width. -/
def add (greatest left right : Nat) : Checked Nat := do
  require (left + right ≤ greatest) .overflow
  return left + right

theorem add_of_le {greatest left right : Nat} (fits : left + right ≤ greatest) :
    add greatest left right = .ok (left + right) := by
  rw [add, require_of fits]
  rfl

/-- A difference that must not be negative. -/
def sub (left right : Nat) : Checked Nat := do
  require (right ≤ left) .overflow
  return left - right

theorem sub_of_le {left right : Nat} (fits : right ≤ left) :
    sub left right = .ok (left - right) := by
  rw [sub, require_of fits]
  rfl

/-! Places. Lines and columns have 32 bits, offsets 64. -/

def maxCount : Nat := 0xFFFFFFFF

def nextPos (pos : Position) (c : Char) : Checked Position := do
  if c = '\n' then return ⟨← add maxCount pos.line 1, 1⟩
  else return ⟨pos.line, ← add maxCount pos.column 1⟩

def nextCursor (cursor : Cursor) (c : Char) : Checked Cursor := do
  return ⟨← add Span.maxOffset cursor.offset c.utf8Size, ← nextPos cursor.pos c⟩

def spanOf (lo hi : Nat) : Checked Span := do
  require (lo ≤ hi) .reversedSpan
  return .ofBounds lo hi

def upperEnd (span : Span) : Checked Nat :=
  add Span.maxOffset span.lo span.len

/-- The span without its first and its last byte. -/
def inner (span : Span) : Checked Span := do
  let hi ← upperEnd span
  spanOf (Span.move span.lo 1) (max (Span.move hi (-1)) (Span.move span.lo 1))

def cut (source : String) (span : Span) : Checked String := do
  let _ ← upperEnd span
  match span.slice? source with
  | some text => return text
  | none => throw .brokenSlice

/-! The texts that tokens stand for. -/

/-- The text of a token that has to be of this kind. -/
def textOf (source : String) (kind : Token.Kind) (token : Token) : Checked String := do
  require (token.kind = kind) .otherKind
  cut source token.span

/-- Resolves escapes, of which there has to be one. -/
def unescape (body : String) : Checked String := do
  let value := String.ofList (Token.unescape body.toList)
  require (value.utf8ByteSize < body.utf8ByteSize) .notShortened
  return value

/-- The value of a string literal, which has escapes or not. -/
def stringOf (source : String) (escaped : Bool) (token : Token) : Checked String := do
  require (token.kind = .string escaped) .otherKind
  let body ← cut source (← inner token.span)
  if escaped then unescape body else return body

end Checked

/-! Places in a source whose lines and columns can be counted. -/

/-- The most bytes that a source may have for every line and column to fit its width. -/
def maxSourceBytes : Nat := 0xFFFFFFFE

theorem length_le_utf8Len (text : List Char) : text.length ≤ String.utf8Len text := by
  induction text with
  | nil => exact Nat.le_refl _
  | cons c text induction =>
      have size := c.utf8Size_pos
      rw [List.length_cons, String.utf8Len_cons]
      omega

theorem Cursor.column_after (cursor : Cursor) (text : List Char) :
    (cursor.after text).pos.column ≤ max cursor.pos.column 1 + text.length := by
  induction text generalizing cursor with
  | nil => exact Nat.le_max_left _ _
  | cons c text induction =>
      have rest := induction (cursor.next c)
      have first : (cursor.next c).pos.column ≤ max cursor.pos.column 1 + 1 := by
        rw [next, Position.next]
        split
        · exact Nat.le_add_left _ _
        · exact Nat.add_le_add_right (Nat.le_max_left _ _) 1
      rw [after_cons, List.length_cons]
      omega

theorem splitBytes?_go_append (taken text rest : List Char) :
    splitBytes?.go (String.utf8Len text) taken (text ++ rest) =
      some (taken.reverse ++ text, rest) := by
  induction text generalizing taken with
  | nil => simp [splitBytes?.go]
  | cons c text induction =>
      obtain ⟨count, size⟩ := Nat.exists_eq_add_of_lt c.utf8Size_pos
      have length : String.utf8Len (c :: text) = (String.utf8Len text + count) + 1 := by
        rw [String.utf8Len_cons, size]
        omega
      have left : String.utf8Len text + count + 1 - c.utf8Size = String.utf8Len text := by omega
      rw [length, List.cons_append, splitBytes?.go, if_pos (by omega), left, induction]
      simp

theorem splitBytes?_append (text rest : List Char) :
    splitBytes? (String.utf8Len text) (text ++ rest) = some (text, rest) :=
  splitBytes?_go_append [] text rest

/-- The bounds of a text that stands behind another one. -/
theorem Span.ofBounds_after {before text : List Char}
    (fits : String.utf8Len (before ++ text) ≤ maxSourceBytes) :
    ofBounds (Cursor.start.after before).offset (Cursor.start.after (before ++ text)).offset =
      ⟨String.utf8Len before, String.utf8Len text⟩ := by
  rw [String.utf8Len_append, maxSourceBytes] at fits
  have start (text : List Char) : (Cursor.start.after text).offset = String.utf8Len text :=
    (Cursor.offset_after _ _).trans (Nat.zero_add _)
  rw [start, start, String.utf8Len_append, ofBounds, Nat.add_sub_cancel_left,
    Nat.min_eq_left (by rw [maxLen]; omega)]

/-- A span holds the text that stands behind as many bytes as it says. -/
theorem Span.slice?_of_parts {source : String} {before text after : List Char}
    (parts : source.toList = before ++ (text ++ after)) :
    slice? ⟨String.utf8Len before, String.utf8Len text⟩ source = some (String.ofList text) := by
  simp [slice?, parts, splitBytes?_append]

namespace Checked

section

variable {before text after : List Char}

theorem nextCursor_after {c : Char} (fits : String.utf8Len (before ++ c :: after) ≤ maxSourceBytes) :
    nextCursor (Cursor.start.after before) c = .ok (Cursor.start.after (before ++ [c])) := by
  have length := length_le_utf8Len before
  have size := c.utf8Size_pos
  have column := Cursor.column_after .start before
  have line := Cursor.line_after .start before
  have lines := List.count_le_length (a := '\n') (l := before)
  have offset := Cursor.offset_after .start before
  have start : Cursor.start.offset = 0 ∧ Cursor.start.pos.line = 1 ∧ Cursor.start.pos.column = 1 :=
    ⟨rfl, rfl, rfl⟩
  rw [String.utf8Len_append, String.utf8Len_cons, maxSourceBytes] at fits
  have moved : nextPos (Cursor.start.after before).pos c =
      .ok ((Cursor.start.after before).pos.next c) := by
    rw [nextPos, Position.next]
    split
    · rw [add_of_le (by rw [maxCount]; omega)]
      rfl
    · rw [add_of_le (by rw [maxCount]; omega)]
      rfl
  rw [nextCursor, add_of_le (by rw [Span.maxOffset]; omega), moved, Cursor.after_append]
  rfl

theorem spanOf_after (before text : List Char) :
    spanOf (Cursor.start.after before).offset (Cursor.start.after (before ++ text)).offset =
      .ok (.ofBounds (Cursor.start.after before).offset
        (Cursor.start.after (before ++ text)).offset) := by
  rw [Cursor.after_append, Cursor.offset_after _ text, spanOf, require_of (Nat.le_add_right _ _)]
  rfl

theorem upperEnd_of_le {span : Span} (fits : span.lo + span.len ≤ maxSourceBytes) :
    upperEnd span = .ok (span.lo + span.len) :=
  add_of_le (fits.trans (by decide))

/-- A span between two places of the source holds what stands between them. -/
theorem cut_after {source : String} (parts : source.toList = before ++ (text ++ after))
    (fits : source.utf8ByteSize ≤ maxSourceBytes) :
    cut source (.ofBounds (Cursor.start.after before).offset
      (Cursor.start.after (before ++ text)).offset) = .ok (String.ofList text) := by
  have front : String.utf8Len (before ++ text) ≤ maxSourceBytes := by
    rw [← String.utf8Len_toList, parts, ← List.append_assoc, String.utf8Len_append] at fits
    exact (Nat.le_add_right _ _).trans fits
  rw [Span.ofBounds_after front, cut, upperEnd_of_le (String.utf8Len_append before text ▸ front),
    ok_bind, Span.slice?_of_parts parts]
  rfl

end

/-- Without its first and last byte, a span starts one byte later and is two bytes shorter. -/
theorem inner_of_le {lo len : Nat} (fits : lo + (len + 2) ≤ maxSourceBytes) :
    inner ⟨lo, len + 2⟩ = .ok ⟨lo + 1, len⟩ := by
  have moved (offset : Nat) (delta : Int) (small : (offset + delta).toNat ≤ maxSourceBytes) :
      Span.move offset delta = (offset + delta).toNat :=
    Nat.min_eq_left (small.trans (by decide))
  have lower : Span.move lo 1 = lo + 1 := by
    rw [moved _ _ (by omega)]
    omega
  have upper : Span.move (lo + (len + 2)) (-1) = lo + 1 + len := by
    rw [moved _ _ (by omega)]
    omega
  have ended : upperEnd ⟨lo, len + 2⟩ = .ok (lo + (len + 2)) := upperEnd_of_le fits
  have ordered : lo + 1 ≤ lo + 1 + len := Nat.le_add_right _ _
  have short : len ≤ Span.maxLen := by
    rw [maxSourceBytes] at fits
    rw [Span.maxLen]
    omega
  rw [inner, ended, ok_bind, lower, upper, Nat.max_eq_left ordered, spanOf, require_of ordered,
    ok_bind, Span.ofBounds, Nat.add_sub_cancel_left, Nat.min_eq_left short]
  rfl

end Checked

end Covenant
