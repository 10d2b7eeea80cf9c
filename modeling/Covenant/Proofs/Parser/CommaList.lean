import Covenant.Proofs.Parser.Reading

/-! Comma lists. The items are given as parts, each with the tokens it is written with and its
value, so that any relation between the two can be carried along. -/

namespace Covenant

/-- Segments with commas between them, and perhaps one after the last. Also given is whether there
is a comma at all. -/
inductive Joined : List (List Token) → Bool → List Token → Prop where
  | nil : Joined [] false []
  | last (segment : List Token) : Joined [segment] false segment
  | cons {comma : Token} (segment : List Token) {segments : List (List Token)} {more : Bool}
      {rest : List Token} :
      comma.kind = .symbol .comma → Joined segments more rest →
        Joined (segment :: segments) true (segment ++ comma :: rest)

theorem Joined.eq_singleton {segments : List (List Token)} {tokens : List Token}
    (joined : Joined segments false tokens) (nonempty : segments ≠ []) : segments = [tokens] := by
  cases joined with
  | nil => exact (nonempty rfl).elim
  | last => rfl

theorem Joined.length_le {segments : List (List Token)} {comma : Bool} {tokens segment : List Token}
    (joined : Joined segments comma tokens) (member : segment ∈ segments) :
    segment.length ≤ tokens.length := by
  induction joined with
  | nil => cases member
  | last => simp_all
  | cons first isComma joined induction =>
      rw [List.length_append, List.length_cons]
      rcases List.mem_cons.1 member with rfl | member
      · omega
      · have := induction member
        omega

theorem Joined.subset {segments : List (List Token)} {comma : Bool} {tokens segment : List Token}
    (joined : Joined segments comma tokens) (member : segment ∈ segments) : segment ⊆ tokens := by
  induction joined with
  | nil => cases member
  | last => simp_all
  | cons first isComma joined induction =>
      rcases List.mem_cons.1 member with rfl | member
      · exact List.subset_append_left _ _
      · exact fun token isToken => by simp [induction member isToken]

namespace Parser

variable {α Part : Type} {tokens : Part → List Token} {value : Part → α} {closing : Token.Kind}
  {item : Parser α}

theorem progressive_commaRound (reads : Reads item fun _ _ => True) :
    Progressive (commaRound closing item) := by
  refine fun list => (reads_atEnd closing).bind fun _ ended _ => ?_
  cases ended with
  | true => exact .pure trivial
  | false =>
      refine reads.bind fun front _ _ => ?_
      exact reads_take_bind (by simp) (fun comma _ => .pure (by simp [Round])) (.pure trivial)

/-- The parts of a comma list with these items. -/
def Listed (Holds : Part → Prop) (tokens : Part → List Token) (value : Part → α)
    (passed : List Token) (list : List α × Bool) : Prop :=
  ∃ parts : List Part, (∀ part ∈ parts, Holds part) ∧ list.1 = parts.map value ∧
    Joined (parts.map tokens) list.2 passed

/-- The parts of the front of a comma list, up to a comma. Any list may still follow. -/
def ListedSoFar (Holds : Part → Prop) (tokens : Part → List Token) (value : Part → α)
    (passed : List Token) (list : List α × Bool) : Prop :=
  ∃ parts : List Part, (∀ part ∈ parts, Holds part) ∧ list.1.reverse = parts.map value ∧
    ∀ segments more rest, Joined segments more rest →
      Joined (parts.map tokens ++ segments) (list.2 || more) (passed ++ rest)

section

variable {Holds : Part → Prop}

theorem ListedSoFar.listed {passed : List Token} {list : List α × Bool}
    (soFar : ListedSoFar Holds tokens value passed list) :
    Listed Holds tokens value passed (list.1.reverse, list.2) := by
  obtain ⟨parts, holds, values, extend⟩ := soFar
  exact ⟨parts, holds, values, by simpa using extend [] false [] .nil⟩

variable (reads : Reads item fun passed result =>
  ∃ part, Holds part ∧ passed = tokens part ∧ result = value part)

include reads

theorem reads_commaRound {before : List Token} {list : List α × Bool}
    (soFar : ListedSoFar Holds tokens value before list) :
    Reads (commaRound closing item list) fun passed =>
      Round (fun passed list => Listed Holds tokens value passed (list.1.reverse, list.2))
        (ListedSoFar Holds tokens value) (before ++ passed) := by
  refine (reads_atEnd closing).bind fun _ ended nothing => ?_
  subst nothing
  cases ended with
  | true => exact .pure (by simpa [Round] using soFar.listed)
  | false =>
      obtain ⟨parts, holds, values, extend⟩ := soFar
      refine reads.bind fun front result isPart => ?_
      obtain ⟨part, partHolds, rfl, rfl⟩ := isPart
      have allHold : ∀ other ∈ parts ++ [part], Holds other := by
        simpa [or_imp, forall_and] using ⟨holds, partHolds⟩
      refine reads_take_bind (by simp) (fun comma isComma => .pure ?_) (.pure ?_)
      · refine ⟨parts ++ [part], allHold, by simp [values], fun segments more rest joined => ?_⟩
        simpa using extend _ true _ (.cons (tokens part) isComma joined)
      · refine ⟨parts ++ [part], allHold, by simp [values], ?_⟩
        simpa using extend _ false _ (.last (tokens part))

theorem reads_commaList : Reads (commaList closing item) (Listed Holds tokens value) := by
  have start : ListedSoFar Holds tokens value [] ([], false) :=
    ⟨[], by simp, rfl, fun _ _ _ joined => joined⟩
  have rounds : Reads (iterate (commaRound closing item) ([], false)) fun passed list =>
      Listed Holds tokens value passed (list.1.reverse, list.2) :=
    .iterate (fun _ _ => reads_commaRound reads) start
  exact rounds.bind fun front list listed => .pure (by simpa using listed)

theorem reads_closedList {closing : Symbol} : Reads (closedList closing item) fun passed list =>
    ∃ inner, ∃ close : Token, Listed Holds tokens value inner list ∧
      close.kind = .symbol closing ∧ passed = inner ++ [close] := by
  refine (reads_commaList reads).bind fun inner list listed => ?_
  refine (reads_consume (by simp)).bind fun _ close ⟨passed, isClose⟩ => ?_
  exact .pure ⟨inner, close, listed, isClose, by simp [passed]⟩

end

/-- An item is read wherever a comma or the closing token follows it. -/
structure Parses (closing : Token.Kind) (item : Parser α) (depth : Nat) (tokens : List Token)
    (value : α) : Prop where
  starts : ∃ first rest, tokens = first :: rest ∧ first.kind ≠ .eof ∧ first.kind ≠ closing
  succeeds : ∀ next rest, next.kind = .symbol .comma ∨ next.kind = closing →
    item ⟨tokens ++ next :: rest, depth⟩ = .ok value ⟨next :: rest, depth⟩

namespace Parses

variable {depth : Nat} {segment : List Token} {result : α} {next : Token} {rest : List Token}

theorem commaRound_eq (parses : Parses closing item depth segment result) (list : List α × Bool)
    (follows : next.kind = .symbol .comma ∨ next.kind = closing) :
    commaRound closing item list ⟨segment ++ next :: rest, depth⟩ =
      (do if ← take (.symbol .comma) then return .yield (result :: list.1, true)
          else return .done (result :: list.1, list.2) : Parser _) ⟨next :: rest, depth⟩ := by
  obtain ⟨first, more, rfl, going, other⟩ := parses.starts
  have notEnded : atEnd closing ⟨first :: more ++ next :: rest, depth⟩ =
      .ok false ⟨first :: more ++ next :: rest, depth⟩ := by
    rw [List.cons_append, atEnd_cons]
    simp [going, other]
  rw [commaRound, bind_of_ok notEnded]
  exact bind_of_ok (parses.succeeds next rest follows) _

theorem commaRound_yields (parses : Parses closing item depth segment result)
    (list : List α × Bool) (isComma : next.kind = .symbol .comma) :
    commaRound closing item list ⟨segment ++ next :: rest, depth⟩ =
      .ok (.yield (result :: list.1, true)) ⟨rest, depth⟩ := by
  rw [parses.commaRound_eq list (.inl isComma), bind_of_ok (take_cons isComma (by simp))]
  rfl

theorem commaRound_ends (parses : Parses closing item depth segment result)
    (list : List α × Bool) (isClose : next.kind = closing) (notComma : closing ≠ .symbol .comma) :
    commaRound closing item list ⟨segment ++ next :: rest, depth⟩ =
      .ok (.done (result :: list.1, list.2)) ⟨next :: rest, depth⟩ := by
  rw [parses.commaRound_eq list (.inr isClose), bind_of_ok (take_cons_of_ne (isClose ▸ notComma))]
  rfl

end Parses

section

variable {depth : Nat} {close : Token} {rest inner : List Token} {comma : Bool} {parts : List Part}
  (reads : Reads item fun _ _ => True) (isClose : close.kind = closing)
  (notComma : closing ≠ .symbol .comma)

include reads isClose notComma

theorem iterate_commaRound_eq (joined : Joined (parts.map tokens) comma inner)
    (parses : ∀ part ∈ parts, Parses closing item depth (tokens part) (value part))
    (list : List α × Bool) :
    iterate (commaRound closing item) list ⟨inner ++ close :: rest, depth⟩ =
      .ok ((parts.map value).reverse ++ list.1, list.2 || comma) ⟨close :: rest, depth⟩ := by
  have progressive : Progressive (commaRound closing item) := progressive_commaRound reads
  -- The rounds follow the segments, so the induction is on how these are joined.
  generalize written : parts.map tokens = segments at joined
  induction joined generalizing parts list with
  | nil =>
      obtain rfl := List.map_eq_nil_iff.1 written
      have ended : atEnd closing ⟨close :: rest, depth⟩ = .ok true ⟨close :: rest, depth⟩ := by
        rw [atEnd_cons]
        simp [isClose]
      refine (progressive.iterate_of_done (bind_of_ok ended _)).trans ?_
      simp
  | last segment =>
      obtain ⟨part, rfl, rfl⟩ := List.map_eq_singleton_iff.1 written
      rw [progressive.iterate_of_done
        ((parses part (by simp)).commaRound_ends list isClose notComma)]
      simp
  | cons segment isComma joined induction =>
      obtain ⟨part, others, rfl, rfl, othersWritten⟩ := List.map_eq_cons_iff.1 written
      rw [List.append_assoc, List.cons_append, progressive.iterate_of_yield
        ((parses part (by simp)).commaRound_yields list isComma),
        induction (fun other member => parses other (by simp [member])) _ othersWritten]
      simp

theorem commaList_eq (joined : Joined (parts.map tokens) comma inner)
    (parses : ∀ part ∈ parts, Parses closing item depth (tokens part) (value part)) :
    commaList closing item ⟨inner ++ close :: rest, depth⟩ =
      .ok (parts.map value, comma) ⟨close :: rest, depth⟩ := by
  rw [commaList, bind_of_ok (iterate_commaRound_eq reads isClose notComma joined parses _)]
  simp [pure, EStateM.pure]

end

theorem closedList_eq {closing : Symbol} {depth : Nat} {close : Token} {rest inner : List Token}
    {comma : Bool} {parts : List Part} (reads : Reads item fun _ _ => True)
    (isClose : close.kind = .symbol closing) (notComma : closing ≠ .comma)
    (joined : Joined (parts.map tokens) comma inner)
    (parses : ∀ part ∈ parts, Parses (.symbol closing) item depth (tokens part) (value part)) :
    closedList closing item ⟨inner ++ close :: rest, depth⟩ =
      .ok (parts.map value, comma) ⟨rest, depth⟩ := by
  rw [closedList, bind_of_ok (commaList_eq reads isClose (by simpa using notComma) joined parses),
    bind_of_ok (consume_cons isClose (by simp))]
  rfl

end Parser

end Covenant
