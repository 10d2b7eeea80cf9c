import Covenant.Parser.Basic

/-! What successful routines have read. A routine `Reads` a relation if the tokens it has passed,
none of which ends the input, always stand in this relation to its value. -/

namespace Covenant.Parser

variable {α β : Type}

theorem bind_eq_ok_iff {first : Parser α} {next : α → Parser β} {state after : State} {value : β} :
    (first >>= next) state = .ok value after ↔
      ∃ middle between, first state = .ok middle between ∧
        next middle between = .ok value after := by
  change EStateM.bind first next state = .ok value after ↔ _
  rw [EStateM.bind]
  cases first state with
  | ok middle between =>
      constructor
      · exact fun finished => ⟨middle, between, rfl, finished⟩
      · rintro ⟨_, _, ⟨⟩, finished⟩
        exact finished
  | error error between => simp

theorem bind_of_ok {first : Parser α} {state between : State} {middle : α}
    (succeeds : first state = .ok middle between) (next : α → Parser β) :
    (first >>= next) state = next middle between := by
  change EStateM.bind first next state = _
  rw [EStateM.bind, succeeds]

theorem bind_of_error {first : Parser α} {state after : State} {error : CompileError}
    (failed : first state = .error error after) (next : α → Parser β) :
    (first >>= next) state = .error error after := by
  change EStateM.bind first next state = _
  rw [EStateM.bind, failed]

/-! Steps where the next token is known. -/

section

variable {token : Token} {rest : List Token} {depth : Nat} {kind : Token.Kind}

theorem peek_cons : peek ⟨token :: rest, depth⟩ = .ok token ⟨token :: rest, depth⟩ := rfl

theorem advance_cons (going : token.kind ≠ .eof) :
    advance ⟨token :: rest, depth⟩ = .ok token ⟨rest, depth⟩ :=
  if_neg going

theorem take_cons (same : token.kind = kind) (going : kind ≠ .eof) :
    take kind ⟨token :: rest, depth⟩ = .ok true ⟨rest, depth⟩ := by
  rw [take, bind_of_ok peek_cons, if_pos same, bind_of_ok (advance_cons (same ▸ going))]
  rfl

theorem take_cons_of_ne (other : token.kind ≠ kind) :
    take kind ⟨token :: rest, depth⟩ = .ok false ⟨token :: rest, depth⟩ := by
  rw [take, bind_of_ok peek_cons, if_neg other]
  rfl

theorem consume_cons (same : token.kind = kind) (going : kind ≠ .eof) :
    consume kind ⟨token :: rest, depth⟩ = .ok token ⟨rest, depth⟩ := by
  rw [consume, bind_of_ok peek_cons, if_pos same, advance_cons (same ▸ going)]

theorem atEnd_cons (closing : Token.Kind) :
    atEnd closing ⟨token :: rest, depth⟩ =
      .ok (decide (token.kind = .eof) || decide (token.kind = closing)) ⟨token :: rest, depth⟩ :=
  rfl

theorem descend_of_lt {limit : Nat} (room : depth < limit) :
    descend limit ⟨rest, depth⟩ = .ok () ⟨rest, depth + 1⟩ :=
  if_neg (by simpa using room)

theorem descend_of_le {limit : Nat} (full : limit ≤ depth) :
    descend limit ⟨rest, depth⟩ = .error (.resource (.nestingTooDeep limit)) ⟨rest, depth⟩ :=
  if_pos full

theorem nested_of_le {limit : Nat} (full : limit ≤ depth) (routine : Parser α) :
    nested limit routine ⟨rest, depth⟩ =
      .error (.resource (.nestingTooDeep limit)) ⟨rest, depth⟩ := by
  rw [nested, descend_of_le full]

theorem nested_of_lt {limit : Nat} (room : depth < limit) (routine : Parser α) :
    nested limit routine ⟨rest, depth⟩ =
      match routine ⟨rest, depth + 1⟩ with
      | .ok value state => .ok value state.ascend
      | .error error state => .error error state.ascend := by
  cases ran : routine ⟨rest, depth + 1⟩ <;> simp only [nested, descend_of_lt room, ran]

theorem nested_of_ok {limit : Nat} {routine : Parser α} {value : α} {after : List Token}
    (room : depth < limit) (succeeds : routine ⟨rest, depth + 1⟩ = .ok value ⟨after, depth + 1⟩) :
    nested limit routine ⟨rest, depth⟩ = .ok value ⟨after, depth⟩ := by
  rw [nested_of_lt room, succeeds]
  rfl

end

/-- The outcome of a routine with all levels above `depth` closed. -/
def closed (depth : Nat) :
    EStateM.Result CompileError State α → EStateM.Result CompileError State α
  | .ok value after => .ok value { after with depth := depth }
  | .error error after => .error error after

theorem levelled_eq (routine : Parser α) (state : State) :
    levelled routine state = closed state.depth (routine state) := by
  rw [levelled]
  cases routine state <;> rfl

def Reads (routine : Parser α) (Result : List Token → α → Prop) : Prop :=
  ∀ ⦃state : State⦄ ⦃value : α⦄ ⦃after : State⦄, routine state = .ok value after →
    ∃ passed, state.rest = passed ++ after.rest ∧ (∀ token ∈ passed, token.kind ≠ .eof) ∧
      Result passed value

/-- Reading that starts where `next` comes first. -/
def ReadsAt (next : Token) (routine : Parser α) (Result : List Token → α → Prop) : Prop :=
  ∀ ⦃state : State⦄ ⦃value : α⦄ ⦃after : State⦄, state.next = next →
    routine state = .ok value after →
      ∃ passed, state.rest = passed ++ after.rest ∧ (∀ token ∈ passed, token.kind ≠ .eof) ∧
        Result passed value

theorem State.rest_of_next {state : State} (more : state.next.kind ≠ .eof) :
    state.rest = state.next :: state.rest.tail := by
  cases shape : state.rest with
  | nil => simp [State.next, shape, Token.endOfInput] at more
  | cons token rest => simp [State.next, shape]

namespace Reads

variable {Result : List Token → α → Prop} {After : List Token → β → Prop}

theorem mono {Weaker : List Token → α → Prop} {routine : Parser α} (reads : Reads routine Result)
    (weaken : ∀ passed value, Result passed value → Weaker passed value) :
    Reads routine Weaker := by
  intro state value after succeeds
  obtain ⟨passed, split, going, result⟩ := reads succeeds
  exact ⟨passed, split, going, weaken passed value result⟩

theorem pure {value : α} (result : Result [] value) : Reads (pure value) Result := by
  intro state other after succeeds
  cases succeeds
  exact ⟨[], rfl, by simp, result⟩

theorem throw (error : CompileError) : Reads (throw error) Result := by
  intro state value after succeeds
  cases succeeds

theorem peek_bind {next : Token → Parser β}
    (continues : ∀ token, ReadsAt token (next token) After) : Reads (peek >>= next) After := by
  intro state value after succeeds
  obtain ⟨token, between, started, finished⟩ := bind_eq_ok_iff.1 succeeds
  cases started
  exact continues state.next rfl finished

theorem levelled {routine : Parser α} (reads : Reads routine Result) :
    Reads (Parser.levelled routine) Result := by
  intro state value after succeeds
  simp only [Parser.levelled] at succeeds
  split at succeeds
  · next ended =>
      cases succeeds
      have passed := reads ended
      exact passed
  · cases succeeds

end Reads

namespace ReadsAt

variable {Result : List Token → α → Prop} {After : List Token → β → Prop} {token : Token}

theorem of_reads {routine : Parser α} (reads : Reads routine Result) :
    ReadsAt token routine Result :=
  fun _ _ _ _ succeeds => reads succeeds

theorem advance_bind {next : Token → Parser β} (more : token.kind ≠ .eof)
    (continues : Reads (next token) fun back value => After (token :: back) value) :
    ReadsAt token (advance >>= next) After := by
  intro state value after first succeeds
  obtain ⟨passed, between, started, finished⟩ := bind_eq_ok_iff.1 succeeds
  rw [advance, first, if_neg more] at started
  cases started
  obtain ⟨back, split, going, result⟩ := continues finished
  refine ⟨token :: back, ?_, List.forall_mem_cons.2 ⟨more, going⟩, result⟩
  rw [State.rest_of_next (first ▸ more), first, List.cons_append]
  exact congrArg (token :: ·) split

theorem nested {limit : Nat} {routine : Parser α} (reads : ReadsAt token routine Result) :
    ReadsAt token (Parser.nested limit routine) Result := by
  intro state value after first succeeds
  obtain ⟨rest, depth⟩ := state
  rcases Nat.lt_or_ge depth limit with room | full
  · rw [nested_of_lt room] at succeeds
    split at succeeds
    · next ended =>
        cases succeeds
        have passed := @reads ⟨rest, depth + 1⟩ _ _ first ended
        exact passed
    · cases succeeds
  · rw [nested_of_le full] at succeeds
    cases succeeds

theorem bind {Middle : List Token → α → Prop} {routine : Parser α} {next : α → Parser β}
    (reads : ReadsAt token routine Middle)
    (continues : ∀ front middle, Middle front middle →
      Reads (next middle) fun back value => After (front ++ back) value) :
    ReadsAt token (routine >>= next) After := by
  intro state value after first succeeds
  obtain ⟨middle, between, started, finished⟩ := bind_eq_ok_iff.1 succeeds
  obtain ⟨front, frontSplit, frontGoing, result⟩ := reads first started
  obtain ⟨back, backSplit, backGoing, whole⟩ := continues front middle result finished
  refine ⟨front ++ back, by simp [frontSplit, backSplit], ?_, whole⟩
  exact List.forall_mem_append.2 ⟨frontGoing, backGoing⟩

/-- A routine that passes tokens passes the one that comes first. -/
theorem of_passes {routine : Parser α} (reads : Reads routine Result)
    (passes : ∀ passed value, Result passed value → passed ≠ []) :
    ReadsAt token routine fun passed value =>
      ∃ others, passed = token :: others ∧ Result passed value := by
  intro state value after first succeeds
  obtain ⟨passed, split, going, result⟩ := reads succeeds
  refine ⟨passed, split, going, ?_⟩
  cases passed with
  | nil => exact (passes [] value result rfl).elim
  | cons next others =>
      rw [State.next, split] at first
      obtain rfl : next = token := first
      exact ⟨others, rfl, result⟩

theorem descend_bind {limit : Nat} {next : Unit → Parser β}
    (continues : ReadsAt token (next ()) After) :
    ReadsAt token (descend limit >>= next) After := by
  intro state value after first succeeds
  obtain ⟨_, between, started, finished⟩ := bind_eq_ok_iff.1 succeeds
  rw [descend] at started
  split at started
  · cases started
  · cases started
    exact @continues ⟨state.rest, state.depth + 1⟩ _ _ first finished

end ReadsAt

namespace Reads

variable {Result : List Token → α → Prop} {After : List Token → β → Prop}

theorem bind {Middle : List Token → α → Prop} {first : Parser α} {next : α → Parser β}
    (reads : Reads first Middle)
    (continues : ∀ front middle, Middle front middle →
      Reads (next middle) fun back value => After (front ++ back) value) :
    Reads (first >>= next) After :=
  fun _ _ _ succeeds => ReadsAt.bind (.of_reads reads) continues rfl succeeds

theorem nested {limit : Nat} {routine : Parser α} (reads : Reads routine Result) :
    Reads (Parser.nested limit routine) Result :=
  fun _ _ _ succeeds => ReadsAt.nested (.of_reads reads) rfl succeeds

theorem descend_bind {limit : Nat} {next : Unit → Parser β} (reads : Reads (next ()) After) :
    Reads (descend limit >>= next) After :=
  fun _ _ _ succeeds => ReadsAt.descend_bind (.of_reads reads) rfl succeeds

end Reads

theorem reads_advance : Reads advance fun passed token =>
    token.kind ≠ .eof → passed = [token] := by
  intro state value after succeeds
  rw [advance] at succeeds
  split at succeeds
  · next ended => cases succeeds; exact ⟨[], rfl, by simp, fun more => (more ended).elim⟩
  · next more =>
      cases succeeds
      exact ⟨[state.next], State.rest_of_next more, by simpa using more, fun _ => rfl⟩

theorem reads_atEnd (closing : Token.Kind) : Reads (atEnd closing) fun passed _ => passed = [] :=
  .peek_bind fun _ => .of_reads (.pure rfl)

theorem reads_take_bind {kind : Token.Kind} {next : Bool → Parser β}
    {After : List Token → β → Prop} (going : kind ≠ .eof)
    (taken : ∀ token : Token, token.kind = kind →
      Reads (next true) fun back value => After (token :: back) value)
    (left : Reads (next false) After) : Reads (take kind >>= next) After := by
  rw [take, bind_assoc]
  refine .peek_bind fun token => ?_
  by_cases same : token.kind = kind
  · simp only [if_pos same, bind_assoc, pure_bind]
    exact .advance_bind (same ▸ going) (taken token same)
  · simp only [if_neg same, pure_bind]
    exact .of_reads left

theorem reads_consume {kind : Token.Kind} (going : kind ≠ .eof) :
    Reads (consume kind) fun passed token => passed = [token] ∧ token.kind = kind := by
  refine .peek_bind fun token => ?_
  by_cases same : token.kind = kind
  · rw [if_pos same]
    intro state value after first succeeds
    rw [advance, first, if_neg (same ▸ going)] at succeeds
    cases succeeds
    have more : state.next.kind ≠ .eof := first ▸ same ▸ going
    exact ⟨[token], first ▸ State.rest_of_next more, by simpa [first] using more, rfl, same⟩
  · rw [if_neg same]
    exact .of_reads (.throw _)

theorem kind_of_consume {kind : Token.Kind} {state after : State} {token : Token}
    (succeeds : consume kind state = .ok token after) : state.next.kind = kind := by
  obtain ⟨next, between, peeked, consumed⟩ := bind_eq_ok_iff.1 succeeds
  cases peeked
  by_cases same : state.next.kind = kind
  · exact same
  · rw [if_neg same] at consumed
    cases consumed

theorem reads_isWord_bind {word : String} {next : Bool → Parser β}
    {After : List Token → β → Prop}
    (found : ∀ token : Token, token.kind = .identifier → token.text = word →
      ReadsAt token (next true) After)
    (other : ∀ token : Token, (token.kind = .identifier → token.text ≠ word) →
      ReadsAt token (next false) After) :
    Reads (isWord word >>= next) After := by
  rw [isWord, bind_assoc]
  refine .peek_bind fun token => ?_
  rw [pure_bind]
  by_cases isWord : token.kind = .identifier ∧ token.text = word
  · rw [show (token.kind = .identifier && token.text == word) = true by simp [isWord]]
    exact found token isWord.1 isWord.2
  · rw [show (token.kind = .identifier && token.text == word) = false by simpa using isWord]
    exact other token fun isIdent isText => isWord ⟨isIdent, isText⟩

theorem reads_takeWord_bind {word : String} {next : Bool → Parser β}
    {After : List Token → β → Prop}
    (taken : ∀ token : Token, token.kind = .identifier → token.text = word →
      Reads (next true) fun back value => After (token :: back) value)
    (left : Reads (next false) After) : Reads (takeWord word >>= next) After := by
  rw [takeWord, bind_assoc]
  refine reads_isWord_bind (fun token isIdent isText => ?_) fun token _ => ?_
  · simp only [if_true, bind_assoc, pure_bind]
    exact .advance_bind (by simp [isIdent]) (taken token isIdent isText)
  · exact .of_reads left

theorem reads_ident : Reads ident fun passed name =>
    ∃ token : Token, passed = [token] ∧ token.kind = .identifier ∧
      name = ⟨token.text, token.pos⟩ := by
  refine (reads_consume (by simp)).bind fun front token => ?_
  rintro ⟨rfl, isIdent⟩
  exact .pure ⟨token, rfl, isIdent, rfl⟩

/-! Repetition. The rounds of a loop can be followed one by one, without the bound on their number,
if every round but the last passes a token. -/

/-- What holds of a loop that gives up at once, and of one round more of a loop if it holds of the
loop, holds of all loops. -/
theorem repeatWithin_induction {step : α → Parser (ForInStep α)} {motive : (α → Parser α) → Prop}
    (endless : motive fun _ => endless)
    (round : ∀ rounds, motive rounds → motive (unrolled step rounds)) (bound : List Token) :
    motive (repeatWithin step bound) := by
  induction bound with
  | nil => exact round _ endless
  | cons token bound induction => exact round _ induction

theorem repeatWithin_of_bind {step : α → Parser (ForInStep α)} {motive : Parser α → Prop}
    (pure : ∀ value, motive (pure value)) (endless : motive endless)
    (bind : ∀ value (next : ForInStep α → Parser α), (∀ result, motive (next result)) →
      motive (step value >>= next)) (bound : List Token) (value : α) :
    motive (repeatWithin step bound value) := by
  refine repeatWithin_induction (motive := fun rounds => ∀ value, motive (rounds value))
    (fun _ => endless) (fun rounds holds value => ?_) bound value
  refine bind value _ fun result => ?_
  cases result with
  | done result => exact pure result
  | yield next => exact holds next

/-- What a round of a loop leads to. -/
def Round (Done Open : List Token → α → Prop) (passed : List Token) : ForInStep α → Prop
  | .done value => Done passed value
  | .yield value => Open passed value

section

variable {step : α → Parser (ForInStep α)} {Done Open : List Token → α → Prop}
  (round : ∀ before value, Open before value →
    Reads (step value) fun passed => Round Done Open (before ++ passed))

include round

theorem reads_repeatWithin (bound : List Token) {before : List Token} {value : α}
    (start : Open before value) :
    Reads (repeatWithin step bound value) fun passed => Done (before ++ passed) := by
  refine repeatWithin_induction (motive := fun rounds => ∀ before value, Open before value →
    Reads (rounds value) fun passed => Done (before ++ passed)) ?_ ?_ bound before value start
  · exact fun _ _ _ => .throw _
  · intro rounds reads before value start
    refine (round before value start).bind fun front result outcome => ?_
    cases result with
    | done result => exact .pure (by simpa [Round] using outcome)
    | yield next => simpa only [List.append_assoc] using reads _ next outcome

theorem Reads.iterate_from {before : List Token} {value : α} (start : Open before value) :
    Reads (iterate step value) fun passed => Done (before ++ passed) :=
  fun state _ _ succeeds => reads_repeatWithin round state.rest start succeeds

theorem Reads.iterate {value : α} (start : Open [] value) : Reads (iterate step value) Done :=
  Reads.iterate_from round start

end

/-- A loop whose rounds, the last one excepted, pass tokens. -/
def Progressive (step : α → Parser (ForInStep α)) : Prop :=
  ∀ value, Reads (step value) (Round (fun _ _ => True) fun passed _ => passed ≠ [])

namespace Progressive

variable {step : α → Parser (ForInStep α)}

theorem length_lt (progressive : Progressive step) {value next : α} {state after : State}
    (yields : step value state = .ok (.yield next) after) :
    after.rest.length < state.rest.length := by
  obtain ⟨passed, split, _, nonempty⟩ := progressive value yields
  have : 0 < passed.length := List.length_pos_iff.2 nonempty
  rw [split, List.length_append]
  omega

theorem unrolled_congr (progressive : Progressive step) {rounds others : α → Parser α} {value : α}
    {state : State} (same : ∀ next after, after.rest.length < state.rest.length →
      rounds next after = others next after) :
    unrolled step rounds value state = unrolled step others value state := by
  change EStateM.bind _ _ state = EStateM.bind _ _ state
  simp only [EStateM.bind]
  cases stepped : step value state with
  | error error after => rfl
  | ok result after =>
      cases result with
      | done result => rfl
      | yield next => exact same next after (progressive.length_lt stepped)

/-- Any bound that is long enough gives the same loop. -/
theorem repeatWithin_eq (progressive : Progressive step) {bound other : List Token} {value : α}
    {state : State} (long : state.rest.length ≤ bound.length)
    (longToo : state.rest.length ≤ other.length) :
    repeatWithin step bound value state = repeatWithin step other value state := by
  induction bound generalizing other value state with
  | nil =>
      cases other <;> exact progressive.unrolled_congr fun following after shorter =>
        (Nat.not_lt_zero _ (Nat.lt_of_lt_of_le shorter long)).elim
  | cons token bound induction =>
      cases other with
      | nil =>
          refine progressive.unrolled_congr fun following after shorter => ?_
          exact (Nat.not_lt_zero _ (Nat.lt_of_lt_of_le shorter longToo)).elim
      | cons next other =>
          refine progressive.unrolled_congr fun following after shorter => ?_
          simp only [List.length_cons] at long longToo
          exact induction (by omega) (by omega)

theorem iterate_eq (progressive : Progressive step) (value : α) (state : State) :
    iterate step value state = unrolled step (iterate step) value state := by
  rw [iterate]
  cases shape : state.rest with
  | nil =>
      refine progressive.unrolled_congr fun next after shorter => ?_
      simp [shape] at shorter
  | cons token bound =>
      refine progressive.unrolled_congr fun next after shorter => ?_
      rw [shape, List.length_cons] at shorter
      exact progressive.repeatWithin_eq (by omega) (by omega)

theorem iterate_of_done (progressive : Progressive step) {value result : α} {state after : State}
    (ends : step value state = .ok (.done result) after) :
    iterate step value state = .ok result after :=
  (progressive.iterate_eq value state).trans (bind_of_ok ends _)

theorem iterate_of_yield (progressive : Progressive step) {value next : α} {state after : State}
    (yields : step value state = .ok (.yield next) after) :
    iterate step value state = iterate step next after :=
  (progressive.iterate_eq value state).trans (bind_of_ok yields _)

theorem iterate_of_error (progressive : Progressive step) {value : α} {state after : State}
    {error : CompileError} (fails : step value state = .error error after) :
    iterate step value state = .error error after :=
  (progressive.iterate_eq value state).trans (bind_of_error fails _)

end Progressive

theorem progressive_manyRound {closing : Token.Kind} {item : Parser α}
    (passes : Reads item fun passed _ => passed ≠ []) : Progressive (manyRound closing item) := by
  refine fun items => (reads_atEnd closing).bind fun _ ended _ => ?_
  cases ended with
  | true => exact .pure trivial
  | false =>
      refine passes.bind fun front _ nonempty => .pure ?_
      simpa [Round] using fun _ => nonempty

theorem manyRound_of_ne {item : Parser α} {closing : Token.Kind} {items : List α}
    {token : Token} {rest : List Token} {depth : Nat} (going : token.kind ≠ .eof)
    (others : token.kind ≠ closing) :
    manyRound closing item items ⟨token :: rest, depth⟩ =
      (item >>= fun value => pure (.yield (value :: items))) ⟨token :: rest, depth⟩ := by
  rw [manyRound, bind_of_ok (atEnd_cons closing), decide_eq_false going, decide_eq_false others]
  rfl

/-! Whole inputs. -/

theorem consume_eof {state : State} (ended : state.next.kind = .eof) :
    consume .eof state = .ok state.next state := by
  have peeked : peek state = .ok state.next state := rfl
  rw [consume, bind_of_ok peeked, if_pos ended]
  exact if_pos ended

theorem run_eq_ok_iff {routine : Parser α} {tokens : List Token} {value : α} :
    run routine tokens = .ok value ↔ ∃ after, routine ⟨tokens, 0⟩ = .ok value after := by
  rw [run]
  cases routine ⟨tokens, 0⟩ with
  | ok result after => simp
  | error error after => simp

theorem runSource_eq {limits : Limits} {routine : Parser α} {source : String}
    {result : List Token} (short : source.utf8ByteSize ≤ limits.sourceBytes)
    (lexed : Token.lex source = .ok result) :
    runSource limits routine source = run routine result := by
  rw [runSource, tokens, if_neg (Nat.not_lt.2 short), lexed]
  rfl

theorem runSource_eq_ok_iff {limits : Limits} {routine : Parser α} {source : String} {value : α} :
    runSource limits routine source = .ok value ↔
      source.utf8ByteSize ≤ limits.sourceBytes ∧
        ∃ tokens, Token.lex source = .ok tokens ∧
          ∃ after, routine ⟨tokens, 0⟩ = .ok value after := by
  constructor
  · intro succeeds
    rw [runSource, tokens] at succeeds
    split at succeeds
    · cases succeeds
    · next short =>
        cases lexed : Token.lex source with
        | error error =>
            rw [lexed] at succeeds
            cases succeeds
        | ok tokens =>
            rw [lexed] at succeeds
            exact ⟨Nat.not_lt.1 short, tokens, rfl, run_eq_ok_iff.1 succeeds⟩
  · rintro ⟨short, tokens, lexed, ran⟩
    rw [runSource_eq short lexed]
    exact run_eq_ok_iff.2 ran

end Covenant.Parser
