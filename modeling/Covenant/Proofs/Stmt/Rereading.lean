import Covenant.Proofs.Expr.Completeness
import Covenant.Proofs.Expr.Coupling
import Covenant.Proofs.Expr.Printing
import Covenant.Proofs.Lists
import Covenant.Proofs.Program.Reading
import Covenant.Proofs.TypeName.Nesting
import Covenant.Program.Relocate
import Mathlib

/-! The shapes that types and statements are printed with are read as the same types and statements,
with places of their own. A semicolon follows every statement that could go on, so that none takes a
part of the next one. -/

namespace Covenant

open Token (Shape)

namespace Parser

variable {α β : Type}

/-! Lists. -/

section

variable {item : Parser α} {closing : Token.Kind} {Follows : Token.Kind → Prop}
  {shapes : β → List Shape} {value : β → α} {items : List β} {depth : Nat} {close : Token}
  (passes : Reads item fun passed _ => passed ≠ [])
  (starts : ∀ part ∈ items, ∃ first others, shapes part = first :: others ∧
    first.kind ≠ .eof ∧ first.kind ≠ closing ∧ Follows first.kind)
  (reads : ∀ part ∈ items, ∀ next rest, Follows next.kind →
    item ⟨(shapes part).map Shape.token ++ next :: rest, depth⟩ =
      .ok (value part) ⟨next :: rest, depth⟩)
  (isClose : close.kind = closing) (follows : Follows closing)

include passes starts reads isClose follows

theorem iterate_manyRound_eq (before : List α) (rest : List Token) :
    iterate (manyRound closing item) before
        ⟨(items.flatMap shapes).map Shape.token ++ close :: rest, depth⟩ =
      .ok ((items.map value).reverse ++ before) ⟨close :: rest, depth⟩ := by
  have progressive : Progressive (manyRound closing item) := progressive_manyRound passes
  induction items generalizing before with
  | nil =>
      refine progressive.iterate_of_done ?_
      have ended : atEnd closing ⟨close :: rest, depth⟩ = .ok true ⟨close :: rest, depth⟩ := by
        rw [atEnd_cons]
        simp [isClose]
      exact bind_of_ok ended _
  | cons part items induction =>
      obtain ⟨startsFirst, startsRest⟩ := List.forall_mem_cons.1 starts
      obtain ⟨readsFirst, readsRest⟩ := List.forall_mem_cons.1 reads
      -- What follows the first item is either the next one or what closes the list.
      obtain ⟨next, behind, isNext, nextFollows⟩ : ∃ next behind,
          (items.flatMap shapes).map Shape.token ++ close :: rest = next :: behind ∧
            Follows next.kind := by
        cases items with
        | nil => exact ⟨close, rest, rfl, isClose ▸ follows⟩
        | cons part items =>
            obtain ⟨first, others, isFirst, _, _, firstFollows⟩ := startsRest part (by simp)
            rw [List.flatMap_cons, isFirst]
            exact ⟨first.token, _, rfl, firstFollows⟩
      obtain ⟨first, others, isFirst, going, notClosing, _⟩ := startsFirst
      have round : manyRound closing item before
          ⟨(shapes part).map Shape.token ++ next :: behind, depth⟩ =
            .ok (.yield (value part :: before)) ⟨next :: behind, depth⟩ := by
        have read := readsFirst next behind nextFollows
        rw [isFirst, List.map_cons, List.cons_append] at read ⊢
        rw [manyRound_of_ne going notClosing, bind_of_ok read]
        rfl
      rw [List.flatMap_cons, List.map_append, List.append_assoc, isNext,
        progressive.iterate_of_yield round, ← isNext, induction startsRest readsRest]
      simp

theorem many_eq (rest : List Token) :
    many closing item ⟨(items.flatMap shapes).map Shape.token ++ close :: rest, depth⟩ =
      .ok (items.map value) ⟨close :: rest, depth⟩ := by
  rw [many, bind_of_ok (iterate_manyRound_eq passes starts reads isClose follows [] rest)]
  simp [pure, EStateM.pure]

end

/-- Items that are read in the same way whatever follows them. -/
theorem many_eq_of_closed {item : Parser α} {closing : Token.Kind} {shapes : β → List Shape}
    {value : β → α} {items : List β} {depth : Nat} {close : Token}
    (passes : Reads item fun passed _ => passed ≠ [])
    (starts : ∀ part, ∃ first others, shapes part = first :: others ∧
      first.kind ≠ .eof ∧ first.kind ≠ closing)
    (reads : ∀ part ∈ items, ∀ rest, item ⟨(shapes part).map Shape.token ++ rest, depth⟩ =
      .ok (value part) ⟨rest, depth⟩)
    (isClose : close.kind = closing) (rest : List Token) :
    many closing item ⟨(items.flatMap shapes).map Shape.token ++ close :: rest, depth⟩ =
      .ok (items.map value) ⟨close :: rest, depth⟩ := by
  have startsEach : ∀ part ∈ items, ∃ first others, shapes part = first :: others ∧
      first.kind ≠ .eof ∧ first.kind ≠ closing ∧ True := by
    intro part _
    obtain ⟨first, others, isFirst, going, other⟩ := starts part
    exact ⟨first, others, isFirst, going, other, trivial⟩
  have readsEach : ∀ part ∈ items, ∀ next rest, True →
      item ⟨(shapes part).map Shape.token ++ next :: rest, depth⟩ =
        .ok (value part) ⟨next :: rest, depth⟩ :=
    fun part member next rest _ => reads part member (next :: rest)
  exact @many_eq α β item closing (fun _ => True) shapes value items depth close passes startsEach
    readsEach isClose trivial rest

/-! Steps where a printed token comes next. -/

section

variable {rest : List Token} {depth : Nat}

theorem take_sign (symbol : Symbol) :
    take (.symbol symbol) ⟨(Shape.sign symbol).token :: rest, depth⟩ = .ok true ⟨rest, depth⟩ :=
  take_cons rfl (by simp)

theorem take_word (keyword : Keyword) :
    take (.keyword keyword) ⟨(Shape.word keyword).token :: rest, depth⟩ = .ok true ⟨rest, depth⟩ :=
  take_cons rfl (by simp)

theorem consume_sign (symbol : Symbol) :
    consume (.symbol symbol) ⟨(Shape.sign symbol).token :: rest, depth⟩ =
      .ok (Shape.sign symbol).token ⟨rest, depth⟩ :=
  consume_cons rfl (by simp)

theorem consume_word (keyword : Keyword) :
    consume (.keyword keyword) ⟨(Shape.word keyword).token :: rest, depth⟩ =
      .ok (Shape.word keyword).token ⟨rest, depth⟩ :=
  consume_cons rfl (by simp)

theorem ident_name (text : String) :
    ident ⟨(Shape.name text).token :: rest, depth⟩ = .ok ⟨text, .start⟩ ⟨rest, depth⟩ := by
  have consumed : consume .identifier ⟨(Shape.name text).token :: rest, depth⟩ =
      .ok (Shape.name text).token ⟨rest, depth⟩ :=
    consume_cons rfl (by simp)
  exact bind_of_ok consumed _

theorem isWord_name (word text : String) :
    isWord word ⟨(Shape.name text).token :: rest, depth⟩ =
      .ok (text == word) ⟨(Shape.name text).token :: rest, depth⟩ :=
  rfl

theorem takeWord_name (word : String) :
    takeWord word ⟨(Shape.name word).token :: rest, depth⟩ = .ok true ⟨rest, depth⟩ := by
  have advanced : advance ⟨(Shape.name word).token :: rest, depth⟩ =
      .ok (Shape.name word).token ⟨rest, depth⟩ :=
    advance_cons (by simp)
  rw [takeWord, bind_of_ok (isWord_name word word), beq_self_eq_true, if_pos rfl,
    bind_of_ok advanced]
  rfl

end

/-! Expressions. -/

theorem expr_shapes {limit depth : Nat} {tokens : List Token} {value : Expr}
    (derives : Expr.Derives .expr tokens value) (deep : depth + value.shapes.length ≤ limit)
    {next : Token} (ends : EndsExpr next.kind) (rest : List Token) :
    expr limit ⟨value.shapes.map Shape.token ++ next :: rest, depth⟩ =
      .ok value.unplaced ⟨next :: rest, depth⟩ := by
  have room : Room limit limit depth (value.reprint.tokens.length + 1) :=
    ⟨by omega, by simp only [Expr.reprint, List.length_map]; omega⟩
  exact accepts_of_derives derives.reprint room ends

theorem expr_shapes_sign {limit depth : Nat} {tokens : List Token} {value : Expr}
    (derives : Expr.Derives .expr tokens value) (deep : depth + value.shapes.length ≤ limit)
    (sign : Symbol) (isEnd : sign ∈ [.semicolon, .assign, .lbrace]) (rest : List Token) :
    expr limit ⟨value.shapes.map Shape.token ++ (Shape.sign sign).token :: rest, depth⟩ =
      .ok value.unplaced ⟨(Shape.sign sign).token :: rest, depth⟩ := by
  apply expr_shapes derives deep
  simp only [List.mem_cons, List.not_mem_nil, or_false] at isEnd
  rcases isEnd with rfl | rfl | rfl <;>
    exact ⟨⟨by simp [StartsAccess], fun _ _ => rfl⟩, by simp⟩

theorem expr_shapes_name {limit depth : Nat} {tokens : List Token} {value : Expr}
    (derives : Expr.Derives .expr tokens value) (deep : depth + value.shapes.length ≤ limit)
    (name : String) (rest : List Token) :
    expr limit ⟨value.shapes.map Shape.token ++ (Shape.name name).token :: rest, depth⟩ =
      .ok value.unplaced ⟨(Shape.name name).token :: rest, depth⟩ :=
  expr_shapes derives deep ⟨⟨by simp [StartsAccess], fun _ _ => rfl⟩, by simp⟩ rest

theorem starts_shapes {tokens : List Token} {value : Expr}
    (derives : Expr.Derives .expr tokens value) :
    ∃ first others, value.shapes = first :: others ∧ startsExpr first.kind = true := by
  obtain ⟨_, _, printed, starts⟩ := startsExpr_of_derives derives.reprint
  obtain ⟨first, others, isFirst, rfl, _⟩ := List.map_eq_cons_iff.1 printed
  exact ⟨first, others, isFirst, starts⟩

theorem ne_of_startsExpr {kind other : Token.Kind} (starts : startsExpr kind = true)
    (cannot : startsExpr other = false) : kind ≠ other := by
  rintro rfl
  exact Bool.noConfusion (starts.symm.trans cannot)

/-! Types. -/

section

variable {limit depth : Nat} {rest : List Token} {type : TypeName}

theorem bracketsRound_brackets :
    bracketsRound type
        ⟨(Shape.sign .lbracket).token :: (Shape.sign .rbracket).token :: rest, depth⟩ =
      .ok (.yield (.array type)) ⟨rest, depth⟩ := by
  rw [bracketsRound, bind_of_ok (take_sign .lbracket), if_pos rfl,
    bind_of_ok (consume_sign .rbracket)]
  rfl

theorem arrayType_shapes {tokens : List Token} (arrays : TypeName.Arrays tokens type) :
    arrayType ⟨type.shapes.map Shape.token ++ rest, depth⟩ =
      iterate bracketsRound type ⟨rest, depth⟩ := by
  induction arrays generalizing rest with
  | @name name => exact bind_of_ok (ident_name name.text) _
  | brackets _ _ _ induction =>
      rw [TypeName.shapes, List.map_append, List.append_assoc, induction]
      exact progressive_bracketsRound.iterate_of_yield bracketsRound_brackets

theorem isWord_of_arrays {tokens : List Token} (arrays : TypeName.Arrays tokens type) :
    isWord "mapping" ⟨type.shapes.map Shape.token ++ rest, depth⟩ =
      .ok false ⟨type.shapes.map Shape.token ++ rest, depth⟩ := by
  induction arrays generalizing rest with
  | @name name _ other =>
      rw [← beq_eq_false_iff_ne.2 other]
      exact isWord_name "mapping" name.text
  | brackets _ _ _ induction => simpa [TypeName.shapes] using induction

theorem typeWithin_shapes {tokens : List Token} {levels : Nat} {next : Token}
    (derives : TypeName.Derives tokens type) (enough : limit ≤ depth + levels)
    (room : depth + type.mappings ≤ limit) (other : next.kind ≠ .symbol .lbracket) :
    typeWithin limit levels ⟨type.shapes.map Shape.token ++ next :: rest, depth⟩ =
      .ok type ⟨next :: rest, depth⟩ := by
  induction derives generalizing levels depth next rest with
  | @arrays _ type arrays =>
      have done : bracketsRound type ⟨next :: rest, depth⟩ =
          .ok (.done type) ⟨next :: rest, depth⟩ :=
        bind_of_ok (take_cons_of_ne other) _
      have read : arrayType ⟨type.shapes.map Shape.token ++ next :: rest, depth⟩ =
          .ok type ⟨next :: rest, depth⟩ :=
        (arrayType_shapes arrays).trans (progressive_bracketsRound.iterate_of_done done)
      cases levels with
      | zero => exact (bind_of_ok (isWord_of_arrays arrays) _).trans read
      | succ levels => exact (bind_of_ok (isWord_of_arrays arrays) _).trans read
  | @mapping _ _ key _ _ _ value _ _ _ _ _ _ induction =>
      rw [TypeName.mappings] at room
      obtain ⟨levels, rfl⟩ : ∃ inner, levels = inner + 1 := ⟨levels - 1, by omega⟩
      have inner : mappingOf (typeWithin limit levels)
          ⟨(TypeName.mapping key.text value).shapes.map Shape.token ++ next :: rest, depth + 1⟩ =
            .ok (.mapping key.text value) ⟨next :: rest, depth + 1⟩ := by
        have advanced : ∀ rest, advance ⟨(Shape.name "mapping").token :: rest, depth + 1⟩ =
            .ok (Shape.name "mapping").token ⟨rest, depth + 1⟩ :=
          fun _ => advance_cons (by simp)
        have value := @induction (depth + 1) (next :: rest) levels (Shape.sign .rparen).token
          (by omega) (by omega) (by simp)
        simp only [TypeName.shapes, List.map_append, List.map_cons, List.map_nil, List.append_assoc,
          List.cons_append, List.nil_append]
        rw [mappingOf, bind_of_ok (advanced _), bind_of_ok (consume_sign .lparen),
          bind_of_ok (ident_name key.text), bind_of_ok (consume_sign .arrow), bind_of_ok value,
          bind_of_ok (consume_sign .rparen)]
        rfl
      refine (bind_of_ok (isWord_name "mapping" "mapping") _).trans ?_
      exact nested_of_ok (by omega) inner

end

end Parser

/-! Statements. -/

namespace Stmt

def unplaced (stmt : Stmt) : Stmt :=
  stmt.relocate fun _ => .start

/-- A token that the statement before it does not take for a part of itself. -/
structure Follows (kind : Token.Kind) : Prop where
  notElse : kind ≠ .keyword .else_
  notSemicolon : kind ≠ .symbol .semicolon

/-- A printed statement is read wherever another one, or the end of a block, follows. -/
structure Rereads (stmt : Stmt) : Prop where
  starts : ∃ first others, stmt.shapes = first :: others ∧
    first.kind ≠ .eof ∧ first.kind ≠ .symbol .rbrace ∧ Follows first.kind
  succeeds : ∀ ⦃limit levels depth next rest⦄,
    Parser.Room limit levels depth (stmt.shapes.length + 1) → Follows next.kind →
      Parser.stmt limit (Parser.blockWithin limit levels)
          ⟨stmt.shapes.map Shape.token ++ next :: rest, depth⟩ =
        .ok stmt.unplaced ⟨next :: rest, depth⟩

theorem shapes_if (pos : Position) (test : Expr) (yes : List Stmt) (no : Option (List Stmt)) :
    (if_ pos test yes no).shapes = .word .if_ :: (test.shapes ++ (braced (yes.flatMap shapes) ++
      match no with
      | none => []
      | some body => .word .else_ :: braced (body.flatMap shapes))) := by
  cases no <;> simp [shapes]

theorem Step.derives {counter : Token} {tokens : List Token} {value : Expr}
    (step : Step counter tokens value) : ∃ written, Expr.Derives .expr written value := by
  cases step with
  | one =>
      have one : Expr.Derives (.ofRank 7) [⟨.number, "1", .ofBounds 0 0, counter.pos⟩] _ :=
        .number rfl
      exact ⟨_, one.of_le (Nat.zero_le 7)⟩
  | given _ derives => exact ⟨_, derives⟩

theorem Derives.ne_nil {tokens : List Token} {stmt : Stmt} (derives : Derives .stmt tokens [stmt]) :
    tokens ≠ [] := by
  cases derives with
  | simple simple => cases simple <;> simp
  | while_ | for_ => simp
  | branch derives => cases derives <;> simp

end Stmt

namespace Parser

open Stmt (Rereads)

section

variable {limit levels depth : Nat} {rest : List Token}

theorem blockWithin_shapes {body : List Stmt} (rereads : ∀ stmt ∈ body, Rereads stmt)
    (room : Room limit levels depth ((body.flatMap Stmt.shapes).length + 2)) :
    blockWithin limit levels ⟨(Shape.sign .lbrace).token ::
        ((body.flatMap Stmt.shapes).map Shape.token ++ (Shape.sign .rbrace).token :: rest), depth⟩ =
      .ok (body.map Stmt.unplaced) ⟨rest, depth⟩ := by
  obtain ⟨enough, deep⟩ := room
  obtain ⟨levels, rfl⟩ : ∃ inner, levels = inner + 1 := ⟨levels - 1, by omega⟩
  have passes : Reads (stmt limit (blockWithin limit levels)) fun passed _ => passed ≠ [] :=
    (reads_stmt (reads_blockWithin limit levels)).mono fun _ _ derives => derives.ne_nil
  have read : ∀ stmt ∈ body, ∀ next rest, Stmt.Follows next.kind →
      Parser.stmt limit (blockWithin limit levels)
          ⟨stmt.shapes.map Shape.token ++ next :: rest, depth + 1⟩ =
        .ok stmt.unplaced ⟨next :: rest, depth + 1⟩ := by
    intro stmt member next rest follows
    have fits := length_le_flatMap Stmt.shapes member
    exact (rereads stmt member).succeeds ⟨by omega, by omega⟩ follows
  have inner := many_eq passes (fun stmt member => (rereads stmt member).starts) read
    (Shape.kind_sign .rbrace) ⟨by simp, by simp⟩ rest
  rw [blockWithin, blockOf, bind_of_ok (consume_sign .lbrace),
    bind_of_ok (nested_of_ok (by omega) inner), bind_of_ok (consume_sign .rbrace)]
  rfl

theorem stmt_of_ne {block : Parser (List Stmt)} {token : Token} (notIf : token.kind ≠ .keyword .if_)
    (notFor : token.kind ≠ .keyword .for_) :
    stmt limit block ⟨token :: rest, depth⟩ =
      (do let statement ← simpleStmt (expr limit) block
          let _ ← take (.symbol .semicolon)
          return statement : Parser Stmt) ⟨token :: rest, depth⟩ := by
  rw [stmt, bind_of_ok peek_cons]
  apply congrFun
  split
  · contradiction
  · contradiction
  · rfl

theorem simpleStmt_shapes {expr : Parser Expr} {block : Parser (List Stmt)} {tokens : List Token}
    {value : Expr} (derives : Expr.Derives .expr tokens value) :
    simpleStmt expr block ⟨value.shapes.map Shape.token ++ rest, depth⟩ =
      exprStmt expr .start ⟨value.shapes.map Shape.token ++ rest, depth⟩ := by
  obtain ⟨first, others, isFirst, starts⟩ := starts_shapes derives
  rw [isFirst, List.map_cons, List.cons_append, simpleStmt, bind_of_ok peek_cons]
  apply congrFun
  split
  · next same => exact (ne_of_startsExpr starts rfl same).elim
  · next same => exact (ne_of_startsExpr starts rfl same).elim
  · next same => exact (ne_of_startsExpr starts rfl same).elim
  · next same => exact (ne_of_startsExpr starts rfl same).elim
  · rfl

theorem atStmtEnd_shapes {tokens : List Token} {value : Expr}
    (derives : Expr.Derives .expr tokens value) :
    atStmtEnd ⟨value.shapes.map Shape.token ++ rest, depth⟩ =
      .ok false ⟨value.shapes.map Shape.token ++ rest, depth⟩ := by
  obtain ⟨first, others, isFirst, starts⟩ := starts_shapes derives
  have differs {kind : Token.Kind} (cannot : startsExpr kind = false) :
      decide (first.token.kind = kind) = false :=
    decide_eq_false (ne_of_startsExpr starts cannot)
  rw [isFirst, List.map_cons, List.cons_append, atStmtEnd, bind_of_ok peek_cons, differs rfl,
    differs rfl, differs rfl]
  rfl

/-- The kinds at which a statement can start that ends with a semicolon. -/
def startsSimple (kind : Token.Kind) : Bool :=
  startsExpr kind || kind ∈ [.keyword .break_, .keyword .continue_, .keyword .return_]

theorem rereads_of_simple {stmt : Stmt} {front : List Shape}
    (printed : stmt.shapes = front ++ [.sign .semicolon])
    (starts : ∃ first others, front = first :: others ∧ startsSimple first.kind = true)
    (succeeds : ∀ limit block depth rest, depth + front.length ≤ limit →
      simpleStmt (expr limit) block
          ⟨front.map Shape.token ++ (Shape.sign .semicolon).token :: rest, depth⟩ =
        .ok stmt.unplaced ⟨(Shape.sign .semicolon).token :: rest, depth⟩) : Rereads stmt := by
  obtain ⟨first, others, rfl, starts⟩ := starts
  have differs {kind : Token.Kind} (other : startsSimple kind = false) : first.kind ≠ kind := by
    rintro rfl
    simp [starts] at other
  constructor
  · exact ⟨first, _, printed, differs rfl, differs rfl, differs rfl, differs rfl⟩
  · intro limit levels depth next rest room follows
    have deep := room.tokens
    rw [printed, List.length_append, List.length_singleton] at deep
    have read := succeeds limit (blockWithin limit levels) depth (next :: rest) (by omega)
    simp only [printed, List.map_append, List.map_cons, List.map_nil, List.append_assoc,
      List.cons_append, List.nil_append] at read ⊢
    rw [stmt_of_ne (differs rfl) (differs rfl), bind_of_ok read, bind_of_ok (take_sign .semicolon)]
    rfl

theorem rereads_simple {tokens : List Token} {stmt : Stmt} (simple : Stmt.Simple tokens stmt) :
    Rereads stmt := by
  cases simple with
  | break_ => exact rereads_of_simple rfl ⟨.word .break_, [], rfl, rfl⟩ fun _ _ _ _ _ => rfl
  | continue_ => exact rereads_of_simple rfl ⟨.word .continue_, [], rfl, rfl⟩ fun _ _ _ _ _ => rfl
  | return_ => exact rereads_of_simple rfl ⟨.word .return_, [], rfl, rfl⟩ fun _ _ _ _ _ => rfl
  | @returnValue _ _ value _ derives =>
      refine rereads_of_simple rfl ⟨.word .return_, value.shapes, rfl, rfl⟩ ?_
      intro limit block depth rest deep
      have shallower : depth + value.shapes.length ≤ limit := by
        rw [List.length_cons] at deep
        omega
      rw [List.map_cons, List.cons_append, simpleStmt, bind_of_ok peek_cons]
      change (advance >>= _) _ = _
      rw [bind_of_ok (advance_cons (by simp)), bind_of_ok (atStmtEnd_shapes derives)]
      exact bind_of_ok (expr_shapes_sign derives shallower .semicolon (by simp) rest) _
  | @expr _ _ value derives =>
      obtain ⟨first, others, isFirst, starts⟩ := starts_shapes derives
      refine rereads_of_simple rfl ⟨first, others, isFirst, by simp [startsSimple, starts]⟩ ?_
      intro limit block depth rest deep
      rw [simpleStmt_shapes derives, exprStmt,
        bind_of_ok (expr_shapes_sign derives deep .semicolon (by simp) rest),
        bind_of_ok (take_cons_of_ne (by simp))]
      rfl
  | @assign _ _ _ _ target value targetDerives _ valueDerives =>
      obtain ⟨first, others, isFirst, starts⟩ := starts_shapes targetDerives
      refine rereads_of_simple rfl
        ⟨first, _, by rw [isFirst]; rfl, by simp [startsSimple, starts]⟩ ?_
      intro limit block depth rest deep
      simp only [List.length_append, List.length_cons] at deep
      simp only [List.map_append, List.map_cons, List.append_assoc, List.cons_append]
      rw [simpleStmt_shapes targetDerives, exprStmt,
        bind_of_ok (expr_shapes_sign targetDerives (by omega) .assign (by simp) _),
        bind_of_ok (take_sign .assign), if_pos rfl,
        bind_of_ok (expr_shapes_sign valueDerives (by omega) .semicolon (by simp) rest)]
      rfl

theorem starts_word {keyword : Keyword} (other : keyword ≠ .else_) :
    (Shape.word keyword).kind ≠ .eof ∧ (Shape.word keyword).kind ≠ .symbol .rbrace ∧
      Stmt.Follows (Shape.word keyword).kind :=
  ⟨by simp [Shape.word], by simp [Shape.word], by simpa [Shape.word] using other,
    by simp [Shape.word]⟩

theorem rereads_while {tokens : List Token} {test : Expr} {body : List Stmt} (pos : Position)
    (derives : Expr.Derives .expr tokens test) (rereads : ∀ stmt ∈ body, Rereads stmt) :
    Rereads (.while_ pos test body) where
  starts := ⟨.word .while_, _, rfl, starts_word (by decide)⟩
  succeeds limit levels depth next rest room follows := by
    obtain ⟨enough, deep⟩ := room
    simp only [Stmt.shapes, Stmt.braced, Stmt.bodyShapes_eq, List.length_append, List.length_cons,
      List.length_nil] at deep
    have blockRoom : Room limit levels depth ((body.flatMap Stmt.shapes).length + 2) :=
      ⟨enough, by omega⟩
    have shallow : depth + test.shapes.length ≤ limit := by omega
    simp only [Stmt.shapes, Stmt.braced, Stmt.bodyShapes_eq, List.map_append, List.map_cons,
      List.map_nil, List.append_assoc, List.cons_append, List.nil_append]
    have read : simpleStmt (expr limit) (blockWithin limit levels)
        ⟨(Shape.word .while_).token :: (test.shapes.map Shape.token ++
          (Shape.sign .lbrace).token :: ((body.flatMap Stmt.shapes).map Shape.token ++
            (Shape.sign .rbrace).token :: next :: rest)), depth⟩ =
          .ok (Stmt.while_ pos test body).unplaced ⟨next :: rest, depth⟩ := by
      rw [simpleStmt, bind_of_ok peek_cons]
      change (advance >>= _) _ = _
      rw [bind_of_ok (advance_cons (by simp)),
        bind_of_ok (expr_shapes_sign derives shallow .lbrace (by simp) _),
        bind_of_ok (blockWithin_shapes rereads blockRoom)]
      simp [Stmt.unplaced, Stmt.relocate, Expr.unplaced, pure, EStateM.pure]
    rw [stmt_of_ne (by simp) (by simp), bind_of_ok read,
      bind_of_ok (take_cons_of_ne follows.notSemicolon)]
    rfl

theorem rereads_for {initial final others : List Token} {start bound step : Expr} {body : List Stmt}
    (pos : Position) (counter : Ident) (startDerives : Expr.Derives .expr initial start)
    (boundDerives : Expr.Derives .expr final bound) (stepDerives : Expr.Derives .expr others step)
    (rereads : ∀ stmt ∈ body, Rereads stmt) :
    Rereads (.for_ pos counter start bound (Stmt.countBy counter step) body) where
  starts := ⟨.word .for_, _, rfl, starts_word (by decide)⟩
  succeeds limit levels depth next rest room follows := by
    obtain ⟨enough, deep⟩ := room
    simp only [Stmt.shapes, Stmt.braced, Stmt.bodyShapes_eq, List.length_append, List.length_cons,
      List.length_nil, Stmt.stepOf, Stmt.countBy] at deep
    have blockRoom : Room limit levels depth ((body.flatMap Stmt.shapes).length + 2) :=
      ⟨enough, by omega⟩
    have startDeep : depth + start.shapes.length ≤ limit := by omega
    have boundDeep : depth + bound.shapes.length ≤ limit := by omega
    have stepDeep : depth + step.shapes.length ≤ limit := by omega
    simp only [Stmt.shapes, Stmt.braced, Stmt.bodyShapes_eq, Stmt.stepOf, Stmt.countBy,
      List.map_append, List.map_cons, List.map_nil, List.append_assoc, List.cons_append,
      List.nil_append]
    rw [stmt, bind_of_ok peek_cons]
    change countingLoop _ _ _ = _
    rw [countingLoop, bind_of_ok (consume_word .for_), bind_of_ok peek_cons, if_neg (by simp),
      bind_of_ok (advance_cons (by simp)), bind_of_ok (take_sign .assign)]
    change (expr limit >>= _) _ = _
    rw [bind_of_ok (expr_shapes_name startDerives startDeep "to" _),
      bind_of_ok (takeWord_name "to")]
    change (expr limit >>= _) _ = _
    rw [bind_of_ok (expr_shapes_name boundDerives boundDeep "step" _),
      bind_of_ok (takeWord_name "step")]
    change (expr limit >>= _) _ = _
    rw [bind_of_ok (expr_shapes_sign stepDerives stepDeep .lbrace (by simp) _)]
    change (blockWithin limit levels >>= _) _ = _
    rw [bind_of_ok (blockWithin_shapes rereads blockRoom)]
    simp [Stmt.unplaced, Stmt.relocate, Expr.unplaced, pure, EStateM.pure, Ident.relocate,
      Assignment.relocate, Stmt.counterExpr, Expr.relocate, Stmt.countBy]

/-- A printed branch has a block after `else`, so the routine for another branch is not used. -/
theorem branchOver_shapes {tokens : List Token} {test : Expr} {yes : List Stmt}
    {no : Option (List Stmt)} (pos : Position) (elseBranch : Parser Stmt)
    (derives : Expr.Derives .expr tokens test) (rereads : ∀ stmt ∈ yes, Rereads stmt)
    (rereadsNo : ∀ body ∈ no, ∀ stmt ∈ body, Rereads stmt)
    (room : Room limit levels depth ((Stmt.if_ pos test yes no).shapes.length + 1))
    {next : Token} (follows : Stmt.Follows next.kind) :
    branchOver (expr limit) (blockWithin limit levels) elseBranch
        ⟨(Stmt.if_ pos test yes no).shapes.map Shape.token ++ next :: rest, depth⟩ =
      .ok (Stmt.if_ pos test yes no).unplaced ⟨next :: rest, depth⟩ := by
  obtain ⟨enough, deep⟩ := room
  simp only [Stmt.shapes_if, Stmt.braced, List.length_append, List.length_cons,
    List.length_nil] at deep
  have yesRoom : Room limit levels depth ((yes.flatMap Stmt.shapes).length + 2) :=
    ⟨enough, by omega⟩
  have shallow : depth + test.shapes.length ≤ limit := by omega
  simp only [Stmt.shapes_if, Stmt.braced, List.map_append, List.map_cons, List.append_assoc,
    List.cons_append, List.nil_append]
  rw [branchOver, bind_of_ok (consume_word .if_),
    bind_of_ok (expr_shapes_sign derives shallow .lbrace (by simp) _),
    bind_of_ok (blockWithin_shapes rereads yesRoom)]
  cases no with
  | none =>
      rw [List.map_nil, List.nil_append, bind_of_ok (take_cons_of_ne follows.notElse)]
      simp [Stmt.unplaced, Stmt.relocate, Expr.unplaced, pure, EStateM.pure]
  | some body =>
      have noRoom : Room limit levels depth ((body.flatMap Stmt.shapes).length + 2) :=
        ⟨enough, by simp only [List.length_append, List.length_cons] at deep; omega⟩
      simp only [List.map_append, List.map_cons, List.map_nil, List.append_assoc, List.cons_append,
        List.nil_append]
      rw [bind_of_ok (take_word .else_), if_pos rfl, bind_of_ok peek_cons]
      change (blockWithin limit levels >>= _) _ = _
      rw [bind_of_ok (blockWithin_shapes (rereadsNo body rfl) noRoom)]
      simp [Stmt.unplaced, Stmt.relocate, Expr.unplaced, pure, EStateM.pure]

theorem branchWithin_eq_branchOver (expr : Parser Expr) (block : Parser (List Stmt)) :
    ∃ elseBranch, branchWithin limit expr block levels = branchOver expr block elseBranch := by
  cases levels with
  | zero => exact ⟨_, rfl⟩
  | succ levels => exact ⟨_, rfl⟩

theorem rereads_if {tokens : List Token} {test : Expr} {yes : List Stmt} {no : Option (List Stmt)}
    (pos : Position) (derives : Expr.Derives .expr tokens test)
    (rereads : ∀ stmt ∈ yes, Rereads stmt) (rereadsNo : ∀ body ∈ no, ∀ stmt ∈ body, Rereads stmt) :
    Rereads (.if_ pos test yes no) where
  starts := ⟨.word .if_, _, Stmt.shapes_if pos test yes no, starts_word (by decide)⟩
  succeeds limit levels depth next rest room follows := by
    have branch : stmt limit (blockWithin limit levels)
        ⟨(Stmt.if_ pos test yes no).shapes.map Shape.token ++ next :: rest, depth⟩ =
          branchWithin limit (expr limit) (blockWithin limit levels) limit
            ⟨(Stmt.if_ pos test yes no).shapes.map Shape.token ++ next :: rest, depth⟩ := by
      rw [Stmt.shapes_if]
      rfl
    -- The levels bound chains of branches only, and no chain is printed.
    obtain ⟨elseBranch, isBranch⟩ := branchWithin_eq_branchOver (expr limit)
      (blockWithin limit levels)
    rw [branch, isBranch]
    exact branchOver_shapes pos elseBranch derives rereads rereadsNo room follows

theorem rereads_of_derives {phrase : Stmt.Phrase} {tokens : List Token} {stmts : List Stmt}
    (derives : Stmt.Derives phrase tokens stmts) : ∀ stmt ∈ stmts, Rereads stmt := by
  -- All phrases derive lists of statements, so one property serves them all; how the source has
  -- written a statement is not seen any more.
  induction derives with
  | block _ _ _ rereads | branch _ rereads => exact rereads
  | nil => simp
  | cons _ _ first rest => exact List.forall_mem_cons.2 ⟨first _ (by simp), rest⟩
  | simple simple => simpa using rereads_simple simple
  | while_ _ derives _ _ rereads => simpa using rereads_while _ derives rereads
  | for_ _ _ _ startDerives _ boundDerives isStep _ rereads =>
      obtain ⟨_, stepDerives⟩ := isStep.derives
      simpa using rereads_for _ _ startDerives boundDerives stepDerives rereads
  | if_ _ derives _ rereads => simpa using rereads_if _ derives rereads (by simp)
  | ifElse _ derives _ _ _ _ rereads rereadsNo =>
      simpa using rereads_if _ derives rereads (by simpa using rereadsNo)

end

end Parser

end Covenant
