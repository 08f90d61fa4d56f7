import SplatLang.Program.Parser
import SplatLang.Proofs.Relocate

/-!
# Parsing moved tokens

The parser looks at texts and kinds and copies places, so moved tokens are parsed to the moved
tree, or to the moved fault with the same cause. There is one law for each way of putting parsers
together, and one line of laws for each parsing function. Only the end of the tokens is not moved
along by itself: it is computed from the place of the last token, and moving need not agree with
that computation.
-/

namespace SplatLang

/-- The tokens left over and the place of a fault are moved, the value goes through `image`. -/
def Parsed.relocate (move : Position → Position) (image : α → α) : Parsed α → Parsed α
  | .ok a rest => .ok (image a) (rest.map (Token.relocate move))
  | .fault f rest => .fault (f.relocate move) (rest.map (Token.relocate move))
  | .abort why => .abort why

namespace Parser

variable {α β : Type} {move : Position → Position}

/-- On moved tokens the second parser does what the first does, and moves it. -/
def Moves (move : Position → Position) (image : α → α) (p q : Parser α) : Prop :=
  ∀ eof ts, q (move eof) (ts.map (Token.relocate move)) = (p eof ts).relocate move image

abbrev Steady (move : Position → Position) (image : α → α) (p : Parser α) : Prop :=
  Moves move image p p

-- ---------------------------------------------------------------------------
-- Laws
-- ---------------------------------------------------------------------------

theorem Moves.pure {image : α → α} (a : α) :
    Moves move image (Pure.pure a) (Pure.pure (image a)) := fun _ _ => rfl

theorem Moves.bind {image : α → α} {image' : β → β} {p q : Parser α} {k k' : α → Parser β}
    (h : Moves move image p q) (hk : ∀ a, Moves move image' (k a) (k' (image a))) :
    Moves move image' (p >>= k) (q >>= k') := by
  intro eof ts
  show Parser.bind q k' _ _ = (Parser.bind p k eof ts).relocate move image'
  unfold Parser.bind
  rw [h eof ts]
  cases p eof ts with
  | ok a rest => exact hk a eof rest
  | fault f rest => rfl
  | abort why => rfl

theorem Moves.ite {image : α → α} {p q p' q' : Parser α} {c : Prop} [Decidable c]
    (h : Moves move image p q) (h' : Moves move image p' q') :
    Moves move image (if c then p else p') (if c then q else q') := by
  split
  · exact h
  · exact h'

theorem Moves.fail {image : α → α} :
    Moves move image (Parser.fail cause location) (Parser.fail cause (move location)) :=
  fun _ _ => rfl

theorem Moves.giveUp {image : α → α} :
    Moves move image (Parser.giveUp why) (Parser.giveUp why) := fun _ _ => rfl

theorem peek_steady : Steady move (Token.relocate move) peek := by
  intro eof ts
  cases ts <;> rfl

theorem next_steady : Steady move (Token.relocate move) next := by
  intro eof ts
  cases ts <;> rfl

theorem atEnd_steady : Steady move id atEnd := by
  intro eof ts
  cases ts <;> rfl

theorem nextIs_steady : Steady move id (nextIs v) := by
  intro eof ts
  cases ts <;> rfl

theorem secondIs_steady : Steady move id (secondIs v) := by
  intro eof ts
  rcases ts with _ | ⟨_, _ | _⟩ <;> rfl

theorem nextIsUnary_steady : Steady move id nextIsUnary := by
  intro eof ts
  cases ts <;> rfl

theorem expect_steady : Steady move (Token.relocate move) (expect v) :=
  next_steady.bind fun t => .ite (.pure t) .fail

theorem label_steady : Steady move (Token.relocate move) label := by
  refine next_steady.bind fun t => .ite .fail (.ite .fail ?_)
  rw [Token.relocate_value]
  cases t.value.toList with
  | nil => exact .giveUp
  | cons c cs => exact .ite (.pure t) .fail

theorem typeName_steady : Steady move id typeName :=
  next_steady.bind fun t => .pure (Ty.mk t.value)

-- ---------------------------------------------------------------------------
-- Lists
-- ---------------------------------------------------------------------------

section

variable {image : α → α} {stop : Parser Bool} {item : Parser α}

theorem itemsUntil_steady (hstop : Steady move id stop) (hitem : Steady move image item) (n : Nat) :
    Steady move (List.map image) (itemsUntil stop item n) := by
  induction n with
  | zero => exact .giveUp
  | succ n ih =>
    refine hstop.bind fun b => .ite (.pure []) ?_
    exact hitem.bind fun a => ih.bind fun rest => .pure (a :: rest)

theorem moreItems_steady (hitem : Steady move image item) (n : Nat) :
    Steady move (List.map image) (moreItems item n) := by
  induction n with
  | zero => exact .giveUp
  | succ n ih =>
    refine nextIs_steady.bind fun b => .ite ?_ (.pure [])
    exact expect_steady.bind fun _ => hitem.bind fun a => ih.bind fun rest => .pure (a :: rest)

theorem commaItems_steady (hitem : Steady move image item) (n : Nat) :
    Steady move (List.map image) (commaItems item n) := by
  refine nextIs_steady.bind fun b => .ite (.pure []) ?_
  exact hitem.bind fun a => (moreItems_steady hitem n).bind fun rest => .pure (a :: rest)

end

-- ---------------------------------------------------------------------------
-- Phrases
-- ---------------------------------------------------------------------------

theorem operation_steady {operand : Parser Expr}
    (hoperand : Steady move (Expr.relocate move) operand) :
    Steady move (Expr.relocate move) (operation operand) := by
  refine nextIsUnary_steady.bind fun b => .ite ?_ ?_
  · exact next_steady.bind fun op => hoperand.bind fun e => expect_steady.bind fun _ =>
      .pure (Expr.unary op op.value e)
  · refine hoperand.bind fun left => next_steady.bind fun op => .ite ?_ .fail
    exact hoperand.bind fun right => expect_steady.bind fun _ =>
      .pure (Expr.binary op left op.value right)

theorem args_steady {item : Parser Expr} (hitem : Steady move (Expr.relocate move) item)
    (n : Nat) : Steady move (relocateExprs move) (commaItems item n) := by
  rw [funext (relocateExprs_eq_map move)]
  exact commaItems_steady hitem n

theorem parseExpr_steady (n : Nat) : Steady move (Expr.relocate move) (parseExpr n) := by
  induction n with
  | zero => exact .giveUp
  | succ n ih =>
    refine peek_steady.bind fun start => .ite ?_ (.ite ?_ ?_)
    · exact expect_steady.bind fun _ => operation_steady ih
    · exact next_steady.bind fun t => .pure (Expr.literal t t.value)
    · refine secondIs_steady.bind fun b => .ite ?_ ?_
      · exact label_steady.bind fun t => expect_steady.bind fun _ =>
          (args_steady ih n).bind fun args => expect_steady.bind fun _ =>
            .pure (Expr.call t t.value args)
      · exact label_steady.bind fun t => .pure (Expr.var t t.value)

theorem blockEnds_steady : Steady move id blockEnds :=
  atEnd_steady.bind fun _ => .ite (.pure true) <|
    nextIs_steady.bind fun _ => .ite (.pure true) nextIs_steady

theorem exprThenSemicolon_steady (n : Nat) :
    Steady move (Expr.relocate move) (exprThenSemicolon n) :=
  (parseExpr_steady n).bind fun e => expect_steady.bind fun _ => .pure e

theorem namedStmt_steady (n : Nat) : Steady move (Stmt.relocate move) (namedStmt n) := by
  refine label_steady.bind fun t => nextIs_steady.bind fun b => .ite ?_ ?_
  · exact expect_steady.bind fun _ => (exprThenSemicolon_steady n).bind fun e =>
      .pure (Stmt.assign t t.value e)
  refine nextIs_steady.bind fun b => .ite ?_ ?_
  · exact expect_steady.bind fun _ => (args_steady (parseExpr_steady n) n).bind fun args =>
      expect_steady.bind fun _ => expect_steady.bind fun _ => .pure (Stmt.call t t.value args)
  · exact peek_steady.bind fun _ => .fail

section

variable {block : Parser (List Stmt)} (hblock : Steady move (relocateBlock move) block)

include hblock

theorem whileStmt_steady (n : Nat) : Steady move (Stmt.relocate move) (whileStmt block n) :=
  expect_steady.bind fun t => (parseExpr_steady n).bind fun test => expect_steady.bind fun _ =>
    hblock.bind fun body => expect_steady.bind fun _ => expect_steady.bind fun _ =>
      expect_steady.bind fun _ => .pure (Stmt.loop t test body)

theorem elseBranch_steady :
    Steady move (Option.map (relocateBlock move)) (elseBranch block) := by
  refine nextIs_steady.bind fun b => .ite ?_ (.pure none)
  exact expect_steady.bind fun _ => hblock.bind fun body => .pure (some body)

theorem ifStmt_steady (n : Nat) : Steady move (Stmt.relocate move) (ifStmt block n) := by
  refine expect_steady.bind fun t => (parseExpr_steady n).bind fun test =>
    expect_steady.bind fun _ => hblock.bind fun body =>
      (elseBranch_steady hblock).bind fun alt => expect_steady.bind fun _ =>
        expect_steady.bind fun _ => expect_steady.bind fun _ => ?_
  cases alt with
  | none => exact .pure (Stmt.cond t test body none)
  | some alt => exact .pure (Stmt.cond t test body (some alt))

end

theorem printStmt_steady (n : Nat) : Steady move (Stmt.relocate move) (printStmt n) :=
  expect_steady.bind fun t => (exprThenSemicolon_steady n).bind fun e => .pure (Stmt.print t e)

theorem printLineStmt_steady : Steady move (Stmt.relocate move) printLineStmt :=
  expect_steady.bind fun t => expect_steady.bind fun _ => .pure (Stmt.printLine t)

theorem returnStmt_steady (n : Nat) : Steady move (Stmt.relocate move) (returnStmt n) := by
  refine expect_steady.bind fun t => nextIs_steady.bind fun b => .ite ?_ ?_
  · exact expect_steady.bind fun _ => .pure (Stmt.ret t none)
  · exact (exprThenSemicolon_steady n).bind fun e => .pure (Stmt.ret t (some e))

theorem block_steady {item : Parser Stmt} (hitem : Steady move (Stmt.relocate move) item)
    (n : Nat) : Steady move (relocateBlock move) (itemsUntil blockEnds item n) := by
  rw [funext (relocateBlock_eq_map move)]
  exact itemsUntil_steady blockEnds_steady hitem n

theorem parseStmt_steady (n : Nat) : Steady move (Stmt.relocate move) (parseStmt n) := by
  induction n with
  | zero => exact .giveUp
  | succ n ih =>
    have hblock := block_steady ih n
    exact peek_steady.bind fun start => .ite (whileStmt_steady hblock n) <|
      .ite (ifStmt_steady hblock n) <| .ite printLineStmt_steady <| .ite (printStmt_steady n) <|
        .ite (returnStmt_steady n) (namedStmt_steady n)

theorem parseParam_steady : Steady move (VarDecl.relocate move) parseParam :=
  label_steady.bind fun t => expect_steady.bind fun _ => typeName_steady.bind fun ty =>
    .pure (VarDecl.mk t t.value ty)

theorem parseVarDecl_steady : Steady move (VarDecl.relocate move) parseVarDecl :=
  parseParam_steady.bind fun v => expect_steady.bind fun _ => .pure v

theorem parseFuncDecl_steady (n : Nat) :
    Steady move (FuncDecl.relocate move) (parseFuncDecl n) :=
  label_steady.bind fun t => expect_steady.bind fun _ =>
    (commaItems_steady parseParam_steady n).bind fun params => expect_steady.bind fun _ =>
      expect_steady.bind fun _ => typeName_steady.bind fun result => expect_steady.bind fun _ =>
        (itemsUntil_steady nextIs_steady parseVarDecl_steady n).bind fun locals =>
          expect_steady.bind fun _ => (block_steady (parseStmt_steady n) n).bind fun body =>
            expect_steady.bind fun _ => expect_steady.bind fun _ =>
              .pure (FuncDecl.mk t t.value params result locals body)

theorem parseDecl_steady (n : Nat) : Steady move (Decl.relocate move) (parseDecl n) := by
  refine secondIs_steady.bind fun b => .ite ?_ (secondIs_steady.bind fun b => .ite ?_ ?_)
  · exact parseVarDecl_steady.bind fun v => .pure (Decl.var v)
  · exact (parseFuncDecl_steady n).bind fun f => .pure (Decl.func f)
  · exact peek_steady.bind fun _ => .fail

theorem parseProgram_steady (n : Nat) : Steady move (Program.relocate move) (parseProgram n) := by
  refine expect_steady.bind fun t =>
    (itemsUntil_steady nextIs_steady (parseDecl_steady n) n).bind fun decls =>
      expect_steady.bind fun _ => (block_steady (parseStmt_steady n) n).bind fun stmts =>
        expect_steady.bind fun _ => expect_steady.bind fun _ =>
          atEnd_steady.bind fun last => .ite (.pure (Program.mk t decls stmts)) ?_
  exact peek_steady.bind fun _ => .fail

end Parser

/-- Moved tokens are parsed to what the tokens are parsed to, moved, if the end of the tokens is
moved like any other place. -/
theorem parseTokens_relocate {move : Position → Position}
    (h : Parser.endPosition (ts.map (Token.relocate move)) = move (Parser.endPosition ts)) :
    parseTokens (ts.map (Token.relocate move)) =
      (parseTokens ts).relocate move (Program.relocate move) := by
  rw [parseTokens, Parser.resume, h, List.length_map]
  exact Parser.parseProgram_steady _ _ ts

def SameTokens (ts us : List Token) : Prop :=
  ts.map (fun t => (t.kind, t.value)) = us.map fun t => (t.kind, t.value)

instance (ts us : List Token) : Decidable (SameTokens ts us) :=
  inferInstanceAs (Decidable (_ = _))

theorem SameTokens.relocate (h : SameTokens ts us) (place : Position) :
    ts.map (Token.relocate fun _ => place) = us.map (Token.relocate fun _ => place) := by
  have hback := congrArg (List.map fun kv : TokenKind × String => Token.mk kv.1 kv.2 place) h
  rw [List.map_map, List.map_map] at hback
  exact hback

theorem SameTokens.length (h : SameTokens ts us) : ts.length = us.length := by
  simpa using congrArg List.length h

theorem parsed_same (h : SameTokens ts us) (place : Position) :
    (parseTokens ts).relocate (fun _ => place) (Program.relocate fun _ => place) =
      (parseTokens us).relocate (fun _ => place) (Program.relocate fun _ => place) := by
  have hmoved : ∀ ts, (parseTokens ts).relocate (fun _ => place) (Program.relocate fun _ => place) =
      Parser.parseProgram (ts.length + 1) place (ts.map (Token.relocate fun _ => place)) :=
    fun ts => (Parser.parseProgram_steady _ _ ts).symm
  rw [hmoved ts, hmoved us, h.relocate, h.length]

end SplatLang
