import SplatLang.Proofs.Bindings
import SplatLang.Proofs.Relocate
import SplatLang.Typing

/-!
# Checking moved trees

The checker reports places and decides nothing by them, so a moved program gets the same verdict,
and the fault found in it is the moved fault of the program. The laws and their use follow the
checker function by function.
-/

namespace SplatLang.Typing

variable {α β : Type} {move : Position → Position} {sc : Scope}

/-- The second check does what the first does, and moves the place of its fault. -/
def Moves (move : Position → Position) (x y : Check α) : Prop := y = x.mapError (At.relocate move)

-- ---------------------------------------------------------------------------
-- Laws
-- ---------------------------------------------------------------------------

theorem Moves.ok {a : α} : Moves move (.ok a) (.ok a) := rfl

theorem Moves.bind {x y : Check α} {k k' : α → Check β} (h : Moves move x y)
    (hk : ∀ a, Moves move (k a) (k' a)) : Moves move (x >>= k) (y >>= k') := by
  cases h
  cases x with
  | ok a => exact hk a
  | error f => rfl

theorem Moves.fail : Moves move (Typing.fail cause tok : Check α)
    (Typing.fail cause (tok.relocate move)) := rfl

theorem Moves.ite {x y x' y' : Check α} {c : Prop} [Decidable c] (h : Moves move x y)
    (h' : Moves move x' y') : Moves move (if c then x else x') (if c then y else y') := by
  split
  · exact h
  · exact h'

theorem Moves.ensure {holds : Prop} [Decidable holds] :
    Moves move (Typing.ensure holds cause tok) (Typing.ensure holds cause (tok.relocate move)) :=
  .ite .ok .fail

theorem Moves.each {check check' : α → Check Unit} {image : α → α}
    (h : ∀ a, Moves move (check a) (check' (image a))) (items : List α) :
    Moves move (Typing.each check items) (Typing.each check' (items.map image)) := by
  induction items with
  | nil => exact .ok
  | cons a rest ih => exact (h a).bind fun _ => ih

-- ---------------------------------------------------------------------------
-- Expressions
-- ---------------------------------------------------------------------------

def Scope.relocate (move : Position → Position) (sc : Scope) : Scope :=
  { sc with funcs := sc.funcs.mapValues (FuncDecl.relocate move) }

theorem binaryType_moves :
    Moves move (binaryType tok op l r) (binaryType (tok.relocate move) op l r) := by
  unfold binaryType bothOperands
  split
  · exact .ite .ok .fail
  · exact .ite .ok .fail
  · exact .ite .ok .fail
  · exact .ite .fail (.ite .fail .ok)
  · exact .fail

theorem unaryType_moves : Moves move (unaryType tok op t) (unaryType (tok.relocate move) op t) := by
  unfold unaryType
  split
  · exact .ite .ok .fail
  · exact .ite .ok .fail
  · exact .fail

mutual

theorem typeOf_moves : (e : Expr) →
    Moves move (typeOf sc e) (typeOf (sc.relocate move) (e.relocate move))
  | .literal tok raw => by
    rw [Expr.relocate, typeOf, typeOf]
    cases literalType? raw with
    | some t => exact .ok
    | none => exact .fail
  | .var tok label => by
    rw [Expr.relocate, typeOf, typeOf, Scope.relocate]
    cases sc.vars.get? label with
    | some t => exact .ok
    | none => exact .fail
  | .binary tok left op right => by
    rw [Expr.relocate, typeOf, typeOf]
    exact (typeOf_moves left).bind fun l => (typeOf_moves right).bind fun r => binaryType_moves
  | .unary tok op operand => by
    rw [Expr.relocate, typeOf, typeOf]
    exact (typeOf_moves operand).bind fun t => unaryType_moves
  | .call tok label args => by
    rw [Expr.relocate, typeOf, typeOf]
    simp only [Scope.relocate, Bindings.get?_mapValues]
    cases sc.funcs.get? label with
    | none => exact .fail
    | some fn =>
      simp only [Option.map_some, relocateExprs_eq_map, FuncDecl.relocate, List.length_map]
      rw [← relocateExprs_eq_map]
      exact Moves.ensure.bind fun _ => (checkArgs_moves args fn.params).bind fun _ => .ok

theorem checkArgs_moves : (es : List Expr) → (ps : List VarDecl) →
    Moves move (checkArgs sc func i es ps)
      (checkArgs (sc.relocate move) func i (relocateExprs move es)
        (ps.map (VarDecl.relocate move)))
  | e :: es, p :: ps => by
    rw [relocateExprs, List.map_cons, checkArgs, checkArgs, Expr.tok_relocate]
    exact (typeOf_moves e).bind fun got => Moves.ensure.bind fun _ => checkArgs_moves es ps
  | [], _ => by
    rw [relocateExprs, checkArgs, checkArgs]
    exact .ok
  | _ :: _, [] => by
    rw [relocateExprs, List.map_nil, checkArgs, checkArgs]
    exact .ok

end

-- ---------------------------------------------------------------------------
-- Statements
-- ---------------------------------------------------------------------------

theorem checkCondition_moves : Moves move (checkCondition sc test construct)
    (checkCondition (sc.relocate move) (test.relocate move) construct) := by
  unfold checkCondition
  rw [Expr.tok_relocate]
  exact (typeOf_moves test).bind fun t => .ensure

mutual

theorem checkStmt_moves : (s : Stmt) →
    Moves move (checkStmt sc s) (checkStmt (sc.relocate move) (s.relocate move))
  | .assign tok label value => by
    rw [Stmt.relocate, checkStmt, checkStmt, Scope.relocate]
    cases sc.vars.get? label with
    | none => exact .fail
    | some want => exact (typeOf_moves value).bind fun got => .ensure
  | .cond tok test body none => by
    rw [Stmt.relocate, checkStmt, checkStmt]
    exact checkCondition_moves.bind fun _ => checkStmts_moves body
  | .cond tok test body (some alt) => by
    rw [Stmt.relocate, checkStmt, checkStmt]
    exact checkCondition_moves.bind fun _ => (checkStmts_moves body).bind fun _ =>
      checkStmts_moves alt
  | .loop tok test body => by
    rw [Stmt.relocate, checkStmt, checkStmt]
    exact checkCondition_moves.bind fun _ => checkStmts_moves body
  | .print tok value => by
    rw [Stmt.relocate, checkStmt, checkStmt]
    exact (typeOf_moves value).bind fun _ => .ok
  | .printLine tok => by
    rw [Stmt.relocate, checkStmt, checkStmt]
    exact .ok
  | .ret tok none => by
    rw [Stmt.relocate, checkStmt, checkStmt]
    exact .ok
  | .ret tok (some value) => by
    rw [Stmt.relocate, checkStmt, checkStmt]
    exact (typeOf_moves value).bind fun _ => .ok
  | .call tok label args => by
    rw [Stmt.relocate, checkStmt, checkStmt, ← Expr.relocate]
    exact (typeOf_moves (.call tok label args)).bind fun _ => .ok

theorem checkStmts_moves : (body : List Stmt) →
    Moves move (checkStmts sc body) (checkStmts (sc.relocate move) (relocateBlock move body))
  | [] => by
    rw [relocateBlock, checkStmts, checkStmts]
    exact .ok
  | s :: rest => by
    rw [relocateBlock, checkStmts, checkStmts]
    exact (checkStmt_moves s).bind fun _ => checkStmts_moves rest

end

mutual

theorem checkNoReturn_moves : (s : Stmt) →
    Moves move (checkNoReturn s) (checkNoReturn (s.relocate move))
  | .ret tok none => by
    rw [Stmt.relocate, checkNoReturn, checkNoReturn]
    exact .fail
  | .ret tok (some value) => by
    rw [Stmt.relocate, checkNoReturn, checkNoReturn]
    exact .fail
  | .cond tok test body none => by
    rw [Stmt.relocate, checkNoReturn, checkNoReturn]
    exact checkNoReturns_moves body
  | .cond tok test body (some alt) => by
    rw [Stmt.relocate, checkNoReturn, checkNoReturn]
    exact (checkNoReturns_moves body).bind fun _ => checkNoReturns_moves alt
  | .loop tok test body => by
    rw [Stmt.relocate, checkNoReturn, checkNoReturn]
    exact checkNoReturns_moves body
  | .assign .. | .print .. | .printLine _ | .call .. => by
    simp only [Stmt.relocate, checkNoReturn]
    exact .ok

theorem checkNoReturns_moves : (body : List Stmt) →
    Moves move (checkNoReturns body) (checkNoReturns (relocateBlock move body))
  | [] => by
    rw [relocateBlock, checkNoReturns]
    exact .ok
  | s :: rest => by
    rw [relocateBlock, checkNoReturns, checkNoReturns]
    exact (checkNoReturn_moves s).bind fun _ => checkNoReturns_moves rest

end

mutual

theorem hasReturn_relocate : (s : Stmt) → hasReturn (s.relocate move) = hasReturn s
  | .ret tok none => by simp only [Stmt.relocate, hasReturn]
  | .ret tok (some value) => by simp only [Stmt.relocate, hasReturn]
  | .cond tok test body none => by
    simp only [Stmt.relocate, hasReturn, anyReturn_relocate body]
  | .cond tok test body (some alt) => by
    simp only [Stmt.relocate, hasReturn, anyReturn_relocate body, anyReturn_relocate alt]
  | .loop tok test body => by simp only [Stmt.relocate, hasReturn, anyReturn_relocate body]
  | .assign .. | .print .. | .printLine _ | .call .. => by simp only [Stmt.relocate, hasReturn]

theorem anyReturn_relocate : (body : List Stmt) →
    anyReturn (relocateBlock move body) = anyReturn body
  | [] => by rw [relocateBlock]
  | s :: rest => by
    rw [relocateBlock, anyReturn, anyReturn, hasReturn_relocate s, anyReturn_relocate rest]

end

theorem checkReturn_moves {fn : FuncDecl} (value : Option Expr) :
    Moves move (checkReturn sc fn tok value) (checkReturn (sc.relocate move) (fn.relocate move)
      (tok.relocate move) (value.map (Expr.relocate move))) := by
  unfold checkReturn
  simp only [Option.isNone_map]
  refine .ite .ensure ?_
  cases value with
  | none => exact .fail
  | some e => exact (typeOf_moves e).bind fun got => .ensure

mutual

theorem checkReturnsIn_moves {fn : FuncDecl} : (s : Stmt) →
    Moves move (checkReturnsIn sc fn s)
      (checkReturnsIn (sc.relocate move) (fn.relocate move) (s.relocate move))
  | .ret tok none => by
    rw [Stmt.relocate, checkReturnsIn, checkReturnsIn]
    exact checkReturn_moves none
  | .ret tok (some value) => by
    rw [Stmt.relocate, checkReturnsIn, checkReturnsIn]
    exact checkReturn_moves (some value)
  | .cond tok test body none => by
    rw [Stmt.relocate, checkReturnsIn, checkReturnsIn]
    exact checkReturns_moves body
  | .cond tok test body (some alt) => by
    rw [Stmt.relocate, checkReturnsIn, checkReturnsIn]
    exact (checkReturns_moves body).bind fun _ => checkReturns_moves alt
  | .loop tok test body => by
    rw [Stmt.relocate, checkReturnsIn, checkReturnsIn]
    exact checkReturns_moves body
  | .assign .. | .print .. | .printLine _ | .call .. => by
    simp only [Stmt.relocate, checkReturnsIn]
    exact .ok

theorem checkReturns_moves {fn : FuncDecl} : (body : List Stmt) →
    Moves move (checkReturns sc fn body)
      (checkReturns (sc.relocate move) (fn.relocate move) (relocateBlock move body))
  | [] => by
    rw [relocateBlock, checkReturns, checkReturns]
    exact .ok
  | s :: rest => by
    rw [relocateBlock, checkReturns, checkReturns]
    exact (checkReturnsIn_moves s).bind fun _ => checkReturns_moves rest

end

-- ---------------------------------------------------------------------------
-- Programs
-- ---------------------------------------------------------------------------

theorem checkDistinct_moves (seen : List String) (ds : List Decl) :
    Moves move (checkDistinct seen ds) (checkDistinct seen (ds.map (Decl.relocate move))) := by
  induction ds generalizing seen with
  | nil => exact .ok
  | cons d rest ih =>
    rw [List.map_cons, checkDistinct, checkDistinct, Decl.label_relocate, Decl.tok_relocate]
    exact Moves.ensure.bind fun _ => ih _

theorem checkDistinctVars_moves (seen : List String) (vs : List VarDecl) :
    Moves move (checkDistinctVars func seen vs)
      (checkDistinctVars func seen (vs.map (VarDecl.relocate move))) := by
  induction vs generalizing seen with
  | nil => exact .ok
  | cons v rest ih => exact Moves.ensure.bind fun _ => ih _

theorem typesOf_relocate (vs : List VarDecl) :
    typesOf (vs.map (VarDecl.relocate move)) = typesOf vs := by
  rw [typesOf, List.map_map]
  rfl

theorem functionTable_relocate (fs : List FuncDecl) :
    functionTable (fs.map (FuncDecl.relocate move)) =
      (functionTable fs).mapValues (FuncDecl.relocate move) := by
  rw [functionTable, functionTable, Bindings.mapValues_setAll, List.map_map, List.map_map]
  rfl

theorem bodyScope_relocate (funcs : Bindings FuncDecl) (fn : FuncDecl) :
    bodyScope (funcs.mapValues (FuncDecl.relocate move)) (fn.relocate move) =
      (bodyScope funcs fn).relocate move := by
  rw [bodyScope, FuncDecl.relocate, ← List.map_append, typesOf_relocate]
  rfl

theorem programScope_relocate (p : Program) :
    programScope (p.relocate move) = (programScope p).relocate move := by
  rw [programScope, Program.funcs_relocate, Program.vars_relocate, functionTable_relocate,
    typesOf_relocate]
  rfl

theorem checkBody_moves (funcs : Bindings FuncDecl) (fn : FuncDecl) :
    Moves move (checkBody funcs fn)
      (checkBody (funcs.mapValues (FuncDecl.relocate move)) (fn.relocate move)) := by
  unfold checkBody
  rw [bodyScope_relocate]
  simp only [FuncDecl.relocate, ← List.map_append]
  exact (checkDistinctVars_moves _ _).bind fun _ => checkStmts_moves fn.body

theorem parameterLabels_relocate (fs : List FuncDecl) :
    parameterLabels (fs.map (FuncDecl.relocate move)) = parameterLabels fs := by
  simp only [parameterLabels, List.flatMap_map, FuncDecl.relocate, List.map_map]
  rfl

theorem checkTopLevel_moves (s : Stmt) :
    Moves move (checkTopLevel sc s) (checkTopLevel (sc.relocate move) (s.relocate move)) :=
  (checkNoReturn_moves s).bind fun _ => checkStmt_moves s

theorem checkResult_moves (funcs : Bindings FuncDecl) (fn : FuncDecl) :
    Moves move (checkResult funcs fn)
      (checkResult (funcs.mapValues (FuncDecl.relocate move)) (fn.relocate move)) := by
  unfold checkResult
  rw [bodyScope_relocate]
  refine (checkReturns_moves fn.body).bind fun _ => ?_
  simp only [FuncDecl.relocate, anyReturn_relocate]
  exact .ensure

/-- A moved program is refused for the same cause as the program, at the moved place, or neither
is refused. -/
theorem checkProgram_relocate (move : Position → Position) (p : Program) :
    checkProgram (p.relocate move) = (checkProgram p).mapError (At.relocate move) := by
  show Moves move (checkProgram p) (checkProgram (p.relocate move))
  unfold checkProgram
  rw [programScope_relocate, Program.funcs_relocate, parameterLabels_relocate]
  refine (checkDistinct_moves [] p.decls).bind fun _ => ?_
  refine (Moves.each (checkBody_moves _) p.funcs).bind fun _ => ?_
  refine (Moves.each (fun _ : FuncDecl => .ensure) p.funcs).bind fun _ => ?_
  rw [Program.relocate, relocateBlock_eq_map]
  refine (Moves.each checkTopLevel_moves p.stmts).bind fun _ => ?_
  exact Moves.each (checkResult_moves _) p.funcs

end SplatLang.Typing
