import SplatLang.Exec
import SplatLang.Proofs.Bindings
import SplatLang.Proofs.Operator
import SplatLang.Proofs.Relocate

/-!
# Running moved trees

A run hands the place of a token to its fault and does nothing else with it, so a moved program
writes the same texts, records the same calls and stops for the same cause, at the moved place.
Loops and calls are unbounded: rounds are compared by induction on how many are allowed, and calls
by induction on how deep they may nest. A trace names the file of the program, so the name has to
stay when a whole program is moved.
-/

namespace SplatLang

variable {α β : Type} {move : Position → Position}

def Ending.relocate (move : Position → Position) : Ending α → Ending α
  | done a => done a
  | fault f => fault (f.relocate move)
  | refused reason => refused reason
  | exhausted => exhausted

-- ---------------------------------------------------------------------------
-- Laws
-- ---------------------------------------------------------------------------

/-- The second computation does what the first does, and moves the place of its fault. -/
def Exec.Moves (move : Position → Position) (x y : Exec α) : Prop :=
  ∀ m, y m = ((x m).1.relocate move, (x m).2)

namespace Exec.Moves

theorem pure (a : α) : Moves move (Pure.pure a) (Pure.pure a) := fun _ => rfl

theorem bind {x y : Exec α} {k k' : α → Exec β} (h : Moves move x y)
    (hk : ∀ a, Moves move (k a) (k' a)) : Moves move (x >>= k) (y >>= k') := by
  intro m
  show Exec.bind y k' m = ((Exec.bind x k m).1.relocate move, (Exec.bind x k m).2)
  unfold Exec.bind
  rw [h m]
  obtain ⟨ending, m'⟩ := x m
  cases ending with
  | done a => exact hk a m'
  | fault f => rfl
  | refused reason => rfl
  | exhausted => rfl

theorem fail : Moves move (Exec.fail cause tok : Exec α) (Exec.fail cause (tok.relocate move)) :=
  fun _ => rfl

theorem exhausted : Moves move (Exec.exhausted : Exec α) Exec.exhausted := fun _ => rfl

theorem ite {x y x' y' : Exec α} {c : Prop} [Decidable c] (h : Moves move x y)
    (h' : Moves move x' y') : Moves move (if c then x else x') (if c then y else y') := by
  split
  · exact h
  · exact h'

theorem need (o : Option α) :
    Moves move (Exec.need cause tok o) (Exec.need cause (tok.relocate move) o) := by
  cases o with
  | some a => exact pure a
  | none => exact fail

theorem record : Moves move (Exec.record e) (Exec.record e) := fun _ => rfl

theorem depth : Moves move Exec.depth Exec.depth := fun _ => rfl

theorem write : Moves move (Exec.write text) (Exec.write text) := by
  intro m
  unfold Exec.write
  split <;> rfl

theorem deeper {x y : Exec α} (h : Moves move x y) :
    Moves move (Exec.deeper x) (Exec.deeper y) := by
  intro m
  unfold Exec.deeper
  rw [h]

theorem repeatWhile {test test' : Env → Exec Bool} {body body' : Env → Exec (Env × Run.Flow)}
    (ht : ∀ env, Moves move (test env) (test' env))
    (hb : ∀ env, Moves move (body env) (body' env)) (n : Nat) (env : Env) :
    Moves move (Run.repeatWhile test body n env) (Run.repeatWhile test' body' n env) := by
  induction n generalizing env with
  | zero => exact fun _ => rfl
  | succ n ih =>
    intro m
    rw [Run.repeatWhile, Run.repeatWhile, ht env m]
    obtain ⟨ending, m'⟩ := test env m
    cases ending with
    | done b =>
      cases b with
      | false => rfl
      | true =>
        simp only [Ending.relocate, hb env m']
        obtain ⟨ending, m''⟩ := body env m'
        cases ending with
        | done r =>
          obtain ⟨env', flow⟩ := r
          cases flow with
          | next => exact ih env' m''
          | returned v => rfl
        | fault f => rfl
        | refused reason => rfl
        | exhausted => rfl
    | fault f => rfl
    | refused reason => rfl
    | exhausted => rfl

end Exec.Moves

namespace Run

open Exec

-- ---------------------------------------------------------------------------
-- Operators
-- ---------------------------------------------------------------------------

theorem unary_moves : Moves move (unary tok op v) (unary (tok.relocate move) op v) := by
  unfold unary
  split
  · exact .pure _
  · exact .fail
  · exact .pure _
  · exact .fail
  · exact .fail

theorem arithmetic_moves :
    Moves move (arithmetic tok op l r) (arithmetic (tok.relocate move) op l r) := by
  cases op with
  | add => exact .pure _
  | sub => exact .pure _
  | mul => exact .pure _
  | div => exact .ite .fail (.pure _)
  | mod => exact .ite .fail (.pure _)

theorem binary_moves : Moves move (binary tok op l r) (binary (tok.relocate move) op l r) := by
  rw [binary_eq, binary_eq]
  split
  · split
    · exact arithmetic_moves
    · exact .fail
  · split
    · exact .pure _
    · exact .fail
  · split
    · exact .pure _
    · exact .fail
  · exact .ite (.pure _) .fail
  · exact .fail

-- ---------------------------------------------------------------------------
-- Expressions and statements
-- ---------------------------------------------------------------------------

def Invoke.Moves (move : Position → Position) (inv inv' : Invoke) : Prop :=
  ∀ tok fn values,
    Exec.Moves move (inv tok fn values) (inv' (tok.relocate move) (fn.relocate move) values)

section

variable {funcs : Bindings FuncDecl} {inv inv' : Invoke}

theorem call_moves (hinv : Invoke.Moves move inv inv') {args args' : Exec (List Value)}
    (hargs : Exec.Moves move args args') :
    Exec.Moves move (call funcs inv tok label count args)
      (call (funcs.mapValues (FuncDecl.relocate move)) inv' (tok.relocate move) label count
        args') := by
  unfold call
  rw [Bindings.get?_mapValues]
  cases funcs.get? label with
  | none => exact fun _ => rfl
  | some fn =>
    show Exec.Moves move (if count = fn.params.length then _ else _)
      (if count = (fn.relocate move).params.length then _ else _)
    have hlen : (fn.relocate move).params.length = fn.params.length := List.length_map _
    rw [hlen]
    exact .ite (hargs.bind fun values => hinv tok fn values) .fail

mutual

theorem evalExpr_moves (hinv : Invoke.Moves move inv inv') (env : Env) : (e : Expr) →
    Exec.Moves move (evalExpr funcs inv env e)
      (evalExpr (funcs.mapValues (FuncDecl.relocate move)) inv' env (e.relocate move))
  | .literal tok raw => by
    rw [Expr.relocate, evalExpr, evalExpr]
    exact .need _
  | .var tok label => by
    rw [Expr.relocate, evalExpr, evalExpr]
    exact .need _
  | .binary tok left op right => by
    rw [Expr.relocate, evalExpr, evalExpr]
    exact (evalExpr_moves hinv env left).bind fun l => (evalExpr_moves hinv env right).bind fun r =>
      binary_moves
  | .unary tok op operand => by
    rw [Expr.relocate, evalExpr, evalExpr]
    exact (evalExpr_moves hinv env operand).bind fun v => unary_moves
  | .call tok label args => by
    have hlen : (relocateExprs move args).length = args.length := by
      rw [relocateExprs_eq_map, List.length_map]
    rw [Expr.relocate, evalExpr, evalExpr, hlen]
    exact (call_moves hinv (evalArgs_moves hinv env args)).bind fun v => .need v

theorem evalArgs_moves (hinv : Invoke.Moves move inv inv') (env : Env) : (es : List Expr) →
    Exec.Moves move (evalArgs funcs inv env es)
      (evalArgs (funcs.mapValues (FuncDecl.relocate move)) inv' env (relocateExprs move es))
  | [] => by
    rw [relocateExprs, evalArgs, evalArgs]
    exact .pure []
  | e :: rest => by
    rw [relocateExprs, evalArgs, evalArgs]
    exact (evalExpr_moves hinv env e).bind fun v => (evalArgs_moves hinv env rest).bind fun vs =>
      .pure (v :: vs)

end

theorem condition_moves (hinv : Invoke.Moves move inv inv') (env : Env) (test : Expr) :
    Exec.Moves move (condition funcs inv env test)
      (condition (funcs.mapValues (FuncDecl.relocate move)) inv' env (test.relocate move)) := by
  refine (evalExpr_moves hinv env test).bind fun v => ?_
  rw [Expr.tok_relocate]
  cases v with
  | boolean b => exact .pure b
  | integer n => exact .fail
  | string s => exact .fail

mutual

theorem execStmt_moves (hinv : Invoke.Moves move inv inv') (rounds : Nat) :
    (s : Stmt) → (env : Env) →
    Exec.Moves move (execStmt funcs inv rounds s env)
      (execStmt (funcs.mapValues (FuncDecl.relocate move)) inv' rounds (s.relocate move) env)
  | .assign tok label value, env => by
    rw [Stmt.relocate, execStmt, execStmt]
    exact .ite ((evalExpr_moves hinv env value).bind fun v => .pure _) .fail
  | .cond tok test body none, env => by
    rw [Stmt.relocate, execStmt, execStmt]
    exact (condition_moves hinv env test).bind fun b =>
      .ite (execStmts_moves hinv rounds body env) (.pure _)
  | .cond tok test body (some alt), env => by
    rw [Stmt.relocate, execStmt, execStmt]
    exact (condition_moves hinv env test).bind fun b =>
      .ite (execStmts_moves hinv rounds body env) (execStmts_moves hinv rounds alt env)
  | .loop tok test body, env => by
    rw [Stmt.relocate, execStmt, execStmt]
    exact .repeatWhile (fun env => condition_moves hinv env test)
      (fun env => execStmts_moves hinv rounds body env) rounds env
  | .print tok value, env => by
    rw [Stmt.relocate, execStmt, execStmt]
    exact (evalExpr_moves hinv env value).bind fun v => .bind .write fun _ => .pure _
  | .printLine tok, env => by
    rw [Stmt.relocate, execStmt, execStmt]
    exact .bind .write fun _ => .pure _
  | .ret tok none, env => by
    rw [Stmt.relocate, execStmt, execStmt]
    exact .pure _
  | .ret tok (some value), env => by
    rw [Stmt.relocate, execStmt, execStmt]
    exact (evalExpr_moves hinv env value).bind fun v => .pure _
  | .call tok label args, env => by
    have hlen : (relocateExprs move args).length = args.length := by
      rw [relocateExprs_eq_map, List.length_map]
    rw [Stmt.relocate, execStmt, execStmt, hlen]
    exact (call_moves hinv (evalArgs_moves hinv env args)).bind fun _ => .pure _

theorem execStmts_moves (hinv : Invoke.Moves move inv inv') (rounds : Nat) :
    (body : List Stmt) → (env : Env) →
    Exec.Moves move (execStmts funcs inv rounds body env)
      (execStmts (funcs.mapValues (FuncDecl.relocate move)) inv' rounds (relocateBlock move body)
        env)
  | [], env => by
    rw [relocateBlock, execStmts, execStmts]
    exact .pure _
  | s :: rest, env => by
    rw [relocateBlock, execStmts, execStmts]
    refine (execStmt_moves hinv rounds s env).bind fun r => ?_
    obtain ⟨env', flow⟩ := r
    cases flow with
    | next => exact execStmts_moves hinv rounds rest env'
    | returned v => exact .pure _

end

end

-- ---------------------------------------------------------------------------
-- Calls and programs
-- ---------------------------------------------------------------------------

theorem bindZeros_moves (env : Env) (vars : List VarDecl) :
    Exec.Moves move (bindZeros env vars) (bindZeros env (vars.map (VarDecl.relocate move))) := by
  induction vars generalizing env with
  | nil => exact .pure env
  | cons v rest ih => exact (Exec.Moves.need _).bind fun zero => ih _

theorem bindParams_relocate (params : List VarDecl) (values : List Value) :
    bindParams (params.map (VarDecl.relocate move)) values = bindParams params values := by
  rw [bindParams, List.map_map]
  rfl

theorem invoke_moves (funcs : Bindings FuncDecl) (limit : Int) (n : Nat) :
    Invoke.Moves move (invoke funcs limit n)
      (invoke (funcs.mapValues (FuncDecl.relocate move)) limit n) := by
  induction n with
  | zero => exact fun _ _ _ => .exhausted
  | succ n ih =>
    intro tok fn values
    refine .deeper (Exec.Moves.depth.bind fun d => .ite .fail ?_)
    simp only [FuncDecl.relocate, bindParams_relocate]
    refine (bindZeros_moves _ fn.locals).bind fun env => Exec.Moves.record.bind fun _ => ?_
    exact (execStmts_moves ih n fn.body env).bind fun r => .pure _

theorem functionTable_relocate (p : Program) :
    functionTable (p.relocate move) = (functionTable p).mapValues (FuncDecl.relocate move) := by
  rw [functionTable, functionTable, Program.funcs_relocate, Bindings.mapValues_setAll,
    List.map_map, List.map_map]
  rfl

/-- A moved program runs as the program does, if it stays in its file. -/
theorem program_moves (limit : Int) (n : Nat) (p : Program)
    (hfile : (move p.tok.location).file = p.tok.location.file) :
    Exec.Moves move (program limit n p) (program limit n (p.relocate move)) := by
  intro m
  unfold program
  rw [functionTable_relocate, Program.vars_relocate]
  have hrecord : (p.relocate move).tok.location.file = p.tok.location.file := hfile
  simp only [hrecord, Bindings.mapValues, List.length_map]
  rw [← Bindings.mapValues]
  refine ((bindZeros_moves [] p.vars).bind fun env => Exec.Moves.record.bind fun _ => ?_) _
  refine (execStmts_moves (invoke_moves _ limit n) n p.stmts env).bind fun r => ?_
  obtain ⟨env', flow⟩ := r
  cases flow with
  | next => exact .record
  | returned v => exact .fail

end Run

end SplatLang
