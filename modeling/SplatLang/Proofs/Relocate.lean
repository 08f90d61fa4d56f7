import SplatLang.Fault
import SplatLang.Program

/-!
# Moving a tree to other places

`relocate` sends the place of every token of a tree through a function and leaves the rest as it
is. A phase that never decides by a place does the same with a moved tree as with the tree, and
moves what it reports along. Which function is taken matters nowhere here: one that forgets the
places shows that layout has no meaning, and one that fixes the places of a source shows that
reports stay inside it.
-/

namespace SplatLang

variable (move : Position → Position)

-- ---------------------------------------------------------------------------
-- Tokens and faults
-- ---------------------------------------------------------------------------

def Token.relocate (t : Token) : Token := { t with location := move t.location }

@[simp] theorem Token.relocate_kind (t : Token) : (t.relocate move).kind = t.kind := rfl

@[simp] theorem Token.relocate_value (t : Token) : (t.relocate move).value = t.value := rfl

@[simp] theorem Token.relocate_location (t : Token) :
    (t.relocate move).location = move t.location := rfl

def At.relocate (f : At ε) : At ε := { f with location := move f.location }

theorem At.cause_eq_of_relocate {f g : At ε} (h : f.relocate move = g.relocate move) :
    f.cause = g.cause := by
  cases f
  cases g
  exact (At.mk.inj h).1

-- ---------------------------------------------------------------------------
-- Trees
-- ---------------------------------------------------------------------------

mutual

def Expr.relocate : Expr → Expr
  | .literal tok raw => .literal (tok.relocate move) raw
  | .var tok label => .var (tok.relocate move) label
  | .binary tok left op right => .binary (tok.relocate move) left.relocate op right.relocate
  | .unary tok op operand => .unary (tok.relocate move) op operand.relocate
  | .call tok label args => .call (tok.relocate move) label (relocateExprs args)

def relocateExprs : List Expr → List Expr
  | [] => []
  | e :: rest => e.relocate :: relocateExprs rest

end

mutual

def Stmt.relocate : Stmt → Stmt
  | .assign tok label value => .assign (tok.relocate move) label (value.relocate move)
  | .cond tok test body none =>
    .cond (tok.relocate move) (test.relocate move) (relocateBlock body) none
  | .cond tok test body (some alt) =>
    .cond (tok.relocate move) (test.relocate move) (relocateBlock body) (some (relocateBlock alt))
  | .loop tok test body => .loop (tok.relocate move) (test.relocate move) (relocateBlock body)
  | .print tok value => .print (tok.relocate move) (value.relocate move)
  | .printLine tok => .printLine (tok.relocate move)
  | .ret tok none => .ret (tok.relocate move) none
  | .ret tok (some value) => .ret (tok.relocate move) (some (value.relocate move))
  | .call tok label args => .call (tok.relocate move) label (relocateExprs move args)

def relocateBlock : List Stmt → List Stmt
  | [] => []
  | s :: rest => s.relocate :: relocateBlock rest

end

def VarDecl.relocate (v : VarDecl) : VarDecl := { v with tok := v.tok.relocate move }

def FuncDecl.relocate (f : FuncDecl) : FuncDecl where
  tok := f.tok.relocate move
  label := f.label
  params := f.params.map (VarDecl.relocate move)
  result := f.result
  locals := f.locals.map (VarDecl.relocate move)
  body := relocateBlock move f.body

def Decl.relocate : Decl → Decl
  | .var v => .var (v.relocate move)
  | .func f => .func (f.relocate move)

def Program.relocate (p : Program) : Program where
  tok := p.tok.relocate move
  decls := p.decls.map (Decl.relocate move)
  stmts := relocateBlock move p.stmts

-- ---------------------------------------------------------------------------
-- What a moved tree keeps
-- ---------------------------------------------------------------------------

theorem relocateExprs_eq_map (es : List Expr) :
    relocateExprs move es = es.map (Expr.relocate move) := by
  induction es with
  | nil => rfl
  | cons e rest ih => rw [relocateExprs, List.map_cons, ih]

theorem relocateBlock_eq_map (body : List Stmt) :
    relocateBlock move body = body.map (Stmt.relocate move) := by
  induction body with
  | nil => rfl
  | cons s rest ih => rw [relocateBlock, List.map_cons, ih]

@[simp] theorem Expr.tok_relocate (e : Expr) : (e.relocate move).tok = e.tok.relocate move := by
  cases e <;> rfl

@[simp] theorem Decl.label_relocate (d : Decl) : (d.relocate move).label = d.label := by
  cases d <;> rfl

@[simp] theorem Decl.tok_relocate (d : Decl) : (d.relocate move).tok = d.tok.relocate move := by
  cases d <;> rfl

theorem Program.vars_relocate (p : Program) :
    (p.relocate move).vars = p.vars.map (VarDecl.relocate move) := by
  simp only [Program.vars, Program.relocate, List.filterMap_map, List.map_filterMap]
  congr 1
  funext d
  cases d <;> rfl

theorem Program.funcs_relocate (p : Program) :
    (p.relocate move).funcs = p.funcs.map (FuncDecl.relocate move) := by
  simp only [Program.funcs, Program.relocate, List.filterMap_map, List.map_filterMap]
  congr 1
  funext d
  cases d <;> rfl

end SplatLang
