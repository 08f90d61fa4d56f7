import SplatLang.Program

/-!
# Trees without their tokens

Two trees that differ in the tokens of their nodes only stand for the same program. `bare` puts
one and the same token into every node, so such trees are those with equal `bare`. Labels,
operators, type names, literals and the order of every list are kept, and so is the difference
between no else branch and an empty one.

`mapLiterals` changes the literals and nothing else.
-/

namespace SplatLang

mutual

def Expr.bare : Expr ρ → Expr ρ
  | .literal _ raw => .literal default raw
  | .var _ label => .var default label
  | .binary _ left op right => .binary default left.bare op right.bare
  | .unary _ op operand => .unary default op operand.bare
  | .call _ label args => .call default label (bareExprs args)

def bareExprs : List (Expr ρ) → List (Expr ρ)
  | [] => []
  | e :: rest => e.bare :: bareExprs rest

end

mutual

def Stmt.bare : Stmt ρ → Stmt ρ
  | .assign _ label value => .assign default label value.bare
  | .cond _ test body none => .cond default test.bare (bareBlock body) none
  | .cond _ test body (some alt) =>
    .cond default test.bare (bareBlock body) (some (bareBlock alt))
  | .loop _ test body => .loop default test.bare (bareBlock body)
  | .print _ value => .print default value.bare
  | .printLine _ => .printLine default
  | .ret _ none => .ret default none
  | .ret _ (some value) => .ret default (some value.bare)
  | .call _ label args => .call default label (bareExprs args)

def bareBlock : List (Stmt ρ) → List (Stmt ρ)
  | [] => []
  | s :: rest => s.bare :: bareBlock rest

end

def VarDecl.bare (v : VarDecl) : VarDecl := { v with tok := default }

def FuncDecl.bare (f : FuncDecl ρ) : FuncDecl ρ where
  tok := default
  label := f.label
  params := f.params.map VarDecl.bare
  result := f.result
  locals := f.locals.map VarDecl.bare
  body := bareBlock f.body

def Decl.bare : Decl ρ → Decl ρ
  | .var v => .var v.bare
  | .func f => .func f.bare

def Program.bare (p : Program ρ) : Program ρ where
  tok := default
  decls := p.decls.map Decl.bare
  stmts := bareBlock p.stmts

theorem bareExprs_eq_map (es : List (Expr ρ)) : bareExprs es = es.map Expr.bare := by
  induction es with
  | nil => rfl
  | cons e rest ih => simp only [bareExprs, List.map_cons, ih]

theorem bareBlock_eq_map (body : List (Stmt ρ)) : bareBlock body = body.map Stmt.bare := by
  induction body with
  | nil => rfl
  | cons s rest ih => simp only [bareBlock, List.map_cons, ih]

-- ---------------------------------------------------------------------------
-- Other literals
-- ---------------------------------------------------------------------------

section

variable (f : ρ → σ)

mutual

def Expr.mapLiterals : Expr ρ → Expr σ
  | .literal tok raw => .literal tok (f raw)
  | .var tok label => .var tok label
  | .binary tok left op right => .binary tok left.mapLiterals op right.mapLiterals
  | .unary tok op operand => .unary tok op operand.mapLiterals
  | .call tok label args => .call tok label (mapExprs args)

def mapExprs : List (Expr ρ) → List (Expr σ)
  | [] => []
  | e :: rest => e.mapLiterals :: mapExprs rest

end

mutual

def Stmt.mapLiterals : Stmt ρ → Stmt σ
  | .assign tok label value => .assign tok label (value.mapLiterals f)
  | .cond tok test body none => .cond tok (test.mapLiterals f) (mapBlock body) none
  | .cond tok test body (some alt) =>
    .cond tok (test.mapLiterals f) (mapBlock body) (some (mapBlock alt))
  | .loop tok test body => .loop tok (test.mapLiterals f) (mapBlock body)
  | .print tok value => .print tok (value.mapLiterals f)
  | .printLine tok => .printLine tok
  | .ret tok none => .ret tok none
  | .ret tok (some value) => .ret tok (some (value.mapLiterals f))
  | .call tok label args => .call tok label (mapExprs f args)

def mapBlock : List (Stmt ρ) → List (Stmt σ)
  | [] => []
  | s :: rest => s.mapLiterals :: mapBlock rest

end

def FuncDecl.mapLiterals (d : FuncDecl ρ) : FuncDecl σ := { d with body := mapBlock f d.body }

def Decl.mapLiterals : Decl ρ → Decl σ
  | .var v => .var v
  | .func d => .func (d.mapLiterals f)

def Program.mapLiterals (p : Program ρ) : Program σ where
  tok := p.tok
  decls := p.decls.map (Decl.mapLiterals f)
  stmts := mapBlock f p.stmts

mutual

theorem Expr.bare_mapLiterals : (e : Expr ρ) → (e.mapLiterals f).bare = e.bare.mapLiterals f
  | .literal _ _ => rfl
  | .var _ _ => rfl
  | .binary _ l _ r => by simp only [Expr.mapLiterals, Expr.bare, l.bare_mapLiterals,
      r.bare_mapLiterals]
  | .unary _ _ e => by simp only [Expr.mapLiterals, Expr.bare, e.bare_mapLiterals]
  | .call _ _ es => by simp only [Expr.mapLiterals, Expr.bare, bareExprs_mapExprs es]

theorem bareExprs_mapExprs :
    (es : List (Expr ρ)) → bareExprs (mapExprs f es) = mapExprs f (bareExprs es)
  | [] => rfl
  | e :: es => by simp only [mapExprs, bareExprs, e.bare_mapLiterals, bareExprs_mapExprs es]

end

mutual

theorem Stmt.bare_mapLiterals : (s : Stmt ρ) → (s.mapLiterals f).bare = s.bare.mapLiterals f
  | .assign _ _ value => by simp only [Stmt.mapLiterals, Stmt.bare, value.bare_mapLiterals]
  | .cond _ test body none => by
    simp only [Stmt.mapLiterals, Stmt.bare, test.bare_mapLiterals, bareBlock_mapBlock body]
  | .cond _ test body (some alt) => by
    simp only [Stmt.mapLiterals, Stmt.bare, test.bare_mapLiterals, bareBlock_mapBlock body,
      bareBlock_mapBlock alt]
  | .loop _ test body => by
    simp only [Stmt.mapLiterals, Stmt.bare, test.bare_mapLiterals, bareBlock_mapBlock body]
  | .print _ value => by simp only [Stmt.mapLiterals, Stmt.bare, value.bare_mapLiterals]
  | .printLine _ => rfl
  | .ret _ none => rfl
  | .ret _ (some value) => by simp only [Stmt.mapLiterals, Stmt.bare, value.bare_mapLiterals]
  | .call _ _ es => by simp only [Stmt.mapLiterals, Stmt.bare, bareExprs_mapExprs]

theorem bareBlock_mapBlock :
    (body : List (Stmt ρ)) → bareBlock (mapBlock f body) = mapBlock f (bareBlock body)
  | [] => rfl
  | s :: body => by simp only [mapBlock, bareBlock, s.bare_mapLiterals, bareBlock_mapBlock body]

end

theorem Program.bare_mapLiterals (p : Program ρ) :
    (p.mapLiterals f).bare = p.bare.mapLiterals f := by
  have hdecl (d : Decl ρ) : (d.mapLiterals f).bare = d.bare.mapLiterals f := by
    cases d with
    | var v => rfl
    | func d => simp only [Decl.mapLiterals, Decl.bare, FuncDecl.mapLiterals, FuncDecl.bare,
        bareBlock_mapBlock]
  simp only [Program.mapLiterals, Program.bare, List.map_map, Function.comp_def, hdecl,
    bareBlock_mapBlock]

end

end SplatLang
