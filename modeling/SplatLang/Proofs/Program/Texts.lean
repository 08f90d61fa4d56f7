import SplatLang.Proofs.Parser.Grammar

/-!
# The texts a tree is written with

A tree says which texts its tokens have: the words and symbols of its productions, with the names,
types, operators and literals it keeps between them. So two lists of tokens that derive the same
tree have the same texts, one by one, and can differ in kinds and places only.
-/

namespace SplatLang

open Grammar

def commaTexts : List (List String) → List String
  | [] => []
  | first :: rest => first ++ rest.flatMap ("," :: ·)

mutual

def Expr.texts : Expr → List String
  | .literal _ raw => [raw]
  | .var _ label => [label]
  | .binary _ left op right => "(" :: left.texts ++ op :: right.texts ++ [")"]
  | .unary _ op operand => "(" :: op :: operand.texts ++ [")"]
  | .call _ label args => label :: "(" :: commaTexts (textsOfAll args) ++ [")"]

def textsOfAll : List Expr → List (List String)
  | [] => []
  | e :: rest => e.texts :: textsOfAll rest

end

mutual

def Stmt.texts : Stmt → List String
  | .assign _ label value => label :: ":=" :: value.texts ++ [";"]
  | .cond _ test body none =>
    "if" :: test.texts ++ "then" :: blockTexts body ++ ["end", "if", ";"]
  | .cond _ test body (some alt) =>
    "if" :: test.texts ++ "then" :: blockTexts body ++ "else" :: blockTexts alt ++
      ["end", "if", ";"]
  | .loop _ test body =>
    "while" :: test.texts ++ "do" :: blockTexts body ++ ["end", "while", ";"]
  | .print _ value => "print" :: value.texts ++ [";"]
  | .printLine _ => ["print_line", ";"]
  | .ret _ none => ["return", ";"]
  | .ret _ (some value) => "return" :: value.texts ++ [";"]
  | .call _ label args => label :: "(" :: commaTexts (textsOfAll args) ++ [")", ";"]

def blockTexts : List Stmt → List String
  | [] => []
  | s :: rest => s.texts ++ blockTexts rest

end

def VarDecl.texts (v : VarDecl) : List String := [v.label, ":", v.ty.name]

def FuncDecl.texts (f : FuncDecl) : List String :=
  f.label :: "(" :: commaTexts (f.params.map VarDecl.texts) ++
    ")" :: ":" :: f.result.name :: "is" :: f.locals.flatMap (fun v => v.texts ++ [";"]) ++
    "begin" :: blockTexts f.body ++ ["end", ";"]

def Decl.texts : Decl → List String
  | .var v => v.texts ++ [";"]
  | .func f => f.texts

def Program.texts (p : Program) : List String :=
  "program" :: p.decls.flatMap Decl.texts ++ "begin" :: blockTexts p.stmts ++ ["end", ";"]

-- ---------------------------------------------------------------------------
-- Lists
-- ---------------------------------------------------------------------------

section

variable {text : α → List String} {P : List Token → α → Prop} {us : List Token} {xs : List α}

theorem repeated_texts (hitem : ∀ x ∈ xs, ∀ us, P us x → us.map Token.value = text x)
    (h : Repeated P us xs) : us.map Token.value = xs.flatMap text := by
  induction h with
  | nil => rfl
  | cons head _ ih =>
    rw [List.forall_mem_cons] at hitem
    rw [List.map_append, List.flatMap_cons, hitem.1 _ head, ih hitem.2]

theorem further_texts (hitem : ∀ x ∈ xs, ∀ us, P us x → us.map Token.value = text x)
    (h : Further P us xs) : us.map Token.value = (xs.map text).flatMap ("," :: ·) := by
  induction h with
  | nil => rfl
  | cons comma head _ ih =>
    rw [List.forall_mem_cons] at hitem
    simp [comma, hitem.1 _ head, ih hitem.2]

theorem separated_texts (hitem : ∀ x ∈ xs, ∀ us, P us x → us.map Token.value = text x)
    (h : Separated P us xs) : us.map Token.value = commaTexts (xs.map text) := by
  cases h with
  | none => rfl
  | some head tail =>
    rw [List.forall_mem_cons] at hitem
    rw [List.map_append, hitem.1 _ head, further_texts hitem.2 tail]
    rfl

end

theorem textsOfAll_eq_map (es : List Expr) : textsOfAll es = es.map Expr.texts := by
  induction es with
  | nil => rfl
  | cons e rest ih => rw [textsOfAll, List.map_cons, ih]

-- ---------------------------------------------------------------------------
-- Phrases
-- ---------------------------------------------------------------------------

mutual

theorem expr_texts : (e : Expr) → IsExpr us e → us.map Token.value = e.texts
  | .literal _ raw, h => by
    cases h with
    | literal raw => rfl
  | .var _ label, h => by
    cases h with
    | var label => rfl
  | .binary _ l op r, h => by
    cases h with
    | binary opens left op right closes =>
      simp [Expr.texts, opens, closes, expr_texts l left, expr_texts r right]
  | .unary _ op e, h => by
    cases h with
    | unary opens op operand closes => simp [Expr.texts, opens, closes, expr_texts e operand]
  | .call _ label es, h => by
    cases h with
    | call label opens args closes =>
      have hargs := separated_texts (exprs_texts es) args
      simp [Expr.texts, opens, closes, hargs, textsOfAll_eq_map]

theorem exprs_texts : (es : List Expr) → ∀ e ∈ es, ∀ us, IsExpr us e →
    us.map Token.value = e.texts
  | [] => by simp
  | e :: es => List.forall_mem_cons.mpr ⟨fun _ => expr_texts e, exprs_texts es⟩

end

mutual

theorem stmt_texts : (s : Stmt) → IsStmt us s → us.map Token.value = s.texts
  | .assign _ label value, h => by
    cases h with
    | assign label gets hvalue stop => simp [Stmt.texts, gets, stop, expr_texts value hvalue]
  | .cond _ test body none, h => by
    cases h with
    | ifThen opens htest goes hbody ends again stop =>
      simp [Stmt.texts, opens, goes, ends, again, stop, expr_texts test htest,
        block_texts body hbody]
  | .cond _ test body (some alt), h => by
    cases h with
    | ifElse opens htest goes hbody other halt ends again stop =>
      simp [Stmt.texts, opens, goes, other, ends, again, stop, expr_texts test htest,
        block_texts body hbody, block_texts alt halt]
  | .loop _ test body, h => by
    cases h with
    | loop opens htest goes hbody ends again stop =>
      simp [Stmt.texts, opens, goes, ends, again, stop, expr_texts test htest,
        block_texts body hbody]
  | .print _ value, h => by
    cases h with
    | print opens hvalue stop => simp [Stmt.texts, opens, stop, expr_texts value hvalue]
  | .printLine _, h => by
    cases h with
    | printLine opens stop => simp [Stmt.texts, opens, stop]
  | .ret _ none, h => by
    cases h with
    | ret opens stop => simp [Stmt.texts, opens, stop]
  | .ret _ (some value), h => by
    cases h with
    | retValue opens hvalue stop => simp [Stmt.texts, opens, stop, expr_texts value hvalue]
  | .call _ label es, h => by
    cases h with
    | call label opens args closes stop =>
      have hargs := separated_texts (exprs_texts es) args
      simp [Stmt.texts, opens, closes, stop, hargs, textsOfAll_eq_map]

theorem block_texts : (body : List Stmt) → Repeated IsStmt us body →
    us.map Token.value = blockTexts body
  | [], h => by
    cases h with
    | nil => rfl
  | s :: body, h => by
    cases h with
    | cons head tail =>
      rw [List.map_append, blockTexts, stmt_texts s head, block_texts body tail]

end

theorem param_texts (v : VarDecl) (us : List Token) (h : IsParam us v) :
    us.map Token.value = v.texts := by
  cases h with
  | mk label colon => simp [VarDecl.texts, colon]

theorem varDecl_texts (v : VarDecl) (us : List Token) (h : IsVarDecl us v) :
    us.map Token.value = v.texts ++ [";"] := by
  cases h with
  | mk param stop => simp [param_texts v _ param, stop]

theorem funcDecl_texts (h : IsFuncDecl us f) : us.map Token.value = f.texts := by
  cases h with
  | mk label opens params closes colon is locals begins body ends stop =>
    have hparams := separated_texts (fun v _ => param_texts v) params
    have hlocals := repeated_texts (fun v _ => varDecl_texts v) locals
    simp [FuncDecl.texts, opens, closes, colon, is, begins, ends, stop, hparams, hlocals,
      block_texts _ body]

theorem decl_texts (d : Decl) (us : List Token) (h : IsDecl us d) :
    us.map Token.value = d.texts := by
  cases h with
  | var decl => exact varDecl_texts _ _ decl
  | func decl => exact funcDecl_texts decl

/-- What derives a tree has the texts of the tree. -/
theorem program_texts (h : IsProgram us p) : us.map Token.value = p.texts := by
  cases h with
  | mk opens decls begins stmts ends stop =>
    have hdecls := repeated_texts (fun d _ => decl_texts d) decls
    simp [Program.texts, opens, begins, ends, stop, hdecls, block_texts _ stmts]

end SplatLang
