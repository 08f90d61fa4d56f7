import SplatLang.Interpreter
import SplatLang.Proofs.Lexer.Shape
import SplatLang.Proofs.Parser.Sound

/-!
# Well-formed trees

A tree is well formed if its texts are those of tokens that may stand in their places. The parser
returns only such trees.
-/

namespace SplatLang

open Lexer Grammar

-- ---------------------------------------------------------------------------
-- Texts
-- ---------------------------------------------------------------------------

def Token.Lexed (t : Token) : Prop := ∃ file src ts, tokenize file src = .ok ts ∧ t ∈ ts

/-- A run of name characters that begins with a letter or an underscore and is not reserved. -/
def LabelText (s : String) : Prop :=
  (∃ c cs, s.toList = c :: cs ∧ (c = '_' ∨ Text.isLetter c)) ∧
    (∀ c ∈ s.toList, isNameChar c = true) ∧ isKeyword s = false

def TypeText (s : String) : Prop := ∃ t : Token, t.Lexed ∧ t.value = s

def NumberText (s : String) : Prop :=
  s.toList ≠ [] ∧ s.toList.all Char.isDigit ∧ Nat.ofDigitChars 10 s.toList 0 ≤ 2147483647

/-- Double quotes around characters none of which ends a literal or a line. -/
def QuotedText (s : String) : Prop :=
  ∃ inside, s.toList = '"' :: (inside ++ ['"']) ∧
    ∀ c ∈ inside, c ≠ '"' ∧ c ≠ '\\' ∧ c ≠ '\r' ∧ c ≠ '\n'

def LiteralText (s : String) : Prop :=
  s = "true" ∨ s = "false" ∨ NumberText s ∨ QuotedText s

-- ---------------------------------------------------------------------------
-- Trees
-- ---------------------------------------------------------------------------

section

variable (L : ρ → Prop)

mutual

def Expr.WellFormed : Expr ρ → Prop
  | .literal _ raw => L raw
  | .var _ label => LabelText label
  | .binary _ left op right => left.WellFormed ∧ op ∈ binaryOperators ∧ right.WellFormed
  | .unary _ op operand => op ∈ unaryOperators ∧ operand.WellFormed
  | .call _ label args => LabelText label ∧ WellFormedAll args

def WellFormedAll : List (Expr ρ) → Prop
  | [] => True
  | e :: rest => e.WellFormed ∧ WellFormedAll rest

end

mutual

def Stmt.WellFormed : Stmt ρ → Prop
  | .assign _ label value => LabelText label ∧ value.WellFormed L
  | .cond _ test body none => test.WellFormed L ∧ WellFormedBlock body
  | .cond _ test body (some alt) =>
    test.WellFormed L ∧ WellFormedBlock body ∧ WellFormedBlock alt
  | .loop _ test body => test.WellFormed L ∧ WellFormedBlock body
  | .print _ value => value.WellFormed L
  | .printLine _ => True
  | .ret _ none => True
  | .ret _ (some value) => value.WellFormed L
  | .call _ label args => LabelText label ∧ WellFormedAll L args

def WellFormedBlock : List (Stmt ρ) → Prop
  | [] => True
  | s :: rest => s.WellFormed ∧ WellFormedBlock rest

end

end

def VarDecl.WellFormed (v : VarDecl) : Prop := LabelText v.label ∧ TypeText v.ty.name

def FuncDecl.WellFormed (L : ρ → Prop) (f : FuncDecl ρ) : Prop :=
  LabelText f.label ∧ (∀ v ∈ f.params, v.WellFormed) ∧ TypeText f.result.name ∧
    (∀ v ∈ f.locals, v.WellFormed) ∧ WellFormedBlock L f.body

def Decl.WellFormed (L : ρ → Prop) : Decl ρ → Prop
  | .var v => v.WellFormed
  | .func f => f.WellFormed L

/-- A tree whose texts may stand in their places, with literals of the class `L`. -/
def Program.WellFormed (L : ρ → Prop) (p : Program ρ) : Prop :=
  (∀ d ∈ p.decls, d.WellFormed L) ∧ WellFormedBlock L p.stmts

section

variable {f : ρ → σ} {L : ρ → Prop} {M : σ → Prop}

mutual

theorem expr_mapLiterals (hf : ∀ raw, L raw → M (f raw)) :
    (e : Expr ρ) → e.WellFormed L → (e.mapLiterals f).WellFormed M
  | .literal _ raw, h => hf raw h
  | .var _ _, h => h
  | .binary _ l _ r, ⟨hl, hop, hr⟩ => ⟨expr_mapLiterals hf l hl, hop, expr_mapLiterals hf r hr⟩
  | .unary _ _ e, ⟨hop, he⟩ => ⟨hop, expr_mapLiterals hf e he⟩
  | .call _ _ es, ⟨hlabel, hes⟩ => ⟨hlabel, exprs_mapLiterals hf es hes⟩

theorem exprs_mapLiterals (hf : ∀ raw, L raw → M (f raw)) :
    (es : List (Expr ρ)) → WellFormedAll L es → WellFormedAll M (mapExprs f es)
  | [], _ => trivial
  | e :: es, ⟨he, hes⟩ => ⟨expr_mapLiterals hf e he, exprs_mapLiterals hf es hes⟩

end

mutual

theorem stmt_mapLiterals (hf : ∀ raw, L raw → M (f raw)) :
    (s : Stmt ρ) → s.WellFormed L → (s.mapLiterals f).WellFormed M
  | .assign _ _ value, ⟨hlabel, hvalue⟩ => ⟨hlabel, expr_mapLiterals hf value hvalue⟩
  | .cond _ test body none, ⟨htest, hbody⟩ =>
    ⟨expr_mapLiterals hf test htest, block_mapLiterals hf body hbody⟩
  | .cond _ test body (some alt), ⟨htest, hbody, halt⟩ =>
    ⟨expr_mapLiterals hf test htest, block_mapLiterals hf body hbody,
      block_mapLiterals hf alt halt⟩
  | .loop _ test body, ⟨htest, hbody⟩ =>
    ⟨expr_mapLiterals hf test htest, block_mapLiterals hf body hbody⟩
  | .print _ value, hvalue => expr_mapLiterals hf value hvalue
  | .printLine _, _ => trivial
  | .ret _ none, _ => trivial
  | .ret _ (some value), hvalue => expr_mapLiterals hf value hvalue
  | .call _ _ es, ⟨hlabel, hes⟩ => ⟨hlabel, exprs_mapLiterals hf es hes⟩

theorem block_mapLiterals (hf : ∀ raw, L raw → M (f raw)) :
    (body : List (Stmt ρ)) → WellFormedBlock L body → WellFormedBlock M (mapBlock f body)
  | [], _ => trivial
  | s :: body, ⟨hs, hbody⟩ => ⟨stmt_mapLiterals hf s hs, block_mapLiterals hf body hbody⟩

end

theorem Program.WellFormed.mapLiterals {p : Program ρ} (hf : ∀ raw, L raw → M (f raw))
    (h : p.WellFormed L) : (p.mapLiterals f).WellFormed M := by
  refine ⟨List.forall_mem_map.mpr fun d hd => ?_, block_mapLiterals hf p.stmts h.2⟩
  cases d with
  | var v => exact h.1 _ hd
  | func d =>
    obtain ⟨hlabel, hparams, hresult, hlocals, hbody⟩ := h.1 _ hd
    exact ⟨hlabel, hparams, hresult, hlocals, block_mapLiterals hf d.body hbody⟩

end

-- ---------------------------------------------------------------------------
-- Tokens in their places
-- ---------------------------------------------------------------------------

theorem Token.Lexed.genuine {t : Token} (h : t.Lexed) : t.Genuine := by
  obtain ⟨file, src, ts, htokens, ht⟩ := h
  exact tokenize_genuine htokens t ht

theorem integer?_of_digits (hne : cs ≠ []) (hd : cs.all Char.isDigit = true) :
    Text.integer? cs = some (Nat.ofDigitChars 10 cs 0 : Int) := by
  unfold Text.integer?
  cases cs with
  | nil => exact absurd rfl hne
  | cons c cs =>
    have hc : c.isDigit = true := by simp_all
    have hminus : c ≠ '-' := by
      rintro rfl
      exact absurd hc (by decide)
    have hplus : c ≠ '+' := by
      rintro rfl
      exact absurd hc (by decide)
    simp [hminus, hplus, Text.natural?, hd]

theorem int32?_of_digits (hne : s.toList ≠ []) (hd : s.toList.all Char.isDigit = true) :
    (Text.int32? s).isSome = true ↔ Nat.ofDigitChars 10 s.toList 0 ≤ 2147483647 := by
  rw [Text.int32?, integer?_of_digits hne hd, Option.isSome_map]
  simp [Option.filter]
  omega

theorem label_text (h : IsLabel t) (ht : t.Lexed) : LabelText t.value :=
  ⟨h.2.2, ht.genuine.shape.of_ident h.1, h.2.1⟩

theorem literal_text (h : IsLiteral t) (ht : t.Lexed) : LiteralText t.value := by
  rcases h with h | h | h | ⟨hk, h⟩
  · exact .inl h
  · exact .inr (.inl h)
  · obtain ⟨inside, hcs, hin⟩ := ht.genuine.shape.of_string h
    refine .inr (.inr (.inr ⟨inside, hcs, fun c hc => ?_⟩))
    have hend := hin c hc
    simp only [endsString, Bool.or_eq_false_iff, decide_eq_false_iff_not] at hend
    refine ⟨hend.1.1, hend.1.2, hend.2, ?_⟩
    rintro rfl
    exact ht.genuine.noFeed (by simp [hcs, hc])
  · obtain ⟨hne, hd⟩ := ht.genuine.shape.of_int hk
    exact .inr (.inr (.inl ⟨hne, hd, (int32?_of_digits hne hd).mp h⟩))

-- ---------------------------------------------------------------------------
-- Derived trees
-- ---------------------------------------------------------------------------

section

variable {f : α → α} {Q : α → Prop} {P : List Token → α → Prop} {us : List Token} {xs : List α}

theorem repeated_wellFormed
    (hitem : ∀ x ∈ xs, ∀ us, P us (f x) → (∀ t ∈ us, t.Lexed) → Q x)
    (h : Repeated P us (xs.map f)) (ht : ∀ t ∈ us, t.Lexed) : ∀ x ∈ xs, Q x := by
  induction xs generalizing us with
  | nil => simp
  | cons x xs ih =>
    rw [List.forall_mem_cons] at hitem ⊢
    cases h with
    | cons head tail =>
      rw [List.forall_mem_append] at ht
      exact ⟨hitem.1 _ head ht.1, ih hitem.2 tail ht.2⟩

theorem further_wellFormed
    (hitem : ∀ x ∈ xs, ∀ us, P us (f x) → (∀ t ∈ us, t.Lexed) → Q x)
    (h : Further P us (xs.map f)) (ht : ∀ t ∈ us, t.Lexed) : ∀ x ∈ xs, Q x := by
  induction xs generalizing us with
  | nil => simp
  | cons x xs ih =>
    rw [List.forall_mem_cons] at hitem ⊢
    cases h with
    | cons comma head tail =>
      simp only [List.cons_append, List.forall_mem_cons, List.forall_mem_append] at ht
      exact ⟨hitem.1 _ head ht.2.1, ih hitem.2 tail ht.2.2⟩

theorem separated_wellFormed
    (hitem : ∀ x ∈ xs, ∀ us, P us (f x) → (∀ t ∈ us, t.Lexed) → Q x)
    (h : Separated P us (xs.map f)) (ht : ∀ t ∈ us, t.Lexed) : ∀ x ∈ xs, Q x := by
  cases xs with
  | nil => simp
  | cons x xs =>
    rw [List.forall_mem_cons] at hitem ⊢
    cases h with
    | some head tail =>
      rw [List.forall_mem_append] at ht
      exact ⟨hitem.1 _ head ht.1, further_wellFormed hitem.2 tail ht.2⟩

end

theorem wellFormedAll_iff : WellFormedAll L es ↔ ∀ e ∈ es, e.WellFormed L := by
  induction es with
  | nil => simp [WellFormedAll]
  | cons e es ih => rw [WellFormedAll, List.forall_mem_cons, ih]

theorem args_wellFormed {es : List Expr}
    (hitem : ∀ e ∈ es, ∀ us, IsExpr us e.bare → (∀ t ∈ us, t.Lexed) → e.WellFormed LiteralText)
    (h : Separated IsExpr us (bareExprs es)) (ht : ∀ t ∈ us, t.Lexed) : WellFormedAll LiteralText es := by
  rw [bareExprs_eq_map] at h
  exact wellFormedAll_iff.mpr (separated_wellFormed hitem h ht)

mutual

theorem expr_wellFormed : (e : Expr) → IsExpr us e.bare → (∀ t ∈ us, t.Lexed) → e.WellFormed LiteralText
  | .literal _ raw, h, ht => by
    cases h with
    | literal raw => exact literal_text raw (ht _ List.mem_cons_self)
  | .var _ label, h, ht => by
    cases h with
    | var label => exact label_text label (ht _ List.mem_cons_self)
  | .binary _ l op r, h, ht => by
    cases h with
    | binary opens left op right closes =>
      simp only [List.cons_append, List.forall_mem_cons, List.forall_mem_append] at ht
      exact ⟨expr_wellFormed l left ht.2.1.1, op, expr_wellFormed r right ht.2.1.2.2⟩
  | .unary _ op e, h, ht => by
    cases h with
    | unary opens op operand closes =>
      simp only [List.cons_append, List.forall_mem_cons, List.forall_mem_append] at ht
      exact ⟨op, expr_wellFormed e operand ht.2.2.1⟩
  | .call _ label es, h, ht => by
    cases h with
    | call label opens args closes =>
      simp only [List.cons_append, List.forall_mem_cons, List.forall_mem_append] at ht
      exact ⟨label_text label ht.1, args_wellFormed (exprs_wellFormed es) args ht.2.2.1⟩

theorem exprs_wellFormed : (es : List Expr) → ∀ e ∈ es, ∀ us, IsExpr us e.bare →
    (∀ t ∈ us, t.Lexed) → e.WellFormed LiteralText
  | [] => by simp
  | e :: es => List.forall_mem_cons.mpr ⟨fun _ => expr_wellFormed e, exprs_wellFormed es⟩

end

mutual

theorem stmt_wellFormed : (s : Stmt) → IsStmt us s.bare → (∀ t ∈ us, t.Lexed) → s.WellFormed LiteralText
  | .assign _ label value, h, ht => by
    cases h with
    | assign label gets hvalue stop =>
      simp only [List.cons_append, List.forall_mem_cons, List.forall_mem_append] at ht
      exact ⟨label_text label ht.1, expr_wellFormed value hvalue ht.2.2.1⟩
  | .cond _ test body none, h, ht => by
    cases h with
    | ifThen opens htest goes hbody ends again stop =>
      simp only [List.cons_append, List.forall_mem_cons, List.forall_mem_append] at ht
      exact ⟨expr_wellFormed test htest ht.2.1.1, block_wellFormed body hbody ht.2.1.2.2⟩
  | .cond _ test body (some alt), h, ht => by
    cases h with
    | ifElse opens htest goes hbody other halt ends again stop =>
      simp only [List.cons_append, List.forall_mem_cons, List.forall_mem_append] at ht
      exact ⟨expr_wellFormed test htest ht.2.1.1.1, block_wellFormed body hbody ht.2.1.1.2.2,
        block_wellFormed alt halt ht.2.1.2.2⟩
  | .loop _ test body, h, ht => by
    cases h with
    | loop opens htest goes hbody ends again stop =>
      simp only [List.cons_append, List.forall_mem_cons, List.forall_mem_append] at ht
      exact ⟨expr_wellFormed test htest ht.2.1.1, block_wellFormed body hbody ht.2.1.2.2⟩
  | .print _ value, h, ht => by
    cases h with
    | print opens hvalue stop =>
      simp only [List.cons_append, List.forall_mem_cons, List.forall_mem_append] at ht
      exact expr_wellFormed value hvalue ht.2.1
  | .printLine _, _, _ => trivial
  | .ret _ none, _, _ => trivial
  | .ret _ (some value), h, ht => by
    cases h with
    | retValue opens hvalue stop =>
      simp only [List.cons_append, List.forall_mem_cons, List.forall_mem_append] at ht
      exact expr_wellFormed value hvalue ht.2.1
  | .call _ label es, h, ht => by
    cases h with
    | call label opens args closes stop =>
      simp only [List.cons_append, List.forall_mem_cons, List.forall_mem_append] at ht
      exact ⟨label_text label ht.1, args_wellFormed (exprs_wellFormed es) args ht.2.2.1⟩

theorem block_wellFormed : (body : List Stmt) → Repeated IsStmt us (bareBlock body) →
    (∀ t ∈ us, t.Lexed) → WellFormedBlock LiteralText body
  | [], _, _ => trivial
  | s :: body, h, ht => by
    cases h with
    | cons head tail =>
      rw [List.forall_mem_append] at ht
      exact ⟨stmt_wellFormed s head ht.1, block_wellFormed body tail ht.2⟩

end

theorem param_wellFormed (v : VarDecl) (us : List Token) (h : IsParam us v.bare)
    (ht : ∀ t ∈ us, t.Lexed) : v.WellFormed := by
  obtain ⟨tok, l, ⟨ty⟩⟩ := v
  cases h with
  | mk label colon =>
    simp only [List.forall_mem_cons] at ht
    exact ⟨label_text label ht.1, _, ht.2.2.1, rfl⟩

theorem varDecl_wellFormed (v : VarDecl) (us : List Token) (h : IsVarDecl us v.bare)
    (ht : ∀ t ∈ us, t.Lexed) : v.WellFormed := by
  cases h with
  | mk param stop =>
    rw [List.forall_mem_append] at ht
    exact param_wellFormed v _ param ht.1

theorem funcDecl_wellFormed (f : FuncDecl) (us : List Token) (h : IsFuncDecl us f.bare)
    (ht : ∀ t ∈ us, t.Lexed) : f.WellFormed LiteralText := by
  obtain ⟨tok, l, params, ⟨result⟩, locals, body⟩ := f
  cases h with
  | mk label opens hparams closes colon is hlocals begins hbody ends stop =>
    simp only [List.cons_append, List.forall_mem_cons, List.forall_mem_append] at ht
    exact ⟨label_text label ht.1,
      separated_wellFormed (fun v _ => param_wellFormed v) hparams ht.2.2.1.1.1,
      ⟨_, ht.2.2.1.1.2.2.2.1, rfl⟩,
      repeated_wellFormed (fun v _ => varDecl_wellFormed v) hlocals ht.2.2.1.1.2.2.2.2.2,
      block_wellFormed body hbody ht.2.2.1.2.2⟩

theorem decl_wellFormed (d : Decl) (us : List Token) (h : IsDecl us d.bare)
    (ht : ∀ t ∈ us, t.Lexed) : d.WellFormed LiteralText := by
  cases d with
  | var v =>
    cases h with
    | var decl => exact varDecl_wellFormed v us decl ht
  | func f =>
    cases h with
    | func decl => exact funcDecl_wellFormed f us decl ht

theorem program_wellFormed {p : Program} (h : IsProgram us p.bare) (ht : ∀ t ∈ us, t.Lexed) :
    p.WellFormed LiteralText := by
  obtain ⟨tok, decls, stmts⟩ := p
  cases h with
  | mk opens hdecls begins hstmts ends stop =>
    simp only [List.cons_append, List.forall_mem_cons, List.forall_mem_append] at ht
    exact ⟨repeated_wellFormed (fun d _ => decl_wellFormed d) hdecls ht.2.1.1,
      block_wellFormed stmts hstmts ht.2.1.2.2⟩

/-- What the front end returns for a source is well formed. -/
theorem parse_wellFormed {p : Program} (h : (Interpreter.parse src opts).result = .ok p) :
    p.WellFormed LiteralText := by
  unfold Interpreter.parse Traced.andThen Interpreter.tokens at h
  cases htokens : tokenize opts.file src with
  | error f =>
    rw [htokens] at h
    cases h
  | ok ts =>
    rw [htokens] at h
    replace h : (parseTokens ts).result = .ok p := h
    have ht : ∀ t ∈ ts, t.Lexed := fun t ht => ⟨opts.file, src, ts, htokens, ht⟩
    cases hparse : parseTokens ts with
    | ok q rest =>
      simp only [hparse, Parsed.result, Except.ok.injEq] at h
      subst h
      exact program_wellFormed (Parser.parseProgram_ok hparse).2 ht
    | fault f rest => simp [hparse, Parsed.result] at h
    | abort why => cases why <;> simp [hparse, Parsed.result] at h

end SplatLang
