import Mathlib
import SplatLang.Proofs.Lexer.Shape
import SplatLang.Proofs.Parser.Sound

/-!
# The parser accepts exactly its grammar

What is derived is accepted, whatever the lookahead meets: a name that a call or a declaration
begins with is told by the token behind it, an operand by its first token, and a block or a list
by the token that closes it. Type names are read without a look, so a symbol or a reserved word
in their place does no harm. The only thing asked of the tokens is that string literals keep
their quotes, which the lexer sees to.

With what is accepted being derived, the parser accepts the grammar exactly, and a list of tokens
has at most one derivation.
-/

namespace SplatLang.Parser

open Grammar

variable {eof : Position} {t : Token} {ts rest us : List Token}

-- ---------------------------------------------------------------------------
-- Texts that open no phrase
-- ---------------------------------------------------------------------------

/-- Whether a text cannot be a name: it is reserved, or does not begin like one. -/
def noLabel (v : String) : Bool :=
  isKeyword v || ! v.toList.head?.any fun c => c = '_' || Text.isLetter c

def noLiteral (v : String) : Bool :=
  v ≠ "true" && v ≠ "false" && v.toList.head? ≠ some '"' && (Text.int32? v).isNone

theorem label_ne (h : IsLabel t) (hv : noLabel v = true) : t.value ≠ v := by
  rintro rfl
  obtain ⟨-, hk, c, cs, hc, hl⟩ := h
  simp only [noLabel, hk, hc, List.head?_cons, Option.any_some, Bool.false_or, Bool.not_eq_true',
    Bool.or_eq_false_iff, decide_eq_false_iff_not] at hv
  simp [hv.1, hv.2] at hl

theorem literal_ne (h : IsLiteral t) (hq : KeepsQuote t) (hv : noLiteral v = true) :
    t.value ≠ v := by
  rintro rfl
  simp only [noLiteral, Bool.and_eq_true, decide_eq_true_eq, Option.isNone_iff_eq_none] at hv
  obtain ⟨⟨⟨htrue, hfalse⟩, hquote⟩, hint⟩ := hv
  rcases h with h | h | h | ⟨-, h⟩
  · exact htrue h
  · exact hfalse h
  · exact hquote (hq h)
  · simp [hint] at h

theorem label_not_literal (h : IsLabel t) : isLiteral t = false := by
  have htrue : t.value ≠ "true" := label_ne h rfl
  have hfalse : t.value ≠ "false" := label_ne h rfl
  simp [isLiteral, htrue, hfalse, h.1]

theorem expr_head (h : IsExpr us e) :
    ∃ t ts, us = t :: ts ∧ (t.value = "(" ∨ IsLiteral t ∨ IsLabel t) := by
  cases h with
  | literal raw => exact ⟨_, _, rfl, .inr (.inl raw)⟩
  | var label => exact ⟨_, _, rfl, .inr (.inr label)⟩
  | unary opens _ _ _ => exact ⟨_, _, rfl, .inl opens⟩
  | binary opens _ _ _ _ => exact ⟨_, _, rfl, .inl opens⟩
  | call label _ _ _ => exact ⟨_, _, rfl, .inr (.inr label)⟩

theorem expr_begins (h : IsExpr us e) (hq : ∀ t ∈ us, KeepsQuote t) (hv : v ≠ "(")
    (hlabel : noLabel v = true) (hliteral : noLiteral v = true) :
    begins v (us ++ rest) = false := by
  obtain ⟨t, ts, rfl, hopen | raw | label⟩ := expr_head h
  · simpa [hopen] using hv.symm
  · simpa using literal_ne raw (hq t List.mem_cons_self) hliteral
  · simpa using label_ne label hlabel

-- ---------------------------------------------------------------------------
-- What is derived is accepted
-- ---------------------------------------------------------------------------

theorem peek_cons : peek eof (t :: ts) = .ok t (t :: ts) := rfl

theorem next_cons : next eof (t :: ts) = .ok t ts := rfl

theorem label_cons (h : IsLabel t) : label eof (t :: ts) = .ok t ts := label_ok.mpr ⟨rfl, h⟩

theorem nextIsUnary_apply (h : begins "not" ts = false) (h' : begins "-" ts = false) :
    nextIsUnary eof ts = .ok false ts := by
  cases ts with
  | nil => rfl
  | cons t ts =>
    simp only [begins_cons, decide_eq_false_iff_not] at h h'
    have hnone : UnaryOp.ofText? t.value = none := by
      unfold UnaryOp.ofText?
      split <;> trivial
    simp [nextIsUnary, hnone]

/-- What comes behind an expression in a list of them does not make a call of it. -/
theorem expr_follow (c : Token) (ts : List Token) (h : c.value = "," ∨ c.value = ")") :
    begins "(" (c :: ts) = false := by
  rcases h with h | h <;> simp [h]

theorem args_complete (hexpr : Complete (parseExpr n) n (begins "(" · = false) Expr.bare IsExpr)
    (hk : k < n) :
    Complete (commaItems (parseExpr n) n) k (begins ")" ·) bareExprs (Separated IsExpr) := by
  rw [funext bareExprs_eq_map]
  exact commaItems_complete hexpr expr_follow
    (fun _ _ _ h hq => expr_begins h hq (by decide) rfl rfl) (Nat.le_of_lt hk) hk

theorem operation_unary (op : t.value ∈ unaryOperators)
    (hx : operand eof (us ++ c :: rest) = .ok x (c :: rest)) (closes : c.value = ")") :
    operation operand eof (t :: (us ++ c :: rest)) = .ok (.unary t t.value x) rest := by
  have hlook : nextIsUnary eof (t :: (us ++ c :: rest)) = .ok true (t :: (us ++ c :: rest)) := by
    simp [nextIsUnary, unary_isSome_iff.mpr op]
  rw [operation, bind_of_ok hlook]
  simp only [if_true]
  rw [bind_of_ok next_cons, bind_of_ok hx, bind_of_ok (expect_cons closes), pure_apply]

theorem operation_binary (hleft : IsExpr us l) (hq : ∀ t ∈ us, KeepsQuote t)
    (hx : operand eof (us ++ t :: (vs ++ c :: rest)) = .ok x (t :: (vs ++ c :: rest)))
    (op : t.value ∈ binaryOperators)
    (hy : operand eof (vs ++ c :: rest) = .ok y (c :: rest)) (closes : c.value = ")") :
    operation operand eof (us ++ t :: (vs ++ c :: rest)) = .ok (.binary t x t.value y) rest := by
  -- The left operand opens with no operator, so the lookahead does not take it for a unary one.
  have hlook : nextIsUnary eof (us ++ t :: (vs ++ c :: rest)) = .ok false _ :=
    nextIsUnary_apply (expr_begins hleft hq (by decide) rfl rfl)
      (expr_begins hleft hq (by decide) rfl rfl)
  rw [operation, bind_of_ok hlook]
  simp only [Bool.false_eq_true, if_false]
  rw [bind_of_ok hx, bind_of_ok next_cons]
  simp only [binary_isSome_iff.mpr op, if_true]
  rw [bind_of_ok hy, bind_of_ok (expect_cons closes), pure_apply]

theorem parseExpr_complete (n : Nat) :
    Complete (parseExpr n) n (begins "(" · = false) Expr.bare IsExpr := by
  -- The induction is on the allowance: every part of an expression has fewer tokens than the
  -- expression, so what is left of the allowance is enough for it.
  induction n with
  | zero =>
    intro eof us y rest h _ hlen _
    obtain ⟨t, ts, rfl, _⟩ := expr_head h
    simp at hlen
  | succ n ih =>
    intro eof us y rest h hq hlen hf
    cases h with
    | @literal t raw =>
      refine ⟨.literal t t.value, ?_, rfl⟩
      have hne : t.value ≠ "(" := literal_ne raw (hq t List.mem_cons_self) rfl
      simp only [List.cons_append, List.nil_append]
      rw [parseExpr, bind_of_ok peek_cons]
      simp only [hne, if_false, isLiteral_iff.mpr raw, if_true]
      rw [bind_of_ok next_cons, pure_apply]
    | @var t label =>
      -- The only place where what follows decides: an opening parenthesis would make a call.
      refine ⟨.var t t.value, ?_, rfl⟩
      have hne : t.value ≠ "(" := label_ne label rfl
      simp only [List.cons_append, List.nil_append]
      rw [parseExpr, bind_of_ok peek_cons]
      simp only [hne, if_false, label_not_literal label, Bool.false_eq_true]
      rw [bind_of_ok secondIs_apply, List.tail_cons, hf]
      simp only [Bool.false_eq_true, if_false]
      rw [bind_of_ok (label_cons label), pure_apply]
    | @unary us e o t c opens op operand closes =>
      simp only [List.cons_append, List.forall_mem_cons, List.forall_mem_append] at hq
      simp only [List.cons_append, List.length_cons, List.length_append] at hlen
      obtain ⟨x, hx, rfl⟩ := ih eof us e (c :: rest) operand hq.2.2.1 (by omega) (by simp [closes])
      refine ⟨.unary t t.value x, ?_, rfl⟩
      simp only [List.cons_append, List.append_assoc, List.nil_append]
      rw [parseExpr, bind_of_ok peek_cons]
      simp only [opens, if_true]
      rw [bind_of_ok (expect_cons opens)]
      exact operation_unary op hx closes
    | @binary us l vs r o t c opens left op right closes =>
      simp only [List.cons_append, List.forall_mem_cons, List.forall_mem_append] at hq
      simp only [List.cons_append, List.length_cons, List.length_append] at hlen
      have hfollow : begins "(" (t :: (vs ++ c :: rest)) = false := by
        simpa using fun h => absurd (h ▸ op) (by decide)
      obtain ⟨x, hx, rfl⟩ := ih eof us l _ left hq.2.1.1 (by omega) hfollow
      obtain ⟨y, hy, rfl⟩ := ih eof vs r (c :: rest) right hq.2.1.2.2 (by omega) (by simp [closes])
      refine ⟨.binary t x t.value y, ?_, rfl⟩
      simp only [List.cons_append, List.append_assoc, List.nil_append]
      rw [parseExpr, bind_of_ok peek_cons]
      simp only [opens, if_true]
      rw [bind_of_ok (expect_cons opens)]
      exact operation_binary left hq.2.1.1 hx op hy closes
    | @call t us es o c label opens args closes =>
      simp only [List.cons_append, List.forall_mem_cons, List.forall_mem_append] at hq
      simp only [List.cons_append, List.length_cons, List.length_append, List.length_nil] at hlen
      obtain ⟨xs, hxs, rfl⟩ := args_complete ih (by omega) eof us es (c :: rest) args hq.2.2.1
        (Nat.le_refl _) (by simp [closes])
      refine ⟨.call t t.value xs, ?_, rfl⟩
      have hne : t.value ≠ "(" := label_ne label rfl
      simp only [List.cons_append, List.append_assoc, List.nil_append]
      rw [parseExpr, bind_of_ok peek_cons]
      simp only [hne, if_false, label_not_literal label, Bool.false_eq_true]
      rw [bind_of_ok secondIs_apply, List.tail_cons, begins_cons]
      simp only [opens, decide_true, if_true]
      rw [bind_of_ok (label_cons label), bind_of_ok (expect_cons opens), bind_of_ok hxs,
        bind_of_ok (expect_cons closes), pure_apply]

theorem exprThenSemicolon_complete (value : IsExpr us e) (hq : ∀ t ∈ us, KeepsQuote t)
    (hlen : us.length ≤ n) (stop : s.value = ";") :
    ∃ x, exprThenSemicolon n eof (us ++ s :: rest) = .ok x rest ∧ x.bare = e := by
  obtain ⟨x, hx, rfl⟩ := parseExpr_complete n eof us e (s :: rest) value hq hlen (by simp [stop])
  refine ⟨x, ?_, rfl⟩
  rw [exprThenSemicolon, bind_of_ok hx, bind_of_ok (expect_cons stop), pure_apply]

theorem blockEnds_cons :
    blockEnds eof (t :: ts) = .ok (t.value = "end" ∨ t.value = "else") (t :: ts) := by
  rw [blockEnds, bind_of_ok atEnd_apply]
  simp only [List.isEmpty_cons, Bool.false_eq_true, if_false]
  rw [bind_of_ok nextIs_apply, begins_cons]
  by_cases h : t.value = "end"
  · simp [h]
  · simp [h, nextIs_apply]

theorem stmt_head (h : IsStmt us s) :
    ∃ t ts, us = t :: ts ∧
      (t.value ∈ ["while", "if", "print_line", "print", "return"] ∨ IsLabel t) := by
  cases h with
  | loop opens _ _ _ _ _ _ => exact ⟨_, _, rfl, .inl (by simp [opens])⟩
  | ifThen opens _ _ _ _ _ _ => exact ⟨_, _, rfl, .inl (by simp [opens])⟩
  | ifElse opens _ _ _ _ _ _ _ _ => exact ⟨_, _, rfl, .inl (by simp [opens])⟩
  | printLine opens _ => exact ⟨_, _, rfl, .inl (by simp [opens])⟩
  | print opens _ _ => exact ⟨_, _, rfl, .inl (by simp [opens])⟩
  | ret opens _ => exact ⟨_, _, rfl, .inl (by simp [opens])⟩
  | retValue opens _ _ => exact ⟨_, _, rfl, .inl (by simp [opens])⟩
  | assign label _ _ _ => exact ⟨_, _, rfl, .inr label⟩
  | call label _ _ _ _ => exact ⟨_, _, rfl, .inr label⟩

theorem stmt_goes_on (eof : Position) (us : List Token) (s : Stmt) (rest : List Token)
    (h : IsStmt us s) : us ≠ [] ∧ blockEnds eof (us ++ rest) = .ok false (us ++ rest) := by
  obtain ⟨t, ts, rfl, hword | label⟩ := stmt_head h
  · refine ⟨List.cons_ne_nil _ _, ?_⟩
    have hne : ∀ v ∈ ["while", "if", "print_line", "print", "return"], v ≠ "end" ∧ v ≠ "else" := by
      decide
    rw [List.cons_append, blockEnds_cons]
    simp [hne _ hword]
  · refine ⟨List.cons_ne_nil _ _, ?_⟩
    have hend : t.value ≠ "end" := label_ne label rfl
    have helse : t.value ≠ "else" := label_ne label rfl
    rw [List.cons_append, blockEnds_cons]
    simp [hend, helse]

def ClosesBlock (rest : List Token) : Prop := ∀ eof, blockEnds eof rest = .ok true rest

def BlockComplete (block : Parser (List Stmt)) (n : Nat) : Prop :=
  Complete block n ClosesBlock bareBlock (Repeated IsStmt)

theorem block_complete (hstmt : Complete (parseStmt n) n (fun _ => True) Stmt.bare IsStmt)
    (hk : k < n) : BlockComplete (itemsUntil blockEnds (parseStmt n) n) k := by
  rw [BlockComplete, funext bareBlock_eq_map]
  exact itemsUntil_complete hstmt stmt_goes_on (Nat.le_of_lt hk) hk

theorem closes_block (h : t.value = "end" ∨ t.value = "else") : ClosesBlock (t :: ts) := by
  simp [ClosesBlock, blockEnds_cons, h]

section

variable {block : Parser (List Stmt)} (hblock : BlockComplete block k) (hk : k ≤ n)

include hblock hk

theorem whileStmt_complete (opens : w.value = "while") (test : IsExpr us e) (goes : d.value = "do")
    (body : Repeated IsStmt vs b) (ends : f.value = "end") (again : g.value = "while")
    (stop : s.value = ";") (hus : ∀ t ∈ us, KeepsQuote t) (hvs : ∀ t ∈ vs, KeepsQuote t)
    (hlen : us.length + vs.length ≤ k) :
    ∃ x, whileStmt block n eof (w :: (us ++ d :: (vs ++ f :: g :: s :: rest))) = .ok x rest ∧
      x.bare = .loop default e b := by
  obtain ⟨x, hx, rfl⟩ := parseExpr_complete n eof us e (d :: (vs ++ f :: g :: s :: rest)) test hus
    (by omega) (by simp [goes])
  obtain ⟨b, hb, rfl⟩ := hblock eof vs b (f :: g :: s :: rest) body hvs (by omega)
    (closes_block (.inl ends))
  refine ⟨.loop w x b, ?_, rfl⟩
  rw [whileStmt, bind_of_ok (expect_cons opens), bind_of_ok hx, bind_of_ok (expect_cons goes),
    bind_of_ok hb, bind_of_ok (expect_cons ends), bind_of_ok (expect_cons again),
    bind_of_ok (expect_cons stop), pure_apply]

/-- A conditional, whatever stands for its else branch. -/
theorem ifStmt_complete (opens : i.value = "if") (test : IsExpr us e) (goes : d.value = "then")
    (body : Repeated IsStmt vs b) (ends : f.value = "end") (again : g.value = "if")
    (stop : s.value = ";") (hus : ∀ t ∈ us, KeepsQuote t) (hvs : ∀ t ∈ vs, KeepsQuote t)
    (hlen : us.length + vs.length ≤ k)
    (hfollow : ClosesBlock (m ++ f :: g :: s :: rest))
    (halt : elseBranch block eof (m ++ f :: g :: s :: rest) = .ok alt (f :: g :: s :: rest)) :
    ∃ x b', x.bare = e ∧ bareBlock b' = b ∧
      ifStmt block n eof (i :: (us ++ d :: (vs ++ (m ++ f :: g :: s :: rest)))) =
        .ok (.cond i x b' alt) rest := by
  obtain ⟨x, hx, rfl⟩ := parseExpr_complete n eof us e (d :: (vs ++ (m ++ f :: g :: s :: rest)))
    test hus (by omega) (by simp [goes])
  obtain ⟨b', hb', rfl⟩ := hblock eof vs b (m ++ f :: g :: s :: rest) body hvs (by omega) hfollow
  refine ⟨x, b', rfl, rfl, ?_⟩
  rw [ifStmt, bind_of_ok (expect_cons opens), bind_of_ok hx, bind_of_ok (expect_cons goes),
    bind_of_ok hb', bind_of_ok halt, bind_of_ok (expect_cons ends),
    bind_of_ok (expect_cons again), bind_of_ok (expect_cons stop), pure_apply]

end

theorem elseBranch_none (h : t.value = "end") :
    elseBranch block eof (t :: ts) = .ok none (t :: ts) := by
  rw [elseBranch, bind_of_ok nextIs_apply]
  simp [h]

theorem elseBranch_some (h : t.value = "else") (ha : block eof ts = .ok a rest) :
    elseBranch block eof (t :: ts) = .ok (some a) rest := by
  rw [elseBranch, bind_of_ok nextIs_apply, begins_cons]
  simp only [h, decide_true, if_true]
  rw [bind_of_ok (expect_cons h), bind_of_ok ha, pure_apply]

theorem returnStmt_complete_none (opens : r.value = "return") (stop : s.value = ";") :
    returnStmt n eof (r :: s :: rest) = .ok (.ret r none) rest := by
  rw [returnStmt, bind_of_ok (expect_cons opens), bind_of_ok nextIs_apply, begins_cons]
  simp only [stop, decide_true, if_true]
  rw [bind_of_ok (expect_cons stop), pure_apply]

theorem returnStmt_complete_some (opens : r.value = "return") (value : IsExpr us e)
    (stop : s.value = ";") (hq : ∀ t ∈ us, KeepsQuote t) (hlen : us.length ≤ n) :
    ∃ x, returnStmt n eof (r :: (us ++ s :: rest)) = .ok x rest ∧
      x.bare = .ret default (some e) := by
  obtain ⟨x, hx, rfl⟩ := exprThenSemicolon_complete value hq hlen stop
  refine ⟨.ret r (some x), ?_, rfl⟩
  rw [returnStmt, bind_of_ok (expect_cons opens), bind_of_ok nextIs_apply,
    expr_begins value hq (by decide) rfl rfl]
  simp only [Bool.false_eq_true, if_false]
  rw [bind_of_ok hx, pure_apply]

theorem namedStmt_complete_assign (label : IsLabel t) (gets : g.value = ":=") (value : IsExpr us e)
    (stop : s.value = ";") (hq : ∀ t ∈ us, KeepsQuote t) (hlen : us.length ≤ n) :
    ∃ x, namedStmt n eof (t :: g :: (us ++ s :: rest)) = .ok x rest ∧
      x.bare = .assign default t.value e := by
  obtain ⟨x, hx, rfl⟩ := exprThenSemicolon_complete value hq hlen stop
  refine ⟨.assign t t.value x, ?_, rfl⟩
  rw [namedStmt, bind_of_ok (label_cons label), bind_of_ok nextIs_apply, begins_cons]
  simp only [gets, decide_true, if_true]
  rw [bind_of_ok (expect_cons gets), bind_of_ok hx, pure_apply]

theorem namedStmt_complete_call (label : IsLabel t) (opens : o.value = "(")
    (args : Separated IsExpr us es) (closes : c.value = ")") (stop : s.value = ";")
    (hq : ∀ t ∈ us, KeepsQuote t) (hlen : us.length < n) :
    ∃ x, namedStmt n eof (t :: o :: (us ++ c :: s :: rest)) = .ok x rest ∧
      x.bare = .call default t.value es := by
  obtain ⟨xs, hxs, rfl⟩ := args_complete (parseExpr_complete n) hlen eof us es (c :: s :: rest) args
    hq (Nat.le_refl _) (by simp [closes])
  refine ⟨.call t t.value xs, ?_, rfl⟩
  rw [namedStmt, bind_of_ok (label_cons label), bind_of_ok nextIs_apply, begins_cons]
  simp only [opens, String.reduceEq, decide_false, Bool.false_eq_true, if_false]
  rw [bind_of_ok nextIs_apply, begins_cons]
  simp only [opens, decide_true, if_true]
  rw [bind_of_ok (expect_cons opens), bind_of_ok hxs, bind_of_ok (expect_cons closes),
    bind_of_ok (expect_cons stop), pure_apply]

-- The first token of a statement selects its parser.

theorem parseStmt_while (opens : t.value = "while") :
    parseStmt (n + 1) eof (t :: ts) =
      whileStmt (itemsUntil blockEnds (parseStmt n) n) n eof (t :: ts) := by
  rw [parseStmt, bind_of_ok peek_cons]
  simp only [opens, if_true]

theorem parseStmt_if (opens : t.value = "if") :
    parseStmt (n + 1) eof (t :: ts) =
      ifStmt (itemsUntil blockEnds (parseStmt n) n) n eof (t :: ts) := by
  rw [parseStmt, bind_of_ok peek_cons]
  simp only [opens, String.reduceEq, if_false, if_true]

theorem parseStmt_printLine (opens : t.value = "print_line") :
    parseStmt (n + 1) eof (t :: ts) = printLineStmt eof (t :: ts) := by
  rw [parseStmt, bind_of_ok peek_cons]
  simp only [opens, String.reduceEq, if_false, if_true]

theorem parseStmt_print (opens : t.value = "print") :
    parseStmt (n + 1) eof (t :: ts) = printStmt n eof (t :: ts) := by
  rw [parseStmt, bind_of_ok peek_cons]
  simp only [opens, String.reduceEq, if_false, if_true]

theorem parseStmt_return (opens : t.value = "return") :
    parseStmt (n + 1) eof (t :: ts) = returnStmt n eof (t :: ts) := by
  rw [parseStmt, bind_of_ok peek_cons]
  simp only [opens, String.reduceEq, if_false, if_true]

theorem parseStmt_label (label : IsLabel t) :
    parseStmt (n + 1) eof (t :: ts) = namedStmt n eof (t :: ts) := by
  have hwhile : t.value ≠ "while" := label_ne label rfl
  have hif : t.value ≠ "if" := label_ne label rfl
  have hline : t.value ≠ "print_line" := label_ne label rfl
  have hprint : t.value ≠ "print" := label_ne label rfl
  have hreturn : t.value ≠ "return" := label_ne label rfl
  rw [parseStmt, bind_of_ok peek_cons]
  simp only [hwhile, hif, hline, hprint, hreturn, if_false]

theorem parseStmt_complete (n : Nat) :
    Complete (parseStmt n) n (fun _ => True) Stmt.bare IsStmt := by
  induction n with
  | zero =>
    intro eof us y rest h hq hlen _
    obtain ⟨t, ts, rfl, _⟩ := stmt_head h
    simp at hlen
  | succ n ih =>
    intro eof us y rest h hq hlen _
    cases h with
    | @loop us e vs b w d f g s opens test goes body ends again stop =>
      simp only [List.cons_append, List.forall_mem_cons, List.forall_mem_append] at hq
      simp only [List.cons_append, List.length_cons, List.length_append, List.length_nil] at hlen
      obtain ⟨x, hx, hbare⟩ := whileStmt_complete (n := n) (block_complete ih (by omega)) (by omega)
        opens test goes body ends again stop hq.2.1.1 hq.2.1.2.2 (Nat.le_refl _)
      refine ⟨x, ?_, hbare⟩
      simp only [List.cons_append, List.append_assoc, List.nil_append]
      rw [parseStmt_while opens, hx]
    | @ifThen us e vs b i d f g s opens test goes body ends again stop =>
      simp only [List.cons_append, List.forall_mem_cons, List.forall_mem_append] at hq
      simp only [List.cons_append, List.length_cons, List.length_append, List.length_nil] at hlen
      obtain ⟨x, b, rfl, rfl, hx⟩ := ifStmt_complete (n := n) (m := [])
        (block_complete ih (by omega)) (by omega) opens test goes body ends again stop
        hq.2.1.1 hq.2.1.2.2 (Nat.le_refl _) (closes_block (.inl ends)) (elseBranch_none ends)
      refine ⟨.cond i x b none, ?_, rfl⟩
      simp only [List.cons_append, List.append_assoc, List.nil_append]
      rw [parseStmt_if opens]
      exact hx
    | @ifElse us e vs b ws a i d o f g s opens test goes body other alt ends again stop =>
      simp only [List.cons_append, List.forall_mem_cons, List.forall_mem_append] at hq
      simp only [List.cons_append, List.length_cons, List.length_append, List.length_nil] at hlen
      have hblock : BlockComplete (itemsUntil blockEnds (parseStmt n) n)
        (us.length + vs.length + ws.length) := block_complete ih (by omega)
      obtain ⟨a, ha, rfl⟩ := hblock eof ws a (f :: g :: s :: rest) alt hq.2.1.2.2 (by omega)
        (closes_block (.inl ends))
      obtain ⟨x, b, rfl, rfl, hx⟩ := ifStmt_complete (n := n) (m := o :: ws)
        hblock (by omega) opens test goes body ends again stop
        hq.2.1.1.1 hq.2.1.1.2.2 (by omega) (closes_block (.inr other)) (elseBranch_some other ha)
      refine ⟨.cond i x b (some a), ?_, rfl⟩
      simp only [List.cons_append, List.append_assoc, List.nil_append]
      rw [parseStmt_if opens]
      exact hx
    | @printLine p s opens stop =>
      refine ⟨.printLine p, ?_, rfl⟩
      simp only [List.cons_append, List.nil_append]
      rw [parseStmt_printLine opens, printLineStmt, bind_of_ok (expect_cons opens),
        bind_of_ok (expect_cons stop), pure_apply]
    | @print us e p s opens value stop =>
      simp only [List.cons_append, List.forall_mem_cons, List.forall_mem_append] at hq
      simp only [List.cons_append, List.length_cons, List.length_append] at hlen
      obtain ⟨x, hx, rfl⟩ := exprThenSemicolon_complete (n := n) value hq.2.1 (by omega) stop
      refine ⟨.print p x, ?_, rfl⟩
      simp only [List.cons_append, List.append_assoc, List.nil_append]
      rw [parseStmt_print opens, printStmt, bind_of_ok (expect_cons opens), bind_of_ok hx,
        pure_apply]
    | @ret r s opens stop =>
      refine ⟨.ret r none, ?_, rfl⟩
      simp only [List.cons_append, List.nil_append]
      rw [parseStmt_return opens, returnStmt_complete_none opens stop]
    | @retValue us e r s opens value stop =>
      simp only [List.cons_append, List.forall_mem_cons, List.forall_mem_append] at hq
      simp only [List.cons_append, List.length_cons, List.length_append] at hlen
      obtain ⟨x, hx, hbare⟩ := returnStmt_complete_some (n := n) opens value stop hq.2.1 (by omega)
      refine ⟨x, ?_, hbare⟩
      simp only [List.cons_append, List.append_assoc, List.nil_append]
      rw [parseStmt_return opens, hx]
    | @assign t us e g s label gets value stop =>
      simp only [List.cons_append, List.forall_mem_cons, List.forall_mem_append] at hq
      simp only [List.cons_append, List.length_cons, List.length_append] at hlen
      obtain ⟨x, hx, hbare⟩ := namedStmt_complete_assign (n := n) label gets value stop hq.2.2.1
        (by omega)
      refine ⟨x, ?_, hbare⟩
      simp only [List.cons_append, List.append_assoc, List.nil_append]
      rw [parseStmt_label label, hx]
    | @call t us es o c s label opens args closes stop =>
      simp only [List.cons_append, List.forall_mem_cons, List.forall_mem_append] at hq
      simp only [List.cons_append, List.length_cons, List.length_append, List.length_nil] at hlen
      obtain ⟨x, hx, hbare⟩ := namedStmt_complete_call (n := n) label opens args closes stop
        hq.2.2.1 (by omega)
      refine ⟨x, ?_, hbare⟩
      simp only [List.cons_append, List.append_assoc, List.nil_append]
      rw [parseStmt_label label, hx]

theorem typeName_cons : typeName eof (t :: ts) = .ok ⟨t.value⟩ ts := typeName_ok.mpr ⟨t, rfl, rfl⟩

theorem parseParam_complete (n : Nat) :
    Complete parseParam n (fun _ => True) VarDecl.bare IsParam := by
  intro eof us y rest h _ _ _
  cases h with
  | @mk t c y label colon =>
    refine ⟨⟨t, t.value, ⟨y.value⟩⟩, ?_, rfl⟩
    simp only [List.cons_append, List.nil_append]
    rw [parseParam, bind_of_ok (label_cons label), bind_of_ok (expect_cons colon),
      bind_of_ok typeName_cons, pure_apply]

theorem parseVarDecl_complete (n : Nat) :
    Complete parseVarDecl n (fun _ => True) VarDecl.bare IsVarDecl := by
  intro eof us y rest h hq hlen _
  cases h with
  | @mk us _ s param stop =>
    rw [List.forall_mem_append] at hq
    rw [List.length_append] at hlen
    obtain ⟨x, hx, rfl⟩ := parseParam_complete n eof us y (s :: rest) param hq.1 (by omega) trivial
    refine ⟨x, ?_, rfl⟩
    rw [List.append_assoc, List.singleton_append, parseVarDecl, bind_of_ok hx,
      bind_of_ok (expect_cons stop), pure_apply]

theorem begin_stops (h : t.value = "begin") (eof : Position) :
    nextIs "begin" eof (t :: ts) = .ok true (t :: ts) := by
  rw [nextIs_apply, begins_cons]
  simp [h]

theorem varDecl_goes_on (eof : Position) (us : List Token) (v : VarDecl) (rest : List Token)
    (h : IsVarDecl us v) : us ≠ [] ∧ nextIs "begin" eof (us ++ rest) = .ok false (us ++ rest) := by
  obtain ⟨⟨label, _⟩, _⟩ := h
  refine ⟨by simp, ?_⟩
  rw [nextIs_apply]
  simpa using label_ne label rfl

theorem params_complete (hk : k < n) :
    Complete (commaItems parseParam n) k (begins ")" ·) (List.map VarDecl.bare)
      (Separated IsParam) := by
  refine commaItems_complete (parseParam_complete n) (fun _ _ _ => trivial) ?_ (Nat.le_of_lt hk) hk
  rintro us v rest ⟨label, _⟩ _
  simpa using label_ne label rfl

theorem parseFuncDecl_complete (hk : k < n) :
    Complete (parseFuncDecl n) k (fun _ => True) FuncDecl.bare IsFuncDecl := by
  intro eof us y rest h hq hlen _
  cases h with
  | @mk t us ps vs ls ws bs o c m y i b e s label opens params closes colon is locals begins body
      ends stop =>
    simp only [List.cons_append, List.forall_mem_cons, List.forall_mem_append] at hq
    simp only [List.cons_append, List.length_cons, List.length_append] at hlen
    obtain ⟨ps, hps, rfl⟩ := params_complete hk eof us ps
      (c :: m :: y :: i :: (vs ++ b :: (ws ++ e :: s :: rest))) params hq.2.2.1.1.1 (by omega)
      (by simp [closes])
    obtain ⟨ls, hls, rfl⟩ := itemsUntil_complete (parseVarDecl_complete n) varDecl_goes_on
      (Nat.le_of_lt hk) hk eof vs ls (b :: (ws ++ e :: s :: rest)) locals
      hq.2.2.1.1.2.2.2.2.2 (by omega) (begin_stops begins)
    obtain ⟨bs, hbs, rfl⟩ := block_complete (parseStmt_complete n) hk eof ws bs (e :: s :: rest)
      body hq.2.2.1.2.2 (by omega) (closes_block (.inl ends))
    refine ⟨⟨t, t.value, ps, ⟨y.value⟩, ls, bs⟩, ?_, rfl⟩
    simp only [List.cons_append, List.append_assoc, List.nil_append]
    rw [parseFuncDecl, bind_of_ok (label_cons label), bind_of_ok (expect_cons opens),
      bind_of_ok hps, bind_of_ok (expect_cons closes), bind_of_ok (expect_cons colon),
      bind_of_ok typeName_cons, bind_of_ok (expect_cons is), bind_of_ok hls,
      bind_of_ok (expect_cons begins), parseBlock, bind_of_ok hbs, bind_of_ok (expect_cons ends),
      bind_of_ok (expect_cons stop), pure_apply]

theorem parseDecl_complete (hk : k < n) :
    Complete (parseDecl n) k (fun _ => True) Decl.bare IsDecl := by
  intro eof us y rest h hq hlen _
  cases h with
  | @var v decl =>
    have hlook : begins ":" (us ++ rest).tail = true := by
      obtain ⟨⟨_, colon⟩, _⟩ := decl
      simpa using colon
    obtain ⟨x, hx, rfl⟩ := parseVarDecl_complete k eof us v rest decl hq hlen trivial
    refine ⟨.var x, ?_, rfl⟩
    rw [parseDecl, bind_of_ok secondIs_apply, hlook]
    simp only [if_true]
    rw [bind_of_ok hx, pure_apply]
  | @func f decl =>
    have hlook : begins ":" (us ++ rest).tail = false ∧ begins "(" (us ++ rest).tail = true := by
      cases decl with
      | mk label opens => simp [opens]
    obtain ⟨x, hx, rfl⟩ := parseFuncDecl_complete hk eof us f rest decl hq hlen trivial
    refine ⟨.func x, ?_, rfl⟩
    rw [parseDecl, bind_of_ok secondIs_apply, hlook.1]
    simp only [Bool.false_eq_true, if_false]
    rw [bind_of_ok secondIs_apply, hlook.2]
    simp only [if_true]
    rw [bind_of_ok hx, pure_apply]

theorem decl_goes_on (eof : Position) (us : List Token) (d : Decl) (rest : List Token)
    (h : IsDecl us d) : us ≠ [] ∧ nextIs "begin" eof (us ++ rest) = .ok false (us ++ rest) := by
  cases h with
  | var decl => exact varDecl_goes_on eof us _ rest decl
  | func decl =>
    obtain ⟨label, _⟩ := decl
    refine ⟨by simp, ?_⟩
    rw [nextIs_apply]
    simpa using label_ne label rfl

theorem parseProgram_complete (h : IsProgram us p) (hq : ∀ t ∈ us, KeepsQuote t)
    (hlen : us.length < n) : ∃ q, parseProgram n eof us = .ok q [] ∧ q.bare = p := by
  cases h with
  | @mk us ds vs ss t b e s opens decls begins stmts ends stop =>
    simp only [List.cons_append, List.forall_mem_cons, List.forall_mem_append] at hq
    simp only [List.cons_append, List.length_cons, List.length_append] at hlen
    have hk : us.length + vs.length < n := by omega
    obtain ⟨ds, hds, rfl⟩ := itemsUntil_complete (parseDecl_complete hk) decl_goes_on
      (Nat.le_refl _) hk eof us ds (b :: (vs ++ [e, s])) decls hq.2.1.1 (by omega)
      (begin_stops begins)
    obtain ⟨ss, hss, rfl⟩ := block_complete (parseStmt_complete n) hk eof vs ss [e, s] stmts
      hq.2.1.2.2 (by omega) (closes_block (.inl ends))
    refine ⟨⟨t, ds, ss⟩, ?_, rfl⟩
    simp only [List.cons_append, List.append_assoc]
    rw [parseProgram, bind_of_ok (expect_cons opens), bind_of_ok hds,
      bind_of_ok (expect_cons begins), parseBlock, bind_of_ok hss, bind_of_ok (expect_cons ends),
      bind_of_ok (expect_cons stop), bind_of_ok atEnd_apply]
    rfl

theorem keepsQuote_of_genuine (h : t.Genuine) : KeepsQuote t := by
  intro hk
  obtain ⟨inside, hcs, _⟩ := h.shape.of_string hk
  rw [hcs]
  rfl

/-- Tokens of a source that derive a program are accepted as that program. -/
theorem parseTokens_complete (h : tokenize file src = .ok ts) (derived : IsProgram ts p) :
    ∃ q, parseTokens ts = .ok q [] ∧ q.bare = p := by
  have hquote : ∀ t ∈ ts, KeepsQuote t := fun t ht =>
    keepsQuote_of_genuine (tokenize_genuine h t ht)
  exact parseProgram_complete derived hquote (Nat.lt_succ_self _)

/-- Tokens of a source are accepted as a program, node tokens apart, if and only if they derive
it, and they derive at most one. -/
theorem parse_iff_derives (h : tokenize file src = .ok ts) (p : Program) :
    ((∃ q rest, parseTokens ts = .ok q rest ∧ q.bare = p.bare) ↔ IsProgram ts p.bare) ∧
      ∀ q r, IsProgram ts q → IsProgram ts r → q = r := by
  refine ⟨⟨?_, ?_⟩, ?_⟩
  · rintro ⟨q, rest, hparse, hbare⟩
    exact hbare ▸ (parseProgram_ok hparse).2
  · intro derived
    obtain ⟨q, hparse, hbare⟩ := parseTokens_complete h derived
    exact ⟨q, [], hparse, hbare⟩
  · -- Both are what the parser returns.
    intro q r hq hr
    obtain ⟨q', hq', rfl⟩ := parseTokens_complete h hq
    obtain ⟨r', hr', rfl⟩ := parseTokens_complete h hr
    rw [hq'] at hr'
    cases hr'
    rfl

def parenthesis : Source := ⟨Text.bytesOf "program x : ) ;\nbegin x := (- 1) ; end ;\n", none⟩

def parenthesisTokens : List Token :=
  [⟨.keyword, "program", ⟨1, 1, ""⟩⟩, ⟨.ident, "x", ⟨1, 9, ""⟩⟩, ⟨.delimiter, ":", ⟨1, 11, ""⟩⟩,
   ⟨.delimiter, ")", ⟨1, 13, ""⟩⟩, ⟨.delimiter, ";", ⟨1, 15, ""⟩⟩, ⟨.keyword, "begin", ⟨2, 1, ""⟩⟩,
   ⟨.ident, "x", ⟨2, 7, ""⟩⟩, ⟨.operator, ":=", ⟨2, 9, ""⟩⟩, ⟨.delimiter, "(", ⟨2, 12, ""⟩⟩,
   ⟨.operator, "-", ⟨2, 13, ""⟩⟩, ⟨.int, "1", ⟨2, 15, ""⟩⟩, ⟨.delimiter, ")", ⟨2, 16, ""⟩⟩,
   ⟨.delimiter, ";", ⟨2, 18, ""⟩⟩, ⟨.keyword, "end", ⟨2, 20, ""⟩⟩, ⟨.delimiter, ";", ⟨2, 24, ""⟩⟩]

def parenthesisProgram : Program :=
  ⟨default, [.var ⟨default, "x", ⟨")"⟩⟩],
    [.assign default "x" (.unary default "-" (.literal default "1"))]⟩

theorem parse_iff_derives_parenthesis :
    tokenize "" parenthesis = .ok parenthesisTokens ∧
      (∃ q rest, parseTokens parenthesisTokens = .ok q rest ∧ q.bare = parenthesisProgram.bare) ∧
      ∀ q, IsProgram parenthesisTokens q → q = parenthesisProgram := by
  have htokens : tokenize "" parenthesis = .ok parenthesisTokens := by cbv
  obtain ⟨hiff, hunique⟩ := parse_iff_derives htokens parenthesisProgram
  have hparse : ∃ q rest, parseTokens parenthesisTokens = .ok q rest ∧
      q.bare = parenthesisProgram.bare := ⟨_, _, rfl, rfl⟩
  exact ⟨htokens, hparse, fun q hq => hunique q _ hq (hiff.mp hparse)⟩

end SplatLang.Parser
