import SplatLang.Proofs.Parser.Blame
import SplatLang.Proofs.Parser.Exact

/-!
# Faults of the parser

Every parsing function puts the blame where it belongs, and the same under a larger allowance. The
functions are first brought into the form that the laws of blame know: what is peeked at or looked
up behind a name becomes a choice by the next token. The exception is a declaration, which is told
by the token behind its name, whether or not the name is one.
-/

namespace SplatLang.Parser

open Grammar

variable {α β : Type} {eof : Position} {t u : Token} {ts us more rest : List Token} {n m : Nat}

-- ---------------------------------------------------------------------------
-- Choices in the form of branches
-- ---------------------------------------------------------------------------

theorem peek_if {test : Token → Prop} [DecidablePred test] {p : Parser α} {g : Token → Parser α} :
    (peek >>= fun t => if test t then p else g t) =
      peek >>= fun _ => branch (Option.any (test ·)) p (peek >>= g) := by
  funext eof ts
  cases ts with
  | nil => rfl
  | cons t ts =>
    rw [bind_of_ok (peek_ok.mpr ⟨rfl, ts, rfl⟩), peek_bind (List.cons_ne_nil t ts), branch]
    by_cases ht : test t
    · simp [ht]
    · simp only [ht, if_false, List.head?_cons, Option.any_some, decide_false, Bool.false_eq_true]
      rw [bind_of_ok (peek_ok.mpr ⟨rfl, ts, rfl⟩)]

theorem next_if {test : Token → Bool} {cause : Token → ParseCause} {k : Token → Parser α} :
    (next >>= fun t => if test t = true then k t else fail (cause t) t.location) =
      require test cause >>= k := by
  funext eof ts
  cases ts with
  | nil => rfl
  | cons t ts =>
    have hnext : next eof (t :: ts) = .ok t ts := rfl
    rw [bind_of_ok hnext]
    by_cases ht : test t = true
    · have hrequire : require test cause eof (t :: ts) = .ok t ts := by
        rw [require, bind_of_ok hnext]
        simp [ht]
      rw [bind_of_ok hrequire]
      simp [ht]
    · have hrequire : require test cause eof (t :: ts) = .fault ⟨cause t, t.location⟩ ts := by
        rw [require, bind_of_ok hnext]
        simp only [ht, Bool.false_eq_true, if_false]
        rfl
      rw [bind_of_fault hrequire]
      simp only [ht, Bool.false_eq_true, if_false]
      rfl

/-- The token behind a name may as well be looked at when the name is read. -/
theorem second_if {k k' : Token → Parser α} :
    (secondIs v >>= fun b => if b = true then label >>= k else label >>= k') =
      label >>= fun t => branch (Option.any (·.value = v)) (k t) (k' t) := by
  funext eof ts
  rw [bind_of_ok secondIs_apply]
  cases ts with
  | nil => rfl
  | cons t ts =>
    cases label_reacts t with
    | takes x phrase run =>
      rw [bind_of_ok (run eof ts), branch, List.tail_cons, begins]
      split
      · rw [bind_of_ok (run eof ts)]
      · rw [bind_of_ok (run eof ts)]
    | refuses cause plain run =>
      rw [bind_of_fault (run eof ts)]
      split
      · rw [bind_of_fault (run eof ts)]
      · rw [bind_of_fault (run eof ts)]
    | stops _ run =>
      rw [bind_of_abort (run eof ts)]
      split
      · rw [bind_of_abort (run eof ts)]
      · rw [bind_of_abort (run eof ts)]

-- ---------------------------------------------------------------------------
-- Expressions
-- ---------------------------------------------------------------------------

theorem expr_completes : Completes (fun us (e : Expr) => IsExpr us e.bare) [] :=
  ⟨[anyName], .var anyName "x", by simpa using anyName_genuine, .var anyName_label⟩

theorem next_guided : Guided next next (Is fun _ => True) Nowhere :=
  .of_token ⟨[anyName], anyName, by simpa using anyName_genuine, rfl, trivial⟩ (fun _ => rfl)
    fun t => .takes t ⟨rfl, trivial⟩ fun _ _ => rfl

theorem nextIsUnary_tells :
    Tells nextIsUnary (Option.any fun t => (UnaryOp.ofText? t.value).isSome) := fun _ _ => rfl

theorem operation_guided {operand operand' : Parser Expr}
    (h : Guided operand operand' (fun us e => IsExpr us e.bare) Nowhere) (o : Token) :
    Guided (operation operand) (operation operand')
      (After (·.value = "(") (fun us e => IsExpr us e.bare) o) Nowhere := by
  have hclose := expect_guided ")"
  have hunary := next_guided.bind fun op => h.bind fun e => hclose.bind fun _ =>
    pure_guided (Expr.unary op op.value e)
  have hop : ∃ t : Token, t.Genuine ∧ (BinaryOp.ofText? t.value).isSome = true := by
    obtain ⟨t, ht, hv⟩ := genuine_of_fixed (v := "+") (by decide)
    exact ⟨t, ht, by rw [hv]; rfl⟩
  have hrequire := require_guided hop fun op =>
    (rfl : (ParseCause.notABinaryOperator op.value).isPlain = true)
  have hbinary := h.bind fun left => hrequire.bind fun op => h.bind fun right =>
    hclose.bind fun _ => pure_guided (Expr.binary op left op.value right)
  simp only [operation, nextIsUnary_tells.branch_eq, next_if]
  refine hunary.branch (hbinary.derives ?_) ?_
  · rintro us e ⟨vs, _, l, rfl, left, _, _, op, rfl, ⟨rfl, hop⟩, ws, _, r, rfl, right, _, _, c, rfl,
      ⟨rfl, closes⟩, rfl, rfl⟩ opens
    simpa [Expr.bare] using IsExpr.binary opens left (binary_isSome_iff.mp hop) right closes
  · rintro us e hhead ⟨_, _, op, rfl, ⟨rfl, -⟩, vs, _, e, rfl, operand, _, _, c, rfl, ⟨rfl, closes⟩,
      rfl, rfl⟩ opens
    have hop := hhead (by simp)
    simp only [List.singleton_append, List.head?_cons, Option.any_some] at hop
    simpa [Expr.bare] using IsExpr.unary opens (unary_isSome_iff.mp hop) operand closes

theorem parseExpr_guided (hn : n ≤ m) :
    Guided (parseExpr n) (parseExpr m) (fun us e => IsExpr us e.bare) Nowhere := by
  induction n generalizing m with
  | zero => exact giveUp_guided expr_completes
  | succ n ih =>
    obtain ⟨m, rfl⟩ : ∃ k, m = k + 1 := ⟨m - 1, by omega⟩
    have hn := Nat.le_of_succ_le_succ hn
    have hparen := (expect_guided "(").after (operation_guided (ih hn))
    have hliteral := next_guided.bind fun t => pure_guided (Expr.literal t t.value)
    simp only [parseExpr, peek_if, second_if]
    refine .peek (hparen.branch (.peek (hliteral.branch (.peek ?_) ?_)) fun _ _ _ => id)
    · refine label_guided.after fun t => ?_
      have hcall := (expect_guided "(").bind fun _ =>
        (commaItems_guided (ih hn) hn).bind fun args => (expect_guided ")").bind fun _ =>
          pure_guided (Expr.call t t.value args)
      refine hcall.branch ((pure_guided (Expr.var t t.value)).derives ?_) ?_
      · rintro us e ⟨rfl, rfl⟩ label
        exact .var label
      · rintro us e - ⟨_, _, o, rfl, ⟨rfl, opens⟩, vs, _, args, rfl, hargs, _, _, c, rfl,
          ⟨rfl, closes⟩, rfl, rfl⟩ label
        simpa [Expr.bare, bareExprs_eq_map] using IsExpr.call label opens hargs.map closes
    · rintro us e hhead ⟨_, _, t, rfl, ⟨rfl, -⟩, rfl, rfl⟩
      have hlit := hhead (by simp)
      simp only [List.singleton_append, List.head?_cons, Option.any_some, decide_eq_true_eq] at hlit
      exact .literal (isLiteral_iff.mp hlit)

-- ---------------------------------------------------------------------------
-- Statements
-- ---------------------------------------------------------------------------

theorem exprThenSemicolon_guided (hn : n ≤ m) :
    Guided (exprThenSemicolon n) (exprThenSemicolon m)
      (fun us e => ∃ vs s, us = vs ++ [s] ∧ IsExpr vs e.bare ∧ s.value = ";") Nowhere := by
  refine ((parseExpr_guided hn).bind fun e => (expect_guided ";").bind fun _ =>
    pure_guided e).derives ?_
  rintro us e ⟨vs, _, _, rfl, value, _, _, s, rfl, ⟨rfl, stop⟩, rfl, rfl⟩
  exact ⟨vs, s, by simp, value, stop⟩

theorem blockEnds_tells :
    Tells blockEnds (Option.all fun t => t.value = "end" ∨ t.value = "else") := by
  intro eof ts
  cases ts with
  | nil => rfl
  | cons t ts => exact blockEnds_cons

theorem block_guided {item item' : Parser Stmt}
    (h : Guided item item' (fun us s => IsStmt us s.bare) Nowhere) (hn : n ≤ m) :
    Guided (itemsUntil blockEnds item n) (itemsUntil blockEnds item' m)
      (fun us b => Repeated IsStmt us (bareBlock b)) Nowhere := by
  refine (itemsUntil_guided blockEnds_tells h hn).derives fun us b hb => ?_
  rw [bareBlock_eq_map]
  exact hb.map

section

variable {block block' : Parser (List Stmt)}
  (hblock : Guided block block' (fun us b => Repeated IsStmt us (bareBlock b)) Nowhere)
  (hn : n ≤ m)

include hblock

theorem elseBranch_guided :
    Guided (elseBranch block) (elseBranch block')
      (fun us alt => us = [] ∧ alt = none ∨
        ∃ o ws a, us = o :: ws ∧ alt = some a ∧ o.value = "else" ∧ Repeated IsStmt ws (bareBlock a))
      Nowhere := by
  have helse := (expect_guided "else").bind fun _ => hblock.bind fun body =>
    pure_guided (some body)
  simp only [elseBranch, (nextIs_tells "else").branch_eq]
  refine helse.branch ((pure_guided none).derives ?_) ?_
  · exact fun us alt h => .inl h
  · rintro us alt - ⟨_, _, o, rfl, ⟨rfl, other⟩, ws, _, a, rfl, body, rfl, rfl⟩
    exact .inr ⟨o, ws, a, by simp, rfl, other, body⟩

include hn

theorem whileStmt_guided :
    Guided (whileStmt block n) (whileStmt block' m) (fun us s => IsStmt us s.bare) Nowhere := by
  refine ((expect_guided "while").bind fun t => (parseExpr_guided hn).bind fun test =>
    (expect_guided "do").bind fun _ => hblock.bind fun body =>
      (expect_guided "end").bind fun _ => (expect_guided "while").bind fun _ =>
        (expect_guided ";").bind fun _ => pure_guided (Stmt.loop t test body)).derives ?_
  rintro us x ⟨_, _, w, rfl, ⟨rfl, opens⟩, us, _, e, rfl, test, _, _, d, rfl, ⟨rfl, goes⟩, vs, _, b,
    rfl, body, _, _, f, rfl, ⟨rfl, ends⟩, _, _, g, rfl, ⟨rfl, again⟩, _, _, s, rfl, ⟨rfl, stop⟩,
    rfl, rfl⟩
  simpa [Stmt.bare] using IsStmt.loop opens test goes body ends again stop

theorem ifStmt_guided :
    Guided (ifStmt block n) (ifStmt block' m) (fun us s => IsStmt us s.bare) Nowhere := by
  refine ((expect_guided "if").bind fun t => (parseExpr_guided hn).bind fun test =>
    (expect_guided "then").bind fun _ => hblock.bind fun body =>
      (elseBranch_guided hblock).bind fun alt => (expect_guided "end").bind fun _ =>
        (expect_guided "if").bind fun _ => (expect_guided ";").bind fun _ =>
          pure_guided (Stmt.cond t test body alt)).derives ?_
  rintro us x ⟨_, _, i, rfl, ⟨rfl, opens⟩, us, _, e, rfl, test, _, _, d, rfl, ⟨rfl, goes⟩, vs, _, b,
    rfl, body, _, _, alt, rfl, ⟨rfl, rfl⟩ | ⟨o, ws, a, rfl, rfl, other, halt⟩, _, _, f, rfl,
    ⟨rfl, ends⟩, _, _, g, rfl, ⟨rfl, again⟩, _, _, s, rfl, ⟨rfl, stop⟩, rfl, rfl⟩
  · simpa [Stmt.bare] using IsStmt.ifThen opens test goes body ends again stop
  · simpa [Stmt.bare] using IsStmt.ifElse opens test goes body other halt ends again stop

end

theorem printLineStmt_guided :
    Guided printLineStmt printLineStmt (fun us s => IsStmt us s.bare) Nowhere := by
  refine ((expect_guided "print_line").bind fun t =>
    (expect_guided ";").bind fun _ => pure_guided (Stmt.printLine t)).derives ?_
  rintro us x ⟨_, _, p, rfl, ⟨rfl, opens⟩, _, _, s, rfl, ⟨rfl, stop⟩, rfl, rfl⟩
  exact .printLine opens stop

section

variable (hn : n ≤ m)

include hn

theorem printStmt_guided :
    Guided (printStmt n) (printStmt m) (fun us s => IsStmt us s.bare) Nowhere := by
  refine ((expect_guided "print").bind fun t =>
    (exprThenSemicolon_guided hn).bind fun e => pure_guided (Stmt.print t e)).derives ?_
  rintro us x ⟨_, _, p, rfl, ⟨rfl, opens⟩, _, _, e, rfl, ⟨us, s, rfl, value, stop⟩, rfl, rfl⟩
  simpa [Stmt.bare] using IsStmt.print opens value stop

theorem returnStmt_guided :
    Guided (returnStmt n) (returnStmt m) (fun us s => IsStmt us s.bare) Nowhere := by
  simp only [returnStmt, (nextIs_tells ";").branch_eq]
  refine (expect_guided "return").after fun t => ?_
  have hnone := (expect_guided ";").bind fun _ => pure_guided (.ret t none : Stmt)
  have hsome := (exprThenSemicolon_guided hn).bind fun e => pure_guided (Stmt.ret t (some e))
  refine hnone.branch (hsome.derives ?_) ?_
  · rintro us x ⟨_, _, e, rfl, ⟨us, s, rfl, value, stop⟩, rfl, rfl⟩ opens
    simpa [Stmt.bare] using IsStmt.retValue opens value stop
  · rintro us x - ⟨_, _, s, rfl, ⟨rfl, stop⟩, rfl, rfl⟩ opens
    exact .ret opens stop

theorem namedStmt_guided :
    Guided (namedStmt n) (namedStmt m) (fun us s => IsStmt us s.bare) Nowhere := by
  simp only [namedStmt, (nextIs_tells ":=").branch_eq, (nextIs_tells "(").branch_eq]
  refine label_guided.after fun t => ?_
  have hassign := (expect_guided ":=").bind fun _ =>
    (exprThenSemicolon_guided hn).bind fun e => pure_guided (Stmt.assign t t.value e)
  have hcall := (expect_guided "(").bind fun _ =>
    (commaItems_guided (parseExpr_guided hn) hn).bind fun args =>
      (expect_guided ")").bind fun _ => (expect_guided ";").bind fun _ =>
        pure_guided (Stmt.call t t.value args)
  have hcall := hcall.derives <| show ∀ us (s : Stmt), _ →
      After IsLabel (fun us s => IsStmt us s.bare) t us s by
    rintro us x ⟨_, _, o, rfl, ⟨rfl, opens⟩, us, _, es, rfl, args, _, _, c, rfl, ⟨rfl, closes⟩,
      _, _, s, rfl, ⟨rfl, stop⟩, rfl, rfl⟩ label
    simpa [Stmt.bare, bareExprs_eq_map] using IsStmt.call label opens args.map closes stop
  -- A name that neither is assigned to nor called can still become either.
  have hrefuse := refuse_guided hcall.productive fun _ =>
    (rfl : ParseCause.notAStatement.isPlain = true)
  refine hassign.branch (hcall.branch hrefuse fun _ _ _ => id) ?_
  rintro us x - ⟨_, _, g, rfl, ⟨rfl, gets⟩, _, _, e, rfl, ⟨us, s, rfl, value, stop⟩, rfl, rfl⟩ label
  simpa [Stmt.bare] using IsStmt.assign label gets value stop

end

theorem parseStmt_guided (hn : n ≤ m) :
    Guided (parseStmt n) (parseStmt m) (fun us s => IsStmt us s.bare) Nowhere := by
  induction n generalizing m with
  | zero => exact giveUp_guided printLineStmt_guided.productive
  | succ n ih =>
    obtain ⟨m, rfl⟩ : ∃ k, m = k + 1 := ⟨m - 1, by omega⟩
    have hn := Nat.le_of_succ_le_succ hn
    have hblock := block_guided (ih hn) hn
    simp only [parseStmt, peek_if]
    exact .peek <| (whileStmt_guided hblock hn).branch (.peek <|
      (ifStmt_guided hblock hn).branch (.peek <| printLineStmt_guided.branch (.peek <|
        (printStmt_guided hn).branch (.peek <| (returnStmt_guided hn).branch
          (.peek <| namedStmt_guided hn) fun _ _ _ => id) fun _ _ _ => id) fun _ _ _ => id)
            fun _ _ _ => id) fun _ _ _ => id

-- ---------------------------------------------------------------------------
-- Declarations
-- ---------------------------------------------------------------------------

instance : LawfulMonad Parser := by
  refine .mk' Parser (fun p => ?_) (fun _ _ => rfl) (fun p f g => ?_)
  · funext eof ts
    show Parser.bind p Parser.pure eof ts = p eof ts
    unfold Parser.bind
    cases p eof ts <;> rfl
  · funext eof ts
    show Parser.bind (Parser.bind p f) g eof ts =
      Parser.bind p (fun a => Parser.bind (f a) g) eof ts
    unfold Parser.bind
    cases p eof ts <;> rfl

/-- Goes on only if the second token passes a test. Otherwise a declaration is missing. -/
def told (test : Token → Bool) (p : Parser α) : Parser α := fun eof ts =>
  if ts.tail.head?.any test then p eof ts
  else (peek >>= fun t => fail (.notADeclaration t.value) t.location) eof ts

/-- A declaration is told by the second token whether it is of one kind or of the other. -/
theorem second_told {k l : Token → Parser α} :
    (secondIs v >>= fun b => if b = true then label >>= k else
      secondIs w >>= fun b => if b = true then label >>= l else
        peek >>= fun t => fail (.notADeclaration t.value) t.location) =
      told (fun u => u.value = v ∨ u.value = w)
        (label >>= fun t => branch (Option.any (·.value = v)) (k t) (l t)) := by
  funext eof ts
  rw [told, ← second_if, bind_of_ok secondIs_apply, bind_of_ok secondIs_apply, begins]
  have hor : ts.tail.head?.any (fun u => u.value = v ∨ u.value = w) =
      (ts.tail.head?.any (·.value = v) || begins w ts.tail) := by
    rw [begins]
    cases ts.tail.head? with
    | none => rfl
    | some u => simp
  rw [hor]
  cases ts.tail.head?.any (·.value = v) with
  | true => rfl
  | false =>
    simp only [Bool.false_or, Bool.false_eq_true, if_false]
    rw [bind_of_ok secondIs_apply]
    cases begins w ts.tail <;> rfl

theorem Guided.told {p p' : Parser α} {L : List Token → α → Prop} (h : Guided p p' L Nowhere)
    (hne : ∀ us x, L us x → us ≠ []) :
    Guided (Parser.told test p) (Parser.told test p') L fun us _ => us = [] where
  productive := h.productive
  took {_ ts _ rest} hp := by
    by_cases htest : ts.tail.head?.any test = true
    · rw [Parser.told, if_pos htest] at hp
      obtain ⟨us, rfl, hus, hagain⟩ := h.took hp
      refine ⟨us, rfl, hus, fun eof' rest' hhead => ?_⟩
      obtain ⟨t, us, rfl⟩ := List.exists_cons_of_ne_nil (hne us _ hus)
      rw [List.cons_append, List.tail_cons, ← head?_append us hhead] at htest
      rw [Parser.told, List.cons_append, List.tail_cons, if_pos htest]
      exact hagain eof' rest' hhead
    · rw [Parser.told, if_neg htest] at hp
      cases ts <;> cases hp
  blames {_ ts _ _} hp := by
    by_cases htest : ts.tail.head?.any test = true
    · rw [Parser.told, if_pos htest] at hp
      -- Where the second token is another one, the declaration is missing, which is a fault too.
      have hdead : ∀ {us}, us ≠ [] → Dead p' us → Dead (Parser.told test p') us := by
        intro us hne hus eof more
        obtain ⟨t, us, rfl⟩ := List.exists_cons_of_ne_nil hne
        rw [Parser.told]
        split
        · exact hus eof more
        · exact ⟨_, _, rfl⟩
      cases h.blames hp with
      | atEnd viable => exact .atEnd viable
      | token plain viable dead => exact .token plain viable (hdead (by simp) dead)
      | decl _ place _ => exact place.elim
    · rw [Parser.told, if_neg htest] at hp
      cases ts with
      | nil =>
        cases hp
        exact .atEnd h.productive
      | cons t ts =>
        cases hp
        have hdead : ∀ u more, ts = u :: more → Dead (Parser.told test p') ([] ++ [t, u]) := by
          rintro u more rfl eof more'
          exact ⟨_, _, if_neg htest⟩
        exact .decl h.productive rfl hdead
  keeps {_ ts _ _} hp := by
    by_cases htest : ts.tail.head?.any test = true
    · rw [Parser.told, if_pos htest] at hp ⊢
      exact h.keeps hp
    · rw [Parser.told, if_neg htest] at hp ⊢
      exact hp
  stops {_ ts} hp := by
    by_cases htest : ts.tail.head?.any test = true
    · rw [Parser.told, if_pos htest] at hp
      obtain ⟨hempty, hagain⟩ := h.stops hp
      refine ⟨hempty, fun eof' more => ?_⟩
      match ts with
      | [] | [_] => cases htest
      | t :: u :: ts => exact (if_pos htest).trans (hagain eof' more)
    · rw [Parser.told, if_neg htest] at hp
      cases ts <;> cases hp

theorem parseParam_guided :
    Guided parseParam parseParam (fun us v => IsParam us v.bare) Nowhere := by
  refine (label_guided.bind fun t => (expect_guided ":").bind fun _ =>
    typeName_guided.bind fun ty => pure_guided (VarDecl.mk t t.value ty)).derives ?_
  rintro us v ⟨_, _, t, rfl, ⟨rfl, label⟩, _, _, c, rfl, ⟨rfl, colon⟩, _, _, _, rfl, ⟨y, rfl, rfl⟩,
    rfl, rfl⟩
  exact .mk label colon

theorem parseVarDecl_guided :
    Guided parseVarDecl parseVarDecl (fun us v => IsVarDecl us v.bare) Nowhere := by
  refine (parseParam_guided.bind fun v => (expect_guided ";").bind fun _ =>
    pure_guided v).derives ?_
  rintro us v ⟨us, _, _, rfl, param, _, _, s, rfl, ⟨rfl, stop⟩, rfl, rfl⟩
  simpa using IsVarDecl.mk param stop

theorem parseVarDecl_bind (f : VarDecl → Parser α) :
    parseVarDecl >>= f = (do
      let t ← label
      let _ ← expect ":"
      let ty ← typeName
      let _ ← expect ";"
      f ⟨t, t.value, ty⟩) := by
  simp only [parseVarDecl, parseParam, bind_assoc, pure_bind]

theorem parseDecl_guided (hn : n ≤ m) :
    Guided (parseDecl n) (parseDecl m) (fun us d => IsDecl us d.bare) fun us _ => us = [] := by
  simp only [parseDecl, parseVarDecl_bind, parseFuncDecl, parseBlock, bind_assoc, pure_bind,
    second_told]
  refine (label_guided.after fun t => ?_).told fun us d h => (decl_goes_on default us _ [] h).1
  have hvar := (expect_guided ":").bind fun _ => typeName_guided.bind fun ty =>
    (expect_guided ";").bind fun _ => pure_guided (.var ⟨t, t.value, ty⟩ : Decl)
  have hfunc := (expect_guided "(").bind fun _ =>
    (commaItems_guided parseParam_guided hn).bind fun params =>
      (expect_guided ")").bind fun _ => (expect_guided ":").bind fun _ =>
        typeName_guided.bind fun result => (expect_guided "is").bind fun _ =>
          (itemsUntil_guided (nextIs_tells "begin") parseVarDecl_guided hn).bind fun locals =>
            (expect_guided "begin").bind fun _ =>
              (block_guided (parseStmt_guided hn) hn).bind fun body =>
                (expect_guided "end").bind fun _ =>
                  (expect_guided ";").bind fun _ =>
                    pure_guided (Decl.func ⟨t, t.value, params, result, locals, body⟩)
  refine hvar.branch (hfunc.derives ?_) ?_
  · rintro us d ⟨_, _, o, rfl, ⟨rfl, opens⟩, us, _, ps, rfl, params, _, _, c, rfl, ⟨rfl, closes⟩, _,
      _, n, rfl, ⟨rfl, colon⟩, _, _, _, rfl, ⟨y, rfl, rfl⟩, _, _, i, rfl, ⟨rfl, is⟩, vs, _, ls, rfl,
      locals, _, _, b, rfl, ⟨rfl, begins⟩, ws, _, bs, rfl, body, _, _, e, rfl, ⟨rfl, ends⟩, _, _, s,
      rfl, ⟨rfl, stop⟩, rfl, rfl⟩ label
    simpa [Decl.bare, FuncDecl.bare] using
      IsDecl.func (.mk label opens params.map closes colon is locals.map begins body ends stop)
  · rintro us d - ⟨_, _, c, rfl, ⟨rfl, colon⟩, _, _, _, rfl, ⟨y, rfl, rfl⟩, _, _, s, rfl,
      ⟨rfl, stop⟩, rfl, rfl⟩ label
    exact .var (.mk (.mk label colon) stop)

-- ---------------------------------------------------------------------------
-- Programs
-- ---------------------------------------------------------------------------

theorem atEnd_tells : Tells atEnd Option.isNone := by
  intro eof ts
  cases ts <;> rfl

theorem parseProgram_decls (h : parseProgram n eof ts = .ok q rest) :
    ∃ w us mid, ts = w :: us ∧
      itemsUntil (nextIs "begin") (parseDecl n) n eof us = .ok q.decls mid := by
  simp only [parseProgram, bind_ok, expect_ok] at h
  obtain ⟨w, us, ⟨rfl, -⟩, ds, mid, hds, -, -, -, ss, -, -, -, -, -, -, -, -, last, _, -, h⟩ := h
  refine ⟨w, us, mid, rfl, ?_⟩
  split at h
  · obtain ⟨rfl, -⟩ := pure_ok.mp h
    exact hds
  · obtain ⟨_, _, _, hfail⟩ := bind_ok.mp h
    exact absurd hfail fail_ok

/-- The tokens `us` are the first word of a program and whole declarations, and if a program goes
on with `t`, this token begins the next declaration. -/
def BeforeDecl (n : Nat) (us : List Token) (t : Token) : Prop :=
  ∃ w vs ds, us = w :: vs ∧ Repeated (fun us d => IsDecl us d.bare) vs ds ∧
    ∀ {eof more q rest}, parseProgram n eof (us ++ t :: more) = .ok q rest →
      ∃ xs ys d ds', more = xs ++ ys ∧ IsDecl (t :: xs) d.bare ∧ q.decls = ds ++ d :: ds'

theorem parseProgram_guided (hn : n ≤ m) :
    Guided (parseProgram n) (parseProgram m) (fun us p => IsProgram us p.bare) (BeforeDecl m) := by
  have hdecls := itemsUntil_guidedAt (nextIs_tells "begin") (parseDecl_guided hn) hn
  have hlast (q : Program) : Guided (branch Option.isNone (pure q)
      (refuse fun t => .afterProgram t.value)) _ (Empty q) Nowhere :=
    (pure_guided q).branch (refuse_guided (pure_guided q).productive fun _ => rfl) fun _ _ _ => id
  have hrest (t : Token) (ds : List Decl) := (expect_guided "begin").bind fun _ =>
    (block_guided (parseStmt_guided hn) hn).bind fun ss => (expect_guided "end").bind
      fun _ => (expect_guided ";").bind fun _ => hlast ⟨t, ds, ss⟩
  have h := (expect_guided "program").bindAt fun t => hdecls.bindAt (hrest t)
  simp only [← atEnd_tells.branch_eq] at h
  refine h.mono ?_ ?_
  · rintro us p ⟨_, _, w, rfl, ⟨rfl, opens⟩, us, _, ds, rfl, decls, _, _, b, rfl, ⟨rfl, begins⟩, vs,
      _, ss, rfl, stmts, _, _, e, rfl, ⟨rfl, ends⟩, _, _, s, rfl, ⟨rfl, stop⟩, rfl, rfl⟩
    simpa [Program.bare] using IsProgram.mk opens decls.map begins stmts ends stop
  · rintro us t (h | ⟨_, _, w, rfl, ⟨rfl, opens⟩, ⟨vs, _, ds, rfl, decls, rfl, hloop⟩ | h, -⟩)
    · exact h.elim
    · refine ⟨w, vs, ds, by simp, decls, fun {eof more q rest} h => ?_⟩
      obtain ⟨_, _, mid, hcons, hds⟩ := parseProgram_decls h
      cases hcons
      obtain ⟨k, d, ds', mid', hd, -, hq⟩ := hloop hds
      obtain ⟨xs, hxs, decl⟩ := parseDecl_sound m hd
      obtain ⟨u, xs, rfl⟩ := List.exists_cons_of_ne_nil (decl_goes_on eof xs d.bare [] decl).1
      cases hxs
      exact ⟨xs, mid', d, ds', rfl, decl, hq⟩
    · obtain ⟨_, _, _, _, _, hnowhere, _⟩ := h
      exact hnowhere.elim

/-- What a program is parsed from is at fault with a token more. -/
theorem parseProgram_closed (hn : n ≤ m) (h : parseProgram n eof ts = .ok q rest)
    (eof' : Position) (t : Token) (more : List Token) :
    ∃ f rest', parseProgram m eof' (ts ++ t :: more) = .fault f rest' := by
  obtain ⟨rfl, -⟩ := parseProgram_ok h
  simp only [parseProgram, bind_ok, expect_ok] at h
  obtain ⟨w, _, ⟨rfl, opens⟩, ds, _, hds, b, _, ⟨rfl, begins⟩, ss, _, hss, e, _, ⟨rfl, ends⟩, s,
    mid, ⟨rfl, stop⟩, last, _, hlast, h⟩ := h
  have hdecls := itemsUntil_guidedAt (nextIs_tells "begin") (parseDecl_guided hn) hn
  obtain ⟨us, rfl, -, hus⟩ := hdecls.took hds
  obtain ⟨vs, rfl, -, hvs⟩ := (block_guided (parseStmt_guided hn) hn).took hss
  rw [List.head?_cons] at hus hvs
  simp only [List.cons_append, List.append_assoc]
  rw [parseProgram, parseBlock, bind_of_ok (expect_cons opens), bind_of_ok (hus eof' (b :: _) rfl),
    bind_of_ok (expect_cons begins), bind_of_ok (hvs eof' (e :: _) rfl),
    bind_of_ok (expect_cons ends), bind_of_ok (expect_cons stop), bind_of_ok atEnd_apply]
  cases mid <;> exact ⟨_, _, rfl⟩

end SplatLang.Parser
