import SplatLang.Proofs.Lexer.Reading
import SplatLang.Proofs.Parser.Exact
import SplatLang.Proofs.Program.WellFormed

/-!
# Rendering is inverted by the front end

The text of a well-formed tree is read as tokens that derive the tree. The proof goes along the
tree and puts the readings of the parts together; every token of a rendered line is followed by
a blank, a parenthesis, a comma or the end of the line, so no two of them run into one.
-/

namespace SplatLang

open Lexer LineReader Grammar Render Text

-- ---------------------------------------------------------------------------
-- Names, types and literals
-- ---------------------------------------------------------------------------

def One (C : Token → Prop) (s : String) (ts : List Token) : Prop :=
  ∃ t, ts = [t] ∧ C t ∧ t.value = s

theorem label_reads {s : String} (h : LabelText s) : Reads s.toList Apart (One IsLabel s) := by
  obtain ⟨⟨c, cs, hs, hfirst⟩, hname, hkey⟩ := h
  have hdigit : c.isDigit = false := by
    rw [Bool.eq_false_iff]
    intro hd
    rcases hfirst with rfl | hletter
    · exact absurd hd (by decide)
    · rw [Text.digit_not_letter hd] at hletter
      exact absurd hletter (by decide)
  have hkind : wordKind (c :: cs) = .ident := by
    rw [wordKind, ← hs, String.ofList_toList, hkey, hs]
    simp [hdigit]
  have hshape : Shape .ident s.toList := by
    rw [hs] at hname ⊢
    exact hkind ▸ .word hname
  refine (reads_shape hshape fun c hc => clean_of_name (hname c hc)).mono ?_
  rintro _ ⟨t, rfl, hk, hv⟩
  rw [String.ofList_toList] at hv
  exact ⟨t, rfl, ⟨hk, hv ▸ hkey, c, cs, hv ▸ hs, hfirst⟩, hv⟩

theorem number_reads {s : String} (h : NumberText s) : Reads s.toList Apart (One IsLiteral s) := by
  obtain ⟨hne, hd, hbound⟩ := h
  have hname : ∀ c ∈ s.toList, isNameChar c = true := fun c hc =>
    digit_is_name (List.all_eq_true.mp hd c hc)
  have hshape : Shape .int s.toList := by
    have hkind : wordKind s.toList = .int := by rw [wordKind, if_pos hd]
    cases hs : s.toList with
    | nil => exact absurd hs hne
    | cons c cs =>
      rw [hs] at hname hkind
      exact hkind ▸ .word hname
  refine (reads_shape hshape fun c hc => clean_of_name (hname c hc)).mono ?_
  rintro _ ⟨t, rfl, hk, hv⟩
  rw [String.ofList_toList] at hv
  refine ⟨t, rfl, .inr (.inr (.inr ⟨hk, ?_⟩)), hv⟩
  rw [hv]
  exact (int32?_of_digits hne hd).mpr hbound

theorem quoted_reads {s : String} (h : QuotedText s) : Reads s.toList Apart (One IsLiteral s) := by
  obtain ⟨inside, hs, hin⟩ := h
  have hshape : Shape .string s.toList := by
    rw [hs]
    exact .string fun c hc => by simp [endsString, hin c hc]
  have hclean : ∀ c ∈ s.toList, c ≠ '\n' ∧ c ≠ '\r' := by
    rw [hs, List.forall_mem_cons, List.forall_mem_append]
    exact ⟨by decide, fun c hc => ⟨(hin c hc).2.2.2, (hin c hc).2.2.1⟩, by simp⟩
  refine (reads_shape hshape hclean).mono ?_
  rintro _ ⟨t, rfl, hk, hv⟩
  rw [String.ofList_toList] at hv
  exact ⟨t, rfl, .inr (.inr (.inl hk)), hv⟩

theorem literal_reads {s : String} (h : LiteralText s) :
    Reads s.toList Apart (One IsLiteral s) := by
  rcases h with rfl | rfl | h | h
  · refine (reads_fixed "true" (by decide)).mono ?_
    rintro _ ⟨t, rfl, hv⟩
    exact ⟨t, rfl, .inl hv, hv⟩
  · refine (reads_fixed "false" (by decide)).mono ?_
    rintro _ ⟨t, rfl, hv⟩
    exact ⟨t, rfl, .inr (.inl hv), hv⟩
  · exact number_reads h
  · exact quoted_reads h

/-- Whatever single token a type is named by, it is read as that token again. -/
theorem type_reads {s : String} (h : TypeText s) : Reads s.toList Apart (Single s) := by
  obtain ⟨t, ht, rfl⟩ := h
  obtain ⟨hshape, hfeed⟩ := ht.genuine
  refine reads_text t.value hshape fun c hc => ⟨?_, ?_⟩
  · rintro rfl
    exact hfeed hc
  · rintro rfl
    exact noReturn_of_shape hshape hc

-- ---------------------------------------------------------------------------
-- Expressions
-- ---------------------------------------------------------------------------

theorem commaJoin_cons (t : String) (rest : List String) :
    commaJoin (t :: rest) = t ++ String.join (rest.map (", " ++ ·)) := by
  induction rest generalizing t with
  | nil => simp [commaJoin]
  | cons u rest ih => simp [commaJoin, ih, String.append_assoc]

theorem further_apart (texts : List String) (rest : List Char) (h : Apart rest) :
    Apart ((String.join (texts.map (", " ++ ·))).toList ++ rest) := by
  cases texts with
  | nil => simpa using h
  | cons t texts =>
    rw [List.map_cons, String.join_cons, String.toList_append, String.toList_append]
    exact apart_cons (by decide) (by decide)

section

variable {text : α → String} {erase : α → α} {P : List Token → α → Prop} {xs : List α}

theorem further_reads (h : ∀ x ∈ xs, Reads (text x).toList Apart fun ts => P ts (erase x)) :
    Reads (String.join ((xs.map text).map (", " ++ ·))).toList Apart
      fun ts => Further P ts (xs.map erase) := by
  induction xs with
  | nil =>
    refine Reads.mono reads_nil ?_
    rintro _ rfl
    exact .nil
  | cons x xs ih =>
    rw [List.forall_mem_cons] at h
    have htext : (String.join (((x :: xs).map text).map (", " ++ ·))).toList =
        ",".toList ++ ' ' :: ((text x).toList ++
          (String.join ((xs.map text).map (", " ++ ·))).toList) := by simp
    rw [htext]
    have hitems := h.1.append (ih h.2) (further_apart _)
    refine ((reads_fixed "," (by decide)).gap hitems).mono ?_
    rintro _ ⟨_, _, rfl, ⟨c, rfl, comma⟩, us, vs, rfl, head, tail⟩
    simpa using Further.cons comma head tail

/-- Items with commas between them. -/
theorem separated_reads (h : ∀ x ∈ xs, Reads (text x).toList Apart fun ts => P ts (erase x)) :
    Reads (commaJoin (xs.map text)).toList Apart fun ts => Separated P ts (xs.map erase) := by
  cases xs with
  | nil =>
    refine Reads.mono reads_nil ?_
    rintro _ rfl
    exact .none
  | cons x xs =>
    rw [List.forall_mem_cons] at h
    rw [List.map_cons, commaJoin_cons, String.toList_append]
    refine (h.1.append (further_reads h.2) (further_apart _)).mono ?_
    rintro _ ⟨us, vs, rfl, head, tail⟩
    exact .some head tail

end

theorem operator_reads (h : op ∈ unaryOperators ∨ op ∈ binaryOperators) :
    Reads op.toList Apart (Single op) := by
  have hunary : ∀ op ∈ unaryOperators, isFixed op = true := by decide
  have hbinary : ∀ op ∈ binaryOperators, isFixed op = true := by decide
  exact reads_fixed op (h.elim (hunary op) (hbinary op))

theorem renderAll_eq_map (es : List Expr) : renderAll es = es.map Expr.render := by
  induction es with
  | nil => rfl
  | cons e es ih => rw [renderAll, ih, List.map_cons]

/-- What stands between a name and the end of its call. -/
theorem call_reads (hlabel : LabelText label)
    (hargs : ∀ e ∈ es, Reads e.render.toList Apart fun ts => IsExpr ts e.bare) :
    Reads (label ++ "(" ++ commaJoin (renderAll es) ++ ")").toList Apart
      (Seq (One IsLabel label) (Seq (Single "(")
        (Seq (fun ts => Separated IsExpr ts (bareExprs es)) (Single ")")))) := by
  have htext : (label ++ "(" ++ commaJoin (renderAll es) ++ ")").toList =
      label.toList ++ '(' :: ((commaJoin (es.map Expr.render)).toList ++ [')']) := by
    simp [renderAll_eq_map]
  rw [htext, bareExprs_eq_map]
  exact (label_reads hlabel).append (separated_reads hargs).closed.opened
    fun _ _ => apart_cons (by decide) (by decide)

mutual

theorem expr_reads : (e : Expr) → e.WellFormed LiteralText →
    Reads e.render.toList Apart fun ts => IsExpr ts e.bare
  | .literal _ raw, h => by
    refine (literal_reads h).mono ?_
    rintro _ ⟨t, rfl, raw, rfl⟩
    exact .literal raw
  | .var _ label, h => by
    refine (label_reads h).mono ?_
    rintro _ ⟨t, rfl, label, rfl⟩
    exact .var label
  | .binary _ l op r, ⟨hl, hop, hr⟩ => by
    have htext : (Expr.binary default l op r).render.toList =
        '(' :: ((l.render.toList ++ ' ' :: (op.toList ++ ' ' :: r.render.toList)) ++ [')']) := by
      simp [Expr.render]
    rw [Expr.render] at htext ⊢
    rw [htext]
    have hparts := (expr_reads l hl).gap ((operator_reads (.inr hop)).gap (expr_reads r hr))
    refine hparts.closed.opened.mono ?_
    rintro _ ⟨_, _, rfl, ⟨o, rfl, opens⟩, _, _, rfl,
      ⟨us, _, rfl, left, _, vs, rfl, ⟨t, rfl, rfl⟩, right⟩, c, rfl, closes⟩
    simpa [Expr.bare] using IsExpr.binary opens left hop right closes
  | .unary _ op e, ⟨hop, he⟩ => by
    have htext : (Expr.unary default op e).render.toList =
        '(' :: ((op.toList ++ ' ' :: e.render.toList) ++ [')']) := by simp [Expr.render]
    rw [Expr.render] at htext ⊢
    rw [htext]
    have hparts := (operator_reads (.inl hop)).gap (expr_reads e he)
    refine hparts.closed.opened.mono ?_
    rintro _ ⟨_, _, rfl, ⟨o, rfl, opens⟩, _, _, rfl, ⟨_, us, rfl, ⟨t, rfl, rfl⟩, operand⟩,
      c, rfl, closes⟩
    simpa [Expr.bare] using IsExpr.unary opens hop operand closes
  | .call _ label es, ⟨hlabel, hargs⟩ => by
    rw [Expr.render]
    refine (call_reads hlabel (exprs_read es hargs)).mono ?_
    rintro _ ⟨_, _, rfl, ⟨t, rfl, label, rfl⟩, _, _, rfl, ⟨o, rfl, opens⟩, us, _, rfl, args,
      c, rfl, closes⟩
    simpa [Expr.bare] using IsExpr.call label opens args closes

theorem exprs_read : (es : List Expr) → WellFormedAll LiteralText es →
    ∀ e ∈ es, Reads e.render.toList Apart fun ts => IsExpr ts e.bare
  | [], _ => by simp
  | e :: es, ⟨he, hes⟩ => List.forall_mem_cons.mpr ⟨expr_reads e he, exprs_read es hes⟩

end

-- ---------------------------------------------------------------------------
-- Statements
-- ---------------------------------------------------------------------------

theorem split_reads {text : String} (h : Reads cs Apart P) (htext : text.toList = cs) :
    ReadsLines (split text) P :=
  readsLines_split (htext ▸ h)

theorem line_reads {text : String} (h : Reads cs Apart P) (htext : text.toList = cs) :
    ReadsLines [text] P :=
  readsLines_line (htext ▸ h)

/-- A text between two words. -/
theorem between_reads (first last : String) (hfirst : isFixed first = true)
    (h : Reads cs Apart P) (hlast : isFixed last = true) :
    Reads (first.toList ++ ' ' :: (cs ++ ' ' :: last.toList)) Apart
      (Seq (Single first) (Seq P (Single last))) :=
  (reads_fixed first hfirst).gap (h.gap (reads_fixed last hlast))

-- In each case the lines are put together first. What was read is then a nest of `Seq` that
-- follows the appends of `lines`, and taking it apart gives the premises of the production.
mutual

theorem stmt_reads : (s : Stmt) → s.WellFormed LiteralText →
    ReadsLines s.lines fun ts => IsStmt ts s.bare
  | .assign _ label value, ⟨hlabel, hvalue⟩ => by
    have hline := (label_reads hlabel).gap
      (between_reads ":=" ";" (by decide) (expr_reads value hvalue) (by decide))
    refine (split_reads hline (by simp)).mono ?_
    rintro _ ⟨_, _, rfl, ⟨t, rfl, label, rfl⟩, _, _, rfl, ⟨g, rfl, gets⟩, us, _, rfl, value,
      s, rfl, stop⟩
    simpa [Stmt.bare] using IsStmt.assign label gets value stop
  | .cond _ test body none, ⟨htest, hbody⟩ => by
    have hhead := between_reads "if" "then" (by decide) (expr_reads test htest) (by decide)
    have hend := between_reads "end" ";" (by decide) (reads_fixed "if" (by decide)) (by decide)
    refine (((split_reads hhead (by simp)).append (block_reads body hbody).indent).append
      (line_reads hend rfl)).mono ?_
    rintro _ ⟨_, _, rfl, ⟨_, vs, rfl, ⟨_, _, rfl, ⟨i, rfl, opens⟩, us, _, rfl, test, d, rfl, goes⟩,
      body⟩, _, _, rfl, ⟨f, rfl, ends⟩, _, _, rfl, ⟨g, rfl, again⟩, s, rfl, stop⟩
    simpa [Stmt.bare] using IsStmt.ifThen opens test goes body ends again stop
  | .cond _ test body (some alt), ⟨htest, hbody, halt⟩ => by
    have hhead := between_reads "if" "then" (by decide) (expr_reads test htest) (by decide)
    have helse := line_reads (reads_fixed "else" (by decide)) rfl
    have hend := between_reads "end" ";" (by decide) (reads_fixed "if" (by decide)) (by decide)
    refine (((((split_reads hhead (by simp)).append (block_reads body hbody).indent).append
      helse).append (block_reads alt halt).indent).append (line_reads hend rfl)).mono ?_
    rintro _ ⟨_, _, rfl, ⟨_, ws, rfl, ⟨_, _, rfl, ⟨_, vs, rfl, ⟨_, _, rfl, ⟨i, rfl, opens⟩, us, _,
      rfl, test, d, rfl, goes⟩, body⟩, o, rfl, other⟩, alt⟩, _, _, rfl, ⟨f, rfl, ends⟩, _, _, rfl,
      ⟨g, rfl, again⟩, s, rfl, stop⟩
    simpa [Stmt.bare] using IsStmt.ifElse opens test goes body other alt ends again stop
  | .loop _ test body, ⟨htest, hbody⟩ => by
    have hhead := between_reads "while" "do" (by decide) (expr_reads test htest) (by decide)
    have hend := between_reads "end" ";" (by decide) (reads_fixed "while" (by decide)) (by decide)
    refine (((split_reads hhead (by simp)).append (block_reads body hbody).indent).append
      (line_reads hend rfl)).mono ?_
    rintro _ ⟨_, _, rfl, ⟨_, vs, rfl, ⟨_, _, rfl, ⟨w, rfl, opens⟩, us, _, rfl, test, d, rfl, goes⟩,
      body⟩, _, _, rfl, ⟨f, rfl, ends⟩, _, _, rfl, ⟨g, rfl, again⟩, s, rfl, stop⟩
    simpa [Stmt.bare] using IsStmt.loop opens test goes body ends again stop
  | .print _ value, hvalue => by
    have hline := between_reads "print" ";" (by decide) (expr_reads value hvalue) (by decide)
    refine (split_reads hline (by simp)).mono ?_
    rintro _ ⟨_, _, rfl, ⟨p, rfl, opens⟩, us, _, rfl, value, s, rfl, stop⟩
    simpa [Stmt.bare] using IsStmt.print opens value stop
  | .printLine _, _ => by
    have hline := (reads_fixed "print_line" (by decide)).gap (reads_fixed ";" (by decide))
    refine (line_reads hline rfl).mono ?_
    rintro _ ⟨_, _, rfl, ⟨p, rfl, opens⟩, s, rfl, stop⟩
    exact .printLine opens stop
  | .ret _ none, _ => by
    have hline := (reads_fixed "return" (by decide)).gap (reads_fixed ";" (by decide))
    refine (line_reads hline rfl).mono ?_
    rintro _ ⟨_, _, rfl, ⟨r, rfl, opens⟩, s, rfl, stop⟩
    exact .ret opens stop
  | .ret _ (some value), hvalue => by
    have hline := between_reads "return" ";" (by decide) (expr_reads value hvalue) (by decide)
    refine (split_reads hline (by simp)).mono ?_
    rintro _ ⟨_, _, rfl, ⟨r, rfl, opens⟩, us, _, rfl, value, s, rfl, stop⟩
    simpa [Stmt.bare] using IsStmt.retValue opens value stop
  | .call _ label es, ⟨hlabel, hargs⟩ => by
    have hline := (call_reads hlabel (exprs_read es hargs)).gap (reads_fixed ";" (by decide))
    refine (split_reads hline (by simp)).mono ?_
    rintro _ ⟨_, _, rfl, ⟨_, _, rfl, ⟨t, rfl, label, rfl⟩, _, _, rfl, ⟨o, rfl, opens⟩, us, _, rfl,
      args, c, rfl, closes⟩, s, rfl, stop⟩
    simpa [Stmt.bare] using IsStmt.call label opens args closes stop

theorem block_reads : (body : List Stmt) → WellFormedBlock LiteralText body →
    ReadsLines (blockLines body) fun ts => Repeated IsStmt ts (bareBlock body)
  | [], _ => by
    refine readsLines_nil.mono ?_
    rintro _ rfl
    exact .nil
  | s :: body, ⟨hs, hbody⟩ => by
    refine ((stmt_reads s hs).append (block_reads body hbody)).mono ?_
    rintro _ ⟨us, vs, rfl, head, tail⟩
    exact .cons head tail

end

-- ---------------------------------------------------------------------------
-- Declarations and programs
-- ---------------------------------------------------------------------------

theorem repeated_reads {lines : α → List String} {erase : α → α} {P : List Token → α → Prop}
    {xs : List α} (h : ∀ x ∈ xs, ReadsLines (lines x) fun ts => P ts (erase x)) :
    ReadsLines (xs.flatMap lines) fun ts => Repeated P ts (xs.map erase) := by
  induction xs with
  | nil =>
    refine readsLines_nil.mono ?_
    rintro _ rfl
    exact .nil
  | cons x xs ih =>
    rw [List.forall_mem_cons] at h
    refine (h.1.append (ih h.2)).mono ?_
    rintro _ ⟨us, vs, rfl, head, tail⟩
    exact .cons head tail

theorem signature_reads {v : VarDecl} (h : v.WellFormed) :
    Reads v.signature.toList Apart fun ts => IsParam ts v.bare := by
  have htext : v.signature.toList =
      v.label.toList ++ ' ' :: (":".toList ++ ' ' :: v.ty.name.toList) := by
    simp [VarDecl.signature]
  rw [htext]
  refine ((label_reads h.1).gap ((reads_fixed ":" (by decide)).gap (type_reads h.2))).mono ?_
  rintro _ ⟨_, _, rfl, ⟨t, rfl, label, hlabel⟩, _, _, rfl, ⟨c, rfl, colon⟩, y, rfl, hty⟩
  simpa [VarDecl.bare, hlabel, hty] using IsParam.mk (y := y) label colon

theorem varDecl_reads {v : VarDecl} (h : v.WellFormed) :
    Reads v.render.toList Apart fun ts => IsVarDecl ts v.bare := by
  have htext : v.render.toList = v.signature.toList ++ ' ' :: ";".toList := by
    simp [VarDecl.render]
  rw [htext]
  refine ((signature_reads h).gap (reads_fixed ";" (by decide))).mono ?_
  rintro _ ⟨us, _, rfl, param, s, rfl, stop⟩
  exact .mk param stop

/-- The line of a function that gives its name, its parameters and its result. -/
theorem funcHead_reads {f : FuncDecl} (hlabel : LabelText f.label)
    (hparams : ∀ v ∈ f.params, v.WellFormed) (hresult : TypeText f.result.name) :
    ReadsLines
      (split (f.label ++ "(" ++ commaJoin (f.params.map VarDecl.signature) ++ ") : " ++
        f.result.name ++ " is"))
      fun ts => ∃ t o us c n y i, ts = t :: o :: us ++ [c, n, y, i] ∧ IsLabel t ∧
        t.value = f.label ∧ o.value = "(" ∧ Separated IsParam us (f.params.map VarDecl.bare) ∧
        c.value = ")" ∧ n.value = ":" ∧ y.value = f.result.name ∧ i.value = "is" := by
  have hclosed := (separated_reads fun v hv => signature_reads (hparams v hv)).closed
  have hresult := between_reads ":" "is" (by decide) (type_reads hresult) (by decide)
  have hline := (label_reads hlabel).append (hclosed.gap hresult).opened
    fun _ _ => apart_cons (by decide) (by decide)
  refine (split_reads hline (by simp)).mono ?_
  rintro _ ⟨_, _, rfl, ⟨t, rfl, label, hname⟩, _, _, rfl, ⟨o, rfl, opens⟩, _, _, rfl,
    ⟨us, _, rfl, params, c, rfl, closes⟩, _, _, rfl, ⟨n, rfl, colon⟩, _, _, rfl, ⟨y, rfl, hty⟩,
    i, rfl, is⟩
  exact ⟨t, o, us, c, n, y, i, by simp, label, hname, opens, params, closes, colon, hty, is⟩

theorem funcDecl_reads {f : FuncDecl} (h : f.WellFormed LiteralText) :
    ReadsLines f.lines fun ts => IsFuncDecl ts f.bare := by
  obtain ⟨hlabel, hparams, hresult, hlocals, hbody⟩ := h
  have hhead := funcHead_reads hlabel hparams hresult
  have hlines : ∀ v ∈ f.locals,
      ReadsLines (split (indent ++ v.render)) fun ts => IsVarDecl ts v.bare := by
    intro v hv
    exact split_reads ((varDecl_reads (hlocals v hv)).indent indent_blank) (by simp)
  have hbegin := line_reads (reads_fixed "begin" (by decide)) rfl
  have hend := (reads_fixed "end" (by decide)).gap (reads_fixed ";" (by decide))
  refine ((((hhead.append (repeated_reads hlines)).append hbegin).append
    (block_reads f.body hbody).indent).append (line_reads hend rfl)).mono ?_
  rintro _ ⟨_, _, rfl, ⟨_, ws, rfl, ⟨_, _, rfl, ⟨_, vs, rfl, head, locals⟩, b, rfl, begins⟩, body⟩,
    _, _, rfl, ⟨e, rfl, ends⟩, s, rfl, stop⟩
  obtain ⟨t, o, us, c, n, y, i, rfl, label, hname, opens, params, closes, colon, hty, is⟩ := head
  have decl :=
    IsFuncDecl.mk (y := y) label opens params closes colon is locals begins body ends stop
  simpa [FuncDecl.bare, hname, hty] using decl

theorem decl_reads (d : Decl) (h : d.WellFormed LiteralText) :
    ReadsLines d.lines fun ts => IsDecl ts d.bare := by
  cases d with
  | var v =>
    refine (readsLines_split (varDecl_reads h)).mono ?_
    exact fun _ decl => .var decl
  | func f =>
    refine (funcDecl_reads h).mono ?_
    exact fun _ decl => .func decl

theorem program_reads (p : Program) (h : p.WellFormed LiteralText) :
    ReadsLines p.lines fun ts => IsProgram ts p.bare := by
  have hprogram := line_reads (reads_fixed "program" (by decide)) rfl
  have hdecls := repeated_reads fun d hd => decl_reads d (h.1 d hd)
  have hbegin := line_reads (reads_fixed "begin" (by decide)) rfl
  have hend := (reads_fixed "end" (by decide)).gap (reads_fixed ";" (by decide))
  refine ((((hprogram.append hdecls.indent).append hbegin).append
    (block_reads p.stmts h.2).indent).append (line_reads hend rfl)).mono ?_
  rintro _ ⟨_, _, rfl, ⟨_, vs, rfl, ⟨_, _, rfl, ⟨_, us, rfl, ⟨t, rfl, opens⟩, decls⟩, b, rfl,
    begins⟩, stmts⟩, _, _, rfl, ⟨e, rfl, ends⟩, s, rfl, stop⟩
  simpa [Program.bare] using IsProgram.mk opens decls begins stmts ends stop

/-- What a well-formed tree renders to is read as the same tree. -/
theorem program_read_back {p : Program} (h : p.WellFormed LiteralText) (file : String) :
    ∃ ts q, tokenize file ⟨Text.bytesOf p.render, none⟩ = .ok ts ∧ parseTokens ts = .ok q [] ∧
      q.bare = p.bare := by
  obtain ⟨ts, derived, htokens⟩ := tokenize_unlines (program_reads p h) file
  obtain ⟨q, hparse, hbare⟩ := Parser.parseTokens_complete htokens derived
  exact ⟨ts, q, htokens, hparse, hbare⟩

end SplatLang
