import SplatLang.Proofs.Operator
import SplatLang.Proofs.Parser.Laws
import SplatLang.Proofs.Tree

/-!
# What the parser accepts is derived

One statement for each parsing function: the tokens it takes from the front derive the tree it
returns, with its tokens taken out. This asks nothing of the tokens, and what the lookahead saw
does not matter, since every word it looks for is read again by `expect`.
-/

namespace SplatLang.Parser

open Grammar

variable {eof : Position} {t : Token} {ts rest us : List Token}

theorem isLiteral_iff : isLiteral t = true ↔ IsLiteral t := by
  simp [isLiteral, IsLiteral, isNumeric, or_assoc]

theorem unary_isSome_iff : (UnaryOp.ofText? s).isSome = true ↔ s ∈ unaryOperators := by
  constructor
  · intro h
    obtain ⟨op, h⟩ := Option.isSome_iff_exists.mp h
    obtain rfl := UnaryOp.ofText?_eq_some_iff.mp h
    cases op <;> decide
  · simp only [unaryOperators, List.mem_cons, List.not_mem_nil, or_false]
    rintro (rfl | rfl) <;> rfl

theorem binary_isSome_iff : (BinaryOp.ofText? s).isSome = true ↔ s ∈ binaryOperators := by
  constructor
  · intro h
    obtain ⟨op, h⟩ := Option.isSome_iff_exists.mp h
    obtain rfl := BinaryOp.ofText?_eq_some_iff.mp h
    rcases op with op | op | op | _ <;> first | decide | (cases op <;> decide)
  · simp only [binaryOperators, List.mem_cons, List.not_mem_nil, or_false]
    rintro (rfl | rfl | rfl | rfl | rfl | rfl | rfl | rfl | rfl | rfl | rfl | rfl) <;> rfl

-- ---------------------------------------------------------------------------
-- What is accepted is derived
-- ---------------------------------------------------------------------------

theorem operation_sound {operand : Parser Expr}
    (hoperand : Sound operand fun us e => IsExpr us e.bare) (opens : o.value = "(")
    (h : operation operand eof ts = .ok x rest) :
    ∃ us, ts = us ++ rest ∧ IsExpr (o :: us) x.bare := by
  obtain ⟨_, mid, hlook, h'⟩ := bind_ok.mp h
  obtain rfl := nextIsUnary_looks hlook
  split at h'
  next hb =>
    simp only [bind_ok, next_ok, expect_ok, pure_ok] at h'
    obtain ⟨op, mid, rfl, e, mid', he, c, mid'', ⟨rfl, closes⟩, rfl, rfl⟩ := h'
    obtain ⟨us, rfl, operand⟩ := hoperand he
    -- The operator itself is read by `next`, so here the lookahead is what vouches for it.
    simp only [nextIsUnary, List.head?_cons, Option.any_some, Parsed.ok.injEq, and_true] at hlook
    have hop := unary_isSome_iff.mp (hlook.trans hb)
    exact ⟨op :: us ++ [c], by simp, .unary opens hop operand closes⟩
  · simp only [bind_ok, next_ok] at h'
    obtain ⟨l, mid, hl, op, mid', rfl, h''⟩ := h'
    obtain ⟨us, rfl, left⟩ := hoperand hl
    split at h''
    next hop =>
      simp only [bind_ok, expect_ok, pure_ok] at h''
      obtain ⟨r, mid, hr, c, mid'', ⟨rfl, closes⟩, rfl, rfl⟩ := h''
      obtain ⟨vs, rfl, right⟩ := hoperand hr
      have hop := binary_isSome_iff.mp hop
      exact ⟨us ++ op :: vs ++ [c], by simp, .binary opens left hop right closes⟩
    · exact absurd h'' fail_ok

theorem parseExpr_sound (n : Nat) : Sound (parseExpr n) fun us e => IsExpr us e.bare := by
  induction n with
  | zero => exact fun h => absurd h giveUp_ok
  | succ n ih =>
    intro eof ts x rest h
    simp only [parseExpr, bind_ok, peek_ok] at h
    obtain ⟨start, mid, ⟨rfl, more, rfl⟩, h⟩ := h
    split at h
    · simp only [bind_ok, expect_ok] at h
      obtain ⟨o, mid, ⟨hts, opens⟩, h⟩ := h
      obtain ⟨us, rfl, he⟩ := operation_sound ih opens h
      exact ⟨o :: us, hts, he⟩
    split at h
    next hlit =>
      simp only [bind_ok, next_ok, pure_ok, List.cons.injEq] at h
      obtain ⟨_, _, ⟨rfl, rfl⟩, rfl, rfl⟩ := h
      exact ⟨[start], rfl, .literal (isLiteral_iff.mp hlit)⟩
    obtain ⟨_, mid, hlook, h⟩ := bind_ok.mp h
    obtain rfl := secondIs_looks hlook
    split at h
    · simp only [bind_ok, label_ok, expect_ok, pure_ok] at h
      obtain ⟨t, _, ⟨hts, hl⟩, o, _, ⟨rfl, opens⟩, args, _, hargs, c, _, ⟨rfl, closes⟩, rfl,
        rfl⟩ := h
      obtain ⟨us, rfl, args⟩ := commaItems_sound ih n hargs
      refine ⟨t :: o :: us ++ [c], by simpa using hts, ?_⟩
      simp only [Expr.bare, bareExprs_eq_map]
      exact .call hl opens args.map closes
    · simp only [bind_ok, label_ok, pure_ok] at h
      obtain ⟨t, _, ⟨hts, hl⟩, rfl, rfl⟩ := h
      exact ⟨[t], hts, .var hl⟩

theorem exprThenSemicolon_ok (h : exprThenSemicolon n eof ts = .ok e rest) :
    ∃ us s, ts = us ++ s :: rest ∧ IsExpr us e.bare ∧ s.value = ";" := by
  simp only [exprThenSemicolon, bind_ok, expect_ok, pure_ok] at h
  obtain ⟨_, _, he, s, _, ⟨rfl, stop⟩, rfl, rfl⟩ := h
  obtain ⟨us, rfl, value⟩ := parseExpr_sound n he
  exact ⟨us, s, rfl, value, stop⟩

theorem block_sound {item : Parser Stmt} (hitem : Sound item fun us s => IsStmt us s.bare)
    (n : Nat) :
    Sound (itemsUntil blockEnds item n) fun us b => Repeated IsStmt us (bareBlock b) := by
  intro eof ts b rest h
  obtain ⟨us, rfl, body⟩ := itemsUntil_sound blockEnds_looks hitem n h
  refine ⟨us, rfl, ?_⟩
  simp only [bareBlock_eq_map]
  exact body.map

section

variable {block : Parser (List Stmt)}
  (hblock : Sound block fun us b => Repeated IsStmt us (bareBlock b))

include hblock

theorem whileStmt_sound : Sound (whileStmt block n) fun us s => IsStmt us s.bare := by
  intro eof ts x rest h
  simp only [whileStmt, bind_ok, expect_ok, pure_ok] at h
  obtain ⟨w, _, ⟨rfl, opens⟩, e, _, he, d, _, ⟨rfl, goes⟩, b, _, hb, f, _, ⟨rfl, ends⟩,
    g, _, ⟨rfl, again⟩, s, _, ⟨rfl, stop⟩, rfl, rfl⟩ := h
  obtain ⟨us, rfl, test⟩ := parseExpr_sound n he
  obtain ⟨vs, rfl, body⟩ := hblock hb
  exact ⟨w :: us ++ d :: vs ++ [f, g, s], by simp, .loop opens test goes body ends again stop⟩

theorem elseBranch_ok (h : elseBranch block eof ts = .ok alt rest) :
    alt = none ∧ ts = rest ∨
      ∃ o ws a, alt = some a ∧ ts = o :: ws ++ rest ∧ o.value = "else" ∧
        Repeated IsStmt ws (bareBlock a) := by
  obtain ⟨_, _, hlook, h'⟩ := bind_ok.mp h
  obtain rfl := nextIs_looks hlook
  split at h'
  · simp only [bind_ok, expect_ok, pure_ok] at h'
    obtain ⟨o, _, ⟨rfl, other⟩, a, _, ha, rfl, rfl⟩ := h'
    obtain ⟨ws, rfl, alt⟩ := hblock ha
    exact .inr ⟨o, ws, a, rfl, rfl, other, alt⟩
  · obtain ⟨rfl, rfl⟩ := pure_ok.mp h'
    exact .inl ⟨rfl, rfl⟩

theorem ifStmt_sound : Sound (ifStmt block n) fun us s => IsStmt us s.bare := by
  intro eof ts x rest h
  simp only [ifStmt, bind_ok, expect_ok, pure_ok] at h
  obtain ⟨i, _, ⟨rfl, opens⟩, e, _, he, d, _, ⟨rfl, goes⟩, b, _, hb, alt, _, halt, f, _,
    ⟨rfl, ends⟩, g, _, ⟨rfl, again⟩, s, _, ⟨rfl, stop⟩, rfl, rfl⟩ := h
  obtain ⟨us, rfl, test⟩ := parseExpr_sound n he
  obtain ⟨vs, rfl, body⟩ := hblock hb
  obtain ⟨rfl, rfl⟩ | ⟨o, ws, a, rfl, rfl, other, alt⟩ := elseBranch_ok hblock halt
  · exact ⟨i :: us ++ d :: vs ++ [f, g, s], by simp, .ifThen opens test goes body ends again stop⟩
  · exact ⟨i :: us ++ d :: vs ++ o :: ws ++ [f, g, s], by simp,
      .ifElse opens test goes body other alt ends again stop⟩

end

theorem printLineStmt_sound : Sound printLineStmt fun us s => IsStmt us s.bare := by
  intro eof ts x rest h
  simp only [printLineStmt, bind_ok, expect_ok, pure_ok] at h
  obtain ⟨p, _, ⟨rfl, opens⟩, s, _, ⟨rfl, stop⟩, rfl, rfl⟩ := h
  exact ⟨[p, s], rfl, .printLine opens stop⟩

theorem printStmt_sound : Sound (printStmt n) fun us s => IsStmt us s.bare := by
  intro eof ts x rest h
  simp only [printStmt, bind_ok, expect_ok, pure_ok] at h
  obtain ⟨p, _, ⟨rfl, opens⟩, e, _, he, rfl, rfl⟩ := h
  obtain ⟨us, s, rfl, value, stop⟩ := exprThenSemicolon_ok he
  exact ⟨p :: us ++ [s], by simp, .print opens value stop⟩

theorem returnStmt_sound : Sound (returnStmt n) fun us s => IsStmt us s.bare := by
  intro eof ts x rest h
  simp only [returnStmt, bind_ok, expect_ok] at h
  obtain ⟨r, _, ⟨rfl, opens⟩, _, _, hlook, h'⟩ := h
  obtain rfl := nextIs_looks hlook
  split at h'
  · simp only [bind_ok, expect_ok, pure_ok] at h'
    obtain ⟨s, _, ⟨rfl, stop⟩, rfl, rfl⟩ := h'
    exact ⟨[r, s], rfl, .ret opens stop⟩
  · simp only [bind_ok, pure_ok] at h'
    obtain ⟨e, _, he, rfl, rfl⟩ := h'
    obtain ⟨us, s, rfl, value, stop⟩ := exprThenSemicolon_ok he
    exact ⟨r :: us ++ [s], by simp, .retValue opens value stop⟩

theorem namedStmt_sound : Sound (namedStmt n) fun us s => IsStmt us s.bare := by
  intro eof ts x rest h
  simp only [namedStmt, bind_ok, label_ok] at h
  obtain ⟨t, _, ⟨rfl, label⟩, _, _, hlook, h'⟩ := h
  obtain rfl := nextIs_looks hlook
  split at h'
  · simp only [bind_ok, expect_ok, pure_ok] at h'
    obtain ⟨g, _, ⟨rfl, gets⟩, e, _, he, rfl, rfl⟩ := h'
    obtain ⟨us, s, rfl, value, stop⟩ := exprThenSemicolon_ok he
    exact ⟨t :: g :: us ++ [s], by simp, .assign label gets value stop⟩
  obtain ⟨_, _, hlook', h''⟩ := bind_ok.mp h'
  obtain rfl := nextIs_looks hlook'
  split at h''
  · simp only [bind_ok, expect_ok, pure_ok] at h''
    obtain ⟨o, _, ⟨rfl, opens⟩, es, _, hes, c, _, ⟨rfl, closes⟩, s, _, ⟨rfl, stop⟩, rfl, rfl⟩ := h''
    obtain ⟨us, rfl, args⟩ := commaItems_sound (parseExpr_sound n) n hes
    refine ⟨t :: o :: us ++ [c, s], by simp, ?_⟩
    simp only [Stmt.bare, bareExprs_eq_map]
    exact .call label opens args.map closes stop
  · simp only [bind_ok] at h''
    obtain ⟨_, _, _, hfail⟩ := h''
    exact absurd hfail fail_ok

theorem parseStmt_sound (n : Nat) : Sound (parseStmt n) fun us s => IsStmt us s.bare := by
  induction n with
  | zero => exact fun h => absurd h giveUp_ok
  | succ n ih =>
    intro eof ts x rest h
    simp only [parseStmt, bind_ok, peek_ok] at h
    obtain ⟨start, _, ⟨rfl, _⟩, h⟩ := h
    split at h
    · exact whileStmt_sound (block_sound ih n) h
    split at h
    · exact ifStmt_sound (block_sound ih n) h
    split at h
    · exact printLineStmt_sound h
    split at h
    · exact printStmt_sound h
    split at h
    · exact returnStmt_sound h
    · exact namedStmt_sound h

theorem parseParam_sound : Sound parseParam fun us v => IsParam us v.bare := by
  intro eof ts x rest h
  simp only [parseParam, bind_ok, label_ok, expect_ok, typeName_ok, pure_ok] at h
  obtain ⟨t, _, ⟨rfl, label⟩, c, _, ⟨rfl, colon⟩, _, _, ⟨y, rfl, rfl⟩, rfl, rfl⟩ := h
  exact ⟨[t, c, y], rfl, .mk label colon⟩

theorem parseVarDecl_sound : Sound parseVarDecl fun us v => IsVarDecl us v.bare := by
  intro eof ts x rest h
  simp only [parseVarDecl, bind_ok, expect_ok, pure_ok] at h
  obtain ⟨v, _, hv, s, _, ⟨rfl, stop⟩, rfl, rfl⟩ := h
  obtain ⟨us, rfl, param⟩ := parseParam_sound hv
  exact ⟨us ++ [s], by simp, .mk param stop⟩

theorem parseFuncDecl_sound (n : Nat) :
    Sound (parseFuncDecl n) fun us f => IsFuncDecl us f.bare := by
  intro eof ts x rest h
  simp only [parseFuncDecl, bind_ok, label_ok, expect_ok, typeName_ok, pure_ok] at h
  obtain ⟨t, _, ⟨rfl, label⟩, o, _, ⟨rfl, opens⟩, ps, _, hps, c, _, ⟨rfl, closes⟩,
    m, _, ⟨rfl, colon⟩, _, _, ⟨y, rfl, rfl⟩, i, _, ⟨rfl, is⟩, ls, _, hls, b, _, ⟨rfl, begins⟩,
    body, _, hbody, e, _, ⟨rfl, ends⟩, s, _, ⟨rfl, stop⟩, rfl, rfl⟩ := h
  obtain ⟨us, rfl, params⟩ := commaItems_sound parseParam_sound n hps
  obtain ⟨vs, rfl, locals⟩ := itemsUntil_sound nextIs_looks parseVarDecl_sound n hls
  obtain ⟨ws, rfl, body⟩ := block_sound (parseStmt_sound n) n hbody
  exact ⟨t :: o :: us ++ c :: m :: y :: i :: vs ++ b :: ws ++ [e, s], by simp,
    .mk label opens params.map closes colon is locals.map begins body ends stop⟩

theorem parseDecl_sound (n : Nat) : Sound (parseDecl n) fun us d => IsDecl us d.bare := by
  intro eof ts x rest h
  obtain ⟨_, _, hlook, h'⟩ := bind_ok.mp h
  obtain rfl := secondIs_looks hlook
  split at h'
  · simp only [bind_ok, pure_ok] at h'
    obtain ⟨v, _, hv, rfl, rfl⟩ := h'
    obtain ⟨us, rfl, decl⟩ := parseVarDecl_sound hv
    exact ⟨us, rfl, .var decl⟩
  obtain ⟨_, _, hlook', h''⟩ := bind_ok.mp h'
  obtain rfl := secondIs_looks hlook'
  split at h''
  · simp only [bind_ok, pure_ok] at h''
    obtain ⟨f, _, hf, rfl, rfl⟩ := h''
    obtain ⟨us, rfl, decl⟩ := parseFuncDecl_sound n hf
    exact ⟨us, rfl, .func decl⟩
  · simp only [bind_ok] at h''
    obtain ⟨_, _, _, hfail⟩ := h''
    exact absurd hfail fail_ok

/-- A program takes all of its tokens. -/
theorem parseProgram_ok (h : parseProgram n eof ts = .ok p rest) :
    rest = [] ∧ IsProgram ts p.bare := by
  simp only [parseProgram, bind_ok, expect_ok] at h
  obtain ⟨t, _, ⟨rfl, opens⟩, ds, _, hds, b, _, ⟨rfl, begins⟩, ss, _, hss, e, _, ⟨rfl, ends⟩,
    s, _, ⟨rfl, stop⟩, last, _, hlook, h'⟩ := h
  obtain ⟨us, rfl, decls⟩ := itemsUntil_sound nextIs_looks (parseDecl_sound n) n hds
  obtain ⟨vs, rfl, stmts⟩ := block_sound (parseStmt_sound n) n hss
  simp only [atEnd, Parsed.ok.injEq] at hlook
  obtain ⟨hlast, rfl⟩ := hlook
  split at h'
  next hend =>
    obtain ⟨rfl, rfl⟩ := pure_ok.mp h'
    obtain rfl := List.isEmpty_iff.mp (hlast.trans hend)
    have program := IsProgram.mk opens decls.map begins stmts ends stop
    simp only [List.append_assoc, List.cons_append] at program
    exact ⟨rfl, program⟩
  · simp only [bind_ok] at h'
    obtain ⟨_, _, _, hfail⟩ := h'
    exact absurd hfail fail_ok

end SplatLang.Parser
