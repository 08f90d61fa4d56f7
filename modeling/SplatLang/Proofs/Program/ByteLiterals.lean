import SplatLang.Proofs.Lexer.Malformed
import SplatLang.Proofs.Program.RoundTrip

/-!
# Literals of any bytes

A tree that is put together by hand may hold literals that are not valid UTF-8. Every other text
of a tree is valid, and in what a tree renders to a literal stands between characters below 128,
so the rendered text is read as that of the tree with its literals repaired. A tree whose literals
need no repair comes back as it was.
-/

namespace SplatLang

open Text Lexer LineReader Render

-- ---------------------------------------------------------------------------
-- Literals
-- ---------------------------------------------------------------------------

def NumberBytes (raw : Bytes) : Prop :=
  raw ≠ [] ∧ (∀ b ∈ raw, 0x30 ≤ b.toNat ∧ b.toNat ≤ 0x39) ∧
    raw.foldl (fun n b => 10 * n + (b.toNat - 0x30)) 0 ≤ 2147483647

/-- Double quotes around bytes none of which is a quote, a backslash, CR or LF. -/
def QuotedBytes (raw : Bytes) : Prop :=
  ∃ inside, raw = 0x22 :: (inside ++ [0x22]) ∧
    ∀ b ∈ inside, b ≠ 0x22 ∧ b ≠ 0x5C ∧ b ≠ 0x0D ∧ b ≠ 0x0A

def LiteralBytes (raw : Bytes) : Prop :=
  raw = bytesOf "true" ∨ raw = bytesOf "false" ∨ NumberBytes raw ∨ QuotedBytes raw

def UnicodeLiteral (raw : Bytes) : Prop := LiteralBytes raw ∧ Valid raw

theorem textOf_bytesOf (s : String) : textOf (bytesOf s) = s := by
  rw [textOf, bytesOf, decode_encode, String.ofList_toList]

theorem bytesOf_textOf (bytes : Bytes) : bytesOf (textOf bytes) = repair bytes := by
  rw [bytesOf, textOf, String.toList_ofList, repair]

theorem repair_valid (h : Valid bytes) : repair bytes = bytes := by
  obtain ⟨cs, rfl⟩ := h
  rw [repair, decode_encode]

theorem decode_ascii (h : ∀ b ∈ bytes, b.toNat < 128) :
    decode bytes = bytes.map fun b => Char.ofNat b.toNat := by
  induction bytes with
  | nil => rfl
  | cons b bytes ih =>
    rw [List.forall_mem_cons] at h
    rw [List.map_cons, ← ih h.2]
    exact decode_append h.1 [] bytes

/-- Digits have the same places in both spellings. -/
theorem ofDigitChars_bytes {raw : Bytes} (h : ∀ b ∈ raw, 0x30 ≤ b.toNat ∧ b.toNat ≤ 0x39) :
    Nat.ofDigitChars 10 (raw.map fun b => Char.ofNat b.toNat) 0 =
      raw.foldl (fun n b => 10 * n + (b.toNat - 0x30)) 0 := by
  rw [Nat.ofDigitChars, List.foldl_map]
  refine List.foldl_ext _ _ _ fun n b hb => ?_
  have hb := h b hb
  rw [toNat_ofNat (by omega)]
  rfl

theorem numberText_textOf (h : NumberBytes raw) : NumberText (textOf raw) := by
  obtain ⟨hne, hdigit, hbound⟩ := h
  have htext : (textOf raw).toList = raw.map fun b => Char.ofNat b.toNat := by
    rw [textOf, String.toList_ofList]
    exact decode_ascii fun b hb => Nat.lt_of_le_of_lt (hdigit b hb).2 (by decide)
  rw [NumberText, htext, ofDigitChars_bytes hdigit]
  refine ⟨by simpa using hne, ?_, hbound⟩
  rw [List.all_map, List.all_eq_true]
  intro b hb
  have hb := hdigit b hb
  have hnat : (Char.ofNat b.toNat).toNat = b.toNat := toNat_ofNat (by omega)
  rw [Function.comp, Char.isDigit_iff_toNat, hnat]
  exact hb

theorem numberBytes_bytesOf (h : NumberText s) : NumberBytes (bytesOf s) := by
  obtain ⟨hne, hdigit, hbound⟩ := h
  -- The bytes are digits, so reading them back gives the characters one by one.
  have hbytes : ∀ b ∈ bytesOf s, 0x30 ≤ b.toNat ∧ b.toNat ≤ 0x39 := by
    intro b hb
    obtain ⟨c, hc, hbc⟩ := List.mem_flatMap.mp hb
    have hrange := Char.isDigit_iff_toNat.mp (List.all_eq_true.mp hdigit c hc)
    have hnine : c.toNat ≤ 0x39 := hrange.2
    have hone := encode_ascii (x := UInt8.ofNat c.toNat) (by rw [toNat_byte] <;> omega)
    rw [toNat_byte (by omega), Char.ofNat_toNat] at hone
    rw [show String.utf8EncodeChar c = [UInt8.ofNat c.toNat] by simpa [encode] using hone,
      List.mem_singleton] at hbc
    rw [hbc, toNat_byte (by omega)]
    exact hrange
  have htext : s.toList = (bytesOf s).map fun b => Char.ofNat b.toNat := by
    rw [← decode_ascii fun b hb => Nat.lt_of_le_of_lt (hbytes b hb).2 (by decide), bytesOf,
      decode_encode]
  rw [htext] at hne hbound
  exact ⟨by simpa using hne, hbytes, ofDigitChars_bytes hbytes ▸ hbound⟩

theorem quotedText_textOf (h : QuotedBytes raw) : QuotedText (textOf raw) := by
  obtain ⟨inside, rfl, hin⟩ := h
  have hopen := decode_append (x := 0x22) (by decide) [] (inside ++ [0x22])
  have hclose := decode_append (x := 0x22) (by decide) inside []
  refine ⟨decode inside, ?_, fun c hc => ?_⟩
  · rw [textOf, String.toList_ofList]
    exact hopen.trans (congrArg ('"' :: ·) hclose)
  · have hbyte {x : Char} (hx : x.toNat < 128) : c = x → UInt8.ofNat x.toNat ∈ inside := by
      rintro rfl
      exact mem_of_mem_decodeFrom hc hx
    refine ⟨fun h => (hin _ (hbyte (by decide) h)).1 rfl,
      fun h => (hin _ (hbyte (by decide) h)).2.1 rfl,
      fun h => (hin _ (hbyte (by decide) h)).2.2.1 rfl,
      fun h => (hin _ (hbyte (by decide) h)).2.2.2 rfl⟩

theorem quotedBytes_bytesOf (h : QuotedText s) : QuotedBytes (bytesOf s) := by
  obtain ⟨inside, hs, hin⟩ := h
  refine ⟨encode inside, ?_, fun b hb => ?_⟩
  · rw [bytesOf, hs, ← List.singleton_append, encode_append, encode_append]
    rfl
  · have hchar {x : UInt8} (hx : x.toNat < 128) : b = x → Char.ofNat x.toNat ∈ inside := by
      rintro rfl
      exact mem_of_mem_encode hb hx
    refine ⟨fun h => (hin _ (hchar (by decide) h)).1 rfl,
      fun h => (hin _ (hchar (by decide) h)).2.1 rfl,
      fun h => (hin _ (hchar (by decide) h)).2.2.1 rfl,
      fun h => (hin _ (hchar (by decide) h)).2.2.2 rfl⟩

theorem literalText_textOf (raw : Bytes) (h : LiteralBytes raw) : LiteralText (textOf raw) := by
  rcases h with rfl | rfl | h | h
  · exact .inl (textOf_bytesOf _)
  · exact .inr (.inl (textOf_bytesOf _))
  · exact .inr (.inr (.inl (numberText_textOf h)))
  · exact .inr (.inr (.inr (quotedText_textOf h)))

theorem unicodeLiteral_bytesOf (s : String) (h : LiteralText s) : UnicodeLiteral (bytesOf s) := by
  refine ⟨?_, s.toList, rfl⟩
  rcases h with rfl | rfl | h | h
  · exact .inl rfl
  · exact .inr (.inl rfl)
  · exact .inr (.inr (.inl (numberBytes_bytesOf h)))
  · exact .inr (.inr (.inr (quotedBytes_bytesOf h)))

-- ---------------------------------------------------------------------------
-- Rendered texts
-- ---------------------------------------------------------------------------

theorem textOf_lead (s : String) (bytes : Bytes) :
    textOf (spell s ++ bytes) = s ++ textOf bytes := by
  have hdecode (cs : List Char) : decode (encode cs ++ bytes) = cs ++ decode bytes := by
    induction cs with
    | nil => rfl
    | cons c cs ih =>
      show decode (String.utf8EncodeChar c ++ encode cs ++ bytes) = _
      rw [List.append_assoc, decode_encode_append, ih, List.cons_append]
  show String.ofList (decode (encode s.toList ++ bytes)) = _
  rw [hdecode, String.ofList_append, String.ofList_toList, textOf]

/-- A text that begins with a character below 128 parts what stands before it from the rest. -/
theorem textOf_parted (hs : s.toList.head?.any (·.toNat < 128) = true) (front rest : Bytes) :
    textOf (front ++ (spell s ++ rest)) = textOf front ++ (s ++ textOf rest) := by
  rw [← textOf_lead]
  cases hcs : s.toList with
  | nil => simp [hcs] at hs
  | cons c cs =>
    have hc : c.toNat < 128 := by simpa [hcs] using hs
    have hx : (UInt8.ofNat c.toNat).toNat < 128 := by rw [toNat_byte] <;> omega
    have hspell : (spell s : Bytes) = UInt8.ofNat c.toNat :: encode cs := by
      have hone := encode_ascii hx
      rw [toNat_byte (by omega), Char.ofNat_toNat] at hone
      show encode s.toList = _
      rw [hcs, ← List.singleton_append, encode_append, hone]
      rfl
    have hfront := decode_append hx [] (encode cs ++ rest)
    rw [List.nil_append] at hfront
    rw [hspell, List.cons_append, textOf, textOf, textOf, decode_append hx, hfront,
      ← String.ofList_append]
    rfl

theorem textOf_closed (hs : s.toList.head?.any (·.toNat < 128) = true) (front : Bytes) :
    textOf (front ++ spell s) = textOf front ++ s := by
  have hparts := textOf_parted hs front []
  rw [List.append_nil] at hparts
  rw [hparts]
  exact congrArg (textOf front ++ ·) String.append_empty

theorem linesOf_line [DecidableEq α] {feed : α} {line : List α} (h : feed ∉ line)
    (rest : List α) : linesOf feed (line ++ feed :: rest) = line :: linesOf feed rest := by
  induction line with
  | nil => simp [linesOf]
  | cons c line ih =>
    rw [List.mem_cons, not_or] at h
    rw [List.cons_append, linesOf, if_neg (Ne.symm h.1), ih h.2]

/-- Lines are cut alike before and after decoding. -/
theorem textOf_split (bytes : Bytes) : (split bytes).map textOf = split (textOf bytes) := by
  have hclean {line : Bytes} (h : lineFeed ∉ line) : '\n' ∉ decode line := fun hmem =>
    h (mem_of_mem_decodeFrom hmem (by decide))
  rw [split_string, textOf, String.toList_ofList]
  show (linesOf lineFeed bytes).map textOf = _
  induction hlen : bytes.length using Nat.strong_induction_on generalizing bytes with
  | _ n ih =>
    by_cases hfeed : lineFeed ∈ bytes
    · obtain ⟨line, rest, rfl, hline⟩ := List.eq_append_cons_of_mem hfeed
      have hdecode : decode (line ++ lineFeed :: rest) = decode line ++ '\n' :: decode rest :=
        decode_append (by decide) line rest
      rw [List.length_append, List.length_cons] at hlen
      rw [linesOf_line hline, hdecode, linesOf_line (hclean hline), List.map_cons, List.map_cons,
        ih rest.length (by omega) rest rfl, textOf]
    · rw [linesOf_of_clean hfeed, linesOf_of_clean (hclean hfeed)]
      rfl

theorem textOf_commaJoin (texts : List Bytes) :
    textOf (commaJoin texts) = commaJoin (texts.map textOf) := by
  fun_induction commaJoin texts with
  | case1 => rfl
  | case2 t => rfl
  | case3 t rest hrest ih =>
    cases rest with
    | nil => exact absurd rfl hrest
    | cons u rest =>
      rw [List.append_assoc, textOf_parted (by decide), ih, ← String.append_assoc]
      rfl

theorem textOf_indentAll (lines : List Bytes) :
    (indentAll lines).map textOf = indentAll (lines.map textOf) := by
  simp only [indentAll, List.map_map, Function.comp_def, textOf_lead, spell_string]

theorem textOf_unlines (lines : List Bytes) :
    textOf (unlines lines) = unlines (lines.map textOf) := by
  induction lines with
  | nil => rfl
  | cons line lines ih =>
    rw [unlines, List.append_assoc, textOf_parted (by decide), ih, ← String.append_assoc]
    rfl

mutual

theorem textOf_render : (e : Expr Bytes) → textOf e.render = (e.mapLiterals textOf).render
  | .literal _ _ => rfl
  | .var _ label => textOf_bytesOf label
  | .binary _ l op r => by
    simp only [Expr.render, Expr.mapLiterals, List.append_assoc, String.append_assoc, textOf_lead]
    rw [textOf_parted (by simp), textOf_closed (by decide), textOf_render l, textOf_render r]
    simp [String.append_assoc]
  | .unary _ op e => by
    simp only [Expr.render, Expr.mapLiterals, List.append_assoc, String.append_assoc, textOf_lead]
    rw [textOf_closed (by decide), textOf_render e]
    simp [String.append_assoc]
  | .call _ label es => by
    simp only [Expr.render, Expr.mapLiterals, List.append_assoc, String.append_assoc, textOf_lead]
    rw [textOf_closed (by decide), textOf_commaJoin, textOf_renderAll es]
    simp [String.append_assoc]

theorem textOf_renderAll :
    (es : List (Expr Bytes)) → (renderAll es).map textOf = renderAll (mapExprs textOf es)
  | [] => rfl
  | e :: es => by
    rw [renderAll, mapExprs, renderAll, List.map_cons, textOf_render e, textOf_renderAll es]

end

/-- A line with an expression in it. -/
theorem textOf_line (first last : String) (e : Expr Bytes)
    (hlast : last.toList.head?.any (·.toNat < 128) = true) :
    (split (spell first ++ e.render ++ spell last)).map textOf =
      split (spell first ++ (e.mapLiterals textOf).render ++ spell last) := by
  rw [textOf_split, List.append_assoc, textOf_lead, textOf_closed hlast, textOf_render,
    ← String.append_assoc]
  rfl

mutual

theorem textOf_lines : (s : Stmt Bytes) → s.lines.map textOf = (s.mapLiterals textOf).lines
  | .assign _ _ value => textOf_line _ _ value (by decide)
  | .cond _ test body none => by
    simp only [Stmt.lines, Stmt.mapLiterals, List.map_append, textOf_indentAll,
      textOf_blockLines body, textOf_line "if " " then" test (by decide)]
    rfl
  | .cond _ test body (some alt) => by
    simp only [Stmt.lines, Stmt.mapLiterals, List.map_append, textOf_indentAll,
      textOf_blockLines body, textOf_blockLines alt, textOf_line "if " " then" test (by decide)]
    rfl
  | .loop _ test body => by
    simp only [Stmt.lines, Stmt.mapLiterals, List.map_append, textOf_indentAll,
      textOf_blockLines body, textOf_line "while " " do" test (by decide)]
    rfl
  | .print _ value => textOf_line _ _ value (by decide)
  | .printLine _ => rfl
  | .ret _ none => rfl
  | .ret _ (some value) => textOf_line _ _ value (by decide)
  | .call _ label es => by
    rw [Stmt.lines, Stmt.mapLiterals, Stmt.lines, textOf_split, List.append_assoc, textOf_lead,
      textOf_closed (by decide), textOf_commaJoin, textOf_renderAll es, ← String.append_assoc]
    rfl

theorem textOf_blockLines :
    (body : List (Stmt Bytes)) → (blockLines body).map textOf = blockLines (mapBlock textOf body)
  | [] => rfl
  | s :: body => by
    rw [blockLines, mapBlock, blockLines, List.map_append, textOf_lines s, textOf_blockLines body]

end

theorem Decl.textOf_lines (d : Decl Bytes) : d.lines.map textOf = (d.mapLiterals textOf).lines := by
  have hsplit (text : String) : (split (spell text : Bytes)).map textOf = split text := by
    rw [textOf_split]
    exact congrArg split (textOf_bytesOf text)
  cases d with
  | var v => exact hsplit v.render
  | func f =>
    simp only [Decl.lines, FuncDecl.lines, Decl.mapLiterals, FuncDecl.mapLiterals, List.map_append,
      List.map_flatMap, hsplit, textOf_indentAll, textOf_blockLines, spell_string]
    rfl

theorem Program.textOf_render (p : Program Bytes) :
    textOf p.render = (p.mapLiterals textOf).render := by
  simp only [Program.render, Program.lines, Program.mapLiterals, textOf_unlines, List.map_append,
    textOf_indentAll, List.map_flatMap, Decl.textOf_lines, List.flatMap_map, textOf_blockLines]
  rfl

-- ---------------------------------------------------------------------------
-- Rendering says nothing of the tokens
-- ---------------------------------------------------------------------------

section

variable [Script ρ]

mutual

theorem render_bare : (e : Expr ρ) → e.bare.render = e.render
  | .literal _ _ => rfl
  | .var _ _ => rfl
  | .binary _ l _ r => by simp only [Expr.bare, Expr.render, render_bare l, render_bare r]
  | .unary _ _ e => by simp only [Expr.bare, Expr.render, render_bare e]
  | .call _ _ es => by simp only [Expr.bare, Expr.render, renderAll_bare es]

theorem renderAll_bare : (es : List (Expr ρ)) → renderAll (bareExprs es) = renderAll es
  | [] => rfl
  | e :: es => by simp only [bareExprs, renderAll, render_bare e, renderAll_bare es]

end

mutual

theorem lines_bare : (s : Stmt ρ) → s.bare.lines = s.lines
  | .assign _ _ value => by simp only [Stmt.bare, Stmt.lines, render_bare value]
  | .cond _ test body none => by
    simp only [Stmt.bare, Stmt.lines, render_bare test, blockLines_bare body]
  | .cond _ test body (some alt) => by
    simp only [Stmt.bare, Stmt.lines, render_bare test, blockLines_bare body, blockLines_bare alt]
  | .loop _ test body => by
    simp only [Stmt.bare, Stmt.lines, render_bare test, blockLines_bare body]
  | .print _ value => by simp only [Stmt.bare, Stmt.lines, render_bare value]
  | .printLine _ => rfl
  | .ret _ none => rfl
  | .ret _ (some value) => by simp only [Stmt.bare, Stmt.lines, render_bare value]
  | .call _ _ es => by simp only [Stmt.bare, Stmt.lines, renderAll_bare es]

theorem blockLines_bare : (body : List (Stmt ρ)) → blockLines (bareBlock body) = blockLines body
  | [] => rfl
  | s :: body => by simp only [bareBlock, blockLines, lines_bare s, blockLines_bare body]

end

theorem Decl.lines_bare (d : Decl ρ) : d.bare.lines = d.lines := by
  cases d with
  | var v => rfl
  | func f =>
    simp only [Decl.bare, Decl.lines, FuncDecl.bare, FuncDecl.lines, List.map_map, List.flatMap_map,
      blockLines_bare]
    rfl

theorem Program.render_bare (p : Program ρ) : p.bare.render = p.render := by
  simp only [Program.render, Program.lines, Program.bare, List.flatMap_map, Decl.lines_bare,
    blockLines_bare]

end

-- ---------------------------------------------------------------------------
-- Literals that need no repair
-- ---------------------------------------------------------------------------

section

variable {f : ρ → σ} {g : σ → ρ} {L : ρ → Prop}

mutual

theorem expr_undone (h : ∀ raw, L raw → g (f raw) = raw) :
    (e : Expr ρ) → e.WellFormed L → (e.mapLiterals f).mapLiterals g = e
  | .literal tok raw, hraw => congrArg (Expr.literal tok) (h raw hraw)
  | .var _ _, _ => rfl
  | .binary _ l _ r, ⟨hl, _, hr⟩ => by
    simp only [Expr.mapLiterals, expr_undone h l hl, expr_undone h r hr]
  | .unary _ _ e, ⟨_, he⟩ => by simp only [Expr.mapLiterals, expr_undone h e he]
  | .call _ _ es, ⟨_, hes⟩ => by simp only [Expr.mapLiterals, exprs_undone h es hes]

theorem exprs_undone (h : ∀ raw, L raw → g (f raw) = raw) :
    (es : List (Expr ρ)) → WellFormedAll L es → mapExprs g (mapExprs f es) = es
  | [], _ => rfl
  | e :: es, ⟨he, hes⟩ => by simp only [mapExprs, expr_undone h e he, exprs_undone h es hes]

end

mutual

theorem stmt_undone (h : ∀ raw, L raw → g (f raw) = raw) :
    (s : Stmt ρ) → s.WellFormed L → (s.mapLiterals f).mapLiterals g = s
  | .assign _ _ value, ⟨_, hvalue⟩ => by simp only [Stmt.mapLiterals, expr_undone h value hvalue]
  | .cond _ test body none, ⟨htest, hbody⟩ => by
    simp only [Stmt.mapLiterals, expr_undone h test htest, block_undone h body hbody]
  | .cond _ test body (some alt), ⟨htest, hbody, halt⟩ => by
    simp only [Stmt.mapLiterals, expr_undone h test htest, block_undone h body hbody,
      block_undone h alt halt]
  | .loop _ test body, ⟨htest, hbody⟩ => by
    simp only [Stmt.mapLiterals, expr_undone h test htest, block_undone h body hbody]
  | .print _ value, hvalue => by simp only [Stmt.mapLiterals, expr_undone h value hvalue]
  | .printLine _, _ => rfl
  | .ret _ none, _ => rfl
  | .ret _ (some value), hvalue => by simp only [Stmt.mapLiterals, expr_undone h value hvalue]
  | .call _ _ es, ⟨_, hes⟩ => by simp only [Stmt.mapLiterals, exprs_undone h es hes]

theorem block_undone (h : ∀ raw, L raw → g (f raw) = raw) :
    (body : List (Stmt ρ)) → WellFormedBlock L body → mapBlock g (mapBlock f body) = body
  | [], _ => rfl
  | s :: body, ⟨hs, hbody⟩ => by
    simp only [mapBlock, stmt_undone h s hs, block_undone h body hbody]

end

theorem Program.undone {p : Program ρ} (h : ∀ raw, L raw → g (f raw) = raw) (hp : p.WellFormed L) :
    (p.mapLiterals f).mapLiterals g = p := by
  obtain ⟨tok, decls, stmts⟩ := p
  have hdecl : ∀ d ∈ decls, (Decl.mapLiterals g ∘ Decl.mapLiterals f) d = id d := by
    intro d hd
    have hd := hp.1 d hd
    cases d with
    | var v => rfl
    | func d =>
      obtain ⟨-, -, -, -, hbody⟩ := hd
      simp only [Function.comp, id, Decl.mapLiterals, FuncDecl.mapLiterals,
        block_undone h d.body hbody]
  simp only [Program.mapLiterals, List.map_map, block_undone h stmts hp.2]
  rw [List.map_congr_left hdecl, List.map_id]

end

-- ---------------------------------------------------------------------------
-- Reading a rendered tree
-- ---------------------------------------------------------------------------

theorem bytes_read_back {p : Program Bytes} (h : p.WellFormed LiteralBytes) (file : String) :
    ∃ ts q, tokenize file ⟨p.render, none⟩ = .ok ts ∧ parseTokens ts = .ok q [] ∧
      q.bare = (p.mapLiterals textOf).bare := by
  have hback := program_read_back (h.mapLiterals literalText_textOf) file
  rw [← Program.textOf_render, bytesOf_textOf, tokenize_repair] at hback
  exact hback

theorem Program.bare_repaired {p : Program Bytes} {q : Program}
    (h : q.bare = (p.mapLiterals textOf).bare) :
    (q.mapLiterals bytesOf).bare = ((p.mapLiterals textOf).mapLiterals bytesOf).bare := by
  rw [Program.bare_mapLiterals, h, ← Program.bare_mapLiterals]

/-- Every tree that comes from a source is well formed, and its literals are valid UTF-8. What a
well-formed tree renders to comes back as the tree with its literals repaired, node tokens apart:
so a tree with valid literals comes back as it was, and rendering it once more changes nothing. -/
theorem front_end_inverts_render :
    (∀ (src : Source) (opts : Options) (p : Program),
      (Interpreter.parse src opts).result = .ok p →
        (p.mapLiterals bytesOf).WellFormed UnicodeLiteral) ∧
    ∀ (file : String) (p : Program Bytes), p.WellFormed LiteralBytes →
      ∃ ts q, tokenize file ⟨p.render, none⟩ = .ok ts ∧ parseTokens ts = .ok q [] ∧
        q.bare = (p.mapLiterals textOf).bare ∧
        (p.WellFormed UnicodeLiteral →
          (q.mapLiterals bytesOf).bare = p.bare ∧ (q.mapLiterals bytesOf).render = p.render) := by
  refine ⟨fun src opts p h => (parse_wellFormed h).mapLiterals unicodeLiteral_bytesOf, ?_⟩
  intro file p h
  obtain ⟨ts, q, htokens, hparse, hbare⟩ := bytes_read_back h file
  refine ⟨ts, q, htokens, hparse, hbare, fun hvalid => ?_⟩
  have hrepair (raw : Bytes) (hraw : UnicodeLiteral raw) : bytesOf (textOf raw) = raw := by
    rw [bytesOf_textOf, repair_valid hraw.2]
  have hsame : (q.mapLiterals bytesOf).bare = p.bare := by
    rw [Program.bare_repaired hbare, Program.undone hrepair hvalid]
  refine ⟨hsame, ?_⟩
  rw [← Program.render_bare, hsame, Program.render_bare]

def signTypes : Source :=
  ⟨bytesOf "program f(a : =) : := is begin if a then\nelse end if ; end ; begin print \"b\" ; end ;",
    none⟩

def signTypesProgram : Program :=
  ⟨⟨.keyword, "program", ⟨1, 1, ""⟩⟩,
    [.func
      ⟨⟨.ident, "f", ⟨1, 9, ""⟩⟩, "f", [⟨⟨.ident, "a", ⟨1, 11, ""⟩⟩, "a", ⟨"="⟩⟩], ⟨":="⟩, [],
        [.cond ⟨.keyword, "if", ⟨1, 32, ""⟩⟩ (.var ⟨.ident, "a", ⟨1, 35, ""⟩⟩ "a") [] (some [])]⟩],
    [.print ⟨.keyword, "print", ⟨2, 27, ""⟩⟩
      (.literal ⟨.string, "\"b\"", ⟨2, 33, ""⟩⟩ "\"b\"")]⟩

theorem front_end_inverts_render_signTypes :
    (Interpreter.parse signTypes {}).result = .ok signTypesProgram ∧
      (signTypesProgram.mapLiterals bytesOf).WellFormed UnicodeLiteral ∧
      ∃ ts q, tokenize "" ⟨(signTypesProgram.mapLiterals bytesOf).render, none⟩ = .ok ts ∧
        parseTokens ts = .ok q [] ∧
        (q.mapLiterals bytesOf).bare = (signTypesProgram.mapLiterals bytesOf).bare ∧
        (q.mapLiterals bytesOf).render = (signTypesProgram.mapLiterals bytesOf).render := by
  have hparse : (Interpreter.parse signTypes {}).result = .ok signTypesProgram := by cbv
  have hvalid := front_end_inverts_render.1 signTypes {} signTypesProgram hparse
  have hwell := (parse_wellFormed hparse).mapLiterals fun s hs => (unicodeLiteral_bytesOf s hs).1
  obtain ⟨ts, q, htokens, htree, -, hback⟩ := front_end_inverts_render.2 "" _ hwell
  exact ⟨hparse, hvalid, ts, q, htokens, htree, hback hvalid⟩

def strayByte : Program Bytes :=
  ⟨default, [], [.print default (.literal default [0x22, 0xFF, 0x22])]⟩

theorem strayByte_lost :
    strayByte.WellFormed LiteralBytes ∧
      ∃ ts q, tokenize "" ⟨strayByte.render, none⟩ = .ok ts ∧ parseTokens ts = .ok q [] ∧
        (q.mapLiterals bytesOf).bare ≠ strayByte.bare ∧
        (q.mapLiterals bytesOf).render ≠ strayByte.render := by
  have hquoted : QuotedBytes [0x22, 0xFF, 0x22] := ⟨[0xFF], rfl, by simp⟩
  have hwell : strayByte.WellFormed LiteralBytes :=
    ⟨by simp [strayByte], .inr (.inr (.inr hquoted)), trivial⟩
  obtain ⟨ts, q, htokens, htree, hbare⟩ := bytes_read_back hwell ""
  refine ⟨hwell, ts, q, htokens, htree, ?_, ?_⟩
  · rw [Program.bare_repaired hbare]
    intro hsame
    have hraw : bytesOf (textOf [0x22, 0xFF, 0x22]) = [0x22, 0xFF, 0x22] := by
      injection hsame with _ _ hstmts
      injection hstmts with hprint
      injection hprint with _ hvalue
      injection hvalue
    exact absurd hraw (by decide +kernel)
  · rw [← Program.render_bare, Program.bare_repaired hbare, Program.render_bare]
    decide +kernel

end SplatLang
