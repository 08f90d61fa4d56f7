import SplatLang.Proofs.Parser.Faults

/-!
# The allowance is enough

A parser with an allowance of `n` nested steps runs out of it on no fewer than `n` tokens, because
a token is read before each nested step and by each item of a list. So a list of tokens is always
parsed to a program or a fault, unless a token without text stands where a name is required.
-/

namespace SplatLang

namespace Parser

open Grammar

variable {α β : Type} {n k : Nat}

-- ---------------------------------------------------------------------------
-- Allowances
-- ---------------------------------------------------------------------------

/-- The parser only goes forward, also where it is at fault, and runs out of steps on no fewer
than `k` tokens. -/
structure Lasts (p : Parser α) (k : Nat) : Prop where
  leaves : ∀ {eof ts x rest}, p eof ts = .ok x rest → rest <:+ ts
  stopsIn : ∀ {eof ts f rest}, p eof ts = .fault f rest → rest <:+ ts
  lasts : ∀ {eof ts}, p eof ts = .abort .exhausted → k ≤ ts.length

theorem Lasts.shrinks (hp : Lasts p k) (h : p eof ts = .ok x rest) : rest.length ≤ ts.length :=
  (hp.leaves h).length_le

def Advances (p : Parser α) : Prop :=
  ∀ ⦃eof ts x rest⦄, p eof ts = .ok x rest → rest.length < ts.length

theorem advances_of_sound {p : Parser α} {P : List Token → α → Prop} (h : Sound p P)
    (hP : ∀ us x, P us x → us ≠ []) : Advances p := by
  intro eof ts x rest hp
  obtain ⟨us, rfl, hus⟩ := h hp
  have hpos := List.length_pos_iff.mpr (hP us x hus)
  rw [List.length_append]
  omega

section

variable {p q : Parser α} {f : α → Parser β}

theorem Lasts.mono (hp : Lasts p k) (hn : n ≤ k) : Lasts p n :=
  ⟨hp.leaves, hp.stopsIn, fun h => Nat.le_trans hn (hp.lasts h)⟩

theorem Lasts.bind (hp : Lasts p k) (hf : ∀ x, Lasts (f x) k) : Lasts (p >>= f) k where
  leaves h := by
    obtain ⟨x, mid, hx, hy⟩ := bind_ok.mp h
    exact ((hf x).leaves hy).trans (hp.leaves hx)
  stopsIn h := by
    rcases bind_fault.mp h with hx | ⟨x, mid, hx, hy⟩
    · exact hp.stopsIn hx
    · exact ((hf x).stopsIn hy).trans (hp.leaves hx)
  lasts h := by
    rcases bind_abort.mp h with hx | ⟨x, mid, hx, hy⟩
    · exact hp.lasts hx
    · exact Nat.le_trans ((hf x).lasts hy) (hp.shrinks hx)

/-- What comes behind a token may run out one token earlier. -/
theorem Lasts.behind (hp : Lasts p (k + 1)) (hgo : Advances p) (hf : ∀ x, Lasts (f x) k) :
    Lasts (p >>= f) (k + 1) where
  leaves := ((hp.mono (Nat.le_succ k)).bind hf).leaves
  stopsIn := ((hp.mono (Nat.le_succ k)).bind hf).stopsIn
  lasts h := by
    rcases bind_abort.mp h with hx | ⟨x, mid, hx, hy⟩
    · exact hp.lasts hx
    · exact Nat.le_trans (Nat.succ_le_succ ((hf x).lasts hy)) (hgo hx)

theorem Lasts.ite {c : Prop} [Decidable c] (hp : Lasts p k) (hq : Lasts q k) :
    Lasts (if c then p else q) k := by
  split
  · exact hp
  · exact hq

end

theorem giveUp_lasts : Lasts (giveUp .exhausted : Parser α) 0 :=
  ⟨nofun, nofun, fun _ => Nat.zero_le _⟩

theorem emptyLabel_lasts : Lasts (giveUp .emptyLabel : Parser α) k :=
  ⟨nofun, nofun, nofun⟩

theorem pure_lasts (a : α) : Lasts (pure a) k :=
  ⟨fun h => (pure_ok.mp h).2 ▸ List.suffix_refl _, nofun, nofun⟩

theorem fail_lasts : Lasts (fail cause location : Parser α) k where
  leaves := nofun
  stopsIn h := by
    cases h
    exact List.suffix_refl _
  lasts := nofun

theorem peek_lasts : Lasts peek k where
  leaves h := (peek_ok.mp h).1 ▸ List.suffix_refl _
  stopsIn {_ ts _ _} h := by
    cases ts <;> cases h
    exact List.suffix_refl _
  lasts {_ ts} h := by cases ts <;> cases h

theorem next_lasts : Lasts next k where
  leaves h := next_ok.mp h ▸ List.suffix_cons _ _
  stopsIn {_ ts _ _} h := by
    cases ts <;> cases h
    exact List.suffix_refl _
  lasts {_ ts} h := by cases ts <;> cases h

theorem expect_lasts (v : String) : Lasts (expect v) k :=
  next_lasts.bind fun t => (pure_lasts t).ite fail_lasts

theorem label_lasts : Lasts label k := by
  refine next_lasts.bind fun t => fail_lasts.ite (fail_lasts.ite ?_)
  split
  · exact emptyLabel_lasts
  · exact (pure_lasts t).ite fail_lasts

theorem typeName_lasts : Lasts typeName k := next_lasts.bind fun _ => pure_lasts _

theorem Tells.lasts (h : Tells look b) : Lasts look k where
  leaves {eof ts _ _} hlook := by
    rw [h eof ts] at hlook
    cases hlook
    exact List.suffix_refl _
  stopsIn {eof ts _ _} hlook := by
    rw [h eof ts] at hlook
    cases hlook
  lasts {eof ts} hlook := by
    rw [h eof ts] at hlook
    cases hlook

theorem secondIs_lasts (v : String) : Lasts (secondIs v) k :=
  ⟨fun h => secondIs_looks h ▸ List.suffix_refl _, nofun, nofun⟩

theorem expect_advances (v : String) : Advances (expect v) := by
  intro eof ts t rest h
  simp [(expect_ok.mp h).1]

theorem label_advances : Advances label := by
  intro eof ts t rest h
  simp [(label_ok.mp h).1]

-- ---------------------------------------------------------------------------
-- Lists
-- ---------------------------------------------------------------------------

section

variable {item : Parser α}

theorem itemsUntil_lasts {stop : Parser Bool} (hstop : Tells stop b) (hitem : Lasts item k)
    (hgo : Advances item) (hn : n ≤ k) : Lasts (itemsUntil stop item n) n := by
  induction n with
  | zero => exact giveUp_lasts
  | succ n ih =>
    refine hstop.lasts.bind fun _ => (pure_lasts []).ite ?_
    exact (hitem.mono hn).behind hgo fun _ => (ih (Nat.le_of_succ_le hn)).bind fun _ =>
      pure_lasts _

theorem moreItems_lasts (hitem : Lasts item k) (hn : n ≤ k) : Lasts (moreItems item n) n := by
  induction n with
  | zero => exact giveUp_lasts
  | succ n ih =>
    have hn := Nat.le_of_succ_le hn
    refine (nextIs_tells ",").lasts.bind fun _ => .ite ?_ (pure_lasts [])
    exact (expect_lasts ",").behind (expect_advances ",") fun _ => (hitem.mono hn).bind fun _ =>
      (ih hn).bind fun _ => pure_lasts _

theorem commaItems_lasts (hitem : Lasts item n) : Lasts (commaItems item n) n := by
  refine (nextIs_tells ")").lasts.bind fun _ => (pure_lasts []).ite ?_
  exact hitem.bind fun _ => (moreItems_lasts hitem (Nat.le_refl n)).bind fun _ => pure_lasts _

end

-- ---------------------------------------------------------------------------
-- Expressions and statements
-- ---------------------------------------------------------------------------

theorem operation_lasts {operand : Parser Expr} (h : Lasts operand k) :
    Lasts (operation operand) k := by
  refine nextIsUnary_tells.lasts.bind fun _ => .ite ?_ ?_
  · exact next_lasts.bind fun _ => h.bind fun _ => (expect_lasts ")").bind fun _ => pure_lasts _
  · refine h.bind fun _ => next_lasts.bind fun _ => .ite ?_ fail_lasts
    exact h.bind fun _ => (expect_lasts ")").bind fun _ => pure_lasts _

theorem parseExpr_lasts (n : Nat) : Lasts (parseExpr n) n := by
  induction n with
  | zero => exact giveUp_lasts
  | succ n ih =>
    refine peek_lasts.bind fun _ => .ite ?_ (.ite ?_ ?_)
    · exact (expect_lasts "(").behind (expect_advances "(") fun _ => operation_lasts ih
    · exact next_lasts.bind fun _ => pure_lasts _
    · refine (secondIs_lasts "(").bind fun _ => .ite ?_ ?_
      · exact label_lasts.behind label_advances fun _ => (expect_lasts "(").bind fun _ =>
          (commaItems_lasts ih).bind fun _ => (expect_lasts ")").bind fun _ => pure_lasts _
      · exact label_lasts.bind fun _ => pure_lasts _

theorem exprThenSemicolon_lasts (n : Nat) : Lasts (exprThenSemicolon n) n :=
  (parseExpr_lasts n).bind fun _ => (expect_lasts ";").bind fun _ => pure_lasts _

theorem namedStmt_lasts (n : Nat) : Lasts (namedStmt n) (n + 1) := by
  refine label_lasts.behind label_advances fun _ =>
    (nextIs_tells ":=").lasts.bind fun _ => .ite ?_ ?_
  · exact (expect_lasts ":=").bind fun _ => (exprThenSemicolon_lasts n).bind fun _ => pure_lasts _
  · refine (nextIs_tells "(").lasts.bind fun _ => .ite ?_ (peek_lasts.bind fun _ => fail_lasts)
    exact (expect_lasts "(").bind fun _ => (commaItems_lasts (parseExpr_lasts n)).bind fun _ =>
      (expect_lasts ")").bind fun _ => (expect_lasts ";").bind fun _ => pure_lasts _

section

variable {block : Parser (List Stmt)} (hblock : Lasts block n)

include hblock

theorem whileStmt_lasts : Lasts (whileStmt block n) (n + 1) :=
  (expect_lasts "while").behind (expect_advances "while") fun _ => (parseExpr_lasts n).bind fun _ =>
    (expect_lasts "do").bind fun _ => hblock.bind fun _ => (expect_lasts "end").bind fun _ =>
      (expect_lasts "while").bind fun _ => (expect_lasts ";").bind fun _ => pure_lasts _

theorem elseBranch_lasts : Lasts (elseBranch block) n := by
  refine (nextIs_tells "else").lasts.bind fun _ => .ite ?_ (pure_lasts none)
  exact (expect_lasts "else").bind fun _ => hblock.bind fun _ => pure_lasts _

theorem ifStmt_lasts : Lasts (ifStmt block n) (n + 1) :=
  (expect_lasts "if").behind (expect_advances "if") fun _ => (parseExpr_lasts n).bind fun _ =>
    (expect_lasts "then").bind fun _ => hblock.bind fun _ => (elseBranch_lasts hblock).bind fun _ =>
      (expect_lasts "end").bind fun _ => (expect_lasts "if").bind fun _ =>
        (expect_lasts ";").bind fun _ => pure_lasts _

end

theorem printLineStmt_lasts : Lasts printLineStmt k :=
  (expect_lasts "print_line").bind fun _ => (expect_lasts ";").bind fun _ => pure_lasts _

theorem printStmt_lasts (n : Nat) : Lasts (printStmt n) (n + 1) :=
  (expect_lasts "print").behind (expect_advances "print") fun _ =>
    (exprThenSemicolon_lasts n).bind fun _ => pure_lasts _

theorem returnStmt_lasts (n : Nat) : Lasts (returnStmt n) (n + 1) := by
  refine (expect_lasts "return").behind (expect_advances "return") fun _ =>
    (nextIs_tells ";").lasts.bind fun _ => .ite ?_ ?_
  · exact (expect_lasts ";").bind fun _ => pure_lasts _
  · exact (exprThenSemicolon_lasts n).bind fun _ => pure_lasts _

theorem parseStmt_advances (n : Nat) : Advances (parseStmt n) := by
  refine advances_of_sound (parseStmt_sound n) fun us s h => ?_
  obtain ⟨t, ts, rfl, -⟩ := stmt_head h
  exact List.cons_ne_nil t ts

theorem parseStmt_lasts (n : Nat) : Lasts (parseStmt n) n := by
  induction n with
  | zero => exact giveUp_lasts
  | succ n ih =>
    have hblock := itemsUntil_lasts blockEnds_tells ih (parseStmt_advances n) (Nat.le_refl n)
    exact peek_lasts.bind fun _ => (whileStmt_lasts hblock).ite <| (ifStmt_lasts hblock).ite <|
      printLineStmt_lasts.ite <| (printStmt_lasts n).ite <| (returnStmt_lasts n).ite <|
        namedStmt_lasts n

theorem parseBlock_lasts (n : Nat) : Lasts (parseBlock n) n :=
  itemsUntil_lasts blockEnds_tells (parseStmt_lasts n) (parseStmt_advances n) (Nat.le_refl n)

-- ---------------------------------------------------------------------------
-- Declarations and programs
-- ---------------------------------------------------------------------------

theorem parseParam_lasts : Lasts parseParam k :=
  label_lasts.bind fun _ => (expect_lasts ":").bind fun _ => typeName_lasts.bind fun _ =>
    pure_lasts _

theorem parseVarDecl_lasts : Lasts parseVarDecl k :=
  parseParam_lasts.bind fun _ => (expect_lasts ";").bind fun _ => pure_lasts _

theorem parseVarDecl_advances : Advances parseVarDecl :=
  advances_of_sound parseVarDecl_sound fun us v h => (varDecl_goes_on default us v.bare [] h).1

theorem parseFuncDecl_lasts (n : Nat) : Lasts (parseFuncDecl n) n := by
  have hlocals := itemsUntil_lasts (nextIs_tells "begin") parseVarDecl_lasts parseVarDecl_advances
    (Nat.le_refl n)
  exact label_lasts.bind fun _ => (expect_lasts "(").bind fun _ =>
    (commaItems_lasts parseParam_lasts).bind fun _ => (expect_lasts ")").bind fun _ =>
      (expect_lasts ":").bind fun _ => typeName_lasts.bind fun _ => (expect_lasts "is").bind
        fun _ => hlocals.bind fun _ => (expect_lasts "begin").bind fun _ =>
          (parseBlock_lasts n).bind fun _ => (expect_lasts "end").bind fun _ =>
            (expect_lasts ";").bind fun _ => pure_lasts _

theorem parseDecl_lasts (n : Nat) : Lasts (parseDecl n) n := by
  refine (secondIs_lasts ":").bind fun _ => .ite ?_ ?_
  · exact parseVarDecl_lasts.bind fun _ => pure_lasts _
  · refine (secondIs_lasts "(").bind fun _ => .ite ?_ (peek_lasts.bind fun _ => fail_lasts)
    exact (parseFuncDecl_lasts n).bind fun _ => pure_lasts _

theorem parseDecl_advances (n : Nat) : Advances (parseDecl n) :=
  advances_of_sound (parseDecl_sound n) fun us d h => (decl_goes_on default us d.bare [] h).1

theorem parseProgram_lasts (n : Nat) : Lasts (parseProgram n) n := by
  have hdecls := itemsUntil_lasts (nextIs_tells "begin") (parseDecl_lasts n) (parseDecl_advances n)
    (Nat.le_refl n)
  exact (expect_lasts "program").bind fun _ => hdecls.bind fun _ => (expect_lasts "begin").bind
    fun _ => (parseBlock_lasts n).bind fun _ => (expect_lasts "end").bind fun _ =>
      (expect_lasts ";").bind fun _ => atEnd_tells.lasts.bind fun _ =>
        (pure_lasts _).ite (peek_lasts.bind fun _ => fail_lasts)

/-- Only a token without text can keep what is left of the tokens from a verdict. -/
theorem resume_verdict (all : List Token) (h : ∀ t ∈ ts, t.value ≠ "") :
    (∃ p rest, resume all ts = .ok p rest) ∨ ∃ f rest, resume all ts = .fault f rest := by
  cases hp : resume all ts with
  | ok p rest => exact .inl ⟨p, rest, rfl⟩
  | fault f rest => exact .inr ⟨f, rest, rfl⟩
  | abort why =>
    cases why with
    | emptyLabel =>
      obtain ⟨⟨t, ht, hv⟩, -⟩ := (parseProgram_guided (Nat.le_refl _)).stops hp
      exact absurd hv (h t ht)
    | exhausted => exact absurd ((parseProgram_lasts _).lasts hp) (Nat.not_succ_le_self _)

end Parser

theorem parseTokens_verdict (h : ∀ t ∈ ts, t.value ≠ "") :
    (∃ p rest, parseTokens ts = .ok p rest) ∨ ∃ f rest, parseTokens ts = .fault f rest :=
  Parser.resume_verdict ts h

end SplatLang
