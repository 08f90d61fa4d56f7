import SplatLang.Interpreter
import SplatLang.Proofs.Parser.Progress

/-!
# Parsing goes forward

A parser may be called again after it was at fault, and then goes on with the tokens that were
left. Nothing is asked of the tokens but that each has a text, not even that a lexer could have
made them. Then every call comes to a verdict, and the place where the next call goes on is never
before the place where this one began.

That loops and recursions come to an end is said of the allowance: with more steps than there are
tokens, no parser runs out, and how many more there are makes no difference.
-/

namespace SplatLang

namespace Parser

variable {α : Type} {eof : Position} {ts rest : List Token} {n m : Nat}

-- ---------------------------------------------------------------------------
-- One call
-- ---------------------------------------------------------------------------

/-- What a larger allowance changes is only that a parser does not run out of steps. -/
theorem Guided.same {p p' : Parser α} (h : Guided p p' L D)
    (hlasts : p eof ts ≠ .abort .exhausted) : p' eof ts = p eof ts := by
  cases hp : p eof ts with
  | ok x rest =>
    obtain ⟨us, rfl, -, htakes⟩ := h.took hp
    exact htakes eof rest rfl
  | fault f rest => exact h.keeps hp
  | abort why =>
    cases why with
    | emptyLabel => simpa using (h.stops hp).2 eof []
    | exhausted => exact absurd hp hlasts

structure Progresses (p : Nat → Parser α) : Prop where
  takes : ∀ {n eof ts x rest}, p n eof ts = .ok x rest → ∃ t us, ts = t :: us ++ rest
  forward : ∀ {n eof ts f rest}, p n eof ts = .fault f rest → rest <:+ ts
  named : ∀ {n eof ts}, (∀ t ∈ ts, t.value ≠ "") → p n eof ts ≠ .abort .emptyLabel
  ends : ∀ {n eof ts}, ts.length < n →
    p n eof ts ≠ .abort .exhausted ∧ p n eof ts = p (ts.length + 1) eof ts

theorem Progresses.of_guided {p : Nat → Parser α}
    (hguided : ∀ {n m}, n ≤ m → Guided (p n) (p m) L D) (hlasts : ∀ n, Lasts (p n) n)
    (hgo : ∀ n, Advances (p n)) : Progresses p where
  takes {n _ _ _ rest} h := by
    obtain ⟨us, rfl⟩ := (hlasts n).leaves h
    have hlt := hgo n h
    cases us with
    | nil => exact absurd hlt (Nat.lt_irrefl _)
    | cons t us => exact ⟨t, us, rfl⟩
  forward {n _ _ _ _} h := (hlasts n).stopsIn h
  named {n _ _} hnamed h := by
    obtain ⟨⟨t, ht, hv⟩, -⟩ := (hguided (Nat.le_refl n)).stops h
    exact hnamed t ht hv
  ends {n _ ts} hn := by
    have hends {k : Nat} {eof : Position} (hk : ts.length < k) : p k eof ts ≠ .abort .exhausted :=
      fun h => absurd ((hlasts k).lasts h) (Nat.not_le_of_lt hk)
    exact ⟨hends hn, (hguided (Nat.succ_le_of_lt hn)).same (hends (Nat.lt_succ_self _))⟩

theorem parseExpr_advances (n : Nat) : Advances (parseExpr n) := by
  refine advances_of_sound (parseExpr_sound n) fun us e h => ?_
  obtain ⟨t, ts, rfl, -⟩ := expr_head h
  exact List.cons_ne_nil t ts

theorem parseExpr_progresses : Progresses parseExpr :=
  .of_guided parseExpr_guided parseExpr_lasts parseExpr_advances

theorem parseStmt_progresses : Progresses parseStmt :=
  .of_guided parseStmt_guided parseStmt_lasts parseStmt_advances

theorem parseDecl_progresses : Progresses parseDecl :=
  .of_guided parseDecl_guided parseDecl_lasts parseDecl_advances

-- ---------------------------------------------------------------------------
-- Call after call
-- ---------------------------------------------------------------------------

/-- A call begins at one place among the tokens and leaves the parser at another, with a verdict. -/
def Call (all : List Token) (start stop : Nat) : Prop :=
  (∃ p, resume all (all.drop start) = .ok p (all.drop stop)) ∨
    ∃ f, resume all (all.drop start) = .fault f (all.drop stop)

/-- What a parser leaves of the tokens begins where it stopped among them. -/
theorem drop_of_suffix {all : List Token} (h : rest <:+ all.drop start)
    (hstart : start ≤ all.length) :
    ∃ stop, start ≤ stop ∧ stop ≤ all.length ∧ rest = all.drop stop := by
  obtain ⟨us, hus⟩ := h
  refine ⟨start + us.length, Nat.le_add_right _ _, ?_, ?_⟩
  · have hlen := congrArg List.length hus
    rw [List.length_append, List.length_drop] at hlen
    omega
  · rw [← List.drop_drop, ← hus, List.drop_left]

theorem call_goes_forward {all : List Token} (hall : ∀ t ∈ all, t.value ≠ "") (start : Nat)
    (hstart : start ≤ all.length) :
    ∃ stop, start ≤ stop ∧ stop ≤ all.length ∧ Call all start stop := by
  have hnamed : ∀ t ∈ all.drop start, t.value ≠ "" := fun t ht => hall t (List.mem_of_mem_drop ht)
  rcases resume_verdict all hnamed with ⟨p, rest, hok⟩ | ⟨f, rest, hfault⟩
  · obtain ⟨stop, hle, hstop, rfl⟩ := drop_of_suffix ((parseProgram_lasts _).leaves hok) hstart
    exact ⟨stop, hle, hstop, .inl ⟨p, hok⟩⟩
  · obtain ⟨stop, hle, hstop, rfl⟩ := drop_of_suffix ((parseProgram_lasts _).stopsIn hfault) hstart
    exact ⟨stop, hle, hstop, .inr ⟨f, hfault⟩⟩

/-- The places of all calls, one after another. -/
theorem calls_go_forward {all : List Token} (hall : ∀ t ∈ all, t.value ≠ "") :
    ∃ cursor : Nat → Nat, cursor 0 = 0 ∧ ∀ k, cursor k ≤ cursor (k + 1) ∧
      cursor (k + 1) ≤ all.length ∧ Call all (cursor k) (cursor (k + 1)) := by
  choose! next hle hstop hcall using call_goes_forward hall
  have hbound (k : Nat) : next^[k] 0 ≤ all.length := by
    induction k with
    | zero => exact Nat.zero_le _
    | succ k ih =>
      rw [Function.iterate_succ_apply']
      exact hstop _ ih
  refine ⟨fun k => next^[k] 0, rfl, fun k => ?_⟩
  simp only [Function.iterate_succ_apply']
  exact ⟨hle _ (hbound k), hstop _ (hbound k), hcall _ (hbound k)⟩

end Parser

/-- Parsing a source ends with a program or with a fault of the lexer or the parser. -/
theorem Interpreter.parse_ends (src : Source) (opts : Options) :
    (∃ p, (parse src opts).result = .ok p) ∨
      ∃ f : Fault, (parse src opts).result = .error f.raise ∧
        (f.phase = .lex ∨ f.phase = .parse) := by
  cases htokens : tokenize opts.file src with
  | error f =>
    have hresult : (parse src opts).result = .error f.report.raise := by
      simp [parse, tokens, Traced.andThen, htokens, Except.mapError]
    exact .inr ⟨f.report, hresult, .inl rfl⟩
  | ok ts =>
    have hresult : (parse src opts).result = (parseTokens ts).result := by
      simp [parse, tokens, Traced.andThen, htokens, Except.mapError]
    have hnamed : ∀ t ∈ ts, t.value ≠ "" := fun t ht => (tokenize_genuine htokens t ht).value_ne
    rw [hresult]
    rcases parseTokens_verdict hnamed with ⟨p, rest, hok⟩ | ⟨f, rest, hfault⟩
    · exact .inl ⟨p, by rw [hok, Parsed.result]⟩
    · exact .inr ⟨f.report, by rw [hfault, Parsed.result], .inr rfl⟩

open SplatLang.Parser

/-- However often a parser is called on tokens that all have a text, each call comes to a verdict,
begins where the one before it stopped and stops no earlier than it began, among the tokens or at
their end. Whatever the tokens, a declaration, a statement or an expression that is parsed takes a
token, and more steps than there are tokens are enough for it. Tokens of a source all have a text,
so parsing a source ends with a program or a fault. -/
theorem parsing_goes_forward :
    (∀ all : List Token, (∀ t ∈ all, t.value ≠ "") →
      ∃ cursor : Nat → Nat, cursor 0 = 0 ∧ ∀ k, cursor k ≤ cursor (k + 1) ∧
        cursor (k + 1) ≤ all.length ∧ Call all (cursor k) (cursor (k + 1))) ∧
    (Progresses parseDecl ∧ Progresses parseStmt ∧ Progresses parseExpr) ∧
    (∀ file src ts, tokenize file src = .ok ts → ∀ t ∈ ts, t.value ≠ "") ∧
    ∀ src opts, (∃ p, (Interpreter.parse src opts).result = .ok p) ∨
      ∃ f : Fault, (Interpreter.parse src opts).result = .error f.raise ∧
        (f.phase = .lex ∨ f.phase = .parse) :=
  ⟨fun _ => calls_go_forward,
    ⟨parseDecl_progresses, parseStmt_progresses, parseExpr_progresses⟩,
    fun _ _ _ htokens t ht => (tokenize_genuine htokens t ht).value_ne, Interpreter.parse_ends⟩

/-- Tokens put together by hand, of kinds that do not fit their texts: a program, and a name. -/
def handmade : List Token :=
  [⟨.illegal, "program", ⟨1, 1, ""⟩⟩, ⟨.int, "begin", ⟨1, 9, ""⟩⟩, ⟨.string, "end", ⟨1, 15, ""⟩⟩,
   ⟨.ident, ";", ⟨1, 19, ""⟩⟩, ⟨.keyword, "x", ⟨1, 21, ""⟩⟩]

theorem parsing_goes_forward_handmade :
    (∀ t ∈ handmade, t.value ≠ "") ∧
    (∃ cursor : Nat → Nat, cursor 0 = 0 ∧ cursor 1 = 4 ∧ ∀ k, cursor k ≤ cursor (k + 1) ∧
      cursor (k + 1) ≤ 5 ∧ Call handmade (cursor k) (cursor (k + 1))) ∧
    parseExpr 1 default handmade ≠ .abort .emptyLabel := by
  obtain ⟨hcalls, ⟨-, -, hexpr⟩, -⟩ := parsing_goes_forward
  have hnamed : ∀ t ∈ handmade, t.value ≠ "" := by decide
  refine ⟨hnamed, ?_, hexpr.named hnamed⟩
  obtain ⟨cursor, hzero, hstep⟩ := hcalls handmade hnamed
  refine ⟨cursor, hzero, ?_, hstep⟩
  obtain ⟨-, -, hcall⟩ := hstep 0
  rw [hzero, Nat.zero_add] at hcall
  have hfault : resume handmade (handmade.drop 0) =
      .fault ⟨.afterProgram "x", ⟨1, 21, ""⟩⟩ (handmade.drop 4) := rfl
  rcases hcall with ⟨p, hok⟩ | ⟨f, hagain⟩
  · cases hfault.symm.trans hok
  · have hlen := congrArg List.length (Parsed.fault.inj (hfault.symm.trans hagain)).2
    rw [List.length_drop, List.length_drop] at hlen
    have hall : handmade.length = 5 := rfl
    omega

end SplatLang
