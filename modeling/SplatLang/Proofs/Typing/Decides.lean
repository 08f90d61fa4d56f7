import SplatLang.Interpreter
import SplatLang.Proofs.Bindings
import SplatLang.Proofs.Operator
import SplatLang.Proofs.Typing.Rules

/-!
# The checker decides the typing rules

`checkProgram` accepts a program exactly if it is `WellTyped`, and `typeOf` finds a type exactly
if the rules give it. The proof follows the checker function by function; each lemma reads the
success of one function as the rule it decides. The checker goes over a body several times, and
looks labels up in tables where a later entry replaces an earlier one; neither shows in the end,
because the labels of a body are known to be distinct before anything is looked up.
-/

namespace SplatLang.Typing

-- ---------------------------------------------------------------------------
-- The check monad
-- ---------------------------------------------------------------------------

theorem bind_ok {x : Check α} {f : α → Check β} :
    x >>= f = .ok b ↔ ∃ a, x = .ok a ∧ f a = .ok b := by
  cases x <;> simp [bind, Except.bind]

theorem then_ok {x : Check Unit} {y : Check α} :
    (x >>= fun _ => y) = .ok a ↔ x = .ok () ∧ y = .ok a := by
  rw [bind_ok]
  exact ⟨fun ⟨(), hx, hy⟩ => ⟨hx, hy⟩, fun ⟨hx, hy⟩ => ⟨(), hx, hy⟩⟩

@[simp] theorem fail_ok : (fail cause tok : Check α) = .ok a ↔ False := by
  simp [fail]

theorem ensure_ok {holds : Prop} [Decidable holds] :
    ensure holds cause tok = .ok u ↔ holds := by
  unfold ensure
  split
  · simp [*]
  · simp [*]

theorem each_ok (check : α → Check Unit) {items : List α} :
    each check items = .ok () ↔ ∀ a ∈ items, check a = .ok () := by
  induction items with
  | nil => simp [each]
  | cons a rest ih => simp [each, then_ok, ih]

-- ---------------------------------------------------------------------------
-- Literals and operators
-- ---------------------------------------------------------------------------

/-- A whole number begins with a sign or a digit. -/
theorem int32?_front (h : Text.int32? raw = some n) :
    ∃ c cs, raw.toList = c :: cs ∧ (c = '-' ∨ c = '+' ∨ c.isDigit = true) := by
  unfold Text.int32? Text.integer? at h
  split at h
  · simp at h
  · next c rest heq =>
    refine ⟨c, rest, heq, ?_⟩
    by_cases hminus : c = '-'
    · exact .inl hminus
    · by_cases hplus : c = '+'
      · exact .inr (.inl hplus)
      · simp only [hminus, hplus, if_false, Text.natural?] at h
        split at h
        · next hd =>
          rw [heq, List.all_cons, Bool.and_eq_true] at hd
          exact .inr (.inr hd.2.1)
        · simp at h

theorem quoted_iff {raw : String} :
    (2 ≤ raw.length ∧ raw.toList.head? = some '"' ∧ raw.toList.getLast? = some '"') ↔
      ∃ inside, raw = String.ofList ('"' :: inside ++ ['"']) := by
  constructor
  · rintro ⟨hlen, hhead, hlast⟩
    rw [← String.length_toList] at hlen
    obtain ⟨front, hfront⟩ := List.getLast?_eq_some_iff.mp hlast
    cases front with
    | nil => simp [hfront] at hlen
    | cons c inside =>
      simp only [hfront, List.cons_append, List.head?_cons, Option.some.injEq] at hhead
      refine ⟨inside, ?_⟩
      rw [← String.ofList_toList (s := raw), hfront, hhead]
  · rintro ⟨inside, rfl⟩
    refine ⟨?_, ?_, ?_⟩
    · rw [← String.length_toList]
      simp
    · simp
    · rw [String.toList_ofList, List.getLast?_append]
      rfl

theorem literalType?_ok : literalType? raw = some t ↔ LiteralTyped raw t := by
  constructor
  · intro h
    unfold literalType? at h
    split at h
    · next hb =>
      cases h
      rcases hb with rfl | rfl
      · exact .yes
      · exact .no
    · split at h
      · next hq =>
        cases h
        obtain ⟨inside, rfl⟩ := quoted_iff.mp hq
        exact .string inside
      · split at h
        · next hn =>
          cases h
          obtain ⟨n, hn⟩ := Option.isSome_iff_exists.mp hn
          exact .integer hn
        · cases h
  · intro h
    unfold literalType?
    cases h with
    | yes => rfl
    | no => rfl
    | string inside =>
      have hword : ¬(String.ofList ('"' :: inside ++ ['"']) = "true" ∨
          String.ofList ('"' :: inside ++ ['"']) = "false") := by
        rintro (h | h) <;> simpa using congrArg String.toList h
      rw [if_neg hword, if_pos (quoted_iff.mpr ⟨inside, rfl⟩)]
    | integer hn =>
      obtain ⟨c, cs, hc, hfront⟩ := int32?_front hn
      have hword : ¬(raw = "true" ∨ raw = "false") := by
        rintro (rfl | rfl) <;> simp at hc <;> simp [← hc.1] at hfront
      have hquote : ¬(2 ≤ raw.length ∧ raw.toList.head? = some '"' ∧
          raw.toList.getLast? = some '"') := by
        rintro ⟨-, hq, -⟩
        simp only [hc, List.head?_cons, Option.some.injEq] at hq
        simp [hq] at hfront
      rw [if_neg hword, if_neg hquote, if_pos (by simp [hn])]

theorem unaryType_ok : unaryType tok op a = .ok t ↔ UnaryTyped op a t := by
  constructor
  · intro h
    unfold unaryType at h
    split at h
    · next hop =>
      rw [UnaryOp.ofText?_eq_some_iff.mp hop]
      split at h <;> cases h
      subst a
      exact .not
    · next hop =>
      rw [UnaryOp.ofText?_eq_some_iff.mp hop]
      split at h <;> cases h
      subst a
      exact .negate
    · simp at h
  · rintro (_ | _) <;> rfl

theorem bothOperands_ok : bothOperands tok family op want result a b = .ok t ↔
    (a = want ∧ b = want) ∧ result = t := by
  unfold bothOperands
  split <;> simp [*]

theorem binaryType_ok : binaryType tok op a b = .ok t ↔ BinaryTyped op a b t := by
  constructor
  · intro h
    unfold binaryType at h
    split at h
    · next k hop =>
      obtain ⟨⟨rfl, rfl⟩, rfl⟩ := bothOperands_ok.mp h
      rw [BinaryOp.ofText?_eq_some_iff.mp hop]
      exact .arithmetic k
    · next k hop =>
      obtain ⟨⟨rfl, rfl⟩, rfl⟩ := bothOperands_ok.mp h
      rw [BinaryOp.ofText?_eq_some_iff.mp hop]
      exact .comparison k
    · next k hop =>
      obtain ⟨⟨rfl, rfl⟩, rfl⟩ := bothOperands_ok.mp h
      rw [BinaryOp.ofText?_eq_some_iff.mp hop]
      exact .connective k
    · next hop =>
      rw [BinaryOp.ofText?_eq_some_iff.mp hop]
      split at h
      · simp at h
      · next hsame =>
        split at h
        · simp at h
        · next hty =>
          cases h
          rw [Decidable.not_not] at hsame
          subst hsame
          exact .equality (by grind)
    · simp at h
  · intro h
    unfold binaryType
    cases h with
    | arithmetic k | comparison k | connective k =>
      rw [BinaryOp.ofText?_text]
      exact bothOperands_ok.mpr ⟨⟨rfl, rfl⟩, rfl⟩
    | equality ht =>
      rw [BinaryOp.ofText?_text]
      rcases ht with rfl | rfl <;> rfl

-- ---------------------------------------------------------------------------
-- Expressions
-- ---------------------------------------------------------------------------

theorem ArgsTyped.length_eq {c : Context} : {es : List Expr} → {ps : List VarDecl} →
    ArgsTyped c es ps → es.length = ps.length
  | _, _, .nil => rfl
  | _, _, .cons _ h => by simp [h.length_eq]

mutual
theorem typeOf_ok {sc : Scope} : (e : Expr) → {t : Ty} →
    (typeOf sc e = .ok t ↔ ExprTyped sc.context e t)
  | .literal tok raw, t => by
    simp only [typeOf]
    constructor
    · intro h
      split at h
      · next u hu =>
        cases h
        exact .literal (literalType?_ok.mp hu)
      · simp at h
    · rintro (h | _)
      rw [literalType?_ok.mpr h]
  | .var tok label, t => by
    simp only [typeOf]
    constructor
    · intro h
      split at h
      · next u hu =>
        cases h
        exact .var hu
      · simp at h
    · intro h
      cases h with
      | var h =>
        rw [show sc.vars.get? label = some t from h]
  | .binary tok left op right, t => by
    simp only [typeOf, bind_ok]
    constructor
    · rintro ⟨a, ha, b, hb, h⟩
      exact .binary ((typeOf_ok left).mp ha) ((typeOf_ok right).mp hb) (binaryType_ok.mp h)
    · intro h
      cases h with
      | binary ha hb h =>
        exact ⟨_, (typeOf_ok left).mpr ha, _, (typeOf_ok right).mpr hb, binaryType_ok.mpr h⟩
  | .unary tok op operand, t => by
    simp only [typeOf, bind_ok]
    constructor
    · rintro ⟨a, ha, h⟩
      exact .unary ((typeOf_ok operand).mp ha) (unaryType_ok.mp h)
    · intro h
      cases h with
      | unary ha h => exact ⟨_, (typeOf_ok operand).mpr ha, unaryType_ok.mpr h⟩
  | .call tok label args, t => by
    simp only [typeOf]
    constructor
    · intro h
      split at h
      · simp at h
      · next fn hfn =>
        simp only [then_ok, ensure_ok] at h
        obtain ⟨hlen, hargs, h⟩ := h
        cases h
        exact .call hfn ((checkArgs_ok args fn.params hlen).mp hargs)
    · intro h
      cases h with
      | @call _ _ _ fn hfn hargs =>
        rw [show sc.funcs.get? label = some fn from hfn]
        simp only [then_ok, ensure_ok]
        exact ⟨hargs.length_eq, (checkArgs_ok args fn.params hargs.length_eq).mpr hargs, trivial⟩

theorem checkArgs_ok {sc : Scope} {func : String} {index : Nat} : (es : List Expr) →
    (ps : List VarDecl) → es.length = ps.length →
    (checkArgs sc func index es ps = .ok () ↔ ArgsTyped sc.context es ps)
  | [], [], _ => by
    simp only [checkArgs]
    exact ⟨fun _ => .nil, fun _ => trivial⟩
  | e :: es, p :: ps, hlen => by
    simp only [checkArgs, bind_ok, ensure_ok]
    constructor
    · rintro ⟨t, ht, -, rfl, hrest⟩
      exact .cons ((typeOf_ok e).mp ht) ((checkArgs_ok es ps (by simpa using hlen)).mp hrest)
    · intro h
      cases h with
      | cons he hes =>
        exact ⟨_, (typeOf_ok e).mpr he, (), rfl,
          (checkArgs_ok es ps (by simpa using hlen)).mpr hes⟩
end

-- ---------------------------------------------------------------------------
-- Statements
-- ---------------------------------------------------------------------------

theorem checkCondition_ok : checkCondition sc test construct = .ok () ↔
    ExprTyped sc.context test .boolean := by
  simp only [checkCondition, bind_ok, ensure_ok, typeOf_ok]
  constructor
  · rintro ⟨t, ht, rfl⟩
    exact ht
  · intro h
    exact ⟨_, h, rfl⟩

mutual
theorem checkStmt_ok {sc : Scope} : (s : Stmt) →
    (checkStmt sc s = .ok () ↔ StmtTyped sc.context s)
  | .assign tok label value => by
    simp only [checkStmt]
    constructor
    · intro h
      split at h
      · simp at h
      · next want hvar =>
        simp only [bind_ok, ensure_ok, typeOf_ok] at h
        obtain ⟨got, hgot, rfl⟩ := h
        exact .assign hvar hgot
    · intro h
      cases h with
      | @assign _ _ _ t hvar hvalue =>
        rw [show sc.vars.get? label = some t from hvar]
        simp only [bind_ok, ensure_ok, typeOf_ok]
        exact ⟨t, hvalue, rfl⟩
  | .cond tok test body none => by
    simp only [checkStmt, then_ok, checkCondition_ok, checkStmts_ok body]
    constructor
    · rintro ⟨htest, hbody⟩
      exact .ifThen htest hbody
    · intro h
      cases h with
      | ifThen htest hbody => exact ⟨htest, hbody⟩
  | .cond tok test body (some alt) => by
    simp only [checkStmt, then_ok, checkCondition_ok, checkStmts_ok body, checkStmts_ok alt]
    constructor
    · rintro ⟨htest, hbody, halt⟩
      exact .ifElse htest hbody halt
    · intro h
      cases h with
      | ifElse htest hbody halt => exact ⟨htest, hbody, halt⟩
  | .loop tok test body => by
    simp only [checkStmt, then_ok, checkCondition_ok, checkStmts_ok body]
    constructor
    · rintro ⟨htest, hbody⟩
      exact .loop htest hbody
    · intro h
      cases h with
      | loop htest hbody => exact ⟨htest, hbody⟩
  | .print tok value => by
    simp only [checkStmt, bind_ok, typeOf_ok]
    constructor
    · rintro ⟨t, ht, -⟩
      exact .print ht
    · intro h
      cases h with
      | print ht => exact ⟨_, ht, trivial⟩
  | .printLine tok => by
    simp only [checkStmt]
    exact ⟨fun _ => .printLine, fun _ => trivial⟩
  | .ret tok none => by
    simp only [checkStmt]
    exact ⟨fun _ => .bareReturn, fun _ => trivial⟩
  | .ret tok (some value) => by
    simp only [checkStmt, bind_ok, typeOf_ok]
    constructor
    · rintro ⟨t, ht, -⟩
      exact .valueReturn ht
    · intro h
      cases h with
      | valueReturn ht => exact ⟨_, ht, trivial⟩
  | .call tok label args => by
    simp only [checkStmt, bind_ok, typeOf_ok]
    constructor
    · rintro ⟨t, ht, -⟩
      cases ht with
      | call hfn hargs => exact .call hfn hargs
    · intro h
      cases h with
      | call hfn hargs => exact ⟨_, .call hfn hargs, trivial⟩

theorem checkStmts_ok {sc : Scope} : (ss : List Stmt) →
    (checkStmts sc ss = .ok () ↔ BlockTyped sc.context ss)
  | [] => by
    simp only [checkStmts]
    exact ⟨fun _ => .nil, fun _ => trivial⟩
  | s :: rest => by
    simp only [checkStmts, then_ok, checkStmt_ok s, checkStmts_ok rest]
    constructor
    · rintro ⟨hs, hrest⟩
      exact .cons hs hrest
    · intro h
      cases h with
      | cons hs hrest => exact ⟨hs, hrest⟩
end

-- ---------------------------------------------------------------------------
-- Returns
-- ---------------------------------------------------------------------------

def Inside (s : Stmt) : Stmt → Prop
  | .cond tok test body none => s = .cond tok test body none ∨ Within s body
  | .cond tok test body (some alt) =>
    s = .cond tok test body (some alt) ∨ Within s body ∨ Within s alt
  | .loop tok test body => s = .loop tok test body ∨ Within s body
  | t => s = t

theorem not_within_nil : ¬ Within s [] := nofun

theorem within_cons : Within s (t :: rest) ↔ Inside s t ∨ Within s rest := by
  constructor
  · intro h
    cases h with
    | here =>
      left
      rcases s with _ | ⟨_, _, _, _ | _⟩ | _ | _ | _ | _ | _ <;> simp [Inside]
    | later h => exact .inr h
    | @thenBranch _ _ _ alt _ h => cases alt <;> simp [Inside, h]
    | elseBranch h => simp [Inside, h]
    | loopBody h => simp [Inside, h]
  · rintro (h | h)
    · unfold Inside at h
      split at h
      · rcases h with rfl | h
        · exact .here
        · exact .thenBranch h
      · rcases h with rfl | h | h
        · exact .here
        · exact .thenBranch h
        · exact .elseBranch h
      · rcases h with rfl | h
        · exact .here
        · exact .loopBody h
      · subst h
        exact .here
    · exact .later h

mutual
theorem checkNoReturn_ok : (s : Stmt) →
    (checkNoReturn s = .ok () ↔ ∀ tok value, ¬ Inside (.ret tok value) s)
  | .ret tok value => by simp [checkNoReturn, Inside]
  | .cond _ _ body none => by simp [checkNoReturn, Inside, checkNoReturns_ok body]
  | .cond _ _ body (some alt) => by
    simp only [checkNoReturn, then_ok, checkNoReturns_ok body, checkNoReturns_ok alt, Inside]
    simp [forall_and]
  | .loop _ _ body => by simp [checkNoReturn, Inside, checkNoReturns_ok body]
  | .assign .. | .print .. | .printLine _ | .call .. => by simp [checkNoReturn, Inside]

theorem checkNoReturns_ok : (ss : List Stmt) →
    (checkNoReturns ss = .ok () ↔ ∀ tok value, ¬ Within (.ret tok value) ss)
  | [] => by simp [checkNoReturns, not_within_nil]
  | s :: rest => by
    simp only [checkNoReturns, then_ok, checkNoReturn_ok s, checkNoReturns_ok rest, within_cons]
    simp [forall_and]
end

mutual
theorem hasReturn_iff : (s : Stmt) →
    (hasReturn s = true ↔ ∃ tok value, Inside (.ret tok value) s)
  | .ret tok value => by simp [hasReturn, Inside]
  | .cond _ _ body none => by simp [hasReturn, Inside, anyReturn_iff body]
  | .cond _ _ body (some alt) => by
    simp only [hasReturn, Bool.or_eq_true, anyReturn_iff body, anyReturn_iff alt, Inside]
    simp [exists_or]
  | .loop _ _ body => by simp [hasReturn, Inside, anyReturn_iff body]
  | .assign .. | .print .. | .printLine _ | .call .. => by simp [hasReturn, Inside]

theorem anyReturn_iff : (ss : List Stmt) →
    (anyReturn ss = true ↔ ∃ tok value, Within (.ret tok value) ss)
  | [] => by simp [anyReturn, not_within_nil]
  | s :: rest => by
    simp only [anyReturn, Bool.or_eq_true, hasReturn_iff s, anyReturn_iff rest, within_cons]
    simp [exists_or]
end

theorem checkReturn_ok : checkReturn sc fn tok value = .ok () ↔
    ReturnTyped sc.context fn.result value := by
  unfold checkReturn ReturnTyped
  by_cases hv : fn.result = .void
  · simp [hv, ensure_ok]
  · simp only [hv, if_false]
    cases value with
    | none => simp
    | some e =>
      simp only [bind_ok, ensure_ok, typeOf_ok, Option.some.injEq]
      constructor
      · rintro ⟨t, ht, rfl⟩
        exact ⟨e, rfl, ht⟩
      · rintro ⟨_, rfl, ht⟩
        exact ⟨_, ht, rfl⟩

mutual
theorem checkReturnsIn_ok {sc : Scope} {fn : FuncDecl} : (s : Stmt) →
    (checkReturnsIn sc fn s = .ok () ↔ ∀ tok value, Inside (.ret tok value) s →
      ReturnTyped sc.context fn.result value)
  | .ret tok value => by simp [checkReturnsIn, Inside, checkReturn_ok]
  | .cond _ _ body none => by simp [checkReturnsIn, Inside, checkReturns_ok body]
  | .cond _ _ body (some alt) => by
    simp only [checkReturnsIn, then_ok, checkReturns_ok body, checkReturns_ok alt, Inside]
    simp [or_imp, forall_and]
  | .loop _ _ body => by simp [checkReturnsIn, Inside, checkReturns_ok body]
  | .assign .. | .print .. | .printLine _ | .call .. => by simp [checkReturnsIn, Inside]

theorem checkReturns_ok {sc : Scope} {fn : FuncDecl} : (ss : List Stmt) →
    (checkReturns sc fn ss = .ok () ↔ ∀ tok value, Within (.ret tok value) ss →
      ReturnTyped sc.context fn.result value)
  | [] => by simp [checkReturns, not_within_nil]
  | s :: rest => by
    simp only [checkReturns, then_ok, checkReturnsIn_ok s, checkReturns_ok rest, within_cons]
    simp [or_imp, forall_and]
end

-- ---------------------------------------------------------------------------
-- Labels
-- ---------------------------------------------------------------------------

theorem fresh_cons {l : String} {ls seen : List String} :
    l ∉ seen ∧ ls.Nodup ∧ (∀ k ∈ ls, k ∉ l :: seen) ↔
      (l :: ls).Nodup ∧ ∀ k ∈ l :: ls, k ∉ seen := by
  simp only [List.nodup_cons, List.mem_cons, not_or, forall_eq_or_imp]
  constructor
  · rintro ⟨hl, hd, hk⟩
    exact ⟨⟨fun hm => (hk l hm).1 rfl, hd⟩, hl, fun k hm => (hk k hm).2⟩
  · rintro ⟨⟨hl, hd⟩, hs, hk⟩
    exact ⟨hs, hd, fun k hm => ⟨fun h => hl (h ▸ hm), hk k hm⟩⟩

theorem checkDistinct_ok : checkDistinct seen ds = .ok () ↔
    (ds.map Decl.label).Nodup ∧ ∀ l ∈ ds.map Decl.label, l ∉ seen := by
  induction ds generalizing seen with
  | nil => simp [checkDistinct]
  | cons d rest ih =>
    rw [List.map_cons, ← fresh_cons]
    simp only [checkDistinct, then_ok, ensure_ok, ih]

theorem checkDistinctVars_ok : checkDistinctVars func seen vs = .ok () ↔
    (vs.map VarDecl.label).Nodup ∧ ∀ l ∈ vs.map VarDecl.label, l ∉ seen := by
  induction vs generalizing seen with
  | nil => simp [checkDistinctVars]
  | cons v rest ih =>
    rw [List.map_cons, ← fresh_cons]
    simp only [checkDistinctVars, then_ok, ensure_ok, ih]

theorem funcs_sublist (ds : List Decl) :
    ((ds.filterMap Decl.func?).map FuncDecl.label).Sublist (ds.map Decl.label) := by
  induction ds with
  | nil => exact .slnil
  | cons d rest ih =>
    cases d with
    | var v => exact .cons _ ih
    | func f => exact .cons_cons _ ih

theorem vars_sublist (ds : List Decl) :
    ((ds.filterMap Decl.var?).map VarDecl.label).Sublist (ds.map Decl.label) := by
  induction ds with
  | nil => exact .slnil
  | cons d rest ih =>
    cases d with
    | var v => exact .cons_cons _ ih
    | func f => exact .cons _ ih

theorem funcs_nodup {p : Program} (hd : (p.decls.map Decl.label).Nodup) :
    (p.funcs.map FuncDecl.label).Nodup := hd.sublist (funcs_sublist p.decls)

theorem vars_nodup {p : Program} (hd : (p.decls.map Decl.label).Nodup) :
    (p.vars.map VarDecl.label).Nodup := hd.sublist (vars_sublist p.decls)

-- ---------------------------------------------------------------------------
-- Scopes
-- ---------------------------------------------------------------------------

theorem typesOf_eq (hd : (vars.map VarDecl.label).Nodup) :
    typesOf vars = vars.map fun v => (v.label, v.ty) :=
  Bindings.setAll_nil_of_nodup (by simpa [Function.comp_def] using hd)

theorem functionTable_eq (hd : (funcs.map FuncDecl.label).Nodup) :
    functionTable funcs = funcs.map fun f => (f.label, f) :=
  Bindings.setAll_nil_of_nodup (by simpa [Function.comp_def] using hd)

/-- Tables of distinct labels say what the declarations say. -/
theorem context_eq_declared (hf : (funcs.map FuncDecl.label).Nodup)
    (hv : (vars.map VarDecl.label).Nodup) :
    (Scope.mk (functionTable funcs) (typesOf vars)).context = declared funcs vars := by
  have hfunc (l : String) (fn : FuncDecl) :
      (functionTable funcs).get? l = some fn ↔ fn ∈ funcs ∧ fn.label = l := by
    rw [functionTable_eq hf,
      Bindings.get?_eq_some_iff (by simpa [Bindings.labels, Function.comp_def] using hf)]
    simp only [List.mem_map, Prod.mk.injEq]
    constructor
    · rintro ⟨f, hm, hl, rfl⟩
      exact ⟨hm, hl⟩
    · rintro ⟨hm, hl⟩
      exact ⟨fn, hm, hl, rfl⟩
  have hvar (l : String) (t : Ty) :
      (typesOf vars).get? l = some t ↔ ∃ v ∈ vars, v.label = l ∧ v.ty = t := by
    rw [typesOf_eq hv,
      Bindings.get?_eq_some_iff (by simpa [Bindings.labels, Function.comp_def] using hv)]
    simp
  simp only [Scope.context, declared, Context.mk.injEq]
  exact ⟨funext fun l => funext fun fn => propext (hfunc l fn),
    funext fun l => funext fun t => propext (hvar l t)⟩

-- ---------------------------------------------------------------------------
-- Programs
-- ---------------------------------------------------------------------------

theorem checkBody_ok (hf : (funcs.map FuncDecl.label).Nodup) :
    checkBody (functionTable funcs) fn = .ok () ↔
      (fn.label :: (fn.params ++ fn.locals).map VarDecl.label).Nodup ∧
        BlockTyped (declared funcs (fn.params ++ fn.locals)) fn.body := by
  simp only [checkBody, then_ok, checkDistinctVars_ok, checkStmts_ok, bodyScope]
  have hlabels : ((fn.params ++ fn.locals).map VarDecl.label).Nodup ∧
      (∀ l ∈ (fn.params ++ fn.locals).map VarDecl.label, l ∉ [fn.label]) ↔
      (fn.label :: (fn.params ++ fn.locals).map VarDecl.label).Nodup := by
    rw [List.nodup_cons, and_comm]
    simp only [List.mem_singleton]
    exact and_congr_left' ⟨fun h hm => h _ hm rfl, fun h l hm he => h (he ▸ hm)⟩
  rw [hlabels]
  refine and_congr_right fun hd => ?_
  rw [context_eq_declared hf (List.nodup_cons.mp hd).2]

theorem checkResult_ok (hf : (funcs.map FuncDecl.label).Nodup)
    (hd : (fn.label :: (fn.params ++ fn.locals).map VarDecl.label).Nodup) :
    checkResult (functionTable funcs) fn = .ok () ↔
      (∀ tok value, Within (.ret tok value) fn.body →
        ReturnTyped (declared funcs (fn.params ++ fn.locals)) fn.result value) ∧
      (fn.result ≠ .void → ∃ tok value, Within (.ret tok value) fn.body) := by
  simp only [checkResult, then_ok, ensure_ok, checkReturns_ok, bodyScope, anyReturn_iff,
    context_eq_declared hf (List.nodup_cons.mp hd).2]
  refine and_congr_right fun _ => ?_
  rw [ne_eq, ← Decidable.or_iff_not_imp_left]

theorem checkTopLevel_ok : each (checkTopLevel sc) ss = .ok () ↔
    BlockTyped sc.context ss ∧ ∀ tok value, ¬ Within (.ret tok value) ss := by
  rw [← checkStmts_ok, ← checkNoReturns_ok]
  induction ss with
  | nil => simp [each, checkStmts, checkNoReturns]
  | cons s rest ih =>
    simp only [each, checkTopLevel, checkStmts, checkNoReturns, then_ok, ih]
    exact ⟨fun ⟨⟨hn, hs⟩, hr, hnr⟩ => ⟨⟨hs, hr⟩, hn, hnr⟩,
      fun ⟨⟨hs, hr⟩, hn, hnr⟩ => ⟨⟨hn, hs⟩, hr, hnr⟩⟩

theorem mem_parameterLabels : l ∈ parameterLabels funcs ↔
    ∃ fn ∈ funcs, ∃ v ∈ fn.params, v.label = l := by
  simp [parameterLabels]

theorem checkProgram_ok (p : Program) : checkProgram p = .ok () ↔ WellTyped p := by
  simp only [checkProgram, then_ok, checkDistinct_ok, each_ok (checkBody _),
    each_ok (fun fn => ensure _ _ _), each_ok (checkResult _), checkTopLevel_ok,
    programScope, ensure_ok, mem_parameterLabels]
  constructor
  · rintro ⟨⟨hd, -⟩, hbodies, hnames, ⟨hbody, hno⟩, hresults⟩
    have hf := funcs_nodup hd
    have hv := vars_nodup hd
    refine ⟨hd, fun fn hfn => ?_, fun fn hfn other ho v hm he => ?_, ?_, hno⟩
    · obtain ⟨hlabels, hstmts⟩ := (checkBody_ok hf).mp (hbodies fn hfn)
      obtain ⟨hreturns, hhas⟩ := (checkResult_ok hf hlabels).mp (hresults fn hfn)
      exact ⟨hlabels, hstmts, hreturns, hhas⟩
    · exact hnames fn hfn ⟨other, ho, v, hm, he⟩
    · rwa [context_eq_declared hf hv] at hbody
  · rintro ⟨hd, hfuncs, hnames, hbody, hno⟩
    have hf := funcs_nodup hd
    have hv := vars_nodup hd
    refine ⟨⟨hd, by simp⟩, fun fn hfn => ?_, fun fn hfn ⟨other, ho, v, hm, he⟩ => ?_, ⟨?_, hno⟩,
      fun fn hfn => ?_⟩
    · exact (checkBody_ok hf).mpr ⟨(hfuncs fn hfn).distinct, (hfuncs fn hfn).body⟩
    · exact hnames fn hfn other ho v hm he
    · rwa [context_eq_declared hf hv]
    · exact (checkResult_ok hf (hfuncs fn hfn).distinct).mpr
        ⟨(hfuncs fn hfn).returns, (hfuncs fn hfn).hasReturn⟩

theorem ExprTyped.unique {sc : Scope} (ht : ExprTyped sc.context e t)
    (hu : ExprTyped sc.context e u) : t = u := by
  have h := ((typeOf_ok e).mpr ht).symm.trans ((typeOf_ok e).mpr hu)
  exact Except.ok.inj h

/-- Checking accepts the well typed programs and no others, and every refusal is a fault of the
checking phase. In any scope an expression has the type that is found for it and no other; in the
bodies of a well typed program the scopes are those that the declarations give. -/
theorem analyze_decides_typing (p : Program) :
    (Interpreter.analyze p = .ok p ↔ WellTyped p) ∧
    (∀ failure, Interpreter.analyze p = .error failure → failure.phase? = some .semantic) ∧
    (∀ (sc : Scope) (e : Expr) (t : Ty), typeOf sc e = .ok t ↔ ExprTyped sc.context e t) ∧
    (∀ (sc : Scope) (e : Expr) (t u : Ty),
      ExprTyped sc.context e t → ExprTyped sc.context e u → t = u) ∧
    (WellTyped p → (programScope p).context = declared p.funcs p.vars ∧
      ∀ fn ∈ p.funcs, (bodyScope (programScope p).funcs fn).context =
        declared p.funcs (fn.params ++ fn.locals)) := by
  refine ⟨?_, ?_, fun _ e _ => typeOf_ok e, fun _ _ _ _ ht hu => ht.unique hu, fun hp => ⟨?_, ?_⟩⟩
  · rw [← checkProgram_ok]
    unfold Interpreter.analyze
    split <;> simp [*]
  · intro failure h
    unfold Interpreter.analyze at h
    split at h
    · cases h
    · cases h
      rfl
  · exact context_eq_declared (funcs_nodup hp.distinct) (vars_nodup hp.distinct)
  · intro fn hfn
    exact context_eq_declared (funcs_nodup hp.distinct)
      (List.nodup_cons.mp (hp.funcs fn hfn).distinct).2

/-- The hypotheses of every part can be met: one program is accepted, one is refused, and an
expression has a type. -/
theorem analyze_decides_typing_successor :
    (WellTyped successor ∧ (programScope successor).context =
      declared successor.funcs successor.vars) ∧
    (∃ failure, Interpreter.analyze undeclaredTarget = .error failure ∧
      failure.phase? = some .semantic) ∧
    (ExprTyped (programScope successor).context (.var default "x") .integer ∧
      ∀ u, ExprTyped (programScope successor).context (.var default "x") u → .integer = u) := by
  have hp : WellTyped successor := (analyze_decides_typing successor).1.mp rfl
  have hx : ExprTyped (programScope successor).context (.var default "x") .integer :=
    ((analyze_decides_typing successor).2.2.1 _ _ _).mp rfl
  refine ⟨⟨hp, ((analyze_decides_typing successor).2.2.2.2 hp).1⟩, ⟨_, rfl, ?_⟩, hx, ?_⟩
  · exact (analyze_decides_typing undeclaredTarget).2.1 _ rfl
  · exact fun u hu => (analyze_decides_typing successor).2.2.2.1 _ _ _ u hx hu

end SplatLang.Typing
