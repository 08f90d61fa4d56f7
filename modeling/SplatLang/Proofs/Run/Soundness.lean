import SplatLang.Proofs.Run.Laws
import SplatLang.Proofs.Run.Watched
import SplatLang.Proofs.Typing.Decides

/-!
# Well typed programs do not go wrong

In a run of a checked program every expression gives a value of its type and every variable keeps
the type it was declared with, so most faults cannot occur. What is left are the faults in
`Residual`: the checker neither computes divisors nor follows the flow of control, and it lets
unknown type names and void results through.

The invariant is an equation: the labels of an environment with the types of their values are the
declared labels with their types, in the same order. Setting a variable keeps it, and a call sets
up an environment for which it holds.
-/

namespace SplatLang.Run

open Typing

/-- The faults that checking does not rule out. -/
inductive Residual (limit : Int) : RunCause → Prop
  | divisionByZero : Residual limit .divisionByZero
  | moduloByZero : Residual limit .moduloByZero
  | unknownType {ty} : ty ∉ [Ty.integer, .boolean, .string] → Residual limit (.unknownType ty)
  | noValue {func} : Residual limit (.noValue func)
  | depthLimit : 0 < limit → Residual limit (.depthLimit limit)

def types (env : Env) : Bindings Ty := env.mapValues Value.ty

-- ---------------------------------------------------------------------------
-- Values and operators
-- ---------------------------------------------------------------------------

theorem ty_integer {v : Value} (h : v.ty = .integer) : ∃ n, v = .integer n := by
  cases v with
  | integer n => exact ⟨n, rfl⟩
  | boolean b => exact absurd h (by simp [Value.ty, Ty.boolean, Ty.integer])
  | string s => exact absurd h (by simp [Value.ty, Ty.string, Ty.integer])

theorem ty_boolean {v : Value} (h : v.ty = .boolean) : ∃ b, v = .boolean b := by
  cases v with
  | integer n => exact absurd h (by simp [Value.ty, Ty.boolean, Ty.integer])
  | boolean b => exact ⟨b, rfl⟩
  | string s => exact absurd h (by simp [Value.ty, Ty.string, Ty.boolean])

theorem unquote?_quoted (inside : List Char) :
    Value.unquote? ('"' :: inside ++ ['"']) = some inside := by
  simp [Value.unquote?]

theorem ofLiteral?_quoted (inside : List Char) :
    Value.ofLiteral? (String.ofList ('"' :: inside ++ ['"'])) =
      some (.string (String.ofList inside)) := by
  have hword (w : String) (hw : w.toList.head? ≠ some '"') :
      String.ofList ('"' :: inside ++ ['"']) ≠ w := by
    rintro rfl
    simp at hw
  rw [Value.ofLiteral?, if_neg (hword "true" (by decide)), if_neg (hword "false" (by decide)),
    String.toList_ofList, unquote?_quoted]

theorem ofLiteral?_number (h : Text.int32? raw = some n) :
    Value.ofLiteral? raw = some (.integer n) := by
  obtain ⟨c, cs, hc, hfront⟩ := int32?_front h
  have hword (w : String) (d : Char) (hw : w.toList.head? = some d)
      (hd : ¬(d = '-' ∨ d = '+' ∨ d.isDigit = true)) : raw ≠ w := by
    rintro rfl
    rw [hc] at hw
    cases hw
    exact hd hfront
  have hquote : Value.unquote? raw.toList = none := by
    unfold Value.unquote?
    split
    · next heq =>
      rw [hc] at heq
      cases heq
      simp at hfront
    · rfl
  rw [Value.ofLiteral?, if_neg (hword "true" 't' rfl (by decide)),
    if_neg (hword "false" 'f' rfl (by decide)), hquote, h]
  rfl

theorem ofLiteral?_typed (h : LiteralTyped raw t) :
    ∃ v, Value.ofLiteral? raw = some v ∧ v.ty = t := by
  cases h with
  | yes => exact ⟨.boolean true, rfl, rfl⟩
  | no => exact ⟨.boolean false, rfl, rfl⟩
  | string inside => exact ⟨_, ofLiteral?_quoted inside, rfl⟩
  | integer hn => exact ⟨_, ofLiteral?_number hn, rfl⟩

theorem unary_meets (h : UnaryTyped op v.ty t) :
    (unary tok op v).Meets (fun w => w.ty = t) (Residual limit) := by
  generalize ha : v.ty = a at h
  cases h with
  | not =>
    obtain ⟨b, rfl⟩ := ty_boolean ha
    exact .pure rfl
  | negate =>
    obtain ⟨n, rfl⟩ := ty_integer ha
    exact .pure rfl

theorem arithmetic_meets (op : Arithmetic) (l r : Int32) :
    (arithmetic tok op l r).Meets (fun v => v.ty = .integer) (Residual limit) := by
  cases op with
  | add | sub | mul => exact .pure rfl
  | div =>
    by_cases hr : r = 0
    · simp only [arithmetic, hr, if_true]
      exact .fail Residual.divisionByZero
    · simp only [arithmetic, hr, if_false]
      exact .pure rfl
  | mod =>
    by_cases hr : r = 0
    · simp only [arithmetic, hr, if_true]
      exact .fail Residual.moduloByZero
    · simp only [arithmetic, hr, if_false]
      exact .pure rfl

theorem binary_meets (h : BinaryTyped op l.ty r.ty t) :
    (binary tok op l r).Meets (fun v => v.ty = t) (Residual limit) := by
  generalize ha : l.ty = a at h
  generalize hb : r.ty = b at h
  rw [binary_eq]
  cases h with
  | arithmetic op =>
    rw [BinaryOp.ofText?_text]
    obtain ⟨n, rfl⟩ := ty_integer ha
    obtain ⟨k, rfl⟩ := ty_integer hb
    exact arithmetic_meets op n k
  | comparison op =>
    rw [BinaryOp.ofText?_text]
    obtain ⟨n, rfl⟩ := ty_integer ha
    obtain ⟨k, rfl⟩ := ty_integer hb
    exact .pure rfl
  | connective op =>
    rw [BinaryOp.ofText?_text]
    obtain ⟨n, rfl⟩ := ty_boolean ha
    obtain ⟨k, rfl⟩ := ty_boolean hb
    exact .pure rfl
  | equality _ =>
    simp only [BinaryOp.ofText?_text, ha, hb, if_true]
    exact .pure rfl

-- ---------------------------------------------------------------------------
-- Environments
-- ---------------------------------------------------------------------------

theorem get?_typed {env : Env} (h : (types env).get? l = some t) :
    ∃ v, env.get? l = some v ∧ v.ty = t := by
  rw [types, Bindings.get?_mapValues] at h
  exact Option.map_eq_some_iff.mp h

/-- A new value of the old type leaves the types of an environment as they were. -/
theorem types_set {env : Env} (h : (types env).get? l = some v.ty) :
    types (env.set l v) = types env := by
  rw [types, Bindings.mapValues_set]
  exact Bindings.set_self h

theorem zero?_typed (h : Value.zero? t = some v) : v.ty = t := by
  unfold Value.zero? at h
  split at h
  · cases h; simp [Value.ty, *]
  · split at h
    · cases h; simp [Value.ty, *]
    · split at h
      · cases h; simp [Value.ty, *]
      · cases h

theorem zero?_eq_none (h : Value.zero? t = none) : t ∉ [Ty.integer, .boolean, .string] := by
  unfold Value.zero? at h
  simp only [List.mem_cons, List.not_mem_nil, or_false, not_or]
  grind

theorem zero?_known (h : t ∈ [Ty.integer, .boolean, .string]) : ∃ v, Value.zero? t = some v := by
  cases hz : Value.zero? t with
  | some v => exact ⟨v, rfl⟩
  | none => exact absurd h (zero?_eq_none hz)

theorem known_of_zero? (h : Value.zero? t = some v) : t ∈ [Ty.integer, .boolean, .string] := by
  rw [← zero?_typed h]
  cases v <;> simp [Value.ty]

def zeros (vars : List VarDecl) : List (String × Value) :=
  vars.map fun v => (v.label, (Value.zero? v.ty).getD default)

theorem bindZeros_known (env : Env) (vars : List VarDecl)
    (h : ∀ v ∈ vars, v.ty ∈ [Ty.integer, .boolean, .string]) :
    bindZeros env vars = pure (env.setAll (zeros vars)) := by
  induction vars generalizing env with
  | nil => rfl
  | cons v rest ih =>
    obtain ⟨zero, hzero⟩ := zero?_known (h v List.mem_cons_self)
    have hrest := ih (env.set v.label zero) fun w hw => h w (List.mem_cons_of_mem v hw)
    have hcons : zeros (v :: rest) = (v.label, zero) :: zeros rest := by
      rw [zeros, List.map_cons, hzero]
      rfl
    rw [bindZeros, hzero, hcons]
    exact hrest

def typed (vars : List VarDecl) : List (String × Ty) := vars.map fun v => (v.label, v.ty)

theorem bindZeros_meets (env : Env) (vars : List VarDecl) :
    (bindZeros env vars).Meets (fun env' => types env' = (types env).setAll (typed vars))
      (Residual limit) := by
  induction vars generalizing env with
  | nil => exact .pure rfl
  | cons v rest ih =>
    refine .bind (.need (Q := fun zero => zero.ty = v.ty) (fun _ h => zero?_typed h)
      (fun h => .unknownType (zero?_eq_none h))) fun zero hzero => ?_
    refine (ih (env.set v.label zero)).mono fun env' henv => ?_
    rw [henv, types, Bindings.mapValues_set, hzero]
    rfl

theorem types_bindParams (params : List VarDecl) (values : List Value)
    (h : values.map Value.ty = params.map VarDecl.ty) :
    types (bindParams params values) = Bindings.setAll [] (typed params) := by
  have step (env : Env) : types (env.setAll ((params.map VarDecl.label).zip values)) =
      (types env).setAll (typed params) := by
    induction params generalizing env values with
    | nil => rfl
    | cons q qs ih =>
      cases values with
      | nil => simp at h
      | cons v vs =>
        simp only [List.map_cons, List.cons.injEq] at h
        have hset : types (env.set q.label v) = (types env).set q.label q.ty := by
          rw [types, Bindings.mapValues_set, h.1]
          rfl
        exact (ih vs h.2 (env.set q.label v)).trans (by rw [hset]; rfl)
  exact step []

-- ---------------------------------------------------------------------------
-- Expressions
-- ---------------------------------------------------------------------------

/-- Calls of functions in a table with arguments of the right types give a value of the promised
type, if they give one. -/
def InvokeTyped (limit : Int) (funcs : Bindings FuncDecl) (inv : Invoke) : Prop :=
  ∀ tok label fn values, funcs.get? label = some fn →
    values.map Value.ty = fn.params.map VarDecl.ty →
    (inv tok fn values).Meets (fun r => ∀ v, r = some v → v.ty = fn.result) (Residual limit)

section
variable {sc : Scope} {limit : Int} {inv : Invoke} {env : Env}

theorem call_meets (hinv : InvokeTyped limit sc.funcs inv) (hfn : sc.funcs.get? label = some fn)
    (hcount : count = fn.params.length)
    (hargs : args.Meets (fun vs => vs.map Value.ty = fn.params.map VarDecl.ty) (Residual limit)) :
    (call sc.funcs inv tok label count args).Meets (fun r => ∀ v, r = some v → v.ty = fn.result)
      (Residual limit) := by
  unfold call
  simp only [hfn]
  refine .bind (.pure (Q := fun f => f = fn) rfl) ?_
  rintro _ rfl
  simp only [hcount, if_true]
  exact .bind hargs fun vs hvs => hinv tok label _ vs hfn hvs

mutual
theorem evalExpr_meets (hinv : InvokeTyped limit sc.funcs inv) (henv : types env = sc.vars) :
    (e : Expr) → {t : Ty} → ExprTyped sc.context e t →
      (evalExpr sc.funcs inv env e).Meets (fun v => v.ty = t) (Residual limit)
  | .literal tok raw, t, .literal h => by
    obtain ⟨v, hv, ht⟩ := ofLiteral?_typed h
    simp only [evalExpr, hv]
    exact .pure ht
  | .var tok label, t, .var h => by
    have hvar : (types env).get? label = some t := by rw [henv]; exact h
    obtain ⟨v, hv, ht⟩ := get?_typed hvar
    simp only [evalExpr, hv]
    exact .pure ht
  | .binary tok left op right, t, .binary hl hr h => by
    simp only [evalExpr]
    refine .bind (evalExpr_meets hinv henv left hl) fun l htl => ?_
    refine .bind (evalExpr_meets hinv henv right hr) fun r htr => ?_
    exact binary_meets (htl ▸ htr ▸ h)
  | .unary tok op operand, t, .unary ha h => by
    simp only [evalExpr]
    refine .bind (evalExpr_meets hinv henv operand ha) fun v hv => ?_
    exact unary_meets (hv ▸ h)
  | .call tok label args, _, .call hfn hargs => by
    simp only [evalExpr]
    refine .bind (call_meets hinv hfn hargs.length_eq (evalArgs_meets hinv henv args hargs)) ?_
    intro r hr
    exact .need hr fun _ => .noValue

theorem evalArgs_meets (hinv : InvokeTyped limit sc.funcs inv) (henv : types env = sc.vars) :
    (es : List Expr) → {ps : List VarDecl} → ArgsTyped sc.context es ps →
      (evalArgs sc.funcs inv env es).Meets
        (fun vs => vs.map Value.ty = ps.map VarDecl.ty) (Residual limit)
  | [], _, .nil => by
    simp only [evalArgs]
    exact .pure rfl
  | e :: es, _, .cons he hes => by
    simp only [evalArgs]
    refine .bind (evalExpr_meets hinv henv e he) fun v hv => ?_
    refine .bind (evalArgs_meets hinv henv es hes) fun vs hvs => ?_
    exact .pure (by simp [hv, hvs])
end

theorem condition_meets (hinv : InvokeTyped limit sc.funcs inv) (henv : types env = sc.vars)
    (h : ExprTyped sc.context test .boolean) :
    (condition sc.funcs inv env test).Meets (fun _ => True) (Residual limit) := by
  unfold condition
  refine .bind (evalExpr_meets hinv henv test h) fun v hv => ?_
  obtain ⟨b, rfl⟩ := ty_boolean hv
  exact .pure trivial

-- ---------------------------------------------------------------------------
-- Statements
-- ---------------------------------------------------------------------------

/-- Every return of a block fits the body it stands in. The body of a program has no result, so
no return fits it. -/
def ReturnsTyped (c : Context) (result : Option Ty) (ss : List Stmt) : Prop :=
  ∀ tok value, Within (.ret tok value) ss → ∃ t, result = some t ∧ ReturnTyped c t value

def FlowTyped (result : Option Ty) : Flow → Prop
  | .next => True
  | .returned v => ∃ t, result = some t ∧ ∀ w, v = some w → w.ty = t

theorem ReturnsTyped.head (h : ReturnsTyped c result (s :: rest)) : ReturnsTyped c result [s] := by
  intro tok value hw
  rw [within_cons, or_iff_left not_within_nil] at hw
  exact h tok value (within_cons.mpr (.inl hw))

theorem ReturnsTyped.tail (h : ReturnsTyped c result (s :: rest)) : ReturnsTyped c result rest :=
  fun tok value hw => h tok value (.later hw)

def Kept (sc : Scope) (result : Option Ty) (r : Env × Flow) : Prop :=
  types r.1 = sc.vars ∧ FlowTyped result r.2

mutual
theorem execStmt_meets {result : Option Ty} {rounds : Nat} (hinv : InvokeTyped limit sc.funcs inv) :
    (s : Stmt) → {env : Env} → types env = sc.vars → StmtTyped sc.context s →
      ReturnsTyped sc.context result [s] →
      (execStmt sc.funcs inv rounds s env).Meets (Kept sc result) (Residual limit)
  | .assign tok label value, env, henv, .assign (t := t) hvar hvalue, _ => by
    have hvar : (types env).get? label = some t := by rw [henv]; exact hvar
    obtain ⟨old, hold, -⟩ := get?_typed hvar
    simp only [execStmt, Bindings.has, hold, Option.isSome_some, if_true]
    refine .bind (evalExpr_meets hinv henv value hvalue) fun v hv => ?_
    exact .pure ⟨(types_set (hv ▸ hvar)).trans henv, trivial⟩
  | .cond tok test body none, env, henv, .ifThen htest hbody, hret => by
    simp only [execStmt]
    refine .bind (condition_meets hinv henv htest) fun b _ => ?_
    cases b
    · exact .pure ⟨henv, trivial⟩
    · exact execStmts_meets hinv body henv hbody fun tok value hw => hret tok value (.thenBranch hw)
  | .cond tok test body (some alt), env, henv, .ifElse htest hbody halt, hret => by
    simp only [execStmt]
    refine .bind (condition_meets hinv henv htest) fun b _ => ?_
    cases b
    · exact execStmts_meets hinv alt henv halt fun tok value hw => hret tok value (.elseBranch hw)
    · exact execStmts_meets hinv body henv hbody fun tok value hw => hret tok value (.thenBranch hw)
  | .loop tok test body, env, henv, .loop htest hbody, hret => by
    simp only [execStmt]
    refine .repeatWhile (I := fun env => types env = sc.vars)
      (fun env' henv' => condition_meets hinv henv' htest) (fun env' henv' => ?_) trivial _ _ henv
    exact execStmts_meets hinv body henv' hbody fun tok value hw => hret tok value (.loopBody hw)
  | .print tok value, env, henv, .print hvalue, _ => by
    simp only [execStmt]
    refine .bind (evalExpr_meets hinv henv value hvalue) fun v _ => ?_
    refine .bind .write fun _ _ => ?_
    exact .pure ⟨henv, trivial⟩
  | .printLine tok, env, henv, .printLine, _ => by
    simp only [execStmt]
    exact .bind .write fun _ _ => .pure ⟨henv, trivial⟩
  | .ret tok none, env, henv, .bareReturn, hret => by
    obtain ⟨t, ht, -⟩ := hret tok none .here
    simp only [execStmt]
    exact .pure ⟨henv, t, ht, nofun⟩
  | .ret tok (some value), env, henv, .valueReturn _, hret => by
    obtain ⟨t, ht, hvalue⟩ := hret tok (some value) .here
    unfold ReturnTyped at hvalue
    split at hvalue
    · cases hvalue
    · obtain ⟨e, he, hvalue⟩ := hvalue
      cases he
      simp only [execStmt]
      refine .bind (evalExpr_meets hinv henv value hvalue) fun v hv => ?_
      refine .pure ⟨henv, t, ht, ?_⟩
      rintro w ⟨⟩
      exact hv
  | .call tok label args, env, henv, .call hfn hargs, _ => by
    simp only [execStmt]
    refine .bind (call_meets hinv hfn hargs.length_eq (evalArgs_meets hinv henv args hargs)) ?_
    exact fun _ _ => .pure ⟨henv, trivial⟩

theorem execStmts_meets {result : Option Ty} {rounds : Nat}
    (hinv : InvokeTyped limit sc.funcs inv) :
    (ss : List Stmt) → {env : Env} → types env = sc.vars → BlockTyped sc.context ss →
      ReturnsTyped sc.context result ss →
      (execStmts sc.funcs inv rounds ss env).Meets (Kept sc result) (Residual limit)
  | [], env, henv, .nil, _ => by
    simp only [execStmts]
    exact .pure ⟨henv, trivial⟩
  | s :: rest, env, henv, .cons hs hrest, hret => by
    simp only [execStmts]
    refine .bind (execStmt_meets hinv s henv hs hret.head) ?_
    rintro ⟨env', flow⟩ ⟨henv', hflow⟩
    cases flow with
    | next => exact execStmts_meets hinv rest henv' hrest hret.tail
    | returned v => exact .pure ⟨henv', hflow⟩
end

end

-- ---------------------------------------------------------------------------
-- Bodies and calls
-- ---------------------------------------------------------------------------

namespace Body

def stmts (p : Program) : Body → List Stmt
  | main => p.stmts
  | func fn => fn.body

def result : Body → Option Ty
  | main => none
  | func fn => some fn.result

def scope (p : Program) (b : Body) : Scope := ⟨functionTable p, typesOf (b.vars p)⟩

/-- A function body counts if the function can be looked up. -/
def Of (p : Program) : Body → Prop
  | main => True
  | func fn => ∃ label, (functionTable p).get? label = some fn

end Body

theorem mem_of_functionTable (hp : WellTyped p) (h : (functionTable p).get? label = some fn) :
    fn ∈ p.funcs := by
  have hm := Bindings.mem_of_get? h
  rw [show functionTable p = _ from functionTable_eq (funcs_nodup hp.distinct)] at hm
  obtain ⟨f, hf, heq⟩ := List.mem_map.mp hm
  cases heq
  exact hf

theorem vars_distinct (hp : WellTyped p) {b : Body} (hb : b.Of p) :
    ((b.vars p).map VarDecl.label).Nodup := by
  cases b with
  | main => exact vars_nodup hp.distinct
  | func fn =>
    obtain ⟨label, hfn⟩ := hb
    exact (List.nodup_cons.mp (hp.funcs fn (mem_of_functionTable hp hfn)).distinct).2

theorem scope_context (hp : WellTyped p) {b : Body} (hb : b.Of p) :
    (b.scope p).context = declared p.funcs (b.vars p) :=
  context_eq_declared (funcs_nodup hp.distinct) (vars_distinct hp hb)

theorem body_typed (hp : WellTyped p) {b : Body} (hb : b.Of p) :
    BlockTyped (b.scope p).context (b.stmts p) ∧
      ReturnsTyped (b.scope p).context b.result (b.stmts p) := by
  rw [scope_context hp hb]
  cases b with
  | main => exact ⟨hp.body, fun tok value hw => absurd hw (hp.noReturn tok value)⟩
  | func fn =>
    obtain ⟨label, hfn⟩ := hb
    have hf := hp.funcs fn (mem_of_functionTable hp hfn)
    exact ⟨hf.body, fun tok value hw => ⟨fn.result, rfl, hf.returns tok value hw⟩⟩

/-- The variables that a call starts with have the types they are declared with. -/
theorem callEnv_meets {fn : FuncDecl} (h : values.map Value.ty = fn.params.map VarDecl.ty) :
    (bindZeros (bindParams fn.params values) fn.locals).Meets
      (fun env => types env = typesOf (fn.params ++ fn.locals)) (Residual limit) := by
  refine (bindZeros_meets _ _).mono fun env henv => ?_
  rw [henv, types_bindParams _ _ h, ← Bindings.setAll_append]
  simp [typesOf, typed]

theorem mainEnv_meets (p : Program) :
    (bindZeros [] p.vars).Meets (fun env => types env = typesOf p.vars) (Residual limit) :=
  bindZeros_meets [] p.vars

theorem exceeds_pos (h : exceeds limit d = true) : 0 < limit := by
  simp only [exceeds, Bool.and_eq_true, decide_eq_true_eq] at h
  exact h.1

/-- By induction on the allowance: a body calls with one call less to spare. -/
theorem invoke_typed (hp : WellTyped p) (n : Nat) :
    InvokeTyped limit (functionTable p) (invoke (functionTable p) limit n) := by
  induction n with
  | zero => exact fun _ _ _ _ _ _ => .exhausted
  | succ n ih =>
    intro tok label fn values hfn hvalues
    have hb : (Body.func fn).Of p := ⟨label, hfn⟩
    obtain ⟨hbody, hret⟩ := body_typed hp hb
    have hinv : InvokeTyped limit ((Body.func fn).scope p).funcs _ := ih
    refine .deeper (.bind .depth fun d _ => ?_)
    split
    · next hd => exact .fail (Residual.depthLimit (exceeds_pos hd))
    · refine .bind (callEnv_meets hvalues) fun env henv => ?_
      refine .bind .record fun _ _ => ?_
      refine .bind (execStmts_meets hinv fn.body henv hbody hret) ?_
      rintro ⟨env', flow⟩ ⟨-, hflow⟩
      refine .pure ?_
      cases flow with
      | next => exact nofun
      | returned v =>
        obtain ⟨t, ht, hv⟩ := hflow
        cases ht
        exact hv

theorem program_meets (hp : WellTyped p) (limit : Int) (n : Nat) :
    (program limit n p).Meets (fun _ => True) (Residual limit) := by
  obtain ⟨hbody, hret⟩ := body_typed hp (b := .main) trivial
  have hinv : InvokeTyped limit (Body.main.scope p).funcs _ := invoke_typed hp n
  intro m
  refine Exec.Meets.bind (mainEnv_meets p) (fun env henv => ?_) { m with depth := 0 }
  refine .bind .record fun _ _ => ?_
  refine .bind (execStmts_meets hinv p.stmts henv hbody hret) ?_
  rintro ⟨env', flow⟩ ⟨-, hflow⟩
  cases flow with
  | next => exact .record
  | returned v =>
    obtain ⟨t, ht, -⟩ := hflow
    cases ht

-- ---------------------------------------------------------------------------
-- Points of a run
-- ---------------------------------------------------------------------------

def Frame.Typed (p : Program) (f : Frame) : Prop :=
  f.body.Of p ∧ types f.env = (f.body.scope p).vars

/-- What holds at every point of a run: the variables have their types, and what is about to be
run is typed in the body it belongs to. -/
def Point.Typed (p : Program) : Point → Prop
  | block f ss => f.Typed p ∧ BlockTyped (f.body.scope p).context ss ∧
      ReturnsTyped (f.body.scope p).context f.body.result ss
  | stmt f s => f.Typed p ∧ StmtTyped (f.body.scope p).context s ∧
      ReturnsTyped (f.body.scope p).context f.body.result [s]
  | expr f e => f.Typed p ∧ ∃ t, ExprTyped (f.body.scope p).context e t
  | args f es => f.Typed p ∧ ∃ ps, ArgsTyped (f.body.scope p).context es ps
  | call _ _ fn values => (Body.func fn).Of p ∧ values.map Value.ty = fn.params.map VarDecl.ty

section
variable {p : Program} {limit : Int} {f : Frame}

theorem Frame.invoke_typed (hp : WellTyped p) (f : Frame) :
    InvokeTyped limit (f.body.scope p).funcs (invoke (functionTable p) limit f.allowance) :=
  Run.invoke_typed hp f.allowance

theorem operand_typed (h : StmtTyped c s) (he : operand? s = some e) : ∃ t, ExprTyped c e t := by
  cases h <;> cases he
  all_goals exact ⟨_, by assumption⟩

theorem call_point (hp : WellTyped p) (hf : f.Typed p)
    (hfn : (functionTable p).get? label = some fn)
    (hargs : ArgsTyped (f.body.scope p).context args fn.params)
    (hvs : f.evalAll p limit args m = (.done values, m')) :
    (Point.call f.allowance tok fn values).Typed p :=
  ⟨⟨label, hfn⟩, (evalArgs_meets (f.invoke_typed hp) hf.2 args hargs).of_done hvs⟩

/-- Every step from a point to the next one keeps the invariant. -/
theorem reached_typed (hp : WellTyped p) (h : Reached p limit n m₀ point m) : point.Typed p := by
  induction h with
  | start hz =>
    obtain ⟨hbody, hret⟩ := body_typed hp (b := .main) trivial
    exact ⟨⟨trivial, (@mainEnv_meets limit p).of_done hz⟩, hbody, hret⟩
  | head _ ih =>
    have ⟨hf, .cons hs _, hret⟩ := ih
    exact ⟨hf, hs, hret.head⟩
  | next _ hx ih =>
    have ⟨hf, .cons hs hrest, hret⟩ := ih
    have hk := (execStmt_meets (Frame.invoke_typed hp _) _ hf.2 hs hret.head).of_done hx
    exact ⟨⟨hf.1, hk.1⟩, hrest, hret.tail⟩
  | operand _ he ih => exact ⟨ih.1, operand_typed ih.2.1 he⟩
  | @thenBranch f tok test body alt _ _ _ _ ih =>
    have ⟨hf, hs, hret⟩ := ih
    refine ⟨hf, ?_, fun tok value hw => hret tok value (.thenBranch hw)⟩
    cases hs with
    | ifThen _ hbody => exact hbody
    | ifElse _ hbody _ => exact hbody
  | elseBranch _ _ ih =>
    have ⟨hf, .ifElse _ _ halt, hret⟩ := ih
    exact ⟨hf, halt, fun tok value hw => hret tok value (.elseBranch hw)⟩
  | round _ _ ih =>
    have ⟨hf, .loop _ hbody, hret⟩ := ih
    exact ⟨hf, hbody, fun tok value hw => hret tok value (.loopBody hw)⟩
  | again _ _ hx ih =>
    have ⟨hf, .loop htest hbody, hret⟩ := ih
    have hk := (execStmts_meets (Frame.invoke_typed hp _) _ hf.2 hbody
      fun tok value hw => hret tok value (.loopBody hw)).of_done hx
    exact ⟨⟨hf.1, hk.1⟩, .loop htest hbody, hret⟩
  | stmtArgs _ ih =>
    have ⟨hf, .call _ hargs, _⟩ := ih
    exact ⟨hf, _, hargs⟩
  | stmtCall _ hfn _ hvs ih =>
    have ⟨hf, .call hfn' hargs, _⟩ := ih
    cases hfn.symm.trans hfn'
    exact call_point hp hf hfn hargs hvs
  | left _ ih =>
    have ⟨hf, _, .binary hl _ _⟩ := ih
    exact ⟨hf, _, hl⟩
  | right _ _ ih =>
    have ⟨hf, _, .binary _ hr _⟩ := ih
    exact ⟨hf, _, hr⟩
  | inner _ ih =>
    have ⟨hf, _, .unary ha _⟩ := ih
    exact ⟨hf, _, ha⟩
  | exprArgs _ ih =>
    have ⟨hf, _, .call _ hargs⟩ := ih
    exact ⟨hf, _, hargs⟩
  | exprCall _ hfn _ hvs ih =>
    have ⟨hf, _, .call hfn' hargs⟩ := ih
    cases hfn.symm.trans hfn'
    exact call_point hp hf hfn hargs hvs
  | firstArg _ ih =>
    have ⟨hf, _, .cons he _⟩ := ih
    exact ⟨hf, _, he⟩
  | laterArgs _ _ ih =>
    have ⟨hf, _, .cons _ hes⟩ := ih
    exact ⟨hf, _, hes⟩
  | enter _ _ hz ih =>
    obtain ⟨hb, hvalues⟩ := ih
    obtain ⟨hbody, hret⟩ := body_typed hp hb
    exact ⟨⟨hb, (@callEnv_meets _ limit _ hvalues).of_done hz⟩, hbody, hret⟩

end

theorem Point.Typed.frame (h : Point.Typed p point) (hf : point.frame? = some f) : f.Typed p := by
  cases point with
  | call => cases hf
  | _ =>
    cases hf
    exact h.1

-- ---------------------------------------------------------------------------
-- Type soundness
-- ---------------------------------------------------------------------------

theorem Residual.message (h : Residual limit cause) :
    cause.message = "Division by zero" ∨ cause.message = "Modulo by zero" ∨
    (∃ name, name ∉ ["Integer", "Boolean", "String"] ∧
      cause.message = "Unknown type: " ++ name) ∨
    (∃ func, cause.message = "Function '" ++ func ++ "' did not return a value") ∨
    cause.message = "Call depth limit of " ++ toString limit ++ " exceeded" := by
  cases h with
  | divisionByZero => exact .inl rfl
  | moduloByZero => exact .inr (.inl rfl)
  | @unknownType ty hty =>
    refine .inr (.inr (.inl ⟨ty.name, ?_, rfl⟩))
    obtain ⟨name⟩ := ty
    simpa [Ty.integer, Ty.boolean, Ty.string] using hty
  | noValue => exact .inr (.inr (.inr (.inl ⟨_, rfl⟩)))
  | depthLimit _ => exact .inr (.inr (.inr (.inr rfl)))

/-- Type soundness. A run of a checked program that is not given up succeeds, is stopped by its
sink, or stops with a residual fault. At every point of the run the variables of the body are
those declared for it, each with a value of its declared type, and a call that gives a value gives
one of the type that the function promises. A watcher that only objects to other variables than
those declared finds nothing to object to in the whole run. -/
theorem checked_program_sound {p : Program} (hp : checkProgram p = .ok ()) (limit : Int) (n : Nat)
    (m₀ : Machine) :
    (∀ ending m, program limit n p m₀ = (ending, m) → ending ≠ .exhausted →
      ending = .done () ∨ (∃ reason, ending = .refused reason) ∨
      ∃ f, ending = .fault f ∧ f.report.phase = .execution ∧ Residual limit f.cause ∧
        (f.report.message = "Division by zero" ∨ f.report.message = "Modulo by zero" ∨
        (∃ name, name ∉ ["Integer", "Boolean", "String"] ∧
          f.report.message = "Unknown type: " ++ name) ∨
        (∃ func, f.report.message = "Function '" ++ func ++ "' did not return a value") ∨
        f.report.message = "Call depth limit of " ++ toString limit ++ " exceeded")) ∧
    (∀ point m f, Reached p limit n m₀ point m → point.frame? = some f →
      f.env.map (fun b => (b.1, b.2.ty)) = (f.body.vars p).map fun v => (v.label, v.ty)) ∧
    (∀ k tok fn values m v m', Reached p limit n m₀ (.call k tok fn values) m →
      invoke (functionTable p) limit k tok fn values m = (.done (some v), m') →
      v.ty = fn.result) ∧
    ∀ watch : Point → Exec Unit,
      (∀ point m, (∀ f, point.frame? = some f →
        f.env.map (fun b => (b.1, b.2.ty)) = (f.body.vars p).map fun v => (v.label, v.ty)) →
        watch point m = (.done (), m)) →
      watchProgram watch limit n p m₀ = program limit n p m₀ := by
  have hp := (checkProgram_ok p).mp hp
  have hdeclared {point m f} (hreach : Reached p limit n m₀ point m)
      (hf : point.frame? = some f) :
      f.env.map (fun b => (b.1, b.2.ty)) = (f.body.vars p).map fun v => (v.label, v.ty) := by
    obtain ⟨hb, henv⟩ := (reached_typed hp hreach).frame hf
    exact henv.trans (typesOf_eq (vars_distinct hp hb))
  refine ⟨fun ending m hrun hfin => ?_, fun point m f hreach hf => hdeclared hreach hf, ?_,
    fun watch hwatch => ?_⟩
  · cases ending with
    | done => exact .inl rfl
    | refused reason => exact .inr (.inl ⟨reason, rfl⟩)
    | fault f =>
      have hres := (program_meets hp limit n).of_fault hrun
      exact .inr (.inr ⟨f, rfl, rfl, hres, hres.message⟩)
    | exhausted => exact absurd rfl hfin
  · intro k tok fn values m v m' hreach hrun
    obtain ⟨⟨label, hfn⟩, hvalues⟩ := reached_typed hp hreach
    exact (invoke_typed hp k tok label fn values hfn hvalues).of_done hrun v rfl
  · exact watched_run m₀ fun point m hreach => hwatch point m fun f hf => hdeclared hreach hf

/-- The run of `successor` comes to a call of its function with 41, which gives a number. -/
theorem checked_program_sound_successor :
    checkProgram successor = .ok () ∧
    ∃ fn m v m', Reached successor 0 2 {} (.call 2 default fn [.integer 41]) m ∧
      invoke (functionTable successor) 0 2 default fn [.integer 41] m = (.done (some v), m') ∧
      v.ty = fn.result := by
  have hp : checkProgram successor = .ok () := rfl
  have hstart := @Reached.start successor 0 2 {} _ _ rfl
  have harg := hstart.head.operand rfl
  have hcall := Reached.exprCall harg rfl rfl rfl
  refine ⟨hp, _, _, _, _, hcall, rfl, ?_⟩
  exact (checked_program_sound hp 0 2 {}).2.2.1 _ _ _ _ _ _ _ hcall rfl

end SplatLang.Run
