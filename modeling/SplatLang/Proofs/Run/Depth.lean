import Mathlib.Data.List.Chain
import SplatLang.Proofs.Run.Bodies
import SplatLang.Proofs.Run.Limits
import SplatLang.Proofs.Run.Points

/-!
# Depths of calls

A call moves the counter of the machine up before its body runs and down behind it, however the
body ends. So a run can do without the counter: `programUnder` hands down the list of the active
calls instead and takes its length for the depth of a call. It does what `program` does, and the
laws of the depths in a trace are read off from it, as a property of whole trees of calls
(`Nested`).

A run sets the counter back before it starts, so what earlier runs have left of it does not matter;
`program_over` says that nothing else of them does.
-/

namespace SplatLang

-- ---------------------------------------------------------------------------
-- Depths in a trace
-- ---------------------------------------------------------------------------

def Event.callDepth? : Event → Option Nat
  | .call _ d => some d
  | _ => none

def callDepths (events : List Event) : List Nat := events.filterMap Event.callDepth?

def Machine.over (m old : Machine) : Machine :=
  { m with writes := m.writes ++ old.writes, trace := m.trace ++ old.trace }

namespace Run

open Exec Typing

/-- The depths of calls that are made one after the other while `d` calls are active, with the
depths of those made inside them. -/
inductive Nested (limit : Int) : Nat → List Nat → Prop
  | nil {d} : Nested limit d []
  | call {d inner rest} : exceeds limit (d + 1) = false → Nested limit (d + 1) inner →
      Nested limit d rest → Nested limit d ((d + 1) :: (inner ++ rest))

namespace Nested

variable {limit : Int} {d : Nat} {ds es : List Nat}

theorem append (h : Nested limit d ds) (h' : Nested limit d es) : Nested limit d (ds ++ es) := by
  induction h with
  | nil => exact h'
  | call hd hinner _ _ ih =>
    rw [List.cons_append, List.append_assoc]
    exact .call hd hinner (ih h')

theorem above (h : Nested limit d ds) : ∀ e ∈ ds, d < e ∧ exceeds limit e = false := by
  induction h with
  | nil => nofun
  | call hd _ _ ihinner ihrest =>
    intro e he
    rw [List.mem_cons, List.mem_append] at he
    rcases he with rfl | he | he
    · exact ⟨Nat.lt_succ_self _, hd⟩
    · exact ⟨Nat.lt_of_succ_lt (ihinner e he).1, (ihinner e he).2⟩
    · exact ihrest e he

theorem head (h : Nested limit d ds) : ∀ e ∈ ds.head?, e = d + 1 := by
  cases h with
  | nil => nofun
  | call => simp

/-- Between two calls any number of bodies may be left, but only one is entered. -/
theorem chain (h : Nested limit d ds) : ds.IsChain fun d e => 1 ≤ e ∧ e ≤ d + 1 := by
  induction h with
  | nil => exact .nil
  | @call d inner rest hd hinner hrest ihinner ihrest =>
    refine List.isChain_cons.mpr ⟨fun e he => ?_, List.isChain_append.mpr ⟨ihinner, ihrest, ?_⟩⟩
    · -- What follows is the first call inside, or the next one after.
      have hinner := hinner.head e
      have hrest := hrest.head e
      rw [Option.mem_def, List.head?_append, Option.or_eq_some_iff] at he
      rcases he with he | ⟨-, he⟩
      · have := hinner he
        omega
      · have := hrest he
        omega
    · intro e he e' he'
      have hlow := (hinner.above e (List.mem_of_getLast? he)).1
      have hhead := hrest.head e' he'
      omega

end Nested

-- ---------------------------------------------------------------------------
-- Runs without a counter
-- ---------------------------------------------------------------------------

/-- Calls a function while those of `active` are active, the last one called first. The counter of
the machine is left alone. -/
def invokeUnder (funcs : Bindings FuncDecl) (limit : Int) : (active : List FuncDecl) → Nat → Invoke
  | _, 0, _, _, _ => exhausted
  | active, n + 1, tok, fn, values =>
    activate funcs limit (fn :: active).length (invokeUnder funcs limit (fn :: active) n) n tok fn
      values

def programUnder (limit : Int) (n : Nat) (p : Program) : Exec Unit := fun m =>
  main p (invokeUnder (functionTable p) limit [] n) n { m with depth := 0 }

/-- While `d` calls are active, the first computation leaves the counter at `d`, and apart from it
does what the second one does. -/
def Counts (d : Nat) (x y : Exec α) : Prop :=
  ∀ m, m.depth = d → ∃ ending m', x m = (ending, m') ∧ m'.depth = d ∧
    y { m with depth := 0 } = (ending, { m' with depth := 0 })

theorem Counts.bind {x y : Exec α} {f g : α → Exec β} (h : Counts d x y)
    (hk : ∀ a, Counts d (f a) (g a)) : Counts d (x >>= f) (y >>= g) := by
  intro m hm
  obtain ⟨ending, m', hx, hm', hy⟩ := h m hm
  show ∃ ending m', Exec.bind x f m = _ ∧ _ ∧ Exec.bind y g _ = _
  unfold Exec.bind
  rw [hx, hy]
  cases ending with
  | done a => exact hk a m' hm'
  | fault e => exact ⟨_, m', rfl, hm', rfl⟩
  | refused reason => exact ⟨_, m', rfl, hm', rfl⟩
  | exhausted => exact ⟨_, m', rfl, hm', rfl⟩

theorem Counts.fail : Counts d (Exec.fail (α := α) cause tok) (Exec.fail cause tok) :=
  fun _ hm => ⟨_, _, rfl, hm, rfl⟩

theorem Counts.record : Counts d (Exec.record e) (Exec.record e) :=
  fun _ hm => ⟨_, _, rfl, hm, rfl⟩

theorem Counts.exhausted : Counts d (Exec.exhausted (α := α)) Exec.exhausted :=
  fun _ hm => ⟨_, _, rfl, hm, rfl⟩

theorem Counts.write : Counts d (Exec.write text) (Exec.write text) := by
  rintro ⟨sink, writes, trace, depth⟩ hm
  rcases sink with _ | ⟨_ | room, refusal⟩
  · exact ⟨_, _, rfl, hm, rfl⟩
  · exact ⟨_, _, rfl, hm, rfl⟩
  · exact ⟨_, _, rfl, hm, rfl⟩

/-- What is run one call deeper finds the counter at one more, and leaves it there. -/
theorem Counts.deeper {x : Nat → Exec α} (h : Counts (d + 1) (x (d + 1)) y) :
    Counts d (Exec.deeper (depth >>= x)) y := by
  intro m hm
  obtain ⟨ending, m', hx, hm', hy⟩ := h { m with depth := d + 1 } rfl
  refine ⟨ending, { m' with depth := d }, ?_, rfl, hy⟩
  show Exec.deeper (fun m => x m.depth m) m = _
  simp only [Exec.deeper, hm, hx, hm', Nat.add_sub_cancel]

def counting (d : Nat) : Congruence where
  Holds := Counts d
  pure _ hm := ⟨_, _, rfl, hm, rfl⟩
  bind := .bind
  fail _ := .fail
  record _ := .record
  write := .write

theorem respected_counting
    (h : ∀ tok fn values, Counts d (inv tok fn values) (inv' tok fn values))
    (funcs : Bindings FuncDecl) (ss : List Stmt) :
    Every (Respected (counting d) funcs inv inv') ss := fun _ _ => {
  calls := fun _ _ fn _ tok values => h tok fn values
  rounds := fun _ _ _ _ => .exhausted }

theorem invoke_counts (funcs : Bindings FuncDecl) (limit : Int) (n : Nat) (active : List FuncDecl)
    (tok : Token) (fn : FuncDecl) (values : List Value) :
    Counts active.length (invoke funcs limit n tok fn values)
      (invokeUnder funcs limit active n tok fn values) := by
  induction n generalizing active tok fn values with
  | zero => exact .exhausted
  | succ n ih =>
    rw [invoke_succ]
    refine .deeper (activate_respects (C := counting (active.length + 1)) ?_ ?_ ?_)
    · exact fun _ => .fail
    · exact .record
    · exact fun _ => respected_counting (ih (fn :: active)) funcs fn.body

/-- A run keeps count of its active calls. -/
theorem program_eq_under (limit : Int) (n : Nat) (p : Program) :
    program limit n p = programUnder limit n p := by
  funext m
  have hcalls := invoke_counts (functionTable p) limit n []
  have hmain : Counts 0 (main p (invoke (functionTable p) limit n) n)
      (main p (invokeUnder (functionTable p) limit [] n) n) :=
    main_respects (C := counting 0) (respected_counting hcalls _ _)
  obtain ⟨ending, m', hx, hm', hy⟩ := hmain { m with depth := 0 } rfl
  rw [program_eq, hx, programUnder, hy, ← hm']

theorem Counts.balanced {x : Exec α} (h : Counts m.depth x y) : (x m).2.depth = m.depth := by
  obtain ⟨ending, m', hx, hm', -⟩ := h m rfl
  rw [hx, hm']

/-- Any functions may be the active ones, as only their number matters. -/
theorem invoke_counts_any (funcs : Bindings FuncDecl) (limit : Int) (n d : Nat) (tok : Token)
    (fn : FuncDecl) (values : List Value) :
    Counts d (invoke funcs limit n tok fn values)
      (invokeUnder funcs limit (List.replicate d fn) n tok fn values) := by
  simpa using invoke_counts funcs limit n (List.replicate d fn) tok fn values

theorem Frame.eval_balanced (p : Program) (limit : Int) (f : Frame) (e : Expr) (m : Machine) :
    (f.eval p limit e m).2.depth = m.depth := by
  have hcalls := invoke_counts_any (functionTable p) limit f.allowance m.depth
  exact Counts.balanced (evalExpr_respects (C := counting m.depth) f.env e
    fun _ _ fn _ tok values => hcalls tok fn values)

theorem Frame.exec_balanced (p : Program) (limit : Int) (f : Frame) (s : Stmt) (m : Machine) :
    (f.exec p limit s m).2.depth = m.depth := by
  have hcalls := invoke_counts_any (functionTable p) limit f.allowance m.depth
  exact Counts.balanced (execStmt_respects (C := counting m.depth) s
    (respected_counting hcalls _ [s]))

-- ---------------------------------------------------------------------------
-- Trees of calls
-- ---------------------------------------------------------------------------

/-- The depths that a computation records are those of calls made at `d`. -/
def Nests (limit : Int) (d : Nat) (x : Exec α) : Prop :=
  ∀ m, ∃ new, (x m).2.events = m.events ++ new ∧ Nested limit d (callDepths new)

theorem Nests.of_silent {x : Exec α} (h : ∀ m, (x m).2.events = m.events) : Nests limit d x :=
  fun m => ⟨[], by rw [h m, List.append_nil], .nil⟩

theorem Nests.bind {x : Exec α} {f : α → Exec β} (h : Nests limit d x)
    (hk : ∀ a, Nests limit d (f a)) : Nests limit d (x >>= f) := by
  intro m
  obtain ⟨new, hevents, hnew⟩ := h m
  show ∃ new, (Exec.bind x f m).2.events = _ ∧ _
  unfold Exec.bind
  rcases hx : x m with ⟨a | e | reason | _, m'⟩
  · obtain ⟨more, hmore, hnested⟩ := hk a m'
    refine ⟨new ++ more, ?_, ?_⟩
    · rw [hx] at hevents
      rw [hmore, hevents, List.append_assoc]
    · rw [callDepths, List.filterMap_append]
      exact hnew.append hnested
  · exact ⟨new, by rw [← hevents, hx], hnew⟩
  · exact ⟨new, by rw [← hevents, hx], hnew⟩
  · exact ⟨new, by rw [← hevents, hx], hnew⟩

theorem Nests.write : Nests limit d (Exec.write text) := by
  refine .of_silent fun m => ?_
  unfold Exec.write
  split <;> rfl

theorem Nests.record (e : Event) (h : ∀ label d, e ≠ .call label d) :
    Nests limit d (Exec.record e) := by
  refine fun m => ⟨[e], List.reverse_cons, ?_⟩
  cases e with
  | call label d => exact absurd rfl (h label d)
  | _ => exact .nil

/-- What is recorded in a body is nested in the call. -/
theorem Nests.call {x : Exec α} (hd : exceeds limit (d + 1) = false)
    (h : Nests limit (d + 1) x) :
    Nests limit d (Exec.record (.call label (d + 1)) >>= fun _ => x) := by
  intro m
  obtain ⟨inner, hevents, hinner⟩ := h { m with trace := .call label (d + 1) :: m.trace }
  refine ⟨.call label (d + 1) :: inner, ?_, ?_⟩
  · show (x { m with trace := .call label (d + 1) :: m.trace }).2.events = _
    rw [hevents, Machine.events, List.reverse_cons, List.append_assoc]
    rfl
  · have hcall := Nested.call hd hinner .nil
    rwa [List.append_nil] at hcall

def nesting (limit : Int) (d : Nat) : Congruence where
  Holds _ y := Nests limit d y
  pure := .of_silent fun _ => rfl
  bind := .bind
  fail _ := .of_silent fun _ => rfl
  record := .record _
  write := .write

theorem respected_nesting {inv : Invoke} (h : ∀ tok fn values, Nests limit d (inv tok fn values))
    (funcs : Bindings FuncDecl) (ss : List Stmt) :
    Every (Respected (nesting limit d) funcs inv inv) ss := fun _ _ => {
  calls := fun _ _ fn _ tok values => h tok fn values
  rounds := fun _ _ _ _ => .of_silent fun _ => rfl }

theorem invokeUnder_nests (funcs : Bindings FuncDecl) (limit : Int) (n : Nat)
    (active : List FuncDecl) (tok : Token) (fn : FuncDecl) (values : List Value) :
    Nests limit active.length (invokeUnder funcs limit active n tok fn values) := by
  induction n generalizing active tok fn values with
  | zero => exact .of_silent fun _ => rfl
  | succ n ih =>
    rw [invokeUnder, activate, List.length_cons]
    cases hd : exceeds limit (active.length + 1) with
    | true => exact .of_silent fun _ => rfl
    | false =>
      have hbody := respected_nesting (ih (fn :: active)) funcs fn.body
      refine .bind (bindZeros_respects (nesting limit active.length) _ _) fun env => .call hd ?_
      exact .bind (execStmts_respects fn.body hbody) fun _ => .of_silent fun _ => rfl

theorem programUnder_nests (limit : Int) (n : Nat) (p : Program) (m : Machine) :
    ∃ new, (programUnder limit n p m).2.events = m.events ++ new ∧
      Nested limit 0 (callDepths new) := by
  have hcalls := invokeUnder_nests (functionTable p) limit n []
  exact main_respects (C := nesting limit 0) (respected_nesting hcalls _ p.stmts)
    { m with depth := 0 }

-- ---------------------------------------------------------------------------
-- Earlier runs
-- ---------------------------------------------------------------------------

/-- The second computation goes on from an old machine as the first one starts from none. -/
def GoesOn (R : α → α → Prop) (x y : Exec α) : Prop :=
  ∀ old m, Matching R ((x m).1, (x m).2.over old) (y (m.over old))

theorem GoesOn.bind {R : α → α → Prop} {S : β → β → Prop} {x y : Exec α} {f g : α → Exec β}
    (h : GoesOn R x y) (hk : ∀ a b, R a b → GoesOn S (f a) (g b)) :
    GoesOn S (x >>= f) (y >>= g) := by
  intro old m
  obtain ⟨hagree, hmachine⟩ := h old m
  show Matching S ((Exec.bind x f m).1, (Exec.bind x f m).2.over old) (Exec.bind y g (m.over old))
  unfold Exec.bind
  generalize x m = r at hagree hmachine
  generalize y (m.over old) = r' at hagree hmachine
  obtain ⟨ending, m'⟩ := r
  obtain ⟨ending', m''⟩ := r'
  obtain rfl : m'.over old = m'' := hmachine
  cases hagree with
  | done hab => exact hk _ _ hab old m'
  | fault => exact ⟨.fault, rfl⟩
  | refused => exact ⟨.refused, rfl⟩
  | exhausted => exact ⟨.exhausted, rfl⟩

theorem GoesOn.write : GoesOn Eq (Exec.write text) (Exec.write text) := by
  rintro old ⟨sink, writes, trace, depth⟩
  rcases sink with _ | ⟨_ | room, refusal⟩
  · exact ⟨.done rfl, rfl⟩
  · exact ⟨.refused, rfl⟩
  · exact ⟨.done rfl, rfl⟩

theorem GoesOn.deeper {R : α → α → Prop} {x y : Exec α} (h : GoesOn R x y) :
    GoesOn R (Exec.deeper x) (Exec.deeper y) := by
  intro old m
  obtain ⟨hagree, hmachine⟩ := h old { m with depth := m.depth + 1 }
  exact ⟨hagree, congrArg (fun m : Machine => { m with depth := m.depth - 1 }) hmachine⟩

def goingOn : Lockstep where
  Holds := GoesOn
  pure h _ _ := ⟨.done h, rfl⟩
  bind _ := .bind
  fail _ _ := ⟨.fault, rfl⟩
  record _ _ := ⟨.done rfl, rfl⟩
  depth _ _ := ⟨.done rfl, rfl⟩
  write := .write
  deeper := .deeper
  restart h old m := h old { m with depth := 0 }
  exhausted _ _ := ⟨.exhausted, rfl⟩
  Lags := False
  early := nofun

theorem program_over (limit : Int) (n : Nat) (p : Program) (m : Machine) :
    program limit n p m =
      ((program limit n p { sink := m.sink }).1,
        (program limit n p { sink := m.sink }).2.over m) := by
  have hgoes : GoesOn Eq (program limit n p) (program limit n p) :=
    program_compares_self (sameLimits_self goingOn limit) (.inl rfl) p
  exact (hgoes m { sink := m.sink }).eq.symm

/-- The counter of active calls is balanced and bounded. Evaluating an expression, running a
statement and calling a function leave it as it was, on every machine and however they end. So a
run keeps count of its active calls: it does what a run does that has a list of them in place of
the counter. The depths that it records begin at 1, stay positive, rise by one at most, and are
within a limit that is positive. And of the machine on which it starts only the sink matters: after
any earlier runs it does what it does on a new machine, behind what they have written and
recorded. -/
theorem call_depth_balanced (p : Program) (limit : Int) :
    (∀ (f : Frame) (m : Machine),
      (∀ e, (f.eval p limit e m).2.depth = m.depth) ∧
      (∀ s, (f.exec p limit s m).2.depth = m.depth) ∧
      ∀ tok fn values,
        (invoke (functionTable p) limit f.allowance tok fn values m).2.depth = m.depth) ∧
    ∀ n, program limit n p = programUnder limit n p ∧
      ∀ m,
        (∃ new, (program limit n p m).2.events = m.events ++ new ∧
          (∀ d ∈ (callDepths new).head?, d = 1) ∧
          (callDepths new).IsChain (fun d e => 1 ≤ e ∧ e ≤ d + 1) ∧
          (0 < limit → ∀ d ∈ callDepths new, (d : Int) ≤ limit)) ∧
        program limit n p m =
          ((program limit n p { sink := m.sink }).1,
            (program limit n p { sink := m.sink }).2.over m) := by
  refine ⟨fun f m => ⟨fun e => f.eval_balanced p limit e m, fun s => f.exec_balanced p limit s m,
    fun tok fn values => (invoke_counts_any _ limit _ _ tok fn values).balanced⟩,
    fun n => ⟨program_eq_under limit n p, fun m => ⟨?_, program_over limit n p m⟩⟩⟩
  obtain ⟨new, hevents, hnested⟩ := programUnder_nests limit n p m
  rw [program_eq_under]
  refine ⟨new, hevents, hnested.head, hnested.chain, fun hpos d hd => ?_⟩
  have hlimit := (hnested.above d hd).2
  simpa [exceeds, hpos] using hlimit

def pairs : Program :=
  ⟨default,
    [.func ⟨default, "leaf", [], .void, [], [.print default (.literal default "true")]⟩,
      .func ⟨default, "pair", [], .void, [],
        [.call default "leaf" [], .call default "leaf" []]⟩,
      .func ⟨default, "above", [], .void, [], [.call default "pair" []]⟩],
    [.call default "pair" [], .call default "leaf" [], .call default "above" []]⟩

theorem pairs_stopped :
    (program 2 4 pairs {}).1 = .fault ⟨.depthLimit 2, default⟩ ∧
      (program 2 4 pairs {}).2.sink = .endless ∧
      callDepths (program 2 4 pairs {}).2.events = [1, 2, 2, 1, 1, 2] := by
  decide +kernel

/-- The limit stops the program in the second call of the pair; a second run on the machine that is
left is stopped there as well. -/
theorem call_depth_balanced_pairs :
    ∃ m, program 2 4 pairs {} = (.fault ⟨.depthLimit 2, default⟩, m) ∧
      callDepths m.events = [1, 2, 2, 1, 1, 2] ∧ (∀ d ∈ callDepths m.events, (d : Int) ≤ 2) ∧
      program 2 4 pairs m = (.fault ⟨.depthLimit 2, default⟩, m.over m) := by
  obtain ⟨hstopped, hsink, hdepths⟩ := pairs_stopped
  have hruns := ((call_depth_balanced pairs 2).2 4).2
  generalize hrun : program 2 4 pairs {} = r at hstopped hsink hdepths ⊢
  obtain ⟨ending, m⟩ := r
  obtain rfl : ending = .fault ⟨.depthLimit 2, default⟩ := hstopped
  obtain ⟨⟨new, hnew, -, -, hbound⟩, -⟩ := hruns {}
  obtain ⟨-, hagain⟩ := hruns m
  rw [hrun] at hnew
  obtain rfl : m.events = new := hnew
  rw [show m.sink = .endless from hsink, hrun] at hagain
  exact ⟨m, rfl, hdepths, hbound (by decide), hagain⟩

end Run

end SplatLang
