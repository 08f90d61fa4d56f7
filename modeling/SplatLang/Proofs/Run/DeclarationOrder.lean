import SplatLang.Proofs.Run.Limits
import SplatLang.Proofs.Run.Soundness

/-!
# The order of declarations

A function may be called by those that are declared before it, and tables are filled in the order
of the declarations, so that a later label would hide an earlier one. Checking sees to it that
there are no two equal labels: then every order fills the tables with the same answers, and whole
runs are the same.

The exception is a program variable whose type has no values. Variables get their first values in
order and the first such variable ends the run, so which one a fault names does depend on it.
-/

namespace SplatLang

open Typing

structure Program.Reordered (p q : Program) : Prop where
  tok : p.tok = q.tok
  decls : p.decls.Perm q.decls
  stmts : p.stmts = q.stmts

namespace Program.Reordered

variable {p q : Program}

theorem symm (h : Reordered p q) : Reordered q p := ⟨h.tok.symm, h.decls.symm, h.stmts.symm⟩

theorem funcs (h : Reordered p q) : p.funcs.Perm q.funcs := h.decls.filterMap Decl.func?

theorem vars (h : Reordered p q) : p.vars.Perm q.vars := h.decls.filterMap Decl.var?

end Program.Reordered

-- ---------------------------------------------------------------------------
-- Checking
-- ---------------------------------------------------------------------------

namespace Typing

theorem declared_perm (hf : funcs.Perm funcs') (hv : vars.Perm vars') :
    declared funcs vars = declared funcs' vars' := by
  simp only [declared, hf.mem_iff, hv.mem_iff]

theorem FuncTyped.perm (hf : funcs.Perm funcs') (h : FuncTyped funcs fn) : FuncTyped funcs' fn := by
  have hcontext := declared_perm hf (.refl (fn.params ++ fn.locals))
  exact ⟨h.distinct, hcontext ▸ h.body, hcontext ▸ h.returns, h.hasReturn⟩

theorem WellTyped.reordered (h : p.Reordered q) (hp : WellTyped p) : WellTyped q where
  distinct := (h.decls.map Decl.label).nodup hp.distinct
  funcs fn hfn := (hp.funcs fn (h.funcs.mem_iff.mpr hfn)).perm h.funcs
  names fn hfn other hother :=
    hp.names fn (h.funcs.mem_iff.mpr hfn) other (h.funcs.mem_iff.mpr hother)
  body := by
    rw [← h.stmts, ← declared_perm h.funcs h.vars]
    exact hp.body
  noReturn := h.stmts ▸ hp.noReturn

end Typing

-- ---------------------------------------------------------------------------
-- Running
-- ---------------------------------------------------------------------------

namespace Run

variable {p q : Program}

theorem zeros_agree (hvars : vars.Perm vars') (hd : (vars.map VarDecl.label).Nodup) (L) :
    AgreeOn L (Bindings.setAll [] (zeros vars)) (Bindings.setAll [] (zeros vars')) := by
  intro label _
  refine Bindings.get?_setAll_nil_perm (hvars.map _) ?_ label
  simpa [Function.comp_def] using hd

/-- By the distinct labels both programs find the same functions and start with the same
variables; the rest is the same tree. -/
theorem program_reordered (h : p.Reordered q) (hp : WellTyped p)
    (hvars : ∀ v ∈ p.vars, v.ty ∈ [Ty.integer, .boolean, .string]) (limit : Int) (n : Nat)
    (m₀ : Machine) : program limit n p m₀ = program limit n q m₀ := by
  have hpairs := h.funcs.map fun fn => (fn.label, fn)
  have hlabels : ((p.funcs.map fun fn => (fn.label, fn)).map Prod.fst).Nodup := by
    simpa [Function.comp_def] using funcs_nodup hp.distinct
  refine (program_compares (C := sameness) h.tok h.stmts ?_ ?_ ?_ (sameLimits_self _ limit)
    (.inl rfl) m₀).eq
  · exact Bindings.get?_setAll_nil_perm hpairs hlabels
  · exact (Bindings.setAll_nil_perm hpairs hlabels).length_eq
  · rw [bindZeros_known _ _ hvars,
      bindZeros_known _ _ fun v hv => hvars v (h.vars.mem_iff.mpr hv)]
    exact sameness.pure (zeros_agree h.vars (vars_nodup hp.distinct) _)

/-- The first variable whose type has no values ends the binding. -/
theorem bindZeros_unknown (env : Env) (vars : List VarDecl)
    (h : ∃ v ∈ vars, v.ty ∉ [Ty.integer, .boolean, .string]) :
    ∃ v ∈ vars, v.ty ∉ [Ty.integer, .boolean, .string] ∧
      bindZeros env vars = Exec.fail (.unknownType v.ty) v.tok := by
  induction vars generalizing env with
  | nil =>
    obtain ⟨v, hv, -⟩ := h
    cases hv
  | cons v rest ih =>
    rw [bindZeros]
    cases hzero : Value.zero? v.ty with
    | none => exact ⟨v, List.mem_cons_self, zero?_eq_none hzero, rfl⟩
    | some zero =>
      obtain ⟨w, hw, hty⟩ := h
      have hw : w ∈ rest := by
        refine (List.mem_cons.mp hw).resolve_left fun heq => hty ?_
        exact heq ▸ known_of_zero? hzero
      obtain ⟨u, hu, huty, hrest⟩ := ih (env.set v.label zero) ⟨w, hw, hty⟩
      exact ⟨u, List.mem_cons_of_mem v hu, huty, hrest⟩

theorem program_unknown (h : ∃ v ∈ p.vars, v.ty ∉ [Ty.integer, .boolean, .string]) (limit : Int)
    (n : Nat) (m₀ : Machine) :
    ∃ v ∈ p.vars, v.ty ∉ [Ty.integer, .boolean, .string] ∧
      program limit n p m₀ =
        (.fault ⟨.unknownType v.ty, v.tok.location⟩, { m₀ with depth := 0 }) := by
  obtain ⟨v, hv, hty, hbind⟩ := bindZeros_unknown [] p.vars h
  refine ⟨v, hv, hty, ?_⟩
  unfold program
  rw [hbind]
  rfl

/-- The order of declarations is irrelevant. It makes no difference to whether a program is
accepted. If it is, and all its variables have types with values, runs from the same machine under
the same limit are the same with every allowance, hence also if they never end. If some variable
has another type, both runs end with a fault that names such a type before anything is written or
recorded. -/
theorem declaration_order_irrelevant {p q : Program} (h : p.Reordered q) :
    (checkProgram p = .ok () ↔ checkProgram q = .ok ()) ∧
    (checkProgram p = .ok () → ∀ limit n m₀,
      ((∀ v ∈ p.vars, v.ty ∈ [Ty.integer, .boolean, .string]) →
        program limit n p m₀ = program limit n q m₀) ∧
      ((∃ v ∈ p.vars, v.ty ∉ [Ty.integer, .boolean, .string]) →
        ∀ r ∈ [p, q], ∃ f, program limit n r m₀ = (.fault f, { m₀ with depth := 0 }) ∧
          ∃ v ∈ p.vars, v.ty ∉ [Ty.integer, .boolean, .string] ∧
            f.report = ⟨.execution, "Unknown type: " ++ v.ty.name, v.tok.location⟩)) := by
  refine ⟨?_, fun hp limit n m₀ => ⟨fun hvars => ?_, fun ⟨v, hv, hty⟩ r hr => ?_⟩⟩
  · rw [checkProgram_ok, checkProgram_ok]
    exact ⟨.reordered h, .reordered h.symm⟩
  · exact program_reordered h ((checkProgram_ok p).mp hp) hvars limit n m₀
  · have hvars : r.vars.Perm p.vars := by
      obtain rfl | hr := List.mem_cons.mp hr
      · exact .refl _
      · cases List.mem_singleton.mp hr
        exact h.symm.vars
    obtain ⟨u, hu, huty, hrun⟩ :=
      program_unknown ⟨v, hvars.mem_iff.mpr hv, hty⟩ limit n m₀
    exact ⟨_, hrun, u, hvars.mem_iff.mp hu, huty, rfl⟩

theorem successor_run :
    (program 0 2 successor {}).1 = .done () ∧
      (program 0 2 successor {}).2.output = "42" := by
  decide +kernel

def strangers : Program :=
  ⟨default, [.var ⟨default, "a", ⟨"Real"⟩⟩, .var ⟨default, "b", .void⟩], []⟩

/-- Declarations in reverse order: a variable stands before the function that gives it a value, and
of two variables without values the other one comes first. -/
theorem declaration_order_irrelevant_reverse :
    (∃ q m, successor.Reordered q ∧ checkProgram q = .ok () ∧
      Finishes 0 q {} (.done ()) m ∧ m.output = "42") ∧
    ∃ q f, strangers.Reordered q ∧ checkProgram q = .ok () ∧
      program 0 2 q {} = (.fault f, {}) ∧ ∃ v ∈ strangers.vars,
        f.report.message = "Unknown type: " ++ v.ty.name := by
  have hreverse (p : Program) : p.Reordered { p with decls := p.decls.reverse } :=
    ⟨rfl, (List.reverse_perm _).symm, rfl⟩
  have hsuccessor : checkProgram successor = .ok () := rfl
  have hstrangers : checkProgram strangers = .ok () := rfl
  obtain ⟨haccept, hruns⟩ := declaration_order_irrelevant (hreverse successor)
  obtain ⟨haccept', hruns'⟩ := declaration_order_irrelevant (hreverse strangers)
  obtain ⟨f, hrun, v, hv, -, hreport⟩ := (hruns' hstrangers 0 2 {}).2
    ⟨⟨default, "b", .void⟩, by decide, by decide⟩ _ (List.mem_cons_of_mem _ List.mem_cons_self)
  obtain ⟨hdone, houtput⟩ := successor_run
  rw [(hruns hsuccessor 0 2 {}).1 (by decide)] at hdone houtput
  exact ⟨⟨_, _, hreverse _, haccept.mp hsuccessor, .of_ending hdone nofun, houtput⟩, _, f,
    hreverse _, haccept'.mp hstrangers, hrun, v, hv, by rw [hreport]⟩

end Run

end SplatLang
