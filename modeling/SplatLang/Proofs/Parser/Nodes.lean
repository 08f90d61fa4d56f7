import SplatLang.Proofs.Parser.Laws
import SplatLang.Proofs.Relocate

/-!
# Nodes and the tokens they keep

Every node of a parsed tree keeps a token of the list that was parsed. Where a node has a text of
its own, a label, an operator or a literal, it is the text of that token. `Builds` says of a parser
what holds of its values if all tokens come from one list; there is one law for each way of putting
parsers together. A tree whose tokens stay where they are is not changed by moving it.
-/

namespace SplatLang

-- ---------------------------------------------------------------------------
-- Nodes
-- ---------------------------------------------------------------------------

/-- The token of a node, and the text that the node has besides, if it has one. -/
structure TreeNode where
  tok : Token
  text : Option String
  deriving DecidableEq, Repr

mutual

def Expr.nodes : Expr → List TreeNode
  | .literal tok raw => [⟨tok, some raw⟩]
  | .var tok label => [⟨tok, some label⟩]
  | .binary tok left op right => ⟨tok, some op⟩ :: (left.nodes ++ right.nodes)
  | .unary tok op operand => ⟨tok, some op⟩ :: operand.nodes
  | .call tok label args => ⟨tok, some label⟩ :: argNodes args

def argNodes : List Expr → List TreeNode
  | [] => []
  | e :: rest => e.nodes ++ argNodes rest

end

mutual

def Stmt.nodes : Stmt → List TreeNode
  | .assign tok label value => ⟨tok, some label⟩ :: value.nodes
  | .cond tok test body none => ⟨tok, none⟩ :: (test.nodes ++ blockNodes body)
  | .cond tok test body (some alt) =>
    ⟨tok, none⟩ :: (test.nodes ++ (blockNodes body ++ blockNodes alt))
  | .loop tok test body => ⟨tok, none⟩ :: (test.nodes ++ blockNodes body)
  | .print tok value => ⟨tok, none⟩ :: value.nodes
  | .printLine tok => [⟨tok, none⟩]
  | .ret tok none => [⟨tok, none⟩]
  | .ret tok (some value) => ⟨tok, none⟩ :: value.nodes
  | .call tok label args => ⟨tok, some label⟩ :: argNodes args

def blockNodes : List Stmt → List TreeNode
  | [] => []
  | s :: rest => s.nodes ++ blockNodes rest

end

def VarDecl.node (v : VarDecl) : TreeNode := ⟨v.tok, some v.label⟩

def Decl.nodes : Decl → List TreeNode
  | .var v => [v.node]
  | .func f =>
    ⟨f.tok, some f.label⟩ ::
      (f.params.map VarDecl.node ++ (f.locals.map VarDecl.node ++ blockNodes f.body))

def Program.nodes (p : Program) : List TreeNode :=
  ⟨p.tok, none⟩ :: (p.decls.flatMap Decl.nodes ++ blockNodes p.stmts)

theorem argNodes_eq_flatMap (es : List Expr) : argNodes es = es.flatMap Expr.nodes := by
  induction es with
  | nil => rfl
  | cons e rest ih => rw [argNodes, List.flatMap_cons, ih]

theorem blockNodes_eq_flatMap (body : List Stmt) : blockNodes body = body.flatMap Stmt.nodes := by
  induction body with
  | nil => rfl
  | cons s rest ih => rw [blockNodes, List.flatMap_cons, ih]

-- ---------------------------------------------------------------------------
-- Trees that stay where they are
-- ---------------------------------------------------------------------------

section

variable {move : Position → Position}

/-- The places of the nodes are not moved. -/
def Settled (move : Position → Position) (ns : List TreeNode) : Prop :=
  ∀ n ∈ ns, move n.tok.location = n.tok.location

@[simp] theorem settled_cons :
    Settled move (n :: ns) ↔ n.tok.relocate move = n.tok ∧ Settled move ns := by
  have hhead : move n.tok.location = n.tok.location ↔ n.tok.relocate move = n.tok := by
    obtain ⟨⟨kind, value, location⟩, text⟩ := n
    simp [Token.relocate]
  simp only [Settled, List.forall_mem_cons, hhead]

@[simp] theorem settled_append :
    Settled move (ns ++ ms) ↔ Settled move ns ∧ Settled move ms := by
  simp only [Settled, List.forall_mem_append]

mutual

theorem Expr.relocate_settled : (e : Expr) → Settled move e.nodes → e.relocate move = e
  | .literal tok raw, h => by
    simp only [Expr.nodes, settled_cons] at h
    rw [Expr.relocate, h.1]
  | .var tok label, h => by
    simp only [Expr.nodes, settled_cons] at h
    rw [Expr.relocate, h.1]
  | .binary tok left op right, h => by
    simp only [Expr.nodes, settled_cons, settled_append] at h
    rw [Expr.relocate, h.1, left.relocate_settled h.2.1, right.relocate_settled h.2.2]
  | .unary tok op operand, h => by
    simp only [Expr.nodes, settled_cons] at h
    rw [Expr.relocate, h.1, operand.relocate_settled h.2]
  | .call tok label args, h => by
    simp only [Expr.nodes, settled_cons] at h
    rw [Expr.relocate, h.1, relocateExprs_settled args h.2]

theorem relocateExprs_settled :
    (es : List Expr) → Settled move (argNodes es) → relocateExprs move es = es
  | [], _ => rfl
  | e :: rest, h => by
    simp only [argNodes, settled_append] at h
    rw [relocateExprs, e.relocate_settled h.1, relocateExprs_settled rest h.2]

end

mutual

theorem Stmt.relocate_settled : (s : Stmt) → Settled move s.nodes → s.relocate move = s
  | .assign tok label value, h => by
    simp only [Stmt.nodes, settled_cons] at h
    rw [Stmt.relocate, h.1, value.relocate_settled h.2]
  | .cond tok test body none, h => by
    simp only [Stmt.nodes, settled_cons, settled_append] at h
    rw [Stmt.relocate, h.1, test.relocate_settled h.2.1, relocateBlock_settled body h.2.2]
  | .cond tok test body (some alt), h => by
    simp only [Stmt.nodes, settled_cons, settled_append] at h
    rw [Stmt.relocate, h.1, test.relocate_settled h.2.1, relocateBlock_settled body h.2.2.1,
      relocateBlock_settled alt h.2.2.2]
  | .loop tok test body, h => by
    simp only [Stmt.nodes, settled_cons, settled_append] at h
    rw [Stmt.relocate, h.1, test.relocate_settled h.2.1, relocateBlock_settled body h.2.2]
  | .print tok value, h => by
    simp only [Stmt.nodes, settled_cons] at h
    rw [Stmt.relocate, h.1, value.relocate_settled h.2]
  | .printLine tok, h => by
    simp only [Stmt.nodes, settled_cons] at h
    rw [Stmt.relocate, h.1]
  | .ret tok none, h => by
    simp only [Stmt.nodes, settled_cons] at h
    rw [Stmt.relocate, h.1]
  | .ret tok (some value), h => by
    simp only [Stmt.nodes, settled_cons] at h
    rw [Stmt.relocate, h.1, value.relocate_settled h.2]
  | .call tok label args, h => by
    simp only [Stmt.nodes, settled_cons] at h
    rw [Stmt.relocate, h.1, relocateExprs_settled args h.2]

theorem relocateBlock_settled :
    (body : List Stmt) → Settled move (blockNodes body) → relocateBlock move body = body
  | [], _ => rfl
  | s :: rest, h => by
    simp only [blockNodes, settled_append] at h
    rw [relocateBlock, s.relocate_settled h.1, relocateBlock_settled rest h.2]

end

theorem vars_settled {vs : List VarDecl} (h : Settled move (vs.map VarDecl.node)) :
    vs.map (VarDecl.relocate move) = vs := by
  induction vs with
  | nil => rfl
  | cons v vs ih =>
    simp only [List.map_cons, settled_cons, VarDecl.node] at h
    rw [List.map_cons, ih h.2, VarDecl.relocate, h.1]

theorem Decl.relocate_settled (d : Decl) (h : Settled move d.nodes) : d.relocate move = d := by
  cases d with
  | var v =>
    simp only [Decl.nodes, settled_cons, VarDecl.node] at h
    rw [Decl.relocate, VarDecl.relocate, h.1]
  | func f =>
    simp only [Decl.nodes, settled_cons, settled_append] at h
    obtain ⟨htok, hparams, hlocals, hbody⟩ := h
    rw [Decl.relocate, FuncDecl.relocate, htok, vars_settled hparams, vars_settled hlocals,
      relocateBlock_settled f.body hbody]

theorem Program.relocate_settled (p : Program) (h : Settled move p.nodes) :
    p.relocate move = p := by
  simp only [Program.nodes, settled_cons, settled_append] at h
  obtain ⟨htok, hdecls, hstmts⟩ := h
  have hmap : p.decls.map (Decl.relocate move) = p.decls.map id := by
    refine List.map_congr_left fun d hd => d.relocate_settled fun n hn => ?_
    exact hdecls n (List.mem_flatMap.mpr ⟨d, hd, hn⟩)
  rw [Program.relocate, htok, hmap, List.map_id, relocateBlock_settled p.stmts hstmts]

end

-- ---------------------------------------------------------------------------
-- Laws
-- ---------------------------------------------------------------------------

/-- The nodes keep tokens of the list, and have the texts of these tokens. -/
def Grown (all : List Token) (ns : List TreeNode) : Prop :=
  ∀ n ∈ ns, n.tok ∈ all ∧ ∀ text ∈ n.text, n.tok.value = text

section

variable {all : List Token}

@[simp] theorem grown_nil : Grown all [] := by simp [Grown]

@[simp] theorem grown_cons :
    Grown all (n :: ns) ↔ (n.tok ∈ all ∧ ∀ text ∈ n.text, n.tok.value = text) ∧ Grown all ns :=
  List.forall_mem_cons

@[simp] theorem grown_append : Grown all (ns ++ ms) ↔ Grown all ns ∧ Grown all ms :=
  List.forall_mem_append

theorem grown_flatMap {xs : List α} {nodes : α → List TreeNode}
    (h : ∀ x ∈ xs, Grown all (nodes x)) : Grown all (xs.flatMap nodes) := by
  intro n hn
  obtain ⟨x, hx, hn⟩ := List.mem_flatMap.mp hn
  exact h x hx n hn

theorem grown_args (h : ∀ e ∈ es, Grown all e.nodes) : Grown all (argNodes es) :=
  argNodes_eq_flatMap es ▸ grown_flatMap h

theorem grown_block (h : ∀ s ∈ body, Grown all s.nodes) : Grown all (blockNodes body) :=
  blockNodes_eq_flatMap body ▸ grown_flatMap h

theorem grown_vars {vs : List VarDecl} (h : ∀ v ∈ vs, Grown all [v.node]) :
    Grown all (vs.map VarDecl.node) :=
  List.map_eq_flatMap ▸ grown_flatMap h

end

namespace Parser

variable {α β : Type} {all : List Token} {Q : α → Prop} {R : β → Prop}

/-- On tokens of the list, the parser leaves tokens of the list and returns what `Q` holds of. -/
def Builds (all : List Token) (Q : α → Prop) (p : Parser α) : Prop :=
  ∀ eof ts x rest, ts ⊆ all → p eof ts = .ok x rest → rest ⊆ all ∧ Q x

theorem Builds.pure (h : Q a) : Builds all Q (Pure.pure a) := by
  intro eof ts x rest hts hok
  obtain ⟨rfl, rfl⟩ := pure_ok.mp hok
  exact ⟨hts, h⟩

theorem Builds.bind {p : Parser α} {k : α → Parser β} (h : Builds all Q p)
    (hk : ∀ a, Q a → Builds all R (k a)) : Builds all R (p >>= k) := by
  intro eof ts x rest hts hok
  obtain ⟨a, mid, hp, hrest⟩ := bind_ok.mp hok
  obtain ⟨hmid, ha⟩ := h _ _ _ _ hts hp
  exact hk a ha _ _ _ _ hmid hrest

theorem Builds.ite {p q : Parser α} {c : Prop} [Decidable c] (h : Builds all Q p)
    (h' : Builds all Q q) : Builds all Q (if c then p else q) := by
  split
  · exact h
  · exact h'

theorem Builds.fail : Builds all Q (fail cause location) :=
  fun _ _ _ _ _ h => absurd h fail_ok

theorem Builds.giveUp : Builds all Q (giveUp why) :=
  fun _ _ _ _ _ h => absurd h giveUp_ok

theorem Looks.builds {p : Parser α} (h : Looks p) : Builds all (fun _ => True) p := by
  intro eof ts x rest hts hok
  exact ⟨h hok ▸ hts, trivial⟩

theorem peek_looks : Looks peek := fun h => (peek_ok.mp h).1

theorem next_builds : Builds all (· ∈ all) next := by
  intro eof ts t rest hts hok
  obtain rfl := next_ok.mp hok
  exact ⟨(List.cons_subset.mp hts).2, (List.cons_subset.mp hts).1⟩

theorem expect_builds : Builds all (· ∈ all) (expect v) :=
  next_builds.bind fun _ ht => .ite (.pure ht) .fail

theorem label_builds : Builds all (· ∈ all) label := by
  refine next_builds.bind fun t ht => .ite .fail (.ite .fail ?_)
  cases t.value.toList with
  | nil => exact .giveUp
  | cons c cs => exact .ite (.pure ht) .fail

theorem typeName_builds : Builds all (fun _ => True) typeName :=
  next_builds.bind fun _ _ => .pure trivial

section

variable {stop : Parser Bool} {item : Parser α}

theorem itemsUntil_builds (hstop : Looks stop) (hitem : Builds all Q item) (n : Nat) :
    Builds all (fun xs => ∀ x ∈ xs, Q x) (itemsUntil stop item n) := by
  induction n with
  | zero => exact .giveUp
  | succ n ih =>
    refine hstop.builds.bind fun b _ => .ite (.pure (by simp)) ?_
    exact hitem.bind fun x hx => ih.bind fun xs hxs => .pure (List.forall_mem_cons.mpr ⟨hx, hxs⟩)

theorem moreItems_builds (hitem : Builds all Q item) (n : Nat) :
    Builds all (fun xs => ∀ x ∈ xs, Q x) (moreItems item n) := by
  induction n with
  | zero => exact .giveUp
  | succ n ih =>
    refine nextIs_looks.builds.bind fun b _ => .ite ?_ (.pure (by simp))
    exact expect_builds.bind fun _ _ => hitem.bind fun x hx => ih.bind fun xs hxs =>
      .pure (List.forall_mem_cons.mpr ⟨hx, hxs⟩)

theorem commaItems_builds (hitem : Builds all Q item) (n : Nat) :
    Builds all (fun xs => ∀ x ∈ xs, Q x) (commaItems item n) := by
  refine nextIs_looks.builds.bind fun b _ => .ite (.pure (by simp)) ?_
  exact hitem.bind fun x hx => (moreItems_builds hitem n).bind fun xs hxs =>
    .pure (List.forall_mem_cons.mpr ⟨hx, hxs⟩)

end

-- ---------------------------------------------------------------------------
-- Phrases
-- ---------------------------------------------------------------------------

theorem operation_builds {operand : Parser Expr}
    (hoperand : Builds all (fun e => Grown all e.nodes) operand) :
    Builds all (fun e => Grown all e.nodes) (operation operand) := by
  refine nextIsUnary_looks.builds.bind fun b _ => .ite ?_ ?_
  · refine next_builds.bind fun op hop => hoperand.bind fun e he => expect_builds.bind fun _ _ => ?_
    exact .pure (by simp [Expr.nodes, hop, he])
  · refine hoperand.bind fun left hleft => next_builds.bind fun op hop => .ite ?_ .fail
    refine hoperand.bind fun right hright => expect_builds.bind fun _ _ => ?_
    exact .pure (by simp [Expr.nodes, hop, hleft, hright])

theorem parseExpr_builds (n : Nat) : Builds all (fun e => Grown all e.nodes) (parseExpr n) := by
  induction n with
  | zero => exact .giveUp
  | succ n ih =>
    refine peek_looks.builds.bind fun start _ => .ite ?_ (.ite ?_ ?_)
    · exact expect_builds.bind fun _ _ => operation_builds ih
    · exact next_builds.bind fun t ht => .pure (by simp [Expr.nodes, ht])
    refine secondIs_looks.builds.bind fun b _ => .ite ?_ ?_
    · refine label_builds.bind fun t ht => expect_builds.bind fun _ _ =>
        (commaItems_builds ih n).bind fun args hargs => expect_builds.bind fun _ _ => ?_
      exact .pure (by simp [Expr.nodes, ht, grown_args hargs])
    · exact label_builds.bind fun t ht => .pure (by simp [Expr.nodes, ht])

theorem exprThenSemicolon_builds (n : Nat) :
    Builds all (fun e => Grown all e.nodes) (exprThenSemicolon n) :=
  (parseExpr_builds n).bind fun _ he => expect_builds.bind fun _ _ => .pure he

theorem namedStmt_builds (n : Nat) : Builds all (fun s => Grown all s.nodes) (namedStmt n) := by
  refine label_builds.bind fun t ht => nextIs_looks.builds.bind fun b _ => .ite ?_ ?_
  · exact expect_builds.bind fun _ _ => (exprThenSemicolon_builds n).bind fun e he =>
      .pure (by simp [Stmt.nodes, ht, he])
  refine nextIs_looks.builds.bind fun b _ => .ite ?_ ?_
  · refine expect_builds.bind fun _ _ =>
      (commaItems_builds (parseExpr_builds n) n).bind fun args hargs =>
        expect_builds.bind fun _ _ => expect_builds.bind fun _ _ => ?_
    exact .pure (by simp [Stmt.nodes, ht, grown_args hargs])
  · exact peek_looks.builds.bind fun _ _ => .fail

section

variable {block : Parser (List Stmt)}
  (hblock : Builds all (fun b => Grown all (blockNodes b)) block)

include hblock

theorem whileStmt_builds (n : Nat) :
    Builds all (fun s => Grown all s.nodes) (whileStmt block n) := by
  refine expect_builds.bind fun t ht => (parseExpr_builds n).bind fun test htest =>
    expect_builds.bind fun _ _ => hblock.bind fun body hbody => expect_builds.bind fun _ _ =>
      expect_builds.bind fun _ _ => expect_builds.bind fun _ _ => ?_
  exact .pure (by simp [Stmt.nodes, ht, htest, hbody])

theorem elseBranch_builds :
    Builds all (fun alt => ∀ b ∈ alt, Grown all (blockNodes b)) (elseBranch block) := by
  refine nextIs_looks.builds.bind fun b _ => .ite ?_ (.pure (by simp))
  exact expect_builds.bind fun _ _ => hblock.bind fun body hbody => .pure (by simpa using hbody)

theorem ifStmt_builds (n : Nat) : Builds all (fun s => Grown all s.nodes) (ifStmt block n) := by
  refine expect_builds.bind fun t ht => (parseExpr_builds n).bind fun test htest =>
    expect_builds.bind fun _ _ => hblock.bind fun body hbody =>
      (elseBranch_builds hblock).bind fun alt halt => expect_builds.bind fun _ _ =>
        expect_builds.bind fun _ _ => expect_builds.bind fun _ _ => .pure ?_
  cases alt with
  | none => simp [Stmt.nodes, ht, htest, hbody]
  | some alt => simp [Stmt.nodes, ht, htest, hbody, halt alt rfl]

end

theorem printStmt_builds (n : Nat) : Builds all (fun s => Grown all s.nodes) (printStmt n) :=
  expect_builds.bind fun t ht => (exprThenSemicolon_builds n).bind fun e he =>
    .pure (by simp [Stmt.nodes, ht, he])

theorem printLineStmt_builds : Builds all (fun s => Grown all s.nodes) printLineStmt :=
  expect_builds.bind fun t ht => expect_builds.bind fun _ _ => .pure (by simp [Stmt.nodes, ht])

theorem returnStmt_builds (n : Nat) : Builds all (fun s => Grown all s.nodes) (returnStmt n) := by
  refine expect_builds.bind fun t ht => nextIs_looks.builds.bind fun b _ => .ite ?_ ?_
  · exact expect_builds.bind fun _ _ => .pure (by simp [Stmt.nodes, ht])
  · exact (exprThenSemicolon_builds n).bind fun e he => .pure (by simp [Stmt.nodes, ht, he])

theorem block_builds {item : Parser Stmt} (hitem : Builds all (fun s => Grown all s.nodes) item)
    (n : Nat) : Builds all (fun b => Grown all (blockNodes b)) (itemsUntil blockEnds item n) := by
  intro eof ts b rest hts hok
  obtain ⟨hrest, hb⟩ := itemsUntil_builds blockEnds_looks hitem n _ _ _ _ hts hok
  exact ⟨hrest, grown_block hb⟩

theorem parseStmt_builds (n : Nat) : Builds all (fun s => Grown all s.nodes) (parseStmt n) := by
  induction n with
  | zero => exact .giveUp
  | succ n ih =>
    have hblock := block_builds ih n
    exact peek_looks.builds.bind fun start _ => .ite (whileStmt_builds hblock n) <|
      .ite (ifStmt_builds hblock n) <| .ite printLineStmt_builds <| .ite (printStmt_builds n) <|
        .ite (returnStmt_builds n) (namedStmt_builds n)

theorem parseParam_builds : Builds all (fun v => Grown all [v.node]) parseParam :=
  label_builds.bind fun t ht => expect_builds.bind fun _ _ => typeName_builds.bind fun ty _ =>
    .pure (by simp [VarDecl.node, ht])

theorem parseVarDecl_builds : Builds all (fun v => Grown all [v.node]) parseVarDecl :=
  parseParam_builds.bind fun _ hv => expect_builds.bind fun _ _ => .pure hv

theorem parseFuncDecl_builds (n : Nat) :
    Builds all (fun f => Grown all (Decl.func f).nodes) (parseFuncDecl n) := by
  refine label_builds.bind fun t ht => expect_builds.bind fun _ _ =>
    (commaItems_builds parseParam_builds n).bind fun params hparams => expect_builds.bind fun _ _ =>
      expect_builds.bind fun _ _ => typeName_builds.bind fun ty _ => expect_builds.bind fun _ _ =>
        (itemsUntil_builds nextIs_looks parseVarDecl_builds n).bind fun locals hlocals =>
          expect_builds.bind fun _ _ => (block_builds (parseStmt_builds n) n).bind fun body hbody =>
            expect_builds.bind fun _ _ => expect_builds.bind fun _ _ => ?_
  exact .pure (by simp [Decl.nodes, ht, grown_vars hparams, grown_vars hlocals, hbody])

theorem parseDecl_builds (n : Nat) : Builds all (fun d => Grown all d.nodes) (parseDecl n) := by
  refine secondIs_looks.builds.bind fun b _ => .ite ?_ (secondIs_looks.builds.bind fun b _ =>
    .ite ?_ ?_)
  · exact parseVarDecl_builds.bind fun v hv => .pure hv
  · exact (parseFuncDecl_builds n).bind fun f hf => .pure hf
  · exact peek_looks.builds.bind fun _ _ => .fail

theorem parseProgram_builds (n : Nat) :
    Builds all (fun p => Grown all p.nodes) (parseProgram n) := by
  refine expect_builds.bind fun t ht =>
    (itemsUntil_builds nextIs_looks (parseDecl_builds n) n).bind fun decls hdecls =>
      expect_builds.bind fun _ _ => (block_builds (parseStmt_builds n) n).bind fun stmts hstmts =>
        expect_builds.bind fun _ _ => expect_builds.bind fun _ _ =>
          atEnd_looks.builds.bind fun last _ => .ite ?_ ?_
  · exact .pure (by simp [Program.nodes, ht, grown_flatMap hdecls, hstmts])
  · exact peek_looks.builds.bind fun _ _ => .fail

end Parser

theorem parseTokens_grown (h : parseTokens ts = .ok p rest) : Grown ts p.nodes :=
  (Parser.parseProgram_builds _ _ _ _ _ (List.Subset.refl ts) h).2

end SplatLang
