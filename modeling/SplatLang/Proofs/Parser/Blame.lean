import SplatLang.Proofs.Lexer.Reading
import SplatLang.Proofs.Parser.Sound

/-!
# Where parsers stop

A parser that stops with a fault puts the blame on a place. Here that is made precise for parsers
of any phrase: what stands before the blamed token can be completed to a phrase, and with the
blamed token it cannot be parsed, whatever comes behind. At the end of the tokens all of them can
be completed. One fault is less sharp. A declaration is told by its second token, so the first one
is blamed although only the second may rule out that a declaration stands there.

`Guided` says this of a parser together with what it says of success: the tokens taken are a
phrase, and the parser takes them again wherever one and the same token follows. It speaks of two
parsers, which will be one parser under a smaller and a larger allowance, and the larger one goes
as the smaller one does unless that runs out. There is a law for each way of putting parsers
together; no law looks into a parser.
-/

namespace SplatLang

/-- Whether a fault is neither for the end of the tokens nor for a missing declaration. -/
def ParseCause.isPlain : ParseCause → Bool
  | endOfFile | notADeclaration _ => false
  | _ => true

namespace Parser

open Grammar

variable {α β : Type}

-- ---------------------------------------------------------------------------
-- Blame
-- ---------------------------------------------------------------------------

/-- Tokens that a lexer can make can be put behind to complete a phrase. -/
def Completes (L : List Token → α → Prop) (us : List Token) : Prop :=
  ∃ vs x, (∀ t ∈ vs, t.Genuine) ∧ L (us ++ vs) x

/-- Whatever comes behind, the parser is at fault. -/
def Dead (p : Parser α) (us : List Token) : Prop :=
  ∀ eof more, ∃ f rest, p eof (us ++ more) = .fault f rest

/-- The parser takes the tokens `us` and returns `x` wherever this token comes behind them. -/
def Takes (p : Parser α) (us : List Token) (x : α) (next : Option Token) : Prop :=
  ∀ eof rest, rest.head? = next → p eof (us ++ rest) = .ok x rest

def Then (L : List Token → α → Prop) (K : α → List Token → β → Prop) (us : List Token) (y : β) :
    Prop :=
  ∃ vs ws x, us = vs ++ ws ∧ L vs x ∧ K x ws y

/-- The fault puts the blame where it belongs. `D` says between which tokens and which token a
declaration can be missing. -/
inductive Blames (p : Parser α) (L : List Token → α → Prop) (D : List Token → Token → Prop)
    (eof : Position) : List Token → ParseFault → Prop
  | atEnd {ts} (viable : Completes L ts) : Blames p L D eof ts ⟨.endOfFile, eof⟩
  | token {us t more cause} (plain : cause.isPlain = true) (viable : Completes L us)
      (dead : Dead p (us ++ [t])) : Blames p L D eof (us ++ t :: more) ⟨cause, t.location⟩
  | decl {us t more} (viable : Completes L us) (place : D us t)
      (dead : ∀ u more', more = u :: more' → Dead p (us ++ [t, u])) :
      Blames p L D eof (us ++ t :: more) ⟨.notADeclaration t.value, t.location⟩

/-- What one parser does under a smaller allowance and another under a larger one. -/
structure Guided (p p' : Parser α) (L : List Token → α → Prop) (D : List Token → Token → Prop) :
    Prop where
  productive : Completes L []
  took : ∀ {eof ts x rest}, p eof ts = .ok x rest →
    ∃ us, ts = us ++ rest ∧ L us x ∧ Takes p' us x rest.head?
  blames : ∀ {eof ts f rest}, p eof ts = .fault f rest → Blames p' L D eof ts f
  keeps : ∀ {eof ts f rest}, p eof ts = .fault f rest → p' eof ts = .fault f rest
  stops : ∀ {eof ts}, p eof ts = .abort .emptyLabel → (∃ t ∈ ts, t.value = "") ∧
    ∀ eof' more, p' eof' (ts ++ more) = .abort .emptyLabel

variable {eof : Position} {t : Token} {ts us rest : List Token}

def Nowhere (_ : List Token) (_ : Token) : Prop := False

theorem Completes.mono {L : List Token → α → Prop} {L' : List Token → β → Prop}
    (h : Completes L us) (hL : ∀ vs x, L (us ++ vs) x → ∃ y, L' (us ++ vs) y) :
    Completes L' us := by
  obtain ⟨vs, x, hvs, hx⟩ := h
  obtain ⟨y, hy⟩ := hL vs x hx
  exact ⟨vs, y, hvs, hy⟩

theorem Guided.mono {p p' : Parser α} {L L' : List Token → α → Prop}
    {D D' : List Token → Token → Prop} (h : Guided p p' L D) (hL : ∀ us x, L us x → L' us x)
    (hD : ∀ us t, D us t → D' us t) : Guided p p' L' D' where
  productive := h.productive.mono fun vs x hx => ⟨x, hL _ x hx⟩
  took hp := by
    obtain ⟨us, rfl, hus, hagain⟩ := h.took hp
    exact ⟨us, rfl, hL us _ hus, hagain⟩
  blames hp := by
    cases h.blames hp with
    | atEnd viable => exact .atEnd (viable.mono fun vs x hx => ⟨x, hL _ x hx⟩)
    | token plain viable dead =>
      exact .token plain (viable.mono fun vs x hx => ⟨x, hL _ x hx⟩) dead
    | decl viable place dead =>
      exact .decl (viable.mono fun vs x hx => ⟨x, hL _ x hx⟩) (hD _ _ place) dead
  keeps := h.keeps
  stops := h.stops

theorem Guided.derives {p p' : Parser α} {L L' : List Token → α → Prop}
    (h : Guided p p' L Nowhere) (hL : ∀ us x, L us x → L' us x) : Guided p p' L' Nowhere :=
  h.mono hL fun _ _ => id

-- ---------------------------------------------------------------------------
-- Sequences
-- ---------------------------------------------------------------------------

theorem bind_fault {p : Parser α} {k : α → Parser β} :
    (p >>= k) eof ts = .fault f rest ↔
      p eof ts = .fault f rest ∨ ∃ a mid, p eof ts = .ok a mid ∧ k a eof mid = .fault f rest := by
  show Parser.bind p k eof ts = _ ↔ _
  cases hp : p eof ts <;> simp [Parser.bind, hp, and_assoc]

theorem bind_abort {p : Parser α} {k : α → Parser β} :
    (p >>= k) eof ts = .abort why ↔
      p eof ts = .abort why ∨ ∃ a mid, p eof ts = .ok a mid ∧ k a eof mid = .abort why := by
  show Parser.bind p k eof ts = _ ↔ _
  cases hp : p eof ts <;> simp [Parser.bind, hp, and_assoc]

theorem bind_of_fault {p : Parser α} {k : α → Parser β} (h : p eof ts = .fault f rest) :
    (p >>= k) eof ts = .fault f rest := bind_fault.mpr (.inl h)

theorem bind_of_abort {p : Parser α} {k : α → Parser β} (h : p eof ts = .abort why) :
    (p >>= k) eof ts = .abort why := bind_abort.mpr (.inl h)

theorem Dead.bind {p : Parser α} {k : α → Parser β} (h : Dead p us) : Dead (p >>= k) us := by
  intro eof more
  obtain ⟨f, rest, hp⟩ := h eof more
  exact ⟨f, rest, bind_of_fault hp⟩

theorem head?_append (us : List Token) (h : rest'.head? = rest.head?) :
    (us ++ rest').head? = (us ++ rest).head? := by
  cases us with
  | nil => exact h
  | cons u us => rfl

theorem head?_front (h : us ≠ []) : (us ++ rest).head? = us.head? := by
  cases us with
  | nil => exact absurd rfl h
  | cons u us => rfl

theorem head?_before (us : List Token) (t : Token) (more : List Token) :
    (us ++ [t]).head? = (us ++ t :: more).head? := by cases us <;> rfl

/-- A declaration is missing in what the next parser finds once the first has taken its part. -/
def Behind (p : Parser α) (L : List Token → α → Prop) (E : α → List Token → Token → Prop)
    (us : List Token) (t : Token) : Prop :=
  ∃ vs ws x, us = vs ++ ws ∧ L vs x ∧ E x ws t ∧ Takes p vs x (ws ++ [t]).head?

/-- A parser that takes `vs` leaves what the next one finds dead to it. -/
theorem Dead.after {p : Parser α} {k : α → Parser β} {vs ws : List Token}
    (hp : Takes p vs x (ws ++ [t]).head?) (h : Dead (k x) (ws ++ t :: more)) :
    Dead (p >>= k) (vs ++ ws ++ t :: more) := by
  intro eof more'
  obtain ⟨f, rest, hk⟩ := h eof more'
  have hhead : (ws ++ t :: more ++ more').head? = (ws ++ [t]).head? := by
    rw [List.append_assoc]
    exact (head?_before ws t _).symm
  refine ⟨f, rest, ?_⟩
  rw [List.append_assoc, List.append_assoc, ← List.append_assoc ws, bind_of_ok (hp eof _ hhead)]
  exact hk

section

variable {p p' : Parser α} {k k' : α → Parser β} {L : List Token → α → Prop}
  {K : α → List Token → β → Prop} {D : List Token → Token → Prop}
  {E : α → List Token → Token → Prop}

theorem Guided.bindAt (hp : Guided p p' L D) (hk : ∀ x, Guided (k x) (k' x) (K x) (E x)) :
    Guided (p >>= k) (p' >>= k') (Then L K) (fun us t => D us t ∨ Behind p' L E us t) where
  productive := by
    obtain ⟨vs, x, hvs, hx⟩ := hp.productive
    obtain ⟨ws, y, hws, hy⟩ := (hk x).productive
    exact ⟨vs ++ ws, y, List.forall_mem_append.mpr ⟨hvs, hws⟩, vs, ws, x, rfl, hx, hy⟩
  took h := by
    obtain ⟨x, mid, hx, hy⟩ := bind_ok.mp h
    obtain ⟨vs, rfl, hvs, hagain⟩ := hp.took hx
    obtain ⟨ws, rfl, hws, hagain'⟩ := (hk x).took hy
    refine ⟨vs ++ ws, by simp, ⟨vs, ws, x, rfl, hvs, hws⟩, fun eof' rest' hhead => ?_⟩
    rw [List.append_assoc, bind_of_ok (hagain eof' _ (head?_append _ hhead))]
    exact hagain' eof' rest' hhead
  blames h := by
    rcases bind_fault.mp h with hfault | ⟨x, mid, hx, hfault⟩
    · -- What completes the first phrase is followed by any second one.
      have hcompletes : ∀ {us}, Completes L us → Completes (Then L K) us := by
        rintro us ⟨vs, x, hvs, hx⟩
        obtain ⟨ws, y, hws, hy⟩ := (hk x).productive
        exact ⟨vs ++ ws, y, List.forall_mem_append.mpr ⟨hvs, hws⟩, us ++ vs, ws, x, by simp, hx, hy⟩
      cases hp.blames hfault with
      | atEnd viable => exact .atEnd (hcompletes viable)
      | token plain viable dead => exact .token plain (hcompletes viable) dead.bind
      | decl viable place dead =>
        exact .decl (hcompletes viable) (.inl place) fun u more' hmore => (dead u more' hmore).bind
    · -- What the first parser took, it takes whatever comes behind the blamed token.
      obtain ⟨vs, rfl, hvs, hagain⟩ := hp.took hx
      have hcompletes : ∀ {us}, Completes (K x) us → Completes (Then L K) (vs ++ us) := by
        rintro us ⟨ws, y, hws, hy⟩
        exact ⟨ws, y, hws, vs, us ++ ws, x, by simp, hvs, hy⟩
      cases (hk x).blames hfault with
      | atEnd viable => exact .atEnd (hcompletes viable)
      | @token us t more cause plain viable dead =>
        rw [← head?_before] at hagain
        rw [← List.append_assoc]
        exact .token plain (hcompletes viable) (.after hagain dead)
      | @decl us t more viable place dead =>
        rw [← head?_before] at hagain
        rw [← List.append_assoc]
        exact .decl (hcompletes viable) (.inr ⟨vs, us, x, rfl, hvs, place, hagain⟩)
          fun u more' hmore => .after hagain (dead u more' hmore)
  keeps h := by
    rcases bind_fault.mp h with hfault | ⟨x, mid, hx, hfault⟩
    · exact bind_of_fault (hp.keeps hfault)
    · obtain ⟨vs, rfl, -, hagain⟩ := hp.took hx
      rw [bind_of_ok (hagain _ mid rfl)]
      exact (hk x).keeps hfault
  stops h := by
    rcases bind_abort.mp h with habort | ⟨x, mid, hx, habort⟩
    · obtain ⟨hempty, hagain⟩ := hp.stops habort
      exact ⟨hempty, fun eof' more => bind_of_abort (hagain eof' more)⟩
    · obtain ⟨vs, rfl, -, hagain⟩ := hp.took hx
      obtain ⟨⟨t, ht, hv⟩, hagain'⟩ := (hk x).stops habort
      refine ⟨⟨t, List.mem_append_right vs ht, hv⟩, fun eof' more => ?_⟩
      rw [List.append_assoc, bind_of_ok (hagain eof' _ (head?_front (List.ne_nil_of_mem ht)))]
      exact hagain' eof' more

theorem Guided.bind (hp : Guided p p' L Nowhere)
    (hk : ∀ x, Guided (k x) (k' x) (K x) Nowhere) :
    Guided (p >>= k) (p' >>= k') (Then L K) Nowhere := by
  refine (hp.bindAt hk).mono (fun _ _ => id) ?_
  rintro us t (h | ⟨_, _, _, _, _, h, _⟩)
  · exact h
  · exact h

end

-- ---------------------------------------------------------------------------
-- Single tokens
-- ---------------------------------------------------------------------------

inductive Reacts (p : Parser α) (L : List Token → α → Prop) (t : Token) : Prop
  | takes (x : α) (phrase : L [t] x) (run : ∀ eof rest, p eof (t :: rest) = .ok x rest)
  | refuses (cause : ParseCause) (plain : cause.isPlain = true)
      (run : ∀ eof rest, p eof (t :: rest) = .fault ⟨cause, t.location⟩ rest)
  | stops (empty : t.value = "") (run : ∀ eof rest, p eof (t :: rest) = .abort .emptyLabel)

theorem Guided.of_token {p : Parser α} {L : List Token → α → Prop} (hproductive : Completes L [])
    (hnil : ∀ eof, p eof [] = .fault ⟨.endOfFile, eof⟩ []) (hcons : ∀ t, Reacts p L t) :
    Guided p p L Nowhere where
  productive := hproductive
  took {eof ts x rest} h := by
    cases ts with
    | nil => simp [hnil] at h
    | cons t ts =>
      cases hcons t with
      | takes y phrase run =>
        rw [run] at h
        cases h
        exact ⟨[t], rfl, phrase, fun eof' rest' _ => run eof' rest'⟩
      | refuses cause plain run => simp [run] at h
      | stops _ run => simp [run] at h
  blames {eof ts f rest} h := by
    cases ts with
    | nil =>
      rw [hnil] at h
      cases h
      exact .atEnd hproductive
    | cons t ts =>
      cases hcons t with
      | takes y phrase run => simp [run] at h
      | refuses cause plain run =>
        rw [run] at h
        cases h
        have hdead : Dead p ([] ++ [t]) := fun eof' more => ⟨_, _, run eof' more⟩
        exact .token plain hproductive hdead
      | stops _ run => simp [run] at h
  keeps := id
  stops {eof ts} h := by
    cases ts with
    | nil => simp [hnil] at h
    | cons t ts =>
      cases hcons t with
      | takes y phrase run => simp [run] at h
      | refuses cause plain run => simp [run] at h
      | stops empty run => exact ⟨⟨t, by simp, empty⟩, fun eof' more => run eof' (ts ++ more)⟩

def Is (C : Token → Prop) (us : List Token) (t : Token) : Prop := us = [t] ∧ C t

def After (C : Token → Prop) (P : List Token → α → Prop) (t : Token) (us : List Token) (x : α) :
    Prop :=
  C t → P (t :: us) x

theorem Guided.after {p p' : Parser Token} {k k' : Token → Parser α} {C : Token → Prop}
    {P : List Token → α → Prop} (hp : Guided p p' (Is C) Nowhere)
    (hk : ∀ t, Guided (k t) (k' t) (After C P t) Nowhere) :
    Guided (p >>= k) (p' >>= k') P Nowhere := by
  refine (hp.bind hk).derives ?_
  rintro us x ⟨_, vs, t, rfl, ⟨rfl, ht⟩, hrest⟩
  exact hrest ht

def require (test : Token → Bool) (cause : Token → ParseCause) : Parser Token := do
  let t ← next
  if test t then pure t else fail (cause t) t.location

theorem require_guided {test : Token → Bool} {cause : Token → ParseCause}
    (hexists : ∃ t, t.Genuine ∧ test t = true) (hplain : ∀ t, (cause t).isPlain = true) :
    Guided (require test cause) (require test cause) (Is (test ·)) Nowhere := by
  obtain ⟨t, ht, htest⟩ := hexists
  refine .of_token ⟨[t], t, by simpa using ht, rfl, htest⟩ (fun _ => rfl) fun u => ?_
  by_cases hu : test u = true
  · refine .takes u ⟨rfl, hu⟩ fun eof rest => ?_
    rw [require, bind_of_ok (next_ok.mpr rfl)]
    simp [hu]
  · refine .refuses (cause u) (hplain u) fun eof rest => ?_
    rw [require, bind_of_ok (next_ok.mpr rfl)]
    simp only [hu, Bool.false_eq_true, if_false]
    rfl

/-- A text that stands for itself is the text of some token. -/
theorem genuine_of_fixed (h : Lexer.isFixed v = true) : ∃ t : Token, t.Genuine ∧ t.value = v := by
  obtain ⟨k, hshape⟩ := Lexer.shape_of_fixed h
  rw [Lexer.isFixed, Bool.and_eq_true, List.all_eq_true] at h
  refine ⟨⟨k, v, default⟩, ⟨hshape, fun hc => ?_⟩, rfl⟩
  simpa using h.1 _ hc

theorem expect_guided (v : String) (h : Lexer.isFixed v = true := by decide) :
    Guided (expect v) (expect v) (Is (·.value = v)) Nowhere := by
  obtain ⟨t, ht, hv⟩ := genuine_of_fixed h
  have heq : expect v = require (·.value = v) fun t => .expected v t.value := by
    simp [expect, require]
  rw [heq]
  exact (require_guided ⟨t, ht, by simpa using hv⟩ fun _ => rfl).derives fun us u hu =>
    ⟨hu.1, by simpa using hu.2⟩

theorem label_reacts (t : Token) : Reacts label (Is IsLabel) t := by
  by_cases hkey : isKeyword t.value = true
  · refine .refuses (.keywordForLabel t.value) rfl fun eof rest => ?_
    rw [label, bind_of_ok (next_ok.mpr rfl)]
    simp only [hkey, if_true]
    rfl
  by_cases hint : t.kind = .int ∧ ¬ isNumeric t.value
  · refine .refuses (.outOfRange t.value) rfl fun eof rest => ?_
    rw [label, bind_of_ok (next_ok.mpr rfl)]
    simp only [hkey, hint]
    rfl
  cases hcs : t.value.toList with
  | nil =>
    refine .stops (String.toList_inj.mp hcs) fun eof rest => ?_
    rw [label, bind_of_ok (next_ok.mpr rfl)]
    simp only [hkey, hint, if_false, hcs]
    rfl
  | cons c cs =>
    by_cases hident : t.kind = .ident ∧ (c = '_' ∨ Text.isLetter c)
    · have hlabel : IsLabel t := ⟨hident.1, by simpa using hkey, c, cs, hcs, hident.2⟩
      exact .takes t ⟨rfl, hlabel⟩ fun eof rest => label_ok.mpr ⟨rfl, hlabel⟩
    · refine .refuses (.notALabel t.value) rfl fun eof rest => ?_
      rw [label, bind_of_ok (next_ok.mpr rfl)]
      simp only [hkey, hint, if_false, hcs, hident]
      rfl

def anyName : Token := ⟨.ident, "x", default⟩

theorem anyName_genuine : anyName.Genuine := by
  have hname : Lexer.isNameChar 'x' = true := by decide
  have hshape : Lexer.Shape (Lexer.wordKind ['x']) ['x'] := .word (by simpa using hname)
  exact ⟨hshape, by decide⟩

theorem anyName_label : IsLabel anyName :=
  ⟨rfl, by decide, 'x', [], rfl, .inr (by decide)⟩

theorem label_guided : Guided label label (Is IsLabel) Nowhere :=
  .of_token ⟨[anyName], anyName, by simpa using anyName_genuine, rfl, anyName_label⟩ (fun _ => rfl)
    label_reacts

def NamesType (us : List Token) (ty : Ty) : Prop := ∃ t, us = [t] ∧ ty = ⟨t.value⟩

theorem typeName_guided : Guided typeName typeName NamesType Nowhere :=
  .of_token ⟨[anyName], ⟨"x"⟩, by simpa using anyName_genuine, anyName, rfl, rfl⟩ (fun _ => rfl)
    fun t => .takes ⟨t.value⟩ ⟨t, rfl, rfl⟩ fun _ _ => rfl

-- ---------------------------------------------------------------------------
-- Parsers that take nothing
-- ---------------------------------------------------------------------------

def Empty (a : α) (us : List Token) (x : α) : Prop := us = [] ∧ x = a

theorem pure_guided (a : α) : Guided (pure a) (pure a) (Empty a) Nowhere where
  productive := ⟨[], a, by simp, rfl, rfl⟩
  took h := by
    obtain ⟨rfl, rfl⟩ := pure_ok.mp h
    exact ⟨[], rfl, ⟨rfl, rfl⟩, fun _ _ _ => rfl⟩
  blames h := by cases h
  keeps := id
  stops h := by cases h

theorem giveUp_guided {q : Parser α} {L : List Token → α → Prop} (h : Completes L []) :
    Guided (giveUp .exhausted) q L D where
  productive := h
  took h := absurd h giveUp_ok
  blames h := by cases h
  keeps h := by cases h
  stops h := by cases h

def refuse (cause : Token → ParseCause) : Parser α := do
  let t ← peek
  fail (cause t) t.location

theorem refuse_guided {L : List Token → α → Prop} {cause : Token → ParseCause}
    (h : Completes L []) (hplain : ∀ t, (cause t).isPlain = true) :
    Guided (refuse cause) (refuse cause) L Nowhere where
  productive := h
  took {_ ts _ _} hp := by cases ts <;> cases hp
  blames {_ ts _ _} hp := by
    cases ts with
    | nil =>
      cases hp
      exact .atEnd h
    | cons t ts =>
      cases hp
      have hdead : Dead (refuse cause : Parser α) ([] ++ [t]) := fun eof more => ⟨_, _, rfl⟩
      exact .token (hplain t) h hdead
  keeps := id
  stops {_ ts} hp := by cases ts <;> cases hp

theorem peek_bind {p : Parser α} (h : ts ≠ []) : (peek >>= fun _ => p) eof ts = p eof ts := by
  cases ts with
  | nil => exact absurd rfl h
  | cons t ts => rfl

theorem Guided.peek {p p' : Parser α} (h : Guided p p' L D) :
    Guided (Parser.peek >>= fun _ => p) (Parser.peek >>= fun _ => p') L D where
  productive := h.productive
  took {_ ts _ rest} hp := by
    cases ts with
    | nil => cases hp
    | cons t ts =>
      obtain ⟨us, hts, hus, hagain⟩ := h.took hp
      refine ⟨us, hts, hus, fun eof' rest' hhead => ?_⟩
      have hne : us ++ rest' ≠ [] := by
        intro hnil
        have hsome := head?_append us hhead
        rw [hnil, ← hts] at hsome
        cases hsome
      rw [peek_bind hne]
      exact hagain eof' rest' hhead
  blames {_ ts _ _} hp := by
    have hdead : ∀ {us}, us ≠ [] → Dead p' us → Dead (Parser.peek >>= fun _ => p') us := by
      intro us hne hus eof more
      rw [peek_bind (by simp [hne])]
      exact hus eof more
    cases ts with
    | nil =>
      cases hp
      exact .atEnd h.productive
    | cons t ts =>
      rw [peek_bind (List.cons_ne_nil t ts)] at hp
      generalize hts : t :: ts = ts' at hp
      cases h.blames hp with
      | atEnd viable => exact .atEnd viable
      | token plain viable dead => exact .token plain viable (hdead (by simp) dead)
      | decl viable place dead =>
        exact .decl viable place fun u more hmore => hdead (by simp) (dead u more hmore)
  keeps {_ ts _ _} hp := by
    cases ts with
    | nil => exact hp
    | cons t ts => exact h.keeps hp
  stops {_ ts} hp := by
    cases ts with
    | nil => cases hp
    | cons t ts => exact h.stops hp

-- ---------------------------------------------------------------------------
-- Choices by the next token
-- ---------------------------------------------------------------------------

def branch (b : Option Token → Bool) (p q : Parser α) : Parser α := fun eof ts =>
  if b ts.head? then p eof ts else q eof ts

def Tells (look : Parser Bool) (b : Option Token → Bool) : Prop :=
  ∀ eof ts, look eof ts = .ok (b ts.head?) ts

theorem Tells.branch_eq {p q : Parser α} (h : Tells look b) :
    (look >>= fun c => if c then p else q) = branch b p q := by
  funext eof ts
  rw [bind_of_ok (h eof ts), branch]
  cases b ts.head? <;> rfl

section

variable {p p' q q' r : Parser α} {L L₁ L₂ : List Token → α → Prop}
  {D D₁ D₂ : List Token → Token → Prop} {c : Option Token → Prop}

/-- What one way of a choice takes, it takes again where the choice is the same. -/
theorem Guided.took_half (h : Guided p p' L₁ D₁) (hr : ∀ eof ts, c ts.head? → r eof ts = p' eof ts)
    (hL : ∀ us x, (us ≠ [] → c us.head?) → L₁ us x → L us x) (hc : c ts.head?)
    (hp : p eof ts = .ok x rest) :
    ∃ us, ts = us ++ rest ∧ L us x ∧ Takes r us x rest.head? := by
  obtain ⟨us, rfl, hus, hagain⟩ := h.took hp
  refine ⟨us, rfl, hL us x (fun hne => ?_) hus, fun eof' rest' hhead => ?_⟩
  · rwa [head?_front hne] at hc
  · rw [hr _ _ ((head?_append us hhead).symm ▸ hc)]
    exact hagain eof' rest' hhead

theorem Guided.blames_half (h : Guided p p' L₁ D₁)
    (hr : ∀ eof ts, c ts.head? → r eof ts = p' eof ts) (hproductive : Completes L [])
    (hL : ∀ us x, (us ≠ [] → c us.head?) → L₁ us x → L us x)
    (hD : ∀ us t, c (us ++ [t]).head? → D₁ us t → D us t) (hc : c ts.head?)
    (hp : p eof ts = .fault f rest) : Blames r L D eof ts f := by
  have hcompletes : ∀ {us}, (us ≠ [] → c us.head?) → Completes L₁ us → Completes L us := by
    intro us hhead hus
    cases us with
    | nil => exact hproductive
    | cons u us => exact hus.mono fun vs x hx => ⟨x, hL _ x (fun _ => hhead (by simp)) hx⟩
  have hdead : ∀ {us}, us ≠ [] → c us.head? → Dead p' us → Dead r us := by
    intro us hne hhead hus eof more
    rw [hr _ _ ((head?_front hne).symm ▸ hhead)]
    exact hus eof more
  cases h.blames hp with
  | atEnd viable => exact .atEnd (hcompletes (fun _ => hc) viable)
  | @token us t more cause plain viable dead =>
    have hfront : us ≠ [] → c us.head? := fun hne => head?_front hne ▸ hc
    have hwith : c (us ++ [t]).head? := by cases us <;> exact hc
    exact .token plain (hcompletes hfront viable) (hdead (by simp) hwith dead)
  | @decl us t more viable place dead =>
    have hfront : us ≠ [] → c us.head? := fun hne => head?_front hne ▸ hc
    have hwith : c (us ++ [t]).head? := by cases us <;> exact hc
    refine .decl (hcompletes hfront viable) (hD us t hwith place) fun u more' hmore => ?_
    have hboth : c (us ++ [t, u]).head? := by cases us <;> exact hc
    exact hdead (by simp) hboth (dead u more' hmore)

theorem Guided.stops_half (h : Guided p p' L₁ D₁)
    (hr : ∀ eof ts, c ts.head? → r eof ts = p' eof ts) (hc : c ts.head?)
    (hp : p eof ts = .abort .emptyLabel) :
    (∃ t ∈ ts, t.value = "") ∧ ∀ eof' more, r eof' (ts ++ more) = .abort .emptyLabel := by
  obtain ⟨⟨t, ht, hv⟩, hagain⟩ := h.stops hp
  refine ⟨⟨t, ht, hv⟩, fun eof' more => ?_⟩
  rw [hr _ _ ((head?_front (List.ne_nil_of_mem ht)).symm ▸ hc)]
  exact hagain eof' more

theorem Guided.branchAt (hp : Guided p p' L₁ D₁) (hq : Guided q q' L₂ D₂)
    (hproductive : Completes L [])
    (hL₁ : ∀ us x, (us ≠ [] → b us.head? = true) → L₁ us x → L us x)
    (hL₂ : ∀ us x, (us ≠ [] → b us.head? = false) → L₂ us x → L us x)
    (hD₁ : ∀ us t, b (us ++ [t]).head? = true → D₁ us t → D us t)
    (hD₂ : ∀ us t, b (us ++ [t]).head? = false → D₂ us t → D us t) :
    Guided (branch b p q) (branch b p' q') L D := by
  have htrue : ∀ {p q : Parser α} eof ts, b ts.head? = true → branch b p q eof ts = p eof ts :=
    fun eof ts hb => by rw [branch, hb]; rfl
  have hfalse : ∀ {p q : Parser α} eof ts, b ts.head? = false → branch b p q eof ts = q eof ts :=
    fun eof ts hb => by rw [branch, hb]; rfl
  refine ⟨hproductive, fun {eof ts x rest} h => ?_, fun {eof ts f rest} h => ?_,
    fun {eof ts f rest} h => ?_, fun {eof ts} h => ?_⟩
  · cases hb : b ts.head? with
    | true => exact hp.took_half (c := (b · = true)) htrue hL₁ hb ((htrue eof ts hb).symm.trans h)
    | false =>
      exact hq.took_half (c := (b · = false)) hfalse hL₂ hb ((hfalse eof ts hb).symm.trans h)
  · cases hb : b ts.head? with
    | true =>
      exact hp.blames_half (c := (b · = true)) htrue hproductive hL₁ hD₁ hb
        ((htrue eof ts hb).symm.trans h)
    | false =>
      exact hq.blames_half (c := (b · = false)) hfalse hproductive hL₂ hD₂ hb
        ((hfalse eof ts hb).symm.trans h)
  · cases hb : b ts.head? with
    | true =>
      rw [htrue eof ts hb] at h ⊢
      exact hp.keeps h
    | false =>
      rw [hfalse eof ts hb] at h ⊢
      exact hq.keeps h
  · cases hb : b ts.head? with
    | true => exact hp.stops_half (c := (b · = true)) htrue hb ((htrue eof ts hb).symm.trans h)
    | false => exact hq.stops_half (c := (b · = false)) hfalse hb ((hfalse eof ts hb).symm.trans h)

/-- Where the first way is taken, its phrases may be known to begin as the choice says. -/
theorem Guided.branch (hp : Guided p p' L₁ Nowhere) (hq : Guided q q' L Nowhere)
    (hL₁ : ∀ us x, (us ≠ [] → b us.head? = true) → L₁ us x → L us x) :
    Guided (Parser.branch b p q) (Parser.branch b p' q') L Nowhere :=
  hp.branchAt hq hq.productive hL₁ (fun _ _ _ => id) (fun _ _ _ => id) fun _ _ _ => id

end

-- ---------------------------------------------------------------------------
-- Lists
-- ---------------------------------------------------------------------------

theorem nextIs_tells (v : String) : Tells (nextIs v) (Option.any (·.value = v)) := fun _ _ => rfl

section

variable {item item' : Parser α} {P : List Token → α → Prop} {D : List Token → Token → Prop}

/-- A declaration is missing in the last item that was begun: with `t` next, and whatever comes
behind it, the tokens before that item are whole items, and the loop goes on from there. -/
def Among (stop : Parser Bool) (item : Parser α) (P : List Token → α → Prop)
    (D : List Token → Token → Prop) (n : Nat) (us : List Token) (t : Token) : Prop :=
  ∃ vs ws xs, us = vs ++ ws ∧ Repeated P vs xs ∧ D ws t ∧
    ∀ {eof more ys rest}, itemsUntil stop item n eof (us ++ t :: more) = .ok ys rest →
      ∃ k z zs mid, item eof (ws ++ t :: more) = .ok z mid ∧
        itemsUntil stop item k eof mid = .ok zs rest ∧ ys = xs ++ z :: zs

theorem itemsUntil_step {stop : Parser Bool} (hstop : Tells stop b) (hb : b ts.head? = false) :
    itemsUntil stop item (n + 1) eof ts = .ok ys rest ↔
      ∃ x xs mid, item eof ts = .ok x mid ∧ itemsUntil stop item n eof mid = .ok xs rest ∧
        ys = x :: xs := by
  rw [itemsUntil, hstop.branch_eq, branch, hb]
  simp only [Bool.false_eq_true, if_false, bind_ok, pure_ok]
  constructor
  · rintro ⟨x, mid, hx, xs, _, hxs, rfl, rfl⟩
    exact ⟨x, xs, mid, hx, hxs, rfl⟩
  · rintro ⟨x, xs, mid, hx, hxs, rfl⟩
    exact ⟨x, mid, hx, xs, rest, hxs, rfl, rfl⟩

theorem itemsUntil_guidedAt {stop : Parser Bool} (hstop : Tells stop b)
    (hitem : Guided item item' P D) (hn : n ≤ m) :
    Guided (itemsUntil stop item n) (itemsUntil stop item' m) (Repeated P)
      (Among stop item' P D m) := by
  have hnil : Completes (Repeated P) [] := ⟨[], [], by simp, .nil⟩
  induction n generalizing m with
  | zero => exact giveUp_guided hnil
  | succ n ih =>
    obtain ⟨m, rfl⟩ : ∃ k, m = k + 1 := ⟨m - 1, by omega⟩
    rw [itemsUntil, itemsUntil, hstop.branch_eq, hstop.branch_eq]
    have hitems := hitem.bindAt fun a => (ih (Nat.le_of_succ_le_succ hn)).bindAt fun rest =>
      pure_guided (a :: rest)
    refine (pure_guided []).branchAt hitems hnil ?_ ?_ (fun _ _ _ => False.elim) ?_
    · rintro us xs - ⟨rfl, rfl⟩
      exact .nil
    · rintro us xs - ⟨vs, _, a, rfl, head, ws, _, rest, rfl, tail, rfl, rfl⟩
      rw [List.append_nil]
      exact .cons head tail
    · -- A declaration is missing in the first item, behind it, or nowhere.
      rintro us t hb
        (hD | ⟨vs, us, a, rfl, head, ⟨ws, zs, xs, rfl, tail, hD, hloop⟩ | hrest, htook⟩)
      · refine ⟨[], us, [], rfl, .nil, hD, fun {eof more ys rest} h => ?_⟩
        rw [itemsUntil_step hstop (head?_before us t more ▸ hb)] at h
        obtain ⟨x, xs, mid, hx, hxs, rfl⟩ := h
        exact ⟨m, x, xs, mid, hx, hxs, rfl⟩
      · refine ⟨vs ++ ws, zs, a :: xs, by simp, .cons head tail, hD, fun {eof more ys rest} h => ?_⟩
        rw [itemsUntil_step hstop (head?_before _ t more ▸ hb)] at h
        obtain ⟨x, xs', mid, hx, hxs, rfl⟩ := h
        rw [List.append_assoc, htook eof _ (head?_before _ t more).symm] at hx
        cases hx
        obtain ⟨k, z, zs', mid, hz, hzs, rfl⟩ := hloop hxs
        exact ⟨k, z, zs', mid, hz, hzs, rfl⟩
      · obtain ⟨_, _, _, _, _, hnowhere, _⟩ := hrest
        exact hnowhere.elim

theorem itemsUntil_guided {stop : Parser Bool} (hstop : Tells stop b)
    (hitem : Guided item item' P Nowhere) (hn : n ≤ m) :
    Guided (itemsUntil stop item n) (itemsUntil stop item' m) (Repeated P) Nowhere := by
  refine (itemsUntil_guidedAt hstop hitem hn).mono (fun _ _ => id) ?_
  rintro us t ⟨_, _, _, _, _, h, _⟩
  exact h

theorem moreItems_guided (hitem : Guided item item' P Nowhere) (hn : n ≤ m) :
    Guided (moreItems item n) (moreItems item' m) (Further P) Nowhere := by
  have hnil : Completes (Further P) [] := ⟨[], [], by simp, .nil⟩
  induction n generalizing m with
  | zero => exact giveUp_guided hnil
  | succ n ih =>
    obtain ⟨m, rfl⟩ : ∃ k, m = k + 1 := ⟨m - 1, by omega⟩
    rw [moreItems, moreItems, (nextIs_tells ",").branch_eq, (nextIs_tells ",").branch_eq]
    have hitems := (expect_guided ",").bind fun _ => hitem.bind fun a =>
      (ih (Nat.le_of_succ_le_succ hn)).bind fun rest => pure_guided (a :: rest)
    have hnone : Guided (pure []) (pure []) (Further P) Nowhere := by
      refine (pure_guided []).derives ?_
      rintro us xs ⟨rfl, rfl⟩
      exact .nil
    refine hitems.branch hnone ?_
    rintro us xs - ⟨_, _, c, rfl, ⟨rfl, comma⟩, vs, _, a, rfl, head, ws, _, rest, rfl, tail, rfl,
      rfl⟩
    simpa using Further.cons comma head tail

theorem commaItems_guided (hitem : Guided item item' P Nowhere) (hn : n ≤ m) :
    Guided (commaItems item n) (commaItems item' m) (Separated P) Nowhere := by
  rw [commaItems, commaItems, (nextIs_tells ")").branch_eq, (nextIs_tells ")").branch_eq]
  have hitems := hitem.bind fun a => (moreItems_guided hitem hn).bind fun rest =>
    pure_guided (a :: rest)
  refine (pure_guided []).branch (hitems.derives ?_) ?_
  · rintro us xs ⟨vs, _, a, rfl, head, ws, _, rest, rfl, tail, rfl, rfl⟩
    rw [List.append_nil]
    exact .some head tail
  · rintro us xs - ⟨rfl, rfl⟩
    exact .none

end

end Parser

end SplatLang
