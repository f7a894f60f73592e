import Boli.Proofs.Parsing.Soundness

/-!
# What a failing run has read can be completed

Where the strict parser fails, the text that it has read so far is the front of a text of the
grammar (`completes_program`). Each function of the parser has a language, and a failing run of it
leaves a text that some further tokens complete to one of that language; those tokens hold no number
that cannot be read. The further tokens are never written down as a whole: a sequence of parsers has
them from its parts, of which the later ones contribute what they would complete from the start.
-/

set_option autoImplicit false

namespace Boli.Parser

open Grammar (next Terminal Sign Primary Expr Cond Stmt Block Tail Stmts)

variable {α β : Type} {s : State}

/-- Some text of a language has no number that cannot be read. -/
def HasText (L : List Token → Prop) : Prop := ∃ more, Numerals more ∧ L more

/-- From a state on, in which all number tokens can be read, a parser of a language fails behind
nothing but the front of a text of the language. -/
structure Completes (p : Parser α) (s : State) (L : List Token → Prop) : Prop where
  hasText : Numerals s.rest → HasText L
  error : Numerals s.rest → ∀ e s', p.run s = .error e s' →
    ∃ text, s.Read text s' ∧ HasText fun more => L (text ++ more)

namespace Completes

variable {p : Parser α} {f : α → Parser β} {L : List Token → Prop}

protected theorem pure {a : α} (h : L []) : Completes (pure a) s L where
  hasText _ := ⟨[], List.forall_mem_nil _, h⟩
  error _ _ _ hrun := nomatch hrun

protected theorem fail {expected : Expectation} (h : HasText L) :
    Completes (fail expected : Parser α) s L where
  hasText _ := h
  error _ e s' hrun := by
    cases hrun
    exact ⟨[], .refl s, h⟩

/-- A test decides how it goes on. -/
theorem test {a : α} (h : p.run s = .ok a s) (hf : Completes (f a) s L) :
    Completes (p >>= f) s L where
  hasText := hf.hasText
  error hn e s' hrun := by
    rw [EStateM.run_bind, h] at hrun
    exact hf.error hn e s' hrun

/-- The second of two parsers only puts the value into another form. -/
theorem andReturn {g : α → β} (hp : Completes p s L) : Completes (p >>= fun a => pure (g a)) s L where
  hasText := hp.hasText
  error hn e s' hrun := by
    rw [EStateM.run_bind] at hrun
    cases hfirst : p.run s with
    | error e₁ s₁ =>
      rw [hfirst] at hrun
      cases hrun
      exact hp.error hn _ _ hfirst
    | ok a s₁ =>
      rw [hfirst] at hrun
      cases hrun

/-- That the number tokens can be read may be assumed. -/
theorem of_numerals (h : Numerals s.rest → Completes p s L) : Completes p s L :=
  ⟨fun hn => (h hn).hasText hn, fun hn => (h hn).error hn⟩

/-- The language may be widened. -/
theorem imp {L' : List Token → Prop} (hp : Completes p s L') (h : ∀ w, L' w → L w) :
    Completes p s L where
  hasText hn :=
    let ⟨more, hmore, hL⟩ := hp.hasText hn
    ⟨more, hmore, h more hL⟩
  error hn e s' hrun :=
    let ⟨text, hread, more, hmore, hL⟩ := hp.error hn e s' hrun
    ⟨text, hread, more, hmore, h _ hL⟩

/-- A parser of derivations `D` and one that goes on behind each of them. What completes the first
text is in front of what the second parser would read. -/
protected theorem bind {D : Type} (text : D → List Token) {tree : D → α} {M : D → α → Prop}
    (hp : Completes p s fun w => ∃ d, text d = w)
    (hread : Reads p s fun a w _ => ∃ d, M d a ∧ w = text d)
    (htree : ∀ d a, Numerals (text d) → M d a → a = tree d)
    (hf : ∀ d s', Completes (f (tree d)) s' fun w => L (text d ++ w)) : Completes (p >>= f) s L where
  hasText hn := by
    obtain ⟨_, hn₁, d, rfl⟩ := hp.hasText hn
    obtain ⟨more, hn₂, hmore⟩ := (hf d s).hasText hn
    exact ⟨text d ++ more, (numerals_append _ _).2 ⟨hn₁, hn₂⟩, hmore⟩
  error hn e s' hrun := by
    rw [EStateM.run_bind] at hrun
    cases hfirst : p.run s with
    | error e₁ s₁ =>
      rw [hfirst] at hrun
      cases hrun
      obtain ⟨w, hw, more, hn₁, d, hd⟩ := hp.error hn _ _ hfirst
      obtain ⟨more', hn₂, hmore⟩ := (hf d s).hasText hn
      refine ⟨w, hw, more ++ more', (numerals_append _ _).2 ⟨hn₁, hn₂⟩, ?_⟩
      show L (w ++ (more ++ more'))
      rwa [← List.append_assoc, ← hd]
    | ok a s₁ =>
      rw [hfirst] at hrun
      obtain ⟨w, hw, d, ha, rfl⟩ := hread.ok a s₁ hfirst
      have htext : Numerals (text d) := ((numerals_append _ _).1 (hw.rest_eq ▸ hn)).1
      obtain rfl := htree d a htext ha
      obtain ⟨w', hw', more, hn₁, hmore⟩ := (hf d s₁).error (hw.numerals hn) e s' hrun
      refine ⟨text d ++ w', hw.trans hw', more, hn₁, ?_⟩
      show L (text d ++ w' ++ more)
      rwa [List.append_assoc]

/-- A token that stands next is taken. -/
theorem bind_advance {kind : Token.Kind} {f : Token → Parser β} (h : (next s.rest).kind = kind)
    (hkind : kind ≠ .eof) (hf : ∀ s', Completes (f (next s.rest)) s' fun w => L (next s.rest :: w)) :
    Completes (advance >>= f) s L where
  hasText hn := by
    obtain ⟨more, hmore, hL⟩ := (hf s).hasText hn
    have hnext : next s.rest ∈ s.rest := next_mem (h ▸ hkind)
    exact ⟨next s.rest :: more, (numerals_cons _ _).2 ⟨hn _ hnext, hmore⟩, hL⟩
  error hn e s' hrun := by
    obtain ⟨_ | ⟨t, ts⟩, n, skipped⟩ := s
    · exact absurd h.symm hkind
    · have hts : Numerals ts := ((numerals_cons t ts).1 hn).2
      obtain ⟨w, hw, hmore⟩ := (hf ⟨ts, n + 1, skipped⟩).error hts e s' hrun
      have ht : State.Read ⟨t :: ts, n, skipped⟩ [t] ⟨ts, n + 1, skipped⟩ := ⟨rfl, rfl, rfl⟩
      exact ⟨t :: w, ht.trans hw, hmore⟩

/-- A token of a kind is one to be read, or it can be put there. -/
theorem bind_expect {kind : Token.Kind} {f : Token → Parser β} (hkind : kind ≠ .eof)
    (hnumber : kind ≠ .number)
    (hf : ∀ (u : Terminal kind) s', Completes (f u.val) s' fun w => L (u.val :: w)) :
    Completes (expect kind >>= f) s L := by
  let u : Terminal kind := ⟨{ kind := kind, value := "" }, rfl⟩
  refine Completes.bind (fun u : Terminal kind => [u.val]) ?_ (Reads.expect hkind) (fun _ _ _ h => h) hf
  refine Completes.test (run_check kind s) ?_
  split
  next h =>
    exact (bind_advance (of_decide_eq_true h) hkind fun _ => .pure ⟨⟨_, of_decide_eq_true h⟩, rfl⟩)
  next => exact .fail ⟨[u.val], (numerals_cons _ _).2 ⟨fun h => absurd h hnumber, nofun⟩, u, rfl⟩

theorem bind_expectValue {value : String} {f : Token → Parser β}
    (hf : ∀ (u : Sign [value]) s', Completes (f u.val) s' fun w => L (u.val :: w)) :
    Completes (expectValue .operator value >>= f) s L := by
  let u : Sign [value] := ⟨{ kind := .operator, value := value }, rfl, List.mem_singleton_self _⟩
  refine Completes.bind (fun u : Sign [value] => [u.val]) ?_ Reads.expectValue
    (fun _ _ _ h => h) hf
  refine Completes.test (run_checkValue .operator value s) ?_
  split
  next h =>
    rw [Bool.and_eq_true, decide_eq_true_eq, decide_eq_true_eq] at h
    exact bind_advance h.1 (by decide) fun _ => .pure ⟨⟨_, h.1, List.mem_singleton.2 h.2⟩, rfl⟩
  next => exact .fail ⟨[u.val], (numerals_cons _ _).2 ⟨nofun, nofun⟩, u, rfl⟩

/-- An optional token need not be there. -/
theorem bind_optional {kind : Token.Kind} {f : Option Token → Parser β} (hkind : kind ≠ .eof)
    (hf : ∀ (u : Option (Terminal kind)) s',
      Completes (f (u.map Subtype.val)) s' fun w => L (Terminal.tokens u ++ w)) :
    Completes (optional kind >>= f) s L := by
  refine Completes.bind Terminal.tokens ?_ (Reads.optional hkind) (fun _ _ _ h => h) hf
  refine Completes.test (run_check kind s) ?_
  split
  next h =>
    exact bind_advance (of_decide_eq_true h) hkind fun _ => .pure ⟨some ⟨_, of_decide_eq_true h⟩, rfl⟩
  next => exact .pure ⟨none, rfl⟩

end Completes

/-! ## Expressions and conditions

A name stands for a primary, and a name by itself for a statement and a block. -/

/-- A name that is put where one is missing. -/
def someName : Terminal .identifier := ⟨{ kind := .identifier, value := "x" }, rfl⟩

/-- A comparison that is put where one is missing. -/
def someComparison : Sign comparisonOperators :=
  ⟨{ kind := .operator, value := "<" }, rfl, List.mem_cons_self⟩

theorem hasText_primary : HasText fun w => ∃ p : Primary, [p.token] = w :=
  ⟨[someName.val], by decide, .identifier someName, rfl⟩

theorem hasText_stmt : HasText fun w => ∃ d : Stmt, d.text = w :=
  ⟨[someName.val], by decide, .evaluate someName none, rfl⟩

theorem hasText_block : HasText fun w => ∃ d : Block, d.text = w :=
  ⟨[someName.val], by decide, .single (.evaluate someName none), rfl⟩

theorem hasText_braced : HasText fun w =>
    ∃ (d : Stmts) (closing : Terminal .closeBrace), d.text ++ [closing.val] = w :=
  ⟨[{ kind := .closeBrace, value := "\x7d" }], by decide, .nil, ⟨_, rfl⟩, rfl⟩

theorem completes_primary (s : State) :
    Completes primary s fun w => ∃ p : Primary, [p.token] = w := by
  -- a number token that is taken is read, so that only a missing primary is left to fail at
  refine Completes.of_numerals fun hn => Completes.test (run_current s) ?_
  split
  next h =>
    have heof : (next s.rest).kind ≠ .eof := by rw [h]; decide
    refine Completes.bind_advance h (by decide) fun _ => ?_
    rw [numberOf_eq (hn _ (next_mem heof) h)]
    exact .pure ⟨.number ⟨_, h⟩, rfl⟩
  next h => exact Completes.bind_advance h (by decide) fun _ => .pure ⟨.text ⟨_, h⟩, rfl⟩
  next h => exact Completes.bind_advance h (by decide) fun _ => .pure ⟨.identifier ⟨_, h⟩, rfl⟩
  next => exact .fail hasText_primary

/-- A primary is read, or it can be put there. -/
theorem Completes.bind_primary {f : Expression → Parser β} {L : List Token → Prop}
    (hf : ∀ (p : Primary) s', Completes (f p.tree) s' fun w => L (p.token :: w)) :
    Completes (primary >>= f) s L :=
  Completes.bind (fun p : Primary => [p.token]) (completes_primary s) reads_primary
    (fun _ _ hn h => (Primary.means_iff hn).1 h) hf

theorem completes_expression (s : State) :
    Completes expression s fun w => ∃ d : Expr, d.text = w := by
  refine Completes.bind_primary fun left s₁ => ?_
  refine Completes.test (run_current s₁) ?_
  split
  next h =>
    refine Completes.bind_advance h.1 (by decide) fun s₂ => ?_
    refine Completes.bind_primary fun right s₃ => ?_
    exact .pure ⟨.operation left ⟨_, h⟩ right, rfl⟩
  next => exact .pure ⟨.primary left, rfl⟩

/-- An expression is read, or it can be put there. -/
theorem Completes.bind_expression {f : Expression → Parser β} {L : List Token → Prop}
    (hf : ∀ (d : Expr) s', Completes (f d.tree) s' fun w => L (d.text ++ w)) :
    Completes (expression >>= f) s L :=
  Completes.bind Expr.text (completes_expression s) reads_expression
    (fun _ _ hn h => (Expr.means_iff hn).1 h) hf

theorem completes_condition (s : State) :
    Completes condition s fun w => ∃ d : Cond, d.text = w := by
  refine Completes.bind_primary fun left s₁ => ?_
  refine Completes.test (run_current s₁) ?_
  split
  next h =>
    refine Completes.bind_advance h.1 (by decide) fun s₂ => ?_
    refine Completes.bind_primary fun right s₃ => ?_
    exact .pure ⟨⟨left, ⟨_, h⟩, right⟩, rfl⟩
  next =>
    exact .fail ⟨[someComparison.val, someName.val], by decide,
      ⟨left, someComparison, .identifier someName⟩, rfl⟩

/-- A condition is read, or it can be put there. -/
theorem Completes.bind_condition {f : Condition → Parser β} {L : List Token → Prop}
    (hf : ∀ (d : Cond) s', Completes (f d.tree) s' fun w => L (d.text ++ w)) :
    Completes (condition >>= f) s L :=
  Completes.bind Cond.text (completes_condition s) reads_condition
    (fun _ _ hn h => (Cond.means_iff hn).1 h) hf

/-! ## Simple statements -/

theorem completes_declaration (s : State) :
    Completes declaration s fun w => ∃ d : Stmt, d.text = w := by
  refine Completes.bind_expect (by decide) (by decide) fun start s₁ => ?_
  refine Completes.bind_expect (by decide) (by decide) fun name s₂ => ?_
  refine Completes.bind_expectValue fun sign s₃ => ?_
  refine Completes.bind_expression fun value s₄ => ?_
  refine Completes.bind_optional (by decide) fun stop s₅ => ?_
  refine .pure ⟨.declare start name sign value stop, ?_⟩
  simp only [Stmt.text, List.append_nil]

theorem completes_printing (s : State) : Completes printing s fun w => ∃ d : Stmt, d.text = w := by
  refine Completes.bind_expect (by decide) (by decide) fun start s₁ => ?_
  refine Completes.bind_expression fun value s₂ => ?_
  refine Completes.bind_optional (by decide) fun stop s₃ => ?_
  refine .pure ⟨.print start value stop, ?_⟩
  simp only [Stmt.text, List.append_nil]

theorem completes_simple (s : State) : Completes simple s fun w => ∃ d : Stmt, d.text = w := by
  refine Completes.bind_expect (by decide) (by decide) fun name s₁ => ?_
  refine Completes.test (run_checkValue .operator assignOperator s₁) ?_
  split
  next h =>
    rw [Bool.and_eq_true, decide_eq_true_eq, decide_eq_true_eq] at h
    refine Completes.bind_advance h.1 (by decide) fun s₂ => ?_
    refine Completes.bind_expression fun value s₃ => ?_
    refine Completes.bind_optional (by decide) fun stop s₄ => ?_
    refine .pure ⟨.assign name ⟨_, h.1, List.mem_singleton.2 h.2⟩ value stop, ?_⟩
    simp only [Stmt.text, List.append_nil]
  next =>
    refine Completes.bind_optional (by decide) fun stop s₂ => ?_
    refine .pure ⟨.evaluate name stop, ?_⟩
    simp only [Stmt.text, List.append_nil]

/-! ## Statements

Of the derivations that the parser reads it is forgotten here that they are innermost: any
derivation of the completed text will do. -/

theorem reads_statement_text (fuel : Nat) (s : State) :
    Reads (statementUpTo .strict fuel) s fun a w _ =>
      ∃ d : Stmt, (∃ st, a = some st ∧ d.Means st) ∧ w = d.text :=
  (reads_statement fuel s).imp fun _ _ _ ⟨st, ha, d, hst, hw, _⟩ => ⟨d, ⟨st, ha, hst⟩, hw⟩

theorem some_tree (d : Stmt) (a : Option Statement) (hn : Numerals d.text)
    (h : ∃ st, a = some st ∧ d.Means st) : a = some d.tree := by
  obtain ⟨st, rfl, hst⟩ := h
  rw [(d.means_iff hn st).1 hst]

theorem Completes.bind_statement {fuel : Nat} {f : Option Statement → Parser β} {L : List Token → Prop}
    (hp : Completes (statementUpTo .strict fuel) s fun w => ∃ d : Stmt, d.text = w)
    (hf : ∀ (d : Stmt) s', Completes (f (some d.tree)) s' fun w => L (d.text ++ w)) :
    Completes (statementUpTo .strict fuel >>= f) s L :=
  Completes.bind Stmt.text hp (reads_statement_text fuel s) some_tree hf

theorem Completes.bind_block {fuel : Nat} {f : List Statement → Parser β} {L : List Token → Prop}
    (hp : Completes (blockUpTo .strict fuel) s fun w => ∃ d : Block, d.text = w)
    (hf : ∀ (d : Block) s', Completes (f d.tree) s' fun w => L (d.text ++ w)) :
    Completes (blockUpTo .strict fuel >>= f) s L :=
  Completes.bind Block.text hp
    ((reads_block fuel s).imp fun _ _ _ ⟨d, hd, hw, _⟩ => ⟨d, hd, hw⟩)
    (fun d ss hn h => (d.means_iff hn ss).1 h) hf

mutual

theorem completes_statement : ∀ (fuel : Nat) (s : State),
    Completes (statementUpTo .strict fuel) s fun w => ∃ d : Stmt, d.text = w
  | 0, _ => .fail hasText_stmt
  | fuel + 1, s => by
    refine Completes.test (run_current s) ?_
    split
    · exact (completes_declaration s).andReturn
    · exact (completes_printing s).andReturn
    · exact (completes_branch fuel s).andReturn
    · exact (completes_loop fuel s).andReturn
    · exact (completes_simple s).andReturn
    · exact .fail hasText_stmt
    · exact .fail hasText_stmt

theorem completes_branch : ∀ (fuel : Nat) (s : State),
    Completes (branchUpTo .strict fuel) s fun w => ∃ d : Stmt, d.text = w
  | 0, _ => .fail hasText_stmt
  | fuel + 1, s => by
    refine Completes.bind_expect (by decide) (by decide) fun start s₁ => ?_
    refine Completes.bind_condition fun c s₂ => ?_
    refine Completes.bind_block (completes_block fuel s₂) fun body s₃ => ?_
    refine Completes.andReturn ((completes_otherwise fuel s₃).imp ?_)
    rintro _ ⟨rest, rfl⟩
    exact ⟨.branch start c body rest, rfl⟩

theorem completes_otherwise : ∀ (fuel : Nat) (s : State),
    Completes (otherwiseUpTo .strict fuel) s fun w => ∃ d : Tail, d.text = w
  | 0, _ => .fail ⟨[], nofun, .nothing, rfl⟩
  | fuel + 1, s => by
    refine Completes.test (run_check (.keyword .elseIf) s) ?_
    split
    next h =>
      rw [decide_eq_true_eq] at h
      refine Completes.bind_advance h (by decide) fun s₁ => ?_
      refine Completes.bind_condition fun c s₂ => ?_
      refine Completes.bind_block (completes_block fuel s₂) fun body s₃ => ?_
      refine Completes.andReturn ((completes_otherwise fuel s₃).imp ?_)
      rintro _ ⟨rest, rfl⟩
      exact ⟨.elseIf ⟨_, h⟩ c body rest, rfl⟩
    next =>
      refine Completes.test (run_check (.keyword .elseStart) s) ?_
      split
      next h =>
        rw [decide_eq_true_eq] at h
        refine Completes.bind_advance h (by decide) fun s₁ => ?_
        refine Completes.andReturn ((completes_block fuel s₁).imp ?_)
        rintro _ ⟨body, rfl⟩
        exact ⟨.last ⟨_, h⟩ body, rfl⟩
      next => exact .pure ⟨.nothing, rfl⟩

theorem completes_loop : ∀ (fuel : Nat) (s : State),
    Completes (loopUpTo .strict fuel) s fun w => ∃ d : Stmt, d.text = w
  | 0, _ => .fail hasText_stmt
  | fuel + 1, s => by
    refine Completes.bind_expect (by decide) (by decide) fun start s₁ => ?_
    refine Completes.bind_condition fun c s₂ => ?_
    refine Completes.bind_optional (by decide) fun marker s₃ => ?_
    refine Completes.andReturn ((completes_block fuel s₃).imp ?_)
    rintro _ ⟨body, rfl⟩
    exact ⟨.loop start c marker body, rfl⟩

theorem completes_block : ∀ (fuel : Nat) (s : State),
    Completes (blockUpTo .strict fuel) s fun w => ∃ d : Block, d.text = w
  | 0, _ => .fail hasText_block
  | fuel + 1, s => by
    refine Completes.test (run_check .openBrace s) ?_
    split
    next h =>
      rw [decide_eq_true_eq] at h
      refine Completes.bind_advance h (by decide) fun s₁ => ?_
      refine (completes_braced fuel s₁).imp ?_
      rintro _ ⟨body, closing, rfl⟩
      exact ⟨.braced ⟨_, h⟩ body closing, rfl⟩
    next =>
      refine Completes.andReturn ((completes_statement fuel s).imp ?_)
      rintro _ ⟨d, rfl⟩
      exact ⟨.single d, rfl⟩

theorem completes_braced : ∀ (fuel : Nat) (s : State),
    Completes (bracedUpTo .strict fuel) s fun w =>
      ∃ (d : Stmts) (closing : Terminal .closeBrace), d.text ++ [closing.val] = w
  | 0, _ => .fail hasText_braced
  | fuel + 1, s => by
    refine Completes.test (run_check .closeBrace s) ?_
    split
    next h =>
      rw [decide_eq_true_eq] at h
      exact Completes.bind_advance h (by decide) fun s₁ => .pure ⟨.nil, ⟨_, h⟩, rfl⟩
    next =>
      refine Completes.test (run_atEnd s) ?_
      split
      next => exact .fail hasText_braced
      next =>
        refine Completes.bind_statement (completes_statement fuel s) fun d s₁ => ?_
        refine Completes.andReturn ((completes_braced fuel s₁).imp ?_)
        rintro _ ⟨ds, closing, rfl⟩
        exact ⟨.cons d ds, closing, List.append_assoc _ _ _⟩

end

/-! ## Programs -/

theorem completes_statements : ∀ (fuel : Nat) (s : State),
    Completes (statementsUpTo .strict fuel) s fun w => ∃ d : Stmts, d.text = w
  | 0, _ => .pure ⟨.nil, rfl⟩
  | fuel + 1, s => by
    refine Completes.test (run_atEnd s) ?_
    split
    next => exact .pure ⟨.nil, rfl⟩
    next =>
      refine Completes.bind Stmt.text (Completes.test (run_get s) (completes_statement _ s))
        (Reads.test (run_get s) (reads_statement_text _ s)) some_tree fun d s₁ => ?_
      refine Completes.andReturn ((completes_statements fuel s₁).imp ?_)
      rintro _ ⟨ds, rfl⟩
      exact ⟨.cons d ds, rfl⟩

/-- What a failing run has read is the front of a sentence. -/
theorem completes_program (s : State) :
    Completes (program .strict) s fun w => ∃ d : Stmts, d.text = w :=
  Completes.test (run_get s) (completes_statements _ s).andReturn

end Boli.Parser
