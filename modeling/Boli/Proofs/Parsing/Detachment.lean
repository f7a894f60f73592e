import Boli.Proofs.Parsing.Skipping

/-!
# Bodies that are passed over

A permissive run of each function of the parser is compared with strict runs of the same function on
the tokens that were kept. If none was passed over where a body had to begin, those runs take just
these tokens, for the same result; if one was, they have another result or none (`Fate`). What stands
behind the tokens need not be what the permissive run has seen there, since that may have been passed
over later; it is enough that it does not continue the statement (`Behind`).

For programs this gives what deleting the tokens does (`parse_strict_kept_iff`), and that it may
change the program (`not_parse_strict_kept`).
-/

set_option autoImplicit false

namespace Boli

namespace Parser

open Grammar (next Terminal Sign Stmt)

variable {α β : Type} {s s' : State}

/-! ## The fate of a result -/

/-- On this text in front of `K` the parser does not have the result `a`, wherever it stands. -/
def Misses (p : Parser α) (text : List Token) (a : α) (K : List Token) : Prop :=
  ∀ n skipped s', p.run ⟨text ++ K, n, skipped⟩ ≠ .ok a s'

/-- In front of `K` the parser takes exactly this text, for the result `a`, unless the result is
lost; then it does not have it. -/
structure Fate (lost : Prop) (p : Parser α) (text : List Token) (a : α) (K : List Token) : Prop where
  accepts : ¬lost → Accepts p text a K
  misses : lost → Misses p text a K

namespace Fate

variable {p : Parser α} {f : α → Parser β} {text more K : List Token} {a : α} {b : β}
  {lost lost' : Prop}

theorem of_accepts (h : Accepts p text a K) (hlost : ¬lost) : Fate lost p text a K :=
  ⟨fun _ => h, fun hl => absurd hl hlost⟩

/-- A first part that is taken in any case. -/
theorem accepts_bind (hp : Accepts p text a (more ++ K)) (hf : Fate lost (f a) more b K) :
    Fate lost (p >>= f) (text ++ more) b K where
  accepts hlost := hp.bind (hf.accepts hlost)
  misses hlost n skipped s' hrun := by
    rw [EStateM.run_bind, List.append_assoc, hp n skipped] at hrun
    exact hf.misses hlost _ _ s' hrun

/-- What is lost in one part is lost, if the result of the first part can be told from the whole
result. -/
protected theorem bind (hp : Fate lost p text a (more ++ K)) (hf : Fate lost' (f a) more b K)
    (hrecall : ∀ s₀ a' s₁ s₂, p.run s₀ = .ok a' s₁ → (f a').run s₁ = .ok b s₂ → a' = a) :
    Fate (lost ∨ lost') (p >>= f) (text ++ more) b K := by
  by_cases hlost : lost
  · refine ⟨fun h => absurd (.inl hlost) h, fun _ n skipped s' hrun => ?_⟩
    obtain ⟨a', s₁, hfirst, hsecond⟩ := exists_of_run_bind hrun
    obtain rfl := hrecall _ a' s₁ s' hfirst hsecond
    rw [List.append_assoc] at hfirst
    exact hp.misses hlost n skipped s₁ hfirst
  · rw [or_iff_right hlost]
    exact accepts_bind (hp.accepts hlost) hf

/-- The second of two parsers only puts the value into another form. -/
theorem andReturn {g : α → β} (hp : Fate lost p text a K) (hg : ∀ a', g a' = g a → a' = a) :
    Fate lost (p >>= fun x => pure (g x)) text (g a) K where
  accepts hlost := (hp.accepts hlost).andReturn
  misses hlost n skipped s' hrun := by
    obtain ⟨a', s₁, hfirst, hsecond⟩ := exists_of_run_bind hrun
    have ha : g a' = g a := (EStateM.Result.ok.inj hsecond).1
    obtain rfl := hg a' ha
    exact hp.misses hlost n skipped s₁ hfirst

/-- A test decides how it goes on. -/
theorem test (h : ∀ s : State, s.rest = text ++ K → p.run s = .ok a s)
    (hf : Fate lost (f a) text b K) : Fate lost (p >>= f) text b K where
  accepts hlost := Accepts.test h (hf.accepts hlost)
  misses hlost n skipped s' hrun := by
    rw [EStateM.run_bind, h _ rfl] at hrun
    exact hf.misses hlost n skipped s' hrun

/-- The fuel of a parser depends on what is left. -/
theorem of_state {q : State → Parser α}
    (h : ∀ n skipped, Fate lost (q ⟨text ++ K, n, skipped⟩) text a K) :
    Fate lost (do q (← get)) text a K where
  accepts hlost n skipped := (h n skipped).accepts hlost n skipped
  misses hlost n skipped := (h n skipped).misses hlost n skipped

theorem check_pos {kind : Token.Kind} {f : Bool → Parser β} (h : (next (text ++ K)).kind = kind)
    (hf : Fate lost (f true) text b K) : Fate lost (check kind >>= f) text b K :=
  test (a := true) (fun s hs => by rw [run_check, hs, decide_eq_true h]) hf

theorem check_neg {kind : Token.Kind} {f : Bool → Parser β} (h : (next (text ++ K)).kind ≠ kind)
    (hf : Fate lost (f false) text b K) : Fate lost (check kind >>= f) text b K :=
  test (a := false) (fun s hs => by rw [run_check, hs, decide_eq_false h]) hf

theorem atEnd_neg {f : Bool → Parser β} (h : (next (text ++ K)).kind ≠ .eof)
    (hf : Fate lost (f false) text b K) : Fate lost (atEnd >>= f) text b K :=
  check_neg h hf

/-- A statement whose first token is of this kind. -/
theorem current {f : Token → Parser β} (hf : Fate lost (f (next (text ++ K))) text b K) :
    Fate lost (Parser.current >>= f) text b K :=
  test (a := next (text ++ K)) (fun s hs => by rw [run_current, hs]) hf

end Fate

/-! ## What stands behind -/

/-- Where the permissive run has left off in front of `r`, the strict one may stand in front of `K`:
that begins with a token with which no statement goes on, or with the same ELSE_IF or ELSE. -/
def Behind (r K : List Token) : Prop :=
  (next K).kind ∈ Token.Kind.closeBrace :: .eof :: Stmt.startKinds ∨
    (next K = next r ∧ (next r).kind ∈ [Token.Kind.keyword .elseIf, .keyword .elseStart])

theorem Behind.kind_ne {r K : List Token} (h : Behind r K) {kind : Token.Kind}
    (hkind : kind ∉ (Token.Kind.closeBrace :: .eof :: Stmt.startKinds) ++
      [Token.Kind.keyword .elseIf, .keyword .elseStart]) : (next K).kind ≠ kind := by
  rintro rfl
  rcases h with h | ⟨hsame, h⟩
  · exact hkind (List.mem_append_left _ h)
  · rw [hsame] at hkind
    exact hkind (List.mem_append_right _ h)

/-- A branch that ends in front of `r` is not continued in front of `K` either. -/
theorem Behind.kind_ne_of_ne {r K : List Token} (h : Behind r K) {kind : Token.Kind}
    (hne : (next r).kind ≠ kind) (hkind : kind ∉ Token.Kind.closeBrace :: .eof :: Stmt.startKinds) :
    (next K).kind ≠ kind := by
  rcases h with h | ⟨hsame, -⟩
  · exact fun he => hkind (he ▸ h)
  · rwa [hsame]

theorem Behind.stops {r K : List Token} (h : Behind r K) : Stops K :=
  ⟨h.kind_ne (by decide), h.kind_ne (by decide)⟩

/-- These tokens begin with one of a kind, which is kept. -/
def Begins (kind : Token.Kind) (ms : Marked) : Prop :=
  ∃ t more, ms = (t, false) :: more ∧ t.kind = kind

theorem Begins.kind_next {kind : Token.Kind} {ms : Marked} (h : Begins kind ms) (K : List Token) :
    (next (kept ms ++ K)).kind = kind := by
  obtain ⟨t, more, rfl, ht⟩ := h
  exact ht

/-- These tokens begin with one that begins a statement, and it is kept. -/
def Starts (ms : Marked) : Prop := ∃ t more, ms = (t, false) :: more ∧ t.kind ∈ Stmt.startKinds

theorem Begins.starts {kind : Token.Kind} {ms : Marked} (h : Begins kind ms)
    (hkind : kind ∈ Stmt.startKinds) : Starts ms := by
  obtain ⟨t, more, rfl, rfl⟩ := h
  exact ⟨t, more, rfl, hkind⟩

/-- Of these tokens the first that is kept begins a statement or ends a block. -/
def Led (ms : Marked) : Prop :=
  ∃ t more, kept ms = t :: more ∧ t.kind ∈ Token.Kind.closeBrace :: Stmt.startKinds

theorem Starts.led_append {ms : Marked} (h : Starts ms) (ms' : Marked) : Led (ms ++ ms') := by
  obtain ⟨t, more, rfl, ht⟩ := h
  exact ⟨t, kept (more ++ ms'), rfl, List.mem_cons_of_mem _ ht⟩

theorem Starts.ne_nil {ms : Marked} (h : Starts ms) : ms ≠ [] := by
  obtain ⟨t, more, rfl, -⟩ := h
  exact List.cons_ne_nil (t, false) more

theorem Starts.kept_ne_nil {ms : Marked} (h : Starts ms) : kept ms ≠ [] := by
  obtain ⟨t, more, rfl, -⟩ := h
  exact List.cons_ne_nil t (kept more)

theorem Starts.kind_next_mem {ms : Marked} (h : Starts ms) (K : List Token) :
    (next (kept ms ++ K)).kind ∈ Stmt.startKinds := by
  obtain ⟨t, more, rfl, ht⟩ := h
  exact ht

theorem Led.kept_ne_nil {ms : Marked} (h : Led ms) : kept ms ≠ [] := by
  obtain ⟨t, more, hkept, -⟩ := h
  rw [hkept]
  exact List.cons_ne_nil t more

theorem Led.behind {ms : Marked} (h : Led ms) (r K : List Token) : Behind r (kept ms ++ K) := by
  obtain ⟨t, more, hkept, ht⟩ := h
  refine .inl ?_
  rw [hkept, List.cons_append]
  show t.kind ∈ _
  rw [List.mem_cons] at ht ⊢
  exact ht.imp_right (List.mem_cons_of_mem _)

/-! ## Runs that pass over tokens -/

/-- A parser that has a result has taken some tokens, and `P` holds of the result, the tokens and
the state behind them. -/
def Tracks (p : Parser α) (s : State) (P : α → Marked → State → Prop) : Prop :=
  ∀ a s', p.run s = .ok a s' → ∃ ms, s.Takes ms s' ∧ P a ms s'

namespace Tracks

variable {p : Parser α} {f : α → Parser β} {P : α → Marked → State → Prop}
  {Q : β → Marked → State → Prop}

protected theorem pure {a : α} (h : P a [] s) : Tracks (pure a) s P := by
  intro a' s' hrun
  cases hrun
  exact ⟨[], (State.Read.refl s).takes, h⟩

protected theorem fail (expected : Expectation) : Tracks (fail expected) s P := by
  intro a s' hrun
  cases hrun

protected theorem bind (hp : Tracks p s P)
    (hf : ∀ a ms s', s.Takes ms s' → P a ms s' →
      Tracks (f a) s' fun b ms' s'' => Q b (ms ++ ms') s'') :
    Tracks (p >>= f) s Q := by
  intro b s'' hrun
  obtain ⟨a, s₁, hfirst, hrun⟩ := exists_of_run_bind hrun
  obtain ⟨ms, htakes, ha⟩ := hp a s₁ hfirst
  obtain ⟨ms', htakes', hb⟩ := hf a ms s₁ htakes ha b s'' hrun
  exact ⟨ms ++ ms', htakes.trans htakes', hb⟩

/-- The first of two parsers passes over nothing. -/
theorem bind_yields {R : α → List Token → Prop} (hp : Yields p s R)
    (hf : ∀ a text s', R a text → Tracks (f a) s' fun b ms s'' => Q b (unmarked text ++ ms) s'') :
    Tracks (p >>= f) s Q := by
  intro b s'' hrun
  obtain ⟨a, s₁, hfirst, hrun⟩ := exists_of_run_bind hrun
  obtain ⟨text, hread, ha⟩ := hp a s₁ hfirst
  obtain ⟨ms, htakes, hb⟩ := hf a text s₁ ha b s'' hrun
  exact ⟨unmarked text ++ ms, hread.takes.trans htakes, hb⟩

theorem andReturn {g : α → β} (hp : Tracks p s P) (h : ∀ a ms s', P a ms s' → Q (g a) ms s') :
    Tracks (p >>= fun a => pure (g a)) s Q := by
  refine hp.bind fun a ms s' _ ha => .pure ?_
  rw [List.append_nil]
  exact h a ms s' ha

/-- A test looks at the next token and decides how it goes on. -/
theorem test {a : α} (h : p.run s = .ok a s) (hf : Tracks (f a) s Q) : Tracks (p >>= f) s Q := by
  intro b s' hrun
  rw [EStateM.run_bind, h] at hrun
  exact hf b s' hrun

end Tracks

/-! ## Statements -/

/-- With tokens behind `before` a permissive run has taken `ms`, for the result `a`, and now stands
at `s'`. Nothing is left open, and every strict run on the tokens that were kept meets its fate; three
units of fuel for each of them and `slack` more are enough. -/
structure Traced (before : Marked) (q : Nat → Parser α) (slack : Nat) (a : α) (ms : Marked)
    (s' : State) : Prop where
  settled : Settled (before ++ ms)
  fate : ∀ fuel K, 3 * (kept ms).length + slack ≤ fuel → Behind s'.rest K →
    Fate (Detaches before ms) (q fuel) (kept ms) a K

/-- A statement is traced, and nothing stands for one token that was passed over. -/
def Treated (before : Marked) : Option Statement → Marked → State → Prop
  | none, ms, _ => ∃ t, ms = [(t, true)]
  | some st, ms, s' => Starts ms ∧ Traced before (statementUpTo .strict) 1 (some st) ms s'

/-- The strict parser passes over nothing. -/
theorem run_statementUpTo_ne_none (fuel : Nat) (s s' : State) :
    (statementUpTo .strict fuel).run s ≠ .ok none s' := by
  intro hrun
  cases fuel with
  | zero => cases hrun
  | succ fuel =>
    rw [statementUpTo, EStateM.run_bind, run_current] at hrun
    dsimp only at hrun
    split at hrun
    case h_6 => cases hrun
    case h_7 => cases hrun
    all_goals
      obtain ⟨st, s₁, -, hreturn⟩ := exists_of_run_bind hrun
      cases hreturn

/-- One of the statements without a body. -/
theorem treated_simple {p : Parser Statement} {kind : Token.Kind} {before : Marked}
    (hp : Yields p s (TakesInert Stops p)) (hkind : (next s.rest).kind = kind)
    (hstart : kind ∈ Stmt.startKinds) (hbefore : ¬EndsCompared before)
    (hstrict : ∀ fuel t text st K, t.kind = kind → Accepts p (t :: text) st K →
      Accepts (statementUpTo .strict (fuel + 1)) (t :: text) (some st) K) :
    Tracks (do return some (← p)) s (Treated before) := by
  intro a s' hrun
  obtain ⟨st, s₁, hfirst, hreturn⟩ := exists_of_run_bind hrun
  cases hreturn
  obtain ⟨_ | ⟨t, text⟩, hread, hst⟩ := hp st s' hfirst
  · exact absurd rfl hst.ne_nil
  · have ht : t.kind = kind := by
      rw [← hkind, hread.rest_eq]
      rfl
    refine ⟨unmarked (t :: text), hread.takes, ⟨t, unmarked text, rfl, ht ▸ hstart⟩,
      settled_of_inert hst.ne_nil hst.inert hbefore, fun fuel K hfuel hK => ?_⟩
    rw [kept_unmarked] at hfuel ⊢
    obtain ⟨fuel, rfl⟩ : ∃ k, fuel = k + 1 := ⟨fuel - 1, by omega⟩
    exact .of_accepts (hstrict fuel t text st K ht (hst.accepts K hK.stops))
      (not_detaches_unmarked before _)

theorem awaitsBody_compared (before : Marked) {left sign right : Token} (hsign : IsComparison sign) :
    AwaitsBody (before ++ unmarked [left, sign, right]) := by
  refine ⟨before ++ [(left, false)] ++ [(sign, false)], right, ?_, .inr (.inr ?_)⟩
  · simp only [unmarked, List.map_cons, List.map_nil, List.append_assoc, List.cons_append,
      List.nil_append]
  · exact endsCompared_concat.2 ⟨rfl, hsign⟩

theorem not_endsCompared_inert (before : Marked) (text : List Token) {t : Token} (ht : Inert t) :
    ¬EndsCompared (before ++ unmarked (text ++ [t])) := by
  rw [unmarked, List.map_append, ← List.append_assoc]
  exact fun h => ht.not_isComparison (endsCompared_concat.1 h).2

/-- A body is traced behind tokens with which it has to begin; the marker of a loop is not its first
token. -/
structure TracedBody (before : Marked) (body : List Statement) (ms : Marked) (s' : State) : Prop
    extends Traced before (blockUpTo .strict) 2 body ms s' where
  kind_ne : ∀ K, Behind s'.rest K → (next (kept ms ++ K)).kind ≠ .keyword .loopStart

/-- What follows the body of a branch is traced, and it stands behind that body as well. -/
structure TracedTail (before : Marked) (s : State) (rest : Otherwise) (ms : Marked) (s' : State) : Prop
    extends Traced before (otherwiseUpTo .strict) 1 rest ms s' where
  behind : ∀ K, Behind s'.rest K → Behind s.rest (kept ms ++ K)

/-- Neither the marker of a loop nor its absence puts off its body. -/
theorem awaitsBody_marker {before : Marked} (marker : Option (Terminal (.keyword .loopStart)))
    (hopen : AwaitsBody before) (hcompared : ¬EndsCompared before) :
    AwaitsBody (before ++ unmarked (Terminal.tokens marker)) ∧
      ¬EndsCompared (before ++ unmarked (Terminal.tokens marker)) := by
  cases marker with
  | none =>
    rw [show unmarked (Terminal.tokens (none : Option (Terminal (.keyword .loopStart)))) = [] from rfl,
      List.append_nil]
    exact ⟨hopen, hcompared⟩
  | some u =>
    refine ⟨awaitsBody_concat.2 ⟨rfl, .inr (.inl u.2)⟩, fun h => ?_⟩
    exact nomatch u.2.symm.trans (endsCompared_concat.1 h).2.1

/-- From the statements that a statement has been put in front of it can be told. -/
theorem eq_of_run_cons {fuel : Nat} {q : Parser (List Statement)} {s₀ s₁ s₂ : State}
    {a : Option Statement} {st : Statement} {ss : List Statement}
    (hfirst : (statementUpTo .strict fuel).run s₀ = .ok a s₁)
    (hrun : (do let ss ← q; return a.toList ++ ss : Parser (List Statement)).run s₁ =
      .ok (st :: ss) s₂) : a = some st := by
  obtain ⟨ss', s₃, -, hreturn⟩ := exists_of_run_bind hrun
  cases a with
  | none => exact absurd hfirst (run_statementUpTo_ne_none fuel s₀ s₁)
  | some st' => exact congrArg some (List.cons.inj (EStateM.Result.ok.inj hreturn).1).1

/-- Without a brace in front a body is never empty for the strict parser. -/
theorem run_blockUpTo_ne_nil (fuel : Nat) (s s' : State) (h : (next s.rest).kind ≠ .openBrace) :
    (blockUpTo .strict fuel).run s ≠ .ok [] s' := by
  intro hrun
  cases fuel with
  | zero => cases hrun
  | succ fuel =>
    rw [blockUpTo, EStateM.run_bind, run_check, decide_eq_false h] at hrun
    obtain ⟨st, s₁, hst, hreturn⟩ := exists_of_run_bind hrun
    cases st with
    | none => exact run_statementUpTo_ne_none fuel s s₁ hst
    | some st => cases hreturn

/-- A body and what follows it, in a branch or behind one of its ELSE_IFs. -/
theorem fate_body_rest {g : List Statement → Otherwise → β}
    (hg : ∀ b r b' r', g b r = g b' r' → b = b' ∧ r = r') {before ms ms' : Marked} {s₂ s₃ : State}
    {body : List Statement} {rest : Otherwise} (hbody : TracedBody before body ms s₂)
    (hrest : TracedTail (before ++ ms) s₂ rest ms' s₃) {fuel : Nat} {K : List Token}
    (hfuel : 3 * (kept ms).length + 3 * (kept ms').length + 2 ≤ fuel) (hK : Behind s₃.rest K) :
    Fate (Detaches before (ms ++ ms'))
      (do let body ← blockUpTo .strict fuel; let rest ← otherwiseUpTo .strict fuel; return g body rest)
      (kept ms ++ kept ms') (g body rest) K := by
  rw [detaches_append]
  refine (hbody.fate fuel _ (by omega) (hrest.behind K hK)).bind
    ((hrest.fate fuel K (by omega) hK).andReturn fun r h => (hg _ _ _ _ h).2) ?_
  intro s₀ body' s₄ s₅ _ hrun
  obtain ⟨rest', s₆, -, hreturn⟩ := exists_of_run_bind hrun
  exact (hg _ _ _ _ (EStateM.Result.ok.inj hreturn).1).1

mutual

theorem statementUpTo_treated : ∀ (fuel : Nat) (s : State) (before : Marked), ¬EndsCompared before →
    Tracks (statementUpTo .permissive fuel) s (Treated before)
  | 0, _, _, _ => .fail _
  | fuel + 1, s, before, hbefore => by
    apply Tracks.test (run_current s)
    split
    next h =>
      exact treated_simple (declaration_yields s) h (by decide) hbefore
        fun fuel t text st K ht hst => Accepts.current (by simp only [ht]; exact hst.andReturn)
    next h =>
      exact treated_simple (printing_yields s) h (by decide) hbefore
        fun fuel t text st K ht hst => Accepts.current (by simp only [ht]; exact hst.andReturn)
    next =>
      refine (branchUpTo_traced fuel s before hbefore).andReturn ?_
      rintro st ms s' ⟨hbegins, hst⟩
      refine ⟨hbegins.starts (by decide), hst.settled, fun fuel K hfuel hK => ?_⟩
      obtain ⟨fuel, rfl⟩ : ∃ k, fuel = k + 1 := ⟨fuel - 1, by omega⟩
      refine Fate.current ?_
      simp only [hbegins.kind_next K]
      exact (hst.fate fuel K (by omega) hK).andReturn fun _ h => Option.some.inj h
    next =>
      refine (loopUpTo_traced fuel s before hbefore).andReturn ?_
      rintro st ms s' ⟨hbegins, hst⟩
      refine ⟨hbegins.starts (by decide), hst.settled, fun fuel K hfuel hK => ?_⟩
      obtain ⟨fuel, rfl⟩ : ∃ k, fuel = k + 1 := ⟨fuel - 1, by omega⟩
      refine Fate.current ?_
      simp only [hbegins.kind_next K]
      exact (hst.fate fuel K (by omega) hK).andReturn fun _ h => Option.some.inj h
    next h =>
      exact treated_simple (simple_yields s) h (by decide) hbefore
        fun fuel t text st K ht hst => Accepts.current (by simp only [ht]; exact hst.andReturn)
    next => exact .fail _
    next heof =>
      obtain ⟨_ | ⟨t, ts⟩, n, skipped⟩ := s
      · exact absurd rfl heof
      · intro a s' hrun
        cases hrun
        exact ⟨[(t, true)], ⟨rfl, rfl, rfl⟩, t, rfl⟩

theorem branchUpTo_traced : ∀ (fuel : Nat) (s : State) (before : Marked), ¬EndsCompared before →
    Tracks (branchUpTo .permissive fuel) s fun a ms s' =>
      Begins (.keyword .ifStart) ms ∧ Traced before (branchUpTo .strict) 0 a ms s'
  | 0, _, _, _ => .fail _
  | fuel + 1, s, before, hbefore => by
    refine Tracks.bind_yields (Yields.expect (by decide)) ?_
    rintro _ _ s₁ ⟨start, rfl, rfl⟩
    refine Tracks.bind_yields (condition_yields s₁) ?_
    rintro c _ s₂ ⟨left, sign, right, rfl, -, hsign, hright, hc⟩
    refine (blockUpTo_traced fuel s₂ (before ++ unmarked [start.val] ++ unmarked [left, sign, right])
      (awaitsBody_compared _ hsign) (not_endsCompared_inert _ [left, sign] hright)).bind ?_
    intro body ms₁ s₃ _ hbody
    refine (otherwiseUpTo_traced fuel s₃ _ hbody.settled).andReturn ?_
    intro rest ms₂ s₄ hrest
    refine ⟨⟨start.val, _, rfl, start.2⟩, ?_, fun fuel K hfuel hK => ?_⟩
    · simpa only [List.append_assoc] using hrest.settled
    · simp only [kept_append, kept_unmarked, List.length_append, List.length_cons, List.length_nil]
        at hfuel ⊢
      obtain ⟨fuel, rfl⟩ : ∃ k, fuel = k + 1 := ⟨fuel - 1, by omega⟩
      rw [detaches_unmarked_append, detaches_unmarked_append]
      refine Fate.accepts_bind (Accepts.expect start) (Fate.accepts_bind (hc _) ?_)
      refine fate_body_rest (fun _ _ _ _ h => ?_) hbody hrest (by omega) hK
      exact (Statement.branch.inj h).2

theorem otherwiseUpTo_traced : ∀ (fuel : Nat) (s : State) (before : Marked), Settled before →
    Tracks (otherwiseUpTo .permissive fuel) s (TracedTail before s)
  | 0, _, _, _ => .fail _
  | fuel + 1, s, before, hbefore => by
    apply Tracks.test (run_check _ s)
    split
    next h =>
      rw [decide_eq_true_eq] at h
      refine Tracks.bind_yields (Yields.advance h (by decide)) ?_
      rintro _ _ s₁ ⟨rfl, rfl⟩
      refine Tracks.bind_yields (condition_yields s₁) ?_
      rintro c _ s₂ ⟨left, sign, right, rfl, -, hsign, hright, hc⟩
      refine (blockUpTo_traced fuel s₂
        (before ++ unmarked [next s.rest] ++ unmarked [left, sign, right])
        (awaitsBody_compared _ hsign) (not_endsCompared_inert _ [left, sign] hright)).bind ?_
      intro body ms₁ s₃ _ hbody
      refine (otherwiseUpTo_traced fuel s₃ _ hbody.settled).andReturn ?_
      intro rest ms₂ s₄ hrest
      refine ⟨⟨?_, fun fuel K hfuel hK => ?_⟩, fun K hK => .inr ⟨rfl, by rw [h]; decide⟩⟩
      · simpa only [List.append_assoc] using hrest.settled
      · simp only [kept_append, kept_unmarked, List.length_append, List.length_cons, List.length_nil]
          at hfuel ⊢
        obtain ⟨fuel, rfl⟩ : ∃ k, fuel = k + 1 := ⟨fuel - 1, by omega⟩
        rw [detaches_unmarked_append, detaches_unmarked_append]
        refine Fate.check_pos h (Fate.accepts_bind Accepts.advance (Fate.accepts_bind (hc _) ?_))
        refine fate_body_rest (fun _ _ _ _ h => ?_) hbody hrest (by omega) hK
        exact (Otherwise.elseIf.inj h).2
    next helseIf =>
      apply Tracks.test (run_check _ s)
      split
      next h =>
        rw [decide_eq_true_eq] at h
        refine Tracks.bind_yields (Yields.advance h (by decide)) ?_
        rintro _ _ s₁ ⟨rfl, rfl⟩
        have hopen : AwaitsBody (before ++ unmarked [next s.rest]) :=
          awaitsBody_concat.2 ⟨rfl, .inl h⟩
        have hcompared : ¬EndsCompared (before ++ unmarked [next s.rest]) := fun hc =>
          nomatch h.symm.trans (endsCompared_concat.1 hc).2.1
        refine (blockUpTo_traced fuel s₁ _ hopen hcompared).andReturn ?_
        intro body ms s₂ hbody
        refine ⟨⟨?_, fun fuel K hfuel hK => ?_⟩, fun K hK => .inr ⟨rfl, by rw [h]; decide⟩⟩
        · simpa only [List.append_assoc] using hbody.settled
        · simp only [kept_append, kept_unmarked, List.length_append, List.length_cons,
            List.length_nil] at hfuel ⊢
          obtain ⟨fuel, rfl⟩ : ∃ k, fuel = k + 1 := ⟨fuel - 1, by omega⟩
          rw [detaches_unmarked_append]
          have hnext : (next ([next s.rest] ++ kept ms ++ K)).kind ≠ .keyword .elseIf := by
            show (next s.rest).kind ≠ _
            rw [h]
            nofun
          refine Fate.check_neg hnext (Fate.check_pos h (Fate.accepts_bind Accepts.advance ?_))
          exact (hbody.fate fuel K (by omega) hK).andReturn fun _ h => Otherwise.last.inj h
      next helse =>
        rw [decide_eq_true_eq] at helseIf helse
        refine Tracks.pure ⟨⟨?_, fun fuel K hfuel hK => ?_⟩, fun K hK => hK⟩
        · rwa [List.append_nil]
        · obtain ⟨fuel, rfl⟩ : ∃ k, fuel = k + 1 := ⟨fuel - 1, by omega⟩
          refine .of_accepts ?_ id
          exact Accepts.check_neg (hK.kind_ne_of_ne helseIf (by decide))
            (Accepts.check_neg (hK.kind_ne_of_ne helse (by decide)) Accepts.pure)

theorem loopUpTo_traced : ∀ (fuel : Nat) (s : State) (before : Marked), ¬EndsCompared before →
    Tracks (loopUpTo .permissive fuel) s fun a ms s' =>
      Begins (.keyword .whileStart) ms ∧ Traced before (loopUpTo .strict) 0 a ms s'
  | 0, _, _, _ => .fail _
  | fuel + 1, s, before, hbefore => by
    refine Tracks.bind_yields (Yields.expect (by decide)) ?_
    rintro _ _ s₁ ⟨start, rfl, rfl⟩
    refine Tracks.bind_yields (condition_yields s₁) ?_
    rintro c _ s₂ ⟨left, sign, right, rfl, -, hsign, hright, hc⟩
    refine Tracks.bind_yields (Yields.optional (by decide)) ?_
    rintro _ _ s₃ ⟨marker, rfl, rfl⟩
    obtain ⟨hopen, hcompared⟩ := awaitsBody_marker marker
      (awaitsBody_compared (before ++ unmarked [start.val]) hsign)
      (not_endsCompared_inert (before ++ unmarked [start.val]) [left, sign] hright)
    refine (blockUpTo_traced fuel s₃ _ hopen hcompared).andReturn ?_
    intro body ms s₄ hbody
    refine ⟨⟨start.val, _, rfl, start.2⟩, ?_, fun fuel K hfuel hK => ?_⟩
    · simpa only [List.append_assoc] using hbody.settled
    · simp only [kept_append, kept_unmarked, List.length_append, List.length_cons, List.length_nil]
        at hfuel ⊢
      obtain ⟨fuel, rfl⟩ : ∃ k, fuel = k + 1 := ⟨fuel - 1, by omega⟩
      rw [detaches_unmarked_append, detaches_unmarked_append, detaches_unmarked_append]
      refine Fate.accepts_bind (Accepts.expect start) (Fate.accepts_bind (hc _) ?_)
      refine Fate.accepts_bind (Accepts.optional marker (hbody.kind_ne K hK)) ?_
      exact (hbody.fate fuel K (by omega) hK).andReturn fun _ h => (Statement.loop.inj h).2

theorem blockUpTo_traced : ∀ (fuel : Nat) (s : State) (before : Marked), AwaitsBody before →
    ¬EndsCompared before → Tracks (blockUpTo .permissive fuel) s (TracedBody before)
  | 0, _, _, _, _ => .fail _
  | fuel + 1, s, before, hopen, hbefore => by
    apply Tracks.test (run_check _ s)
    split
    next h =>
      rw [decide_eq_true_eq] at h
      refine Tracks.bind_yields (Yields.advance h (by decide)) ?_
      rintro _ _ s₁ ⟨rfl, rfl⟩
      have hsettled : Settled (before ++ unmarked [next s.rest]) := (Inert.of_kind h).settled hbefore
      intro body s₂ hrun
      obtain ⟨ms, htakes, -, hbraced⟩ := bracedUpTo_traced fuel s₁ _ hsettled body s₂ hrun
      refine ⟨ms, htakes, ⟨?_, fun fuel K hfuel hK => ?_⟩, fun K hK => ?_⟩
      · simpa only [List.append_assoc] using hbraced.settled
      · simp only [kept_append, kept_unmarked, List.length_append, List.length_cons,
          List.length_nil] at hfuel ⊢
        obtain ⟨fuel, rfl⟩ : ∃ k, fuel = k + 1 := ⟨fuel - 1, by omega⟩
        rw [detaches_unmarked_append]
        refine Fate.check_pos h (Fate.accepts_bind Accepts.advance ?_)
        exact hbraced.fate fuel K (by omega) hK
      · show (next s.rest).kind ≠ _
        rw [h]
        nofun
    next =>
      refine (statementUpTo_treated fuel s before hbefore).andReturn ?_
      rintro (_ | st) ms s' hst
      · obtain ⟨t, rfl⟩ := hst
        refine ⟨⟨settled_concat_true before t, fun fuel K _ hK => ?_⟩,
          fun K hK => hK.kind_ne (by decide)⟩
        refine ⟨fun hlost => absurd (.inl ⟨rfl, hopen⟩) hlost, fun _ n skipped s'' hrun => ?_⟩
        exact run_blockUpTo_ne_nil fuel _ s'' (hK.kind_ne (by decide)) hrun
      · obtain ⟨hstarts, hst⟩ := hst
        refine ⟨⟨hst.settled, fun fuel K hfuel hK => ?_⟩, fun K hK h => ?_⟩
        · obtain ⟨fuel, rfl⟩ : ∃ k, fuel = k + 1 := ⟨fuel - 1, by omega⟩
          refine Fate.check_neg (fun h => ?_) ?_
          · exact absurd (h ▸ hstarts.kind_next_mem K) (by decide)
          · refine (hst.fate fuel K (by omega) hK).andReturn fun a h => ?_
            cases a with
            | none => cases h
            | some st' => exact congrArg some (List.cons.inj h).1
        · exact absurd (h ▸ hstarts.kind_next_mem K) (by decide)

theorem bracedUpTo_traced : ∀ (fuel : Nat) (s : State) (before : Marked), Settled before →
    Tracks (bracedUpTo .permissive fuel) s fun a ms s' =>
      Led ms ∧ Traced before (bracedUpTo .strict) 1 a ms s'
  | 0, _, _, _ => .fail _
  | fuel + 1, s, before, hbefore => by
    apply Tracks.test (run_check _ s)
    split
    next h =>
      rw [decide_eq_true_eq] at h
      refine Tracks.bind_yields (Yields.advance h (by decide)) ?_
      rintro _ _ s₁ ⟨rfl, rfl⟩
      refine Tracks.pure ⟨⟨next s.rest, [], rfl, by rw [h]; decide⟩, ?_, fun fuel K hfuel hK => ?_⟩
      · exact (Inert.of_kind h).settled hbefore.not_endsCompared
      · obtain ⟨fuel, rfl⟩ : ∃ k, fuel = k + 1 := ⟨fuel - 1, by omega⟩
        refine .of_accepts ?_ (not_detaches_unmarked before [next s.rest])
        exact Accepts.check_pos h (Accepts.advance.cons Accepts.pure)
    next =>
      apply Tracks.test (run_atEnd s)
      split
      next => exact .fail _
      next =>
        refine (statementUpTo_treated fuel s before hbefore.not_endsCompared).bind ?_
        rintro (_ | st) ms s₁ - hst
        · obtain ⟨t, rfl⟩ := hst
          refine (bracedUpTo_traced fuel s₁ _ (settled_concat_true before t)).andReturn ?_
          rintro ss ms' s₂ ⟨hled, hss⟩
          refine ⟨hled, ?_, fun fuel K hfuel hK => ?_⟩
          · simpa only [List.append_assoc] using hss.settled
          · have h := hss.fate fuel K hfuel hK
            rwa [← detaches_cons_true hbefore.not_awaitsBody] at h
        · obtain ⟨hstarts, hst⟩ := hst
          refine (bracedUpTo_traced fuel s₁ _ hst.settled).andReturn ?_
          rintro ss ms' s₂ ⟨hled, hss⟩
          refine ⟨hstarts.led_append ms', ?_, fun fuel K hfuel hK => ?_⟩
          · simpa only [List.append_assoc] using hss.settled
          · rw [kept_append, List.length_append] at hfuel
            rw [kept_append, detaches_append]
            have hpos := List.length_pos_iff.2 hstarts.kept_ne_nil
            have hlast := List.length_pos_iff.2 hled.kept_ne_nil
            obtain ⟨fuel, rfl⟩ : ∃ k, fuel = k + 1 := ⟨fuel - 1, by omega⟩
            have hnext {kind : Token.Kind} (hkind : kind ∉ Stmt.startKinds) :
                (next (kept ms ++ kept ms' ++ K)).kind ≠ kind := by
              rw [List.append_assoc]
              exact fun h => hkind (h ▸ hstarts.kind_next_mem _)
            refine Fate.check_neg (hnext (by decide)) (Fate.atEnd_neg (hnext (by decide)) ?_)
            refine (hst.fate fuel _ (by omega) (hled.behind _ K)).bind
              ((hss.fate fuel K (by omega) hK).andReturn fun _ h => (List.cons.inj h).2) ?_
            exact fun _ _ _ _ hfirst hrun => eq_of_run_cons hfirst hrun

end

/-! ## Programs -/

/-- With fuel for what its text needs a statement meets its fate with the fuel that the parser has. -/
theorem Fate.statement {text K : List Token} {a : Option Statement} {lost : Prop}
    (h : ∀ fuel, 3 * text.length + 1 ≤ fuel → Fate lost (statementUpTo .strict fuel) text a K) :
    Fate lost (statement .strict) text a K := by
  refine .of_state fun n skipped => h _ ?_
  simp only [State.fuel, List.length_append]
  omega

/-- The statements of a program are traced, up to the end of the input. -/
structure TracedProgram (before : Marked) (ss : List Statement) (ms : Marked) (s' : State) : Prop where
  ended : (next s'.rest).kind = .eof
  led : kept ms = [] ∨ Led ms
  fate : ∀ fuel, (kept ms).length < fuel →
    Fate (Detaches before ms) (statementsUpTo .strict fuel) (kept ms) ss s'.rest

theorem TracedProgram.behind {before : Marked} {ss : List Statement} {ms : Marked} {s' : State}
    (h : TracedProgram before ss ms s') (r : List Token) : Behind r (kept ms ++ s'.rest) := by
  rcases h.led with hnil | hled
  · refine .inl ?_
    rw [hnil, List.nil_append, h.ended]
    decide
  · exact hled.behind r s'.rest

theorem statementsUpTo_traced : ∀ (fuel : Nat) (s : State) (before : Marked), s.rest.length < fuel →
    Settled before → Tracks (statementsUpTo .permissive fuel) s (TracedProgram before)
  | 0, _, _, hlength, _ => absurd hlength (Nat.not_lt_zero _)
  | fuel + 1, s, before, hlength, hbefore => by
    apply Tracks.test (run_atEnd s)
    split
    next h =>
      rw [decide_eq_true_eq] at h
      refine Tracks.pure ⟨h, .inl rfl, fun fuel hfuel => ?_⟩
      obtain ⟨fuel, rfl⟩ : ∃ k, fuel = k + 1 := ⟨fuel - 1, by omega⟩
      refine .of_accepts (Accepts.test (a := true) (fun s' hs => ?_) Accepts.pure) id
      have hend : (next (kept [] ++ s.rest)).kind = .eof := h
      rw [run_atEnd, hs, decide_eq_true hend]
    next =>
      have hfirst : Tracks (statement .permissive) s (Treated before) :=
        .test (run_get s) (statementUpTo_treated s.fuel s before hbefore.not_endsCompared)
      refine hfirst.bind ?_
      rintro (_ | st) ms s₁ htakes hst
      · obtain ⟨t, rfl⟩ := hst
        have hlength₁ := htakes.length_lt (List.cons_ne_nil _ _)
        refine (statementsUpTo_traced fuel s₁ _ (by omega) (settled_concat_true before t)).andReturn ?_
        intro ss ms' s₂ hss
        refine ⟨hss.ended, hss.led, fun fuel hfuel => ?_⟩
        have h := hss.fate fuel hfuel
        rwa [← detaches_cons_true hbefore.not_awaitsBody] at h
      · obtain ⟨hstarts, hst⟩ := hst
        have hpos := List.length_pos_iff.2 hstarts.kept_ne_nil
        have hlength₁ := htakes.length_lt hstarts.ne_nil
        refine (statementsUpTo_traced fuel s₁ _ (by omega) hst.settled).andReturn ?_
        intro ss ms' s₂ hss
        refine ⟨hss.ended, .inr (hstarts.led_append ms'), fun fuel hfuel => ?_⟩
        rw [kept_append, List.length_append] at hfuel
        rw [kept_append, detaches_append]
        obtain ⟨fuel, rfl⟩ : ∃ k, fuel = k + 1 := ⟨fuel - 1, by omega⟩
        have hnext : (next (kept ms ++ kept ms' ++ s₂.rest)).kind ≠ .eof := by
          rw [List.append_assoc]
          exact fun h => absurd (h ▸ hstarts.kind_next_mem _) (by decide)
        refine Fate.atEnd_neg hnext ?_
        refine (Fate.statement fun n hn => hst.fate n _ hn (hss.behind _)).bind
          ((hss.fate fuel (by omega)).andReturn fun _ h => (List.cons.inj h).2) ?_
        intro s₀ a' s₃ s₄ hrun hmore
        exact eq_of_run_cons (hrun : (statementUpTo .strict s₀.fuel).run s₀ = _) hmore

theorem le_of_mem_passedFrom {n i : Nat} {ms : Marked} (h : i ∈ (passedFrom n ms).map Prod.fst) :
    n ≤ i := by
  induction ms generalizing n with
  | nil => cases h
  | cons m ms ih =>
    obtain ⟨t, mark⟩ := m
    cases mark with
    | false => exact Nat.le_of_succ_le (ih h)
    | true =>
      rcases List.mem_cons.1 h with rfl | hmore
      · exact Nat.le_refl _
      · exact Nat.le_of_succ_le (ih hmore)

/-- The token at an index is passed over if it has a mark. -/
theorem mem_passedFrom {n i : Nat} {ms : Marked} :
    n + i ∈ (passedFrom n ms).map Prod.fst ↔ ms[i]?.map Prod.snd = some true := by
  induction ms generalizing n i with
  | nil => simp only [passedFrom, List.map_nil, List.not_mem_nil, List.getElem?_nil, Option.map_none,
      reduceCtorEq]
  | cons m ms ih =>
    obtain ⟨t, mark⟩ := m
    have hfirst : n ∉ (passedFrom (n + 1) ms).map Prod.fst := fun h =>
      absurd (le_of_mem_passedFrom h) (Nat.not_succ_le_self n)
    cases i with
    | zero =>
      cases mark with
      | false => simpa [passedFrom] using hfirst
      | true => simp [passedFrom]
    | succ i =>
      rw [List.getElem?_cons_succ, ← ih (n := n + 1), Nat.add_right_comm, Nat.add_assoc]
      cases mark with
      | false => rfl
      | true =>
        rw [passedFrom, if_pos rfl, List.map_cons, List.mem_cons]
        exact or_iff_right (by omega)

/-- The marks that a run has put on its tokens are those of the tokens that it has passed over. -/
theorem marked_append (ms : Marked) (rest : List Token) :
    marked (ms.map Prod.fst ++ rest) (passedFrom 0 ms) = ms ++ unmarked rest := by
  have hmark (i : Nat) : i ∈ (passedFrom 0 ms).map Prod.fst ↔ ms[i]?.map Prod.snd = some true := by
    rw [← mem_passedFrom (n := 0), Nat.zero_add]
  refine List.ext_getElem? fun i => ?_
  simp only [marked, List.getElem?_mapIdx, hmark]
  rcases Nat.lt_or_ge i ms.length with hi | hi
  · rw [List.getElem?_append_left (by rwa [List.length_map]), List.getElem?_append_left hi,
      List.getElem?_map, List.getElem?_eq_getElem hi]
    simp
  · rw [List.getElem?_append_right (by rwa [List.length_map]), List.getElem?_append_right hi,
      List.length_map, List.getElem?_eq_none hi, unmarked, List.getElem?_map]
    simp

/-- What a run of the permissive parser has passed over, and the strict run on the rest. -/
theorem exists_traced_of_parse {tokens : List Token} {p : Program}
    (h : parse .permissive tokens = .ok p) :
    ∃ ms rest, marked tokens (passedOver tokens) = ms ++ unmarked rest ∧
      Fate (Detaches [] ms) (program .strict) (kept ms) p rest := by
  cases hrun : (program .permissive).run (.start tokens) with
  | error failure s' =>
    rw [parse, hrun] at h
    cases h
  | ok p' s' =>
    rw [parse, hrun] at h
    cases h
    have htracks := statementsUpTo_traced (tokens.length + 1) (.start tokens) [] (Nat.lt_succ_self _)
      settled_nil
    obtain ⟨ss, s₁, hss, hreturn⟩ := exists_of_run_bind (p := statementsUpTo .permissive _) hrun
    cases hreturn
    obtain ⟨ms, htakes, htraced⟩ := htracks ss s' hss
    have hrest : tokens = ms.map Prod.fst ++ s'.rest := htakes.rest_eq
    have hskipped : passedOver tokens = passedFrom 0 ms := by
      rw [passedOver, hrun]
      exact htakes.skipped_eq
    refine ⟨ms, s'.rest, ?_, ?_⟩
    · rw [hskipped, hrest, marked_append]
    · refine .of_state fun n skipped => (htraced.fate _ ?_).andReturn fun _ h => ?_
      · simp only [List.length_append]
        omega
      · exact Program.statements.inj h

end Parser

open Boli.Parser (passedOver kept marked AwaitsBody)

/-- For tokens that the permissive parser accepts: without those that it passes over, the strict
parser has the same program for them if and only if none of them stood where a body had to begin. -/
theorem parse_strict_kept_iff {tokens : List Token} {p : Program}
    (h : parse .permissive tokens = .ok p) :
    parse .strict (kept (marked tokens (passedOver tokens))) = .ok p ↔
      ∀ before t after, marked tokens (passedOver tokens) = before ++ (t, true) :: after →
        ¬AwaitsBody before := by
  obtain ⟨ms, rest, hmarked, hfate⟩ := Parser.exists_traced_of_parse h
  have hdetaches : Parser.Detaches [] (ms ++ Parser.unmarked rest) ↔ Parser.Detaches [] ms := by
    rw [Parser.detaches_append, or_iff_left (Parser.not_detaches_unmarked _ rest)]
  have hnone : (∀ before t after, marked tokens (passedOver tokens) = before ++ (t, true) :: after →
      ¬AwaitsBody before) ↔ ¬Parser.Detaches [] ms := by
    rw [← hdetaches, ← hmarked, Parser.detaches_iff]
    simp only [List.nil_append, not_exists, not_and]
  rw [hnone, hmarked, Parser.kept_append, Parser.kept_unmarked]
  constructor
  · intro hparse hlost
    cases hrun : (Parser.program .strict).run (.start (kept ms ++ rest)) with
    | error failure s' =>
      rw [parse, hrun] at hparse
      cases hparse
    | ok p' s' =>
      rw [parse, hrun] at hparse
      cases hparse
      exact hfate.misses hlost 0 [] s' hrun
  · intro hlost
    have hrun := hfate.accepts hlost 0 []
    rw [parse, Parser.State.start, hrun]

/-- Braces and signs that begin no statement, around a branch and inside its body, and an ELSE that a
sign parts from the branch. -/
def strayTokens : List Token :=
  [{ kind := .closeBrace, value := "\x7d" },
    { kind := .keyword .ifStart, value := "agar" }, { kind := .identifier, value := "x" },
    { kind := .operator, value := "<" }, { kind := .number, value := "6" },
    { kind := .openBrace, value := "\x7b" }, { kind := .operator, value := "+" },
    { kind := .keyword .print, value := "bol" }, { kind := .identifier, value := "x" },
    { kind := .closeBrace, value := "\x7d" },
    { kind := .operator, value := "*=" }, { kind := .keyword .elseStart, value := "varna" },
    { kind := .keyword .print, value := "bol" }, { kind := .number, value := "6" }]

/-- None of them stood where a body had to begin. -/
theorem parse_strict_kept_strayTokens :
    parse .permissive strayTokens =
      .ok (.statements [.branch (.compare (.identifier "x") "<" (.number 6))
        [.print (.identifier "x")] .nothing, .print (.number 6)]) ∧
    (passedOver strayTokens).map Prod.fst = [0, 6, 10, 11] ∧
    ∀ before t after, marked strayTokens (passedOver strayTokens) = before ++ (t, true) :: after →
      ¬AwaitsBody before := by
  have hparse : parse .permissive strayTokens =
      .ok (.statements [.branch (.compare (.identifier "x") "<" (.number 6))
        [.print (.identifier "x")] .nothing, .print (.number 6)]) := by rfl
  exact ⟨hparse, by rfl, (parse_strict_kept_iff hparse).1 (by rfl)⟩

/-- A sign between a condition and its body, which is a print statement. -/
def detachedPrint : List Token :=
  [{ kind := .keyword .ifStart, value := "agar" }, { kind := .number, value := "1" },
    { kind := .operator, value := "==" }, { kind := .number, value := "1" },
    { kind := .operator, value := "+" },
    { kind := .keyword .print, value := "bol" }, { kind := .number, value := "1" }]

/-- In place of the sign the permissive parser has an empty body, and the print statement stands
behind the branch; without the sign the print statement is the body. -/
theorem not_parse_strict_kept :
    parse .permissive detachedPrint =
      .ok (.statements [.branch (.compare (.number 1) "==" (.number 1)) [] .nothing,
        .print (.number 1)]) ∧
    passedOver detachedPrint = [(4, { kind := .operator, value := "+" })] ∧
    parse .strict (kept (marked detachedPrint (passedOver detachedPrint))) =
      .ok (.statements [.branch (.compare (.number 1) "==" (.number 1)) [.print (.number 1)]
        .nothing]) ∧
    ¬∀ tokens p, parse .permissive tokens = .ok p →
      parse .strict (kept (marked tokens (passedOver tokens))) = .ok p := by
  have hparse : parse .permissive detachedPrint =
      .ok (.statements [.branch (.compare (.number 1) "==" (.number 1)) [] .nothing,
        .print (.number 1)]) := by rfl
  have hkept : parse .strict (kept (marked detachedPrint (passedOver detachedPrint))) =
      .ok (.statements [.branch (.compare (.number 1) "==" (.number 1)) [.print (.number 1)]
        .nothing]) := by rfl
  refine ⟨hparse, by rfl, hkept, fun hall => ?_⟩
  cases hkept.symm.trans (hall _ _ hparse)

end Boli
