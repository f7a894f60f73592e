import Boli.Proofs.Parsing.Modes

/-!
# What passing over a token takes away

Deleting the tokens that a permissive run has passed over leaves a sequence that the strict parser
reads as the same program, unless one of them stood where a body had to begin: then the body is
empty in the program, and no sequence that the strict parser accepts has an empty body without
braces (`parse_strict_kept_iff`).

Whether a token stood there can be told from the tokens before it (`AwaitsBody`). A permissive run of
each function of the parser is compared with a strict run of the same function on the tokens that
were kept (`Fate`). What stands behind them need not be what the permissive run has seen there, since
that may have been passed over later; it is enough that it does not continue the statement
(`Behind`).
-/

set_option autoImplicit false

namespace Boli.Parser

open Grammar (next Terminal Sign Stmt)

variable {α β : Type} {s s' : State}

/-! ## Tokens with marks -/

/-- Tokens, with a mark on those that are passed over. -/
abbrev Marked : Type := List (Token × Bool)

/-- The tokens without a mark. -/
def kept (ms : Marked) : List Token := (ms.filter fun m => !m.2).map Prod.fst

/-- These tokens, none of which is passed over. -/
def unmarked (tokens : List Token) : Marked := tokens.map fun t => (t, false)

/-- Tokens with a mark on those that stand at the given indices. -/
def marked (tokens : List Token) (skipped : List (Nat × Token)) : Marked :=
  tokens.mapIdx fun i t => (t, decide (i ∈ skipped.map Prod.fst))

@[simp] theorem kept_nil : kept [] = [] := rfl

@[simp] theorem kept_append (ms ms' : Marked) : kept (ms ++ ms') = kept ms ++ kept ms' := by
  simp only [kept, List.filter_append, List.map_append]

@[simp] theorem kept_cons_true (t : Token) (ms : Marked) : kept ((t, true) :: ms) = kept ms := rfl

@[simp] theorem kept_cons_false (t : Token) (ms : Marked) :
    kept ((t, false) :: ms) = t :: kept ms := rfl

@[simp] theorem kept_unmarked (tokens : List Token) : kept (unmarked tokens) = tokens := by
  induction tokens with
  | nil => rfl
  | cons t ts ih => exact congrArg (t :: ·) ih

/-! ## Where a body has to begin -/

/-- An operator of conditions. -/
def IsComparison (t : Token) : Prop := t.kind = .operator ∧ t.value ∈ comparisonOperators

instance (t : Token) : Decidable (IsComparison t) :=
  inferInstanceAs (Decidable (_ ∧ _))

/-- These tokens end with a comparison that was kept. -/
def EndsCompared (ms : Marked) : Prop := ∃ before t, ms = before ++ [(t, false)] ∧ IsComparison t

/-- Behind these tokens a body has to begin: of those that were kept, the last is an ELSE or the
marker of a loop, or it is the right side of a comparison. -/
def AwaitsBody (ms : Marked) : Prop :=
  ∃ before t, ms = before ++ [(t, false)] ∧
    (t.kind = .keyword .elseStart ∨ t.kind = .keyword .loopStart ∨ EndsCompared before)

theorem endsCompared_concat {ms : Marked} {t : Token} {mark : Bool} :
    EndsCompared (ms ++ [(t, mark)]) ↔ mark = false ∧ IsComparison t := by
  simp only [EndsCompared, List.append_singleton_inj, Prod.mk.injEq]
  constructor
  · rintro ⟨before, u, ⟨-, rfl, hmark⟩, hu⟩
    exact ⟨hmark, hu⟩
  · rintro ⟨hmark, ht⟩
    exact ⟨ms, t, ⟨rfl, rfl, hmark⟩, ht⟩

theorem awaitsBody_concat {ms : Marked} {t : Token} {mark : Bool} :
    AwaitsBody (ms ++ [(t, mark)]) ↔ mark = false ∧
      (t.kind = .keyword .elseStart ∨ t.kind = .keyword .loopStart ∨ EndsCompared ms) := by
  simp only [AwaitsBody, List.append_singleton_inj, Prod.mk.injEq]
  constructor
  · rintro ⟨before, u, ⟨rfl, rfl, hmark⟩, hu⟩
    exact ⟨hmark, hu⟩
  · rintro ⟨hmark, ht⟩
    exact ⟨ms, t, ⟨rfl, rfl, hmark⟩, ht⟩

/-- Behind these tokens neither a body nor the right side of a comparison has to begin. -/
structure Settled (ms : Marked) : Prop where
  not_awaitsBody : ¬AwaitsBody ms
  not_endsCompared : ¬EndsCompared ms

theorem settled_nil : Settled [] := by
  constructor
  · rintro ⟨before, t, h, -⟩
    exact List.concat_ne_nil _ _ h.symm
  · rintro ⟨before, t, h, -⟩
    exact List.concat_ne_nil _ _ h.symm

/-- A token that is passed over settles everything. -/
theorem settled_concat_true (ms : Marked) (t : Token) : Settled (ms ++ [(t, true)]) :=
  ⟨fun h => Bool.noConfusion (awaitsBody_concat.1 h).1,
    fun h => Bool.noConfusion (endsCompared_concat.1 h).1⟩

/-- A token behind which no body begins. -/
structure Inert (t : Token) : Prop where
  ne_elseStart : t.kind ≠ .keyword .elseStart
  ne_loopStart : t.kind ≠ .keyword .loopStart
  not_isComparison : ¬IsComparison t

/-- A token of a kind that is no ELSE, no marker and no operator. -/
theorem Inert.of_kind {t : Token} {kind : Token.Kind} (h : t.kind = kind)
    (hkind : kind ∉ [.keyword .elseStart, .keyword .loopStart, .operator] := by decide) :
    Inert t := by
  simp only [List.mem_cons, List.not_mem_nil, or_false, not_or] at hkind
  exact ⟨h ▸ hkind.1, h ▸ hkind.2.1, fun hcompare => hkind.2.2 (h ▸ hcompare.1)⟩

/-- An operator of another sort. -/
theorem Inert.of_operator {t : Token} (h : t.kind = .operator) (hvalue : t.value ∉ comparisonOperators) :
    Inert t :=
  ⟨by rw [h]; nofun, by rw [h]; nofun, fun hcompare => hvalue hcompare.2⟩

theorem Inert.settled {t : Token} (ht : Inert t) {ms : Marked} (h : ¬EndsCompared ms) :
    Settled (ms ++ [(t, false)]) := by
  refine ⟨fun hbody => ?_, fun hcompared => ht.not_isComparison (endsCompared_concat.1 hcompared).2⟩
  rcases (awaitsBody_concat.1 hbody).2 with helse | hloop | hcompared
  · exact ht.ne_elseStart helse
  · exact ht.ne_loopStart hloop
  · exact h hcompared

/-- Inert tokens settle everything, if there is one. -/
theorem settled_of_inert {text : List Token} (hne : text ≠ []) (ht : ∀ t ∈ text, Inert t)
    {ms : Marked} (h : ¬EndsCompared ms) : Settled (ms ++ unmarked text) := by
  induction text generalizing ms with
  | nil => exact absurd rfl hne
  | cons t text ih =>
    have hfirst : Settled (ms ++ [(t, false)]) := (ht t List.mem_cons_self).settled h
    cases text with
    | nil => exact hfirst
    | cons u text =>
      have hrest := ih (List.cons_ne_nil _ _) (fun v hv => ht v (List.mem_cons_of_mem _ hv))
        hfirst.not_endsCompared
      rwa [List.append_assoc] at hrest

/-- One of these tokens is passed over where a body has to begin; `before` are those in front. -/
def Detaches (before : Marked) : Marked → Prop
  | [] => False
  | (t, mark) :: ms => mark = true ∧ AwaitsBody before ∨ Detaches (before ++ [(t, mark)]) ms

theorem detaches_append (before ms ms' : Marked) :
    Detaches before (ms ++ ms') ↔ Detaches before ms ∨ Detaches (before ++ ms) ms' := by
  induction ms generalizing before with
  | nil => simp only [List.nil_append, Detaches, false_or, List.append_nil]
  | cons m ms ih =>
    simp only [List.cons_append, Detaches, ih, or_assoc, List.append_assoc, List.nil_append]

@[simp] theorem not_detaches_unmarked (before : Marked) (text : List Token) :
    ¬Detaches before (unmarked text) := by
  induction text generalizing before with
  | nil => exact id
  | cons t text ih =>
    rintro (⟨hmark, -⟩ | hrest)
    · exact nomatch hmark
    · exact ih _ hrest

theorem detaches_unmarked_append (before : Marked) (text : List Token) (ms : Marked) :
    Detaches before (unmarked text ++ ms) ↔ Detaches (before ++ unmarked text) ms := by
  rw [detaches_append, or_iff_right (not_detaches_unmarked before text)]

theorem detaches_cons_true {before : Marked} (h : ¬AwaitsBody before) {t : Token} {ms : Marked} :
    Detaches before ((t, true) :: ms) ↔ Detaches (before ++ [(t, true)]) ms :=
  or_iff_right fun hfirst => h hfirst.2

/-- Some token is passed over behind tokens with which a body has to begin. -/
theorem detaches_iff {before ms : Marked} :
    Detaches before ms ↔
      ∃ front t rest, ms = front ++ (t, true) :: rest ∧ AwaitsBody (before ++ front) := by
  induction ms generalizing before with
  | nil =>
    refine ⟨False.elim, ?_⟩
    rintro ⟨front, t, rest, h, -⟩
    exact List.append_ne_nil_of_right_ne_nil front (List.cons_ne_nil _ _) h.symm
  | cons m ms ih =>
    rw [Detaches, ih]
    constructor
    · rintro (⟨hmark, hbody⟩ | ⟨front, t, rest, rfl, hbody⟩)
      · exact ⟨[], m.1, ms, by rw [← hmark]; rfl, by rwa [List.append_nil]⟩
      · exact ⟨m :: front, t, rest, rfl, by rwa [List.append_assoc] at hbody⟩
    · rintro ⟨_ | ⟨m', front⟩, t, rest, h, hbody⟩
      · obtain ⟨rfl, -⟩ := List.cons.inj h
        exact .inl ⟨rfl, by rwa [List.append_nil] at hbody⟩
      · obtain ⟨rfl, rfl⟩ := List.cons.inj h
        exact .inr ⟨front, t, rest, rfl, by rwa [List.append_assoc]⟩

/-! ## What a run takes -/

/-- The tokens with a mark, by index, the first one standing at index `n`. -/
def passedFrom (n : Nat) : Marked → List (Nat × Token)
  | [] => []
  | (t, mark) :: ms => if mark then (n, t) :: passedFrom (n + 1) ms else passedFrom (n + 1) ms

theorem passedFrom_append (n : Nat) (ms ms' : Marked) :
    passedFrom n (ms ++ ms') = passedFrom n ms ++ passedFrom (n + ms.length) ms' := by
  induction ms generalizing n with
  | nil => rfl
  | cons m ms ih =>
    obtain ⟨t, mark⟩ := m
    rw [List.cons_append, passedFrom, ih, passedFrom, List.length_cons, Nat.add_right_comm, Nat.add_assoc]
    cases mark with
    | true => rfl
    | false => rfl

@[simp] theorem passedFrom_unmarked (n : Nat) (text : List Token) :
    passedFrom n (unmarked text) = [] := by
  induction text generalizing n with
  | nil => rfl
  | cons t text ih => exact ih (n + 1)

/-- `s'` is where the parser stands when from `s` on it has taken these tokens, and passed over those
with a mark. -/
structure State.Takes (s : State) (ms : Marked) (s' : State) : Prop where
  rest_eq : s.rest = ms.map Prod.fst ++ s'.rest
  position_eq : s'.position = s.position + ms.length
  skipped_eq : s'.skipped = s.skipped ++ passedFrom s.position ms

theorem State.Takes.trans {s'' : State} {ms ms' : Marked} (h : s.Takes ms s')
    (h' : s'.Takes ms' s'') : s.Takes (ms ++ ms') s'' where
  rest_eq := by rw [h.rest_eq, h'.rest_eq, List.map_append, List.append_assoc]
  position_eq := by rw [h'.position_eq, h.position_eq, List.length_append, Nat.add_assoc]
  skipped_eq := by
    rw [h'.skipped_eq, h.skipped_eq, h.position_eq, passedFrom_append, List.append_assoc]

theorem State.Takes.length_lt {ms : Marked} (h : s.Takes ms s') (hne : ms ≠ []) :
    s'.rest.length < s.rest.length := by
  rw [h.rest_eq, List.length_append, List.length_map]
  exact Nat.lt_add_of_pos_left (List.length_pos_iff.2 hne)

theorem State.Read.takes {text : List Token} (h : s.Read text s') : s.Takes (unmarked text) s' where
  rest_eq := by
    rw [unmarked, List.map_map, show Prod.fst ∘ (fun t : Token => (t, false)) = id from rfl,
      List.map_id]
    exact h.rest_eq
  position_eq := by rw [h.position_eq, unmarked, List.length_map]
  skipped_eq := by rw [h.skipped_eq, passedFrom_unmarked, List.append_nil]

/-- A parser that has a result has taken a text and passed over nothing, and `P` holds of the result
and the text. -/
def Yields (p : Parser α) (s : State) (P : α → List Token → Prop) : Prop :=
  ∀ a s', p.run s = .ok a s' → ∃ text, s.Read text s' ∧ P a text

/-- A sequence of two parsers that has a result has one at each of them. -/
theorem exists_of_run_bind {p : Parser α} {f : α → Parser β} {b : β}
    (h : (p >>= f).run s = .ok b s') : ∃ a s₁, p.run s = .ok a s₁ ∧ (f a).run s₁ = .ok b s' := by
  rw [EStateM.run_bind] at h
  cases hp : p.run s with
  | error failure s₁ => rw [hp] at h; cases h
  | ok a s₁ => exact ⟨a, s₁, rfl, by rwa [hp] at h⟩

namespace Yields

variable {p : Parser α} {f : α → Parser β} {P : α → List Token → Prop} {Q : β → List Token → Prop}

protected theorem pure {a : α} (h : P a []) : Yields (pure a) s P := by
  intro a' s' hrun
  cases hrun
  exact ⟨[], .refl s, h⟩

protected theorem fail (expected : Expectation) : Yields (fail expected) s P := by
  intro a s' hrun
  cases hrun

protected theorem bind (hp : Yields p s P)
    (hf : ∀ a text s', P a text → Yields (f a) s' fun b more => Q b (text ++ more)) :
    Yields (p >>= f) s Q := by
  intro b s'' hrun
  obtain ⟨a, s₁, hfirst, hrun⟩ := exists_of_run_bind hrun
  obtain ⟨text, hread, ha⟩ := hp a s₁ hfirst
  obtain ⟨more, hmore, hb⟩ := hf a text s₁ ha b s'' hrun
  exact ⟨text ++ more, hread.trans hmore, hb⟩

theorem imp (hp : Yields p s P) {P' : α → List Token → Prop} (h : ∀ a text, P a text → P' a text) :
    Yields p s P' := by
  intro a s' hrun
  obtain ⟨text, hread, ha⟩ := hp a s' hrun
  exact ⟨text, hread, h a text ha⟩

theorem andReturn {g : α → β} (hp : Yields p s P) (h : ∀ a text, P a text → Q (g a) text) :
    Yields (p >>= fun a => pure (g a)) s Q := by
  refine hp.bind fun a text s' ha => .pure ?_
  rw [List.append_nil]
  exact h a text ha

/-- A test looks at the next token and decides how it goes on. -/
theorem test {a : α} (h : p.run s = .ok a s) (hf : Yields (f a) s Q) : Yields (p >>= f) s Q := by
  intro b s' hrun
  rw [EStateM.run_bind, h] at hrun
  exact hf b s' hrun

/-- The token that stands next is taken, unless nothing is left. -/
protected theorem advance {kind : Token.Kind} (h : (next s.rest).kind = kind) (hkind : kind ≠ .eof) :
    Yields advance s fun t text => t = next s.rest ∧ text = [t] := by
  obtain ⟨_ | ⟨t, ts⟩, n, skipped⟩ := s
  · exact absurd h.symm hkind
  · intro u s' hrun
    cases hrun
    exact ⟨[t], ⟨rfl, rfl, rfl⟩, rfl, rfl⟩

protected theorem expect {kind : Token.Kind} (hkind : kind ≠ .eof) :
    Yields (expect kind) s fun t text => ∃ u : Terminal kind, t = u.val ∧ text = [u.val] := by
  apply test (run_check kind s)
  split
  next h =>
    have hnext := of_decide_eq_true h
    refine (Yields.advance hnext hkind).imp ?_
    rintro t text ⟨rfl, rfl⟩
    exact ⟨⟨_, hnext⟩, rfl, rfl⟩
  next => exact .fail _

protected theorem expectValue (value : String) :
    Yields (expectValue .operator value) s fun t text =>
      ∃ u : Sign [value], t = u.val ∧ text = [u.val] := by
  apply test (run_checkValue .operator value s)
  split
  next h =>
    rw [Bool.and_eq_true, decide_eq_true_eq, decide_eq_true_eq] at h
    refine (Yields.advance h.1 (by decide)).imp ?_
    rintro t text ⟨rfl, rfl⟩
    exact ⟨⟨_, h.1, List.mem_singleton.2 h.2⟩, rfl, rfl⟩
  next => exact .fail _

protected theorem optional {kind : Token.Kind} (hkind : kind ≠ .eof) :
    Yields (optional kind) s fun t text =>
      ∃ u : Option (Terminal kind), t = u.map Subtype.val ∧ text = Terminal.tokens u := by
  apply test (run_check kind s)
  split
  next h =>
    have hnext := of_decide_eq_true h
    refine (Yields.advance hnext hkind).andReturn ?_
    rintro t text ⟨rfl, rfl⟩
    exact ⟨some ⟨_, hnext⟩, rfl, rfl⟩
  next => exact .pure ⟨none, rfl, rfl⟩

end Yields

/-! ## Phrases that pass over nothing

Expressions, conditions and simple statements have no use for the mode. What they take, they take
also in front of other tokens. -/

/-- A primary is one inert token. -/
theorem primary_yields (s : State) :
    Yields primary s fun e text => ∃ t, text = [t] ∧ Inert t ∧ ∀ K, Accepts primary [t] e K := by
  refine Yields.test (run_current s) ?_
  generalize ht : next s.rest = t
  cases hkind : t.kind with
  | number =>
    intro e s' hrun
    obtain ⟨u, s₁, hadvance, hrun⟩ := exists_of_run_bind hrun
    obtain ⟨text, hread, rfl, rfl⟩ := Yields.advance (ht ▸ hkind) (by decide) u s₁ hadvance
    rw [ht] at hread
    cases hnumber : Text.Numeral.read t.value with
    | error fault =>
      rw [numberOf, hnumber] at hrun
      cases hrun
    | ok n =>
      rw [numberOf, hnumber] at hrun
      cases hrun
      refine ⟨[t], hread, t, rfl, .of_kind hkind, fun K => Accepts.current ?_⟩
      simp only [hkind, numberOf, hnumber]
      exact Accepts.advance.cons Accepts.pure
  | string =>
    refine (Yields.advance (ht ▸ hkind) (by decide)).andReturn ?_
    rintro u text ⟨rfl, rfl⟩
    rw [ht]
    refine ⟨t, rfl, .of_kind hkind, fun K => Accepts.current ?_⟩
    simp only [hkind]
    exact Accepts.advance.cons Accepts.pure
  | identifier =>
    refine (Yields.advance (ht ▸ hkind) (by decide)).andReturn ?_
    rintro u text ⟨rfl, rfl⟩
    rw [ht]
    refine ⟨t, rfl, .of_kind hkind, fun K => Accepts.current ?_⟩
    simp only [hkind]
    exact Accepts.advance.cons Accepts.pure
  | keyword k => exact .fail _
  | operator => exact .fail _
  | semicolon => exact .fail _
  | openBrace => exact .fail _
  | closeBrace => exact .fail _
  | eof => exact .fail _
  | other name => exact .fail _

/-- These inert tokens, at least one, are taken by a parser wherever `C` holds of what stands
behind. -/
structure TakesInert (C : List Token → Prop) (p : Parser α) (a : α) (text : List Token) : Prop where
  ne_nil : text ≠ []
  inert : ∀ t ∈ text, Inert t
  accepts : ∀ K, C K → Accepts p text a K

theorem not_mem_comparisonOperators_of_arithmetic {value : String} (h : value ∈ arithmeticOperators) :
    value ∉ comparisonOperators := by
  have hall : ∀ v ∈ arithmeticOperators, v ∉ comparisonOperators := by decide
  exact hall value h

theorem expression_yields (s : State) :
    Yields expression s (TakesInert (fun K => (next K).kind ≠ .operator) expression) := by
  refine (primary_yields s).bind ?_
  rintro left _ s₁ ⟨t, rfl, ht, hleft⟩
  refine Yields.test (run_current s₁) ?_
  split
  next h =>
    refine (Yields.advance h.1 (by decide)).bind ?_
    rintro _ _ s₂ ⟨rfl, rfl⟩
    refine (primary_yields s₂).andReturn ?_
    rintro right _ ⟨u, rfl, hu, hright⟩
    refine ⟨List.cons_ne_nil _ _, ?_, fun K _ => (hleft _).cons (Accepts.current ?_)⟩
    · have hsign : Inert (next s₁.rest) :=
        .of_operator h.1 (not_mem_comparisonOperators_of_arithmetic h.2)
      simp only [List.cons_append, List.nil_append, List.forall_mem_cons]
      exact ⟨ht, hsign, hu, List.forall_mem_nil _⟩
    · rw [if_pos h]
      exact Accepts.advance.cons (hright K).andReturn
  next =>
    refine Yields.pure ⟨List.cons_ne_nil _ _, ?_, fun K hK => (hleft K).cons (Accepts.current_nil ?_)⟩
    · exact fun u hu => List.mem_singleton.1 hu ▸ ht
    · rw [if_neg fun h => hK h.1]
      exact Accepts.pure

theorem condition_yields (s : State) :
    Yields condition s fun c text => ∃ left sign right, text = [left, sign, right] ∧ Inert left ∧
      IsComparison sign ∧ Inert right ∧ ∀ K, Accepts condition [left, sign, right] c K := by
  refine (primary_yields s).bind ?_
  rintro left _ s₁ ⟨t, rfl, ht, hleft⟩
  refine Yields.test (run_current s₁) ?_
  split
  next h =>
    refine (Yields.advance h.1 (by decide)).bind ?_
    rintro _ _ s₂ ⟨rfl, rfl⟩
    refine (primary_yields s₂).andReturn ?_
    rintro right _ ⟨u, rfl, hu, hright⟩
    refine ⟨t, next s₁.rest, u, rfl, ht, h, hu, fun K => (hleft _).cons (Accepts.current ?_)⟩
    rw [if_pos h]
    exact Accepts.advance.cons (hright K).andReturn
  next => exact .fail _

/-- Tokens that begin with none that continues a simple statement. -/
structure Stops (K : List Token) : Prop where
  operator : (next K).kind ≠ .operator
  semicolon : (next K).kind ≠ .semicolon

/-- Behind an expression stands a separator or what follows the statement. -/
theorem Stops.kind_next_ne_operator {K : List Token} (h : Stops K) (o : Option (Terminal .semicolon)) :
    (next (Terminal.tokens o ++ K)).kind ≠ .operator := by
  cases o with
  | none => exact h.operator
  | some t =>
    have ht : (next (Terminal.tokens (some t) ++ K)).kind = .semicolon := t.2
    rw [ht]
    nofun

/-- One more inert token in front. -/
theorem TakesInert.cons {C : List Token → Prop} {p : Parser α} {f : α → Parser β} {t : Token} {a : α}
    {b : β} {text : List Token} (ht : Inert t) (hp : ∀ K, Accepts p [t] a K)
    (hf : TakesInert C (f a) b text) : TakesInert C (p >>= f) b (t :: text) where
  ne_nil := List.cons_ne_nil t text
  inert := List.forall_mem_cons.2 ⟨ht, hf.inert⟩
  accepts K hK := (hp _).cons (hf.accepts K hK)

theorem inert_of_mem_tokens {kind : Token.Kind} {o : Option (Terminal kind)}
    (hkind : kind ∉ [.keyword .elseStart, .keyword .loopStart, .operator]) :
    ∀ t ∈ Terminal.tokens o, Inert t := by
  intro t ht
  cases o with
  | none => cases ht
  | some u => exact List.mem_singleton.1 ht ▸ .of_kind u.2 hkind

/-- An expression and its separator, at the end of a statement. -/
theorem value_yields (g : Expression → Statement) (s : State) :
    Yields (do let value ← expression; let _ ← optional .semicolon; return g value) s
      (TakesInert Stops do let value ← expression; let _ ← optional .semicolon; return g value) := by
  refine (expression_yields s).bind ?_
  intro e text s₁ he
  refine (Yields.optional (by decide)).andReturn ?_
  rintro _ _ ⟨o, rfl, rfl⟩
  refine ⟨List.append_ne_nil_of_left_ne_nil he.ne_nil _, ?_, fun K hK => ?_⟩
  · exact List.forall_mem_append.2 ⟨he.inert, inert_of_mem_tokens (by decide)⟩
  · exact (he.accepts _ (hK.kind_next_ne_operator o)).bind (Accepts.optional o hK.semicolon).andReturn

/-- A token of a kind is taken, wherever it stands. -/
theorem TakesInert.cons_expect {C : List Token → Prop} {kind : Token.Kind} {f : Token → Parser β} {b : β}
    {text : List Token} (u : Terminal kind) (hf : TakesInert C (f u.val) b text)
    (hkind : kind ∉ [.keyword .elseStart, .keyword .loopStart, .operator] := by decide) :
    TakesInert C (expect kind >>= f) b (u.val :: text) :=
  .cons (.of_kind u.2 hkind) (fun _ => Accepts.expect u) hf

theorem declaration_yields (s : State) :
    Yields declaration s (TakesInert Stops declaration) := by
  refine (Yields.expect (by decide)).bind ?_
  rintro _ _ s₁ ⟨start, rfl, rfl⟩
  refine (Yields.expect (by decide)).bind ?_
  rintro _ _ s₂ ⟨name, rfl, rfl⟩
  refine (Yields.expectValue _).bind ?_
  rintro _ _ s₃ ⟨sign, rfl, rfl⟩
  refine (value_yields (.declare name.val.value) s₃).imp fun st text hvalue => ?_
  have hsign : Inert sign.val :=
    .of_operator sign.2.1 (by rw [List.mem_singleton.1 sign.2.2]; decide)
  exact .cons_expect start (.cons_expect name (.cons hsign (fun _ => Accepts.expectValue sign) hvalue))

theorem printing_yields (s : State) : Yields printing s (TakesInert Stops printing) := by
  refine (Yields.expect (by decide)).bind ?_
  rintro _ _ s₁ ⟨start, rfl, rfl⟩
  exact (value_yields .print s₁).imp fun st text hvalue => .cons_expect start hvalue

theorem simple_yields (s : State) : Yields simple s (TakesInert Stops simple) := by
  refine (Yields.expect (by decide)).bind ?_
  rintro _ _ s₁ ⟨name, rfl, rfl⟩
  refine Yields.test (run_checkValue .operator assignOperator s₁) ?_
  split
  next h =>
    rw [Bool.and_eq_true, decide_eq_true_eq, decide_eq_true_eq] at h
    refine (Yields.advance h.1 (by decide)).bind ?_
    rintro _ _ s₂ ⟨rfl, rfl⟩
    refine (value_yields (.assign name.val.value) s₂).imp fun st text hvalue => ?_
    have hsign : Inert (next s₁.rest) := .of_operator h.1 (by rw [h.2]; decide)
    refine .cons_expect name ⟨List.cons_ne_nil _ _, ?_, fun K hK => Accepts.checkValue ?_⟩
    · exact List.forall_mem_cons.2 ⟨hsign, hvalue.inert⟩
    · simp only [h.1, h.2, decide_true, Bool.and_self, if_true]
      exact Accepts.advance.cons (hvalue.accepts K hK)
  next =>
    refine (Yields.optional (by decide)).andReturn ?_
    rintro _ _ ⟨stop, rfl, rfl⟩
    change TakesInert Stops simple _ (name.val :: Terminal.tokens stop)
    refine ⟨List.cons_ne_nil _ _, ?_, fun K hK => (Accepts.expect name).cons ?_⟩
    · exact List.forall_mem_cons.2 ⟨.of_kind name.2, inert_of_mem_tokens (by decide)⟩
    · refine Accepts.test (a := false) (fun s hs => ?_) (Accepts.optional stop hK.semicolon).andReturn
      have hnext : ¬(next s.rest).kind = .operator := by
        rw [hs]
        exact hK.kind_next_ne_operator stop
      rw [run_checkValue, decide_eq_false hnext, Bool.false_and]

end Boli.Parser
