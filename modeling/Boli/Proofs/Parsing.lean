import Boli.Proofs.Grammar.Follow

/-!
# Runs of the parser

What a run of a parser does to the tokens it is given, said in two ways.

`Reads` is about every run. A run that succeeds has taken a text off the front of the tokens, of
which something holds; one that fails has taken a text too and stands at the token it complains
about. This is how the parser is shown to accept nothing but the grammar.

`Accepts` is about a given text. The parser takes exactly that text, whatever state it starts in.
This is how the parser is shown to accept all of the grammar.

Both come with one rule for a sequence of two parsers and one law for each way to take a token, so
that the functions of the parser are followed step by step and never run by hand.
-/

set_option autoImplicit false

namespace Boli.Parser

open Grammar (next Terminal Sign)
open Text.Numeral (IsDigitRun decimal)

variable {α β : Type}

/-! ## Tests

A test looks at the next token and takes none. -/

theorem run_current (s : State) : current.run s = .ok (next s.rest) s := rfl

theorem run_check (kind : Token.Kind) (s : State) :
    (check kind).run s = .ok (decide ((next s.rest).kind = kind)) s := rfl

theorem run_checkValue (kind : Token.Kind) (value : String) (s : State) :
    (checkValue kind value).run s =
      .ok (decide ((next s.rest).kind = kind) && decide ((next s.rest).value = value)) s := rfl

theorem run_atEnd (s : State) : atEnd.run s = .ok (decide ((next s.rest).kind = .eof)) s := rfl

theorem run_get (s : State) : (get : Parser State).run s = .ok s s := rfl

/-- The next token is among the tokens, unless they are at their end. -/
theorem next_mem {tokens : List Token} (h : (next tokens).kind ≠ .eof) : next tokens ∈ tokens := by
  cases tokens with
  | nil => exact absurd rfl h
  | cons t ts => exact List.mem_cons_self

/-! ## Numbers that are read -/

/-- Every number token among these is a run of ASCII digits. -/
def Numerals (tokens : List Token) : Prop :=
  ∀ t ∈ tokens, t.kind = .number → IsDigitRun t.value

instance (tokens : List Token) : Decidable (Numerals tokens) :=
  inferInstanceAs (Decidable (∀ t ∈ tokens, t.kind = .number → IsDigitRun t.value))

@[simp] theorem numerals_append (ts us : List Token) :
    Numerals (ts ++ us) ↔ Numerals ts ∧ Numerals us := by
  simp only [Numerals, List.forall_mem_append]

@[simp] theorem numerals_cons (t : Token) (ts : List Token) :
    Numerals (t :: ts) ↔ (t.kind = .number → IsDigitRun t.value) ∧ Numerals ts := by
  simp only [Numerals, List.forall_mem_cons]

/-! ## Every run -/

/-- `s'` is where the parser stands when from `s` on it has taken a text and passed over nothing. -/
structure State.Read (s : State) (text : List Token) (s' : State) : Prop where
  rest_eq : s.rest = text ++ s'.rest
  position_eq : s'.position = s.position + text.length
  skipped_eq : s'.skipped = s.skipped

theorem State.Read.refl (s : State) : s.Read [] s := ⟨rfl, rfl, rfl⟩

theorem State.Read.trans {s s' s'' : State} {text more : List Token} (h : s.Read text s')
    (h' : s'.Read more s'') : s.Read (text ++ more) s'' where
  rest_eq := by rw [h.rest_eq, h'.rest_eq, List.append_assoc]
  position_eq := by rw [h'.position_eq, h.position_eq, List.length_append, Nat.add_assoc]
  skipped_eq := h'.skipped_eq.trans h.skipped_eq

theorem State.Read.numerals {s s' : State} {text : List Token} (h : s.Read text s')
    (hn : Numerals s.rest) : Numerals s'.rest := by
  rw [h.rest_eq, numerals_append] at hn
  exact hn.2

/-- From a state on the parser takes a text of which `Q` holds with the value it gives and the tokens
it leaves, or it fails. If all number tokens can be read, it fails at the token that stands next
behind what it has taken. -/
structure Reads (p : Parser α) (s : State) (Q : α → List Token → List Token → Prop) : Prop where
  ok : ∀ a s', p.run s = .ok a s' → ∃ text, s.Read text s' ∧ Q a text s'.rest
  error : Numerals s.rest → ∀ e s', p.run s = .error e s' →
    ∃ text expected, s.Read text s' ∧ e = .unexpected expected (next s'.rest)

namespace Reads

variable {p : Parser α} {f : α → Parser β} {s : State} {P : α → List Token → List Token → Prop}
  {Q : β → List Token → List Token → Prop}

protected theorem pure {a : α} (h : P a [] s.rest) : Reads (pure a) s P where
  ok a' s' hrun := by
    cases hrun
    exact ⟨[], .refl s, h⟩
  error _ e s' hrun := nomatch hrun

protected theorem fail {expected : Expectation} : Reads (fail expected) s P where
  ok a s' hrun := nomatch hrun
  error _ e s' hrun := by
    cases hrun
    exact ⟨[], expected, .refl s, rfl⟩

/-- A test decides how it goes on. -/
theorem test {a : α} (h : p.run s = .ok a s) (hf : Reads (f a) s Q) : Reads (p >>= f) s Q where
  ok b s' hrun := by
    rw [EStateM.run_bind, h] at hrun
    exact hf.ok b s' hrun
  error hn e s' hrun := by
    rw [EStateM.run_bind, h] at hrun
    exact hf.error hn e s' hrun

/-- A parser goes on where another has stopped, and the texts come one after the other. -/
protected theorem bind (hp : Reads p s P)
    (hf : ∀ a text s', s.Read text s' → P a text s'.rest →
      Reads (f a) s' fun b more rest => Q b (text ++ more) rest) :
    Reads (p >>= f) s Q where
  ok b s'' hrun := by
    rw [EStateM.run_bind] at hrun
    cases hrp : p.run s with
    | error e s' => rw [hrp] at hrun; cases hrun
    | ok a s' =>
      rw [hrp] at hrun
      obtain ⟨text, hread, ha⟩ := hp.ok a s' hrp
      obtain ⟨more, hmore, hb⟩ := (hf a text s' hread ha).ok b s'' hrun
      exact ⟨text ++ more, hread.trans hmore, hb⟩
  error hn e s'' hrun := by
    rw [EStateM.run_bind] at hrun
    cases hrp : p.run s with
    | error e' s' =>
      rw [hrp] at hrun
      cases hrun
      exact hp.error hn _ _ hrp
    | ok a s' =>
      rw [hrp] at hrun
      obtain ⟨text, hread, ha⟩ := hp.ok a s' hrp
      obtain ⟨more, expected, hmore, he⟩ := (hf a text s' hread ha).error (hread.numerals hn) e s'' hrun
      exact ⟨text ++ more, expected, hread.trans hmore, he⟩

/-- What is known of the text that was read may be weakened. -/
theorem imp {P' : α → List Token → List Token → Prop} (hp : Reads p s P)
    (h : ∀ a text rest, P a text rest → P' a text rest) : Reads p s P' where
  ok a s' hrun :=
    let ⟨text, hread, ha⟩ := hp.ok a s' hrun
    ⟨text, hread, h a text s'.rest ha⟩
  error := hp.error

/-- The second of two parsers only puts the value into another form. -/
theorem andReturn {g : α → β} (hp : Reads p s P)
    (h : ∀ a text rest, P a text rest → Q (g a) text rest) :
    Reads (p >>= fun a => pure (g a)) s Q := by
  apply hp.bind
  intro a text s' _ ha
  apply Reads.pure
  rw [List.append_nil]
  exact h a text s'.rest ha

/-- The token that stands next is taken, unless nothing is left. -/
protected theorem advance (h : (next s.rest).kind ≠ .eof) :
    Reads advance s fun t text _ => t = next s.rest ∧ text = [t] where
  ok t s' hrun := by
    obtain ⟨_ | ⟨u, us⟩, n, sk⟩ := s
    · exact absurd rfl h
    · cases hrun
      exact ⟨[u], ⟨rfl, rfl, rfl⟩, rfl, rfl⟩
  error _ e s' hrun := nomatch hrun

protected theorem expect {kind : Token.Kind} (hkind : kind ≠ .eof) :
    Reads (expect kind) s fun t text _ => ∃ u : Terminal kind, t = u.val ∧ text = [u.val] := by
  apply test (run_check kind s)
  by_cases h : (next s.rest).kind = kind
  · simp only [h, decide_true, if_true]
    apply (Reads.advance (h ▸ hkind)).imp
    intro t text rest htaken
    obtain ⟨rfl, rfl⟩ := htaken
    exact ⟨⟨_, h⟩, rfl, rfl⟩
  · simp only [h, decide_false, Bool.false_eq_true, if_false]
    exact Reads.fail

protected theorem expectValue {value : String} :
    Reads (expectValue .operator value) s fun t text _ =>
      ∃ u : Sign [value], t = u.val ∧ text = [u.val] := by
  apply test (run_checkValue .operator value s)
  by_cases h : (next s.rest).kind = .operator ∧ (next s.rest).value = value
  · simp only [h, decide_true, Bool.and_self, if_true]
    have heof : (next s.rest).kind ≠ .eof := by rw [h.1]; decide
    apply (Reads.advance heof).imp
    intro t text rest htaken
    obtain ⟨rfl, rfl⟩ := htaken
    exact ⟨⟨_, h.1, List.mem_singleton.2 h.2⟩, rfl, rfl⟩
  · rw [← Bool.decide_and, decide_eq_false h]
    exact Reads.fail

protected theorem optional {kind : Token.Kind} (hkind : kind ≠ .eof) :
    Reads (optional kind) s fun t text _ =>
      ∃ u : Option (Terminal kind), t = u.map Subtype.val ∧ text = Terminal.tokens u := by
  apply test (run_check kind s)
  by_cases h : (next s.rest).kind = kind
  · simp only [h, decide_true, if_true]
    apply (Reads.advance (h ▸ hkind)).bind
    intro t text s' _ htaken
    obtain ⟨rfl, rfl⟩ := htaken
    exact Reads.pure ⟨some ⟨_, h⟩, rfl, rfl⟩
  · simp only [h, decide_false, Bool.false_eq_true, if_false]
    exact Reads.pure ⟨none, rfl, rfl⟩

/-! What follows goes on behind a single token, or behind one that may be missing. -/

section Bind

variable {kind : Token.Kind}

theorem bind_advance {f : Token → Parser β} (h : (next s.rest).kind = kind) (hkind : kind ≠ .eof)
    (hf : ∀ s', Reads (f (next s.rest)) s' fun b more rest => Q b (next s.rest :: more) rest) :
    Reads (advance >>= f) s Q := by
  apply (Reads.advance (h ▸ hkind)).bind
  intro t text s' _ htaken
  obtain ⟨rfl, rfl⟩ := htaken
  exact hf s'

theorem bind_expect {f : Token → Parser β} (hkind : kind ≠ .eof)
    (hf : ∀ (u : Terminal kind) s',
      Reads (f u.val) s' fun b more rest => Q b (u.val :: more) rest) :
    Reads (expect kind >>= f) s Q := by
  apply (Reads.expect hkind).bind
  intro t text s' _ htaken
  obtain ⟨u, rfl, rfl⟩ := htaken
  exact hf u s'

theorem bind_expectValue {value : String} {f : Token → Parser β}
    (hf : ∀ (u : Sign [value]) s',
      Reads (f u.val) s' fun b more rest => Q b (u.val :: more) rest) :
    Reads (expectValue .operator value >>= f) s Q := by
  apply Reads.expectValue.bind
  intro t text s' _ htaken
  obtain ⟨u, rfl, rfl⟩ := htaken
  exact hf u s'

theorem bind_optional {f : Option Token → Parser β} (hkind : kind ≠ .eof)
    (hf : ∀ (u : Option (Terminal kind)) s',
      Reads (f (u.map Subtype.val)) s' fun b more rest => Q b (Terminal.tokens u ++ more) rest) :
    Reads (optional kind >>= f) s Q := by
  apply (Reads.optional hkind).bind
  intro t text s' _ htaken
  obtain ⟨u, rfl, rfl⟩ := htaken
  exact hf u s'

end Bind

end Reads

/-! ## A given text -/

/-- In front of `rest` the parser takes exactly `text`, wherever it stands, and gives `a`. -/
def Accepts (p : Parser α) (text : List Token) (a : α) (rest : List Token) : Prop :=
  ∀ n skipped, p.run ⟨text ++ rest, n, skipped⟩ = .ok a ⟨rest, n + text.length, skipped⟩

namespace Accepts

variable {p : Parser α} {f : α → Parser β} {text more rest : List Token} {a : α} {b : β}

protected theorem pure : Accepts (pure a) [] a rest := fun _ _ => rfl

protected theorem bind (hp : Accepts p text a (more ++ rest)) (hf : Accepts (f a) more b rest) :
    Accepts (p >>= f) (text ++ more) b rest := by
  intro n skipped
  rw [EStateM.run_bind, List.append_assoc, hp n skipped]
  show (f a).run _ = _
  rw [hf, List.length_append, Nat.add_assoc]

/-- The text of the first of two parsers is a single token. -/
protected theorem cons {t : Token} (hp : Accepts p [t] a (more ++ rest))
    (hf : Accepts (f a) more b rest) : Accepts (p >>= f) (t :: more) b rest :=
  hp.bind hf

theorem andReturn {g : α → β} (hp : Accepts p text a rest) :
    Accepts (p >>= fun x => pure (g x)) text (g a) rest := by
  rw [← List.append_nil text]
  exact hp.bind Accepts.pure

/-- A test decides how it goes on. -/
theorem test (h : ∀ s : State, s.rest = text ++ rest → p.run s = .ok a s)
    (hf : Accepts (f a) text b rest) : Accepts (p >>= f) text b rest := by
  intro n skipped
  rw [EStateM.run_bind, h _ rfl]
  exact hf n skipped

protected theorem current {f : Token → Parser β} {t : Token} (hf : Accepts (f t) (t :: more) b rest) :
    Accepts (current >>= f) (t :: more) b rest :=
  test (a := t) (fun s hs => by rw [run_current, hs]; rfl) hf

/-- Nothing is left to take, so that the test is about what stands behind the text. -/
theorem current_nil {f : Token → Parser β} (hf : Accepts (f (next rest)) [] b rest) :
    Accepts (current >>= f) [] b rest :=
  test (a := next rest) (fun s hs => by rw [run_current, hs]; rfl) hf

theorem check_pos {kind : Token.Kind} {f : Bool → Parser β} {t : Token} (h : t.kind = kind)
    (hf : Accepts (f true) (t :: more) b rest) : Accepts (check kind >>= f) (t :: more) b rest := by
  refine test (a := true) (fun s hs => ?_) hf
  have hnext : (next s.rest).kind = kind := by rw [hs]; exact h
  rw [run_check, decide_eq_true hnext]

/-- The token that is looked for stands behind the text. -/
theorem check_pos_nil {kind : Token.Kind} {f : Bool → Parser β} (h : (next rest).kind = kind)
    (hf : Accepts (f true) [] b rest) : Accepts (check kind >>= f) [] b rest := by
  refine test (a := true) (fun s hs => ?_) hf
  have hnext : (next s.rest).kind = kind := by rw [hs]; exact h
  rw [run_check, decide_eq_true hnext]

theorem check_neg {kind : Token.Kind} {f : Bool → Parser β}
    (h : (next (text ++ rest)).kind ≠ kind) (hf : Accepts (f false) text b rest) :
    Accepts (check kind >>= f) text b rest := by
  refine test (a := false) (fun s hs => ?_) hf
  have hnext : ¬(next s.rest).kind = kind := by rw [hs]; exact h
  rw [run_check, decide_eq_false hnext]

theorem atEnd_neg {f : Bool → Parser β} (h : (next (text ++ rest)).kind ≠ .eof)
    (hf : Accepts (f false) text b rest) : Accepts (atEnd >>= f) text b rest :=
  check_neg h hf

protected theorem checkValue {kind : Token.Kind} {value : String} {f : Bool → Parser β} {t : Token}
    (hf : Accepts (f (decide (t.kind = kind) && decide (t.value = value))) (t :: more) b rest) :
    Accepts (checkValue kind value >>= f) (t :: more) b rest :=
  test (a := decide (t.kind = kind) && decide (t.value = value))
    (fun s hs => by rw [run_checkValue, hs]; rfl) hf

protected theorem advance {t : Token} : Accepts advance [t] t rest := fun _ _ => rfl

protected theorem expect {kind : Token.Kind} (u : Terminal kind) :
    Accepts (expect kind) [u.val] u.val rest :=
  Accepts.check_pos u.2 Accepts.advance

protected theorem expectValue {value : String} (u : Sign [value]) :
    Accepts (expectValue .operator value) [u.val] u.val rest := by
  refine Accepts.checkValue ?_
  simp only [u.2.1, List.mem_singleton.1 u.2.2, decide_true, Bool.and_self, if_true]
  exact Accepts.advance

protected theorem optional {kind : Token.Kind} (o : Option (Terminal kind)) (h : (next rest).kind ≠ kind) :
    Accepts (optional kind) (Terminal.tokens o) (o.map Subtype.val) rest := by
  cases o with
  | none => exact Accepts.check_neg h Accepts.pure
  | some u => exact Accepts.check_pos u.2 (Accepts.advance.cons Accepts.pure)

end Accepts

end Boli.Parser
