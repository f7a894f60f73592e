import Boli.Proofs.Parsing.Detachment
import Boli.Proofs.Parsing.Sentinel
import Boli.Proofs.Program.Places

/-!
# Other digits in the numerals

The parser takes the numbers of a program from the number tokens that it does not pass over, in order,
and makes nothing else of their digits: on tokens with other numerals in their places it has the
program of the same shape with the other numbers (`exists_shape_of_parse`).

The shape is a tree whose numbers are the indices of tokens. `Renumbers` says of a parser how a run on
some numerals determines the runs on all others; what stands behind a phrase is a parser for each choice
of numerals, since the numbers that have been read are a part of what it gives.
-/

set_option autoImplicit false

namespace Boli

open Grammar (next)
open Numbered (places numbered)
open Text.Numeral (read)

/-! ## Tokens with other digits -/

/-- A number token with another numeral. Other tokens are left as they are. -/
def Token.renumber (t : Token) (digits : String) : Token :=
  if t.kind = .number then { t with value := digits } else t

theorem Token.kind_renumber (t : Token) (digits : String) : (t.renumber digits).kind = t.kind := by
  unfold Token.renumber
  split <;> rfl

theorem Token.renumber_of_ne {t : Token} (h : t.kind ≠ .number) (digits : String) :
    t.renumber digits = t := if_neg h

theorem Token.renumber_value (t : Token) : t.renumber t.value = t := ite_self t

/-- Tokens with other numerals, which are given by index; the first one stands at index `n`. -/
def renumberFrom (digits : Nat → String) (n : Nat) : List Token → List Token
  | [] => []
  | t :: ts => t.renumber (digits n) :: renumberFrom digits (n + 1) ts

/-- Tokens with other numerals, which are given by index. -/
def renumber (digits : Nat → String) (tokens : List Token) : List Token :=
  renumberFrom digits 0 tokens

/-- What the token at an index stands for. -/
def digitsAt (tokens : List Token) (i : Nat) : String := (tokens[i]?.map Token.value).getD ""

section Renumber

variable {digits : Nat → String}

theorem next_renumberFrom (n : Nat) (ts : List Token) :
    next (renumberFrom digits n ts) = (next ts).renumber (digits n) := by
  cases ts with
  | nil => rfl
  | cons t ts => rfl

theorem tail_renumberFrom (n : Nat) (ts : List Token) :
    (renumberFrom digits n ts).tail = renumberFrom digits (n + 1) ts.tail := by
  cases ts with
  | nil => rfl
  | cons t ts => rfl

theorem length_renumberFrom (n : Nat) (ts : List Token) :
    (renumberFrom digits n ts).length = ts.length := by
  induction ts generalizing n with
  | nil => rfl
  | cons t ts ih => rw [renumberFrom, List.length_cons, ih, List.length_cons]

/-- Tokens with their own numerals are themselves. -/
theorem renumberFrom_eq_self {n : Nat} {ts : List Token}
    (h : ∀ i (hi : i < ts.length), digits (n + i) = ts[i].value) : renumberFrom digits n ts = ts := by
  induction ts generalizing n with
  | nil => rfl
  | cons t ts ih =>
    have hfirst : digits n = t.value := h 0 (Nat.succ_pos _)
    have hrest := ih (n := n + 1) fun i hi => by
      rw [Nat.add_right_comm]
      exact h (i + 1) (Nat.succ_lt_succ hi)
    rw [renumberFrom, hfirst, Token.renumber_value, hrest]

theorem renumber_digitsAt (tokens : List Token) : renumber (digitsAt tokens) tokens = tokens := by
  refine renumberFrom_eq_self fun i hi => ?_
  rw [Nat.zero_add, digitsAt, List.getElem?_eq_getElem hi]
  rfl

end Renumber

/-- The number that is read at an index. -/
def valueAt (digits : Nat → String) (i : Nat) : Int := (read (digits i)).toOption.getD 0

/-- The numerals at these indices can be read. -/
def Legible (digits : Nat → String) (indices : List Nat) : Prop :=
  ∀ i ∈ indices, read (digits i) = .ok (valueAt digits i)

theorem read_eq_valueAt {digits : Nat → String} {i : Nat} {n : Int} (h : read (digits i) = .ok n) :
    read (digits i) = .ok (valueAt digits i) := by
  rw [valueAt, h]
  rfl

theorem legible_append {digits : Nat → String} {is js : List Nat} :
    Legible digits (is ++ js) ↔ Legible digits is ∧ Legible digits js := by
  simp only [Legible, List.forall_mem_append]

namespace Parser

variable {α β : Type} {s : State}

/-- The indices of the number tokens without a mark, the first token standing at index `n`. -/
def numbersFrom (n : Nat) : Marked → List Nat
  | [] => []
  | (t, mark) :: ms =>
    if t.kind = .number ∧ mark = false then n :: numbersFrom (n + 1) ms else numbersFrom (n + 1) ms

theorem numbersFrom_append (n : Nat) (ms ms' : Marked) :
    numbersFrom n (ms ++ ms') = numbersFrom n ms ++ numbersFrom (n + ms.length) ms' := by
  induction ms generalizing n with
  | nil => rfl
  | cons m ms ih =>
    obtain ⟨t, mark⟩ := m
    rw [List.cons_append, numbersFrom, numbersFrom, ih, List.length_cons, Nat.add_right_comm,
      Nat.add_assoc]
    split
    · rfl
    · rfl

/-- The state on tokens with other numerals. -/
def State.renumber (s : State) (digits : Nat → String) : State where
  rest := renumberFrom digits s.position s.rest
  position := s.position
  skipped := s.skipped.map fun e => (e.1, e.2.renumber (digits e.1))

theorem next_renumber (s : State) (digits : Nat → String) :
    next (s.renumber digits).rest = (next s.rest).renumber (digits s.position) :=
  next_renumberFrom s.position s.rest

/-- The state behind the next token. -/
def State.advanced (s : State) : State := { s with rest := s.rest.tail, position := s.position + 1 }

theorem State.takes_advanced (h : (next s.rest).kind ≠ .eof) :
    s.Takes [(next s.rest, false)] s.advanced := by
  obtain ⟨_ | ⟨t, ts⟩, n, skipped⟩ := s
  · exact absurd rfl h
  · exact ⟨rfl, rfl, (List.append_nil _).symm⟩

theorem run_advance_renumber (s : State) (digits : Nat → String) :
    advance.run (s.renumber digits) =
      .ok ((next s.rest).renumber (digits s.position)) (s.advanced.renumber digits) := by
  rw [← next_renumber]
  show EStateM.Result.ok _ (State.mk (renumberFrom digits s.position s.rest).tail _ _) = _
  rw [tail_renumberFrom]
  rfl

/-! ## Runs on other digits -/

/-- `shape` is what a parser for each choice of numerals gives, as far as these can be read, when it
takes the tokens `ms` from `s` to `s'`. The numbers that it reads among them come behind those at the
indices `before`, which have been read already. -/
structure Shapes [Numbered α] (before : List Nat) (p : (Nat → String) → Parser α) (s : State)
    (shape : α) (ms : Marked) (s' : State) : Prop where
  takes : s.Takes ms s'
  places_eq : places shape = before ++ numbersFrom s.position ms
  run_eq : ∀ digits, Legible digits (places shape) →
    (p digits).run (s.renumber digits) = .ok (numbered (valueAt digits) shape) (s'.renumber digits)

/-- If a parser has a result on one choice of numerals, it has one of the same shape on all others. -/
def Renumbers [Numbered α] (before : List Nat) (p : (Nat → String) → Parser α) (s : State) : Prop :=
  ∀ digits a s', Legible digits before → (p digits).run (s.renumber digits) = .ok a s' →
    ∃ shape ms s₁, Shapes before p s shape ms s₁ ∧ Legible digits (places shape)

namespace Renumbers

variable [Numbered α] [Numbered β] {before : List Nat} {p : Parser α}
  {f : (Nat → String) → α → Parser β} {q : (Nat → String) → Parser β}

/-- What is given is made of what has been read already. -/
protected theorem pure (shape : α) (h : places shape = before) :
    Renumbers before (fun digits => pure (numbered (valueAt digits) shape)) s := by
  intro digits a s' hlegible _
  refine ⟨shape, [], s, ⟨(State.Read.refl s).takes, ?_, fun _ _ => rfl⟩, by rwa [h]⟩
  rw [h, numbersFrom, List.append_nil]

protected theorem fail (expected : Expectation) :
    Renumbers before (fun _ => fail expected : (Nat → String) → Parser α) s := by
  intro digits a s' _ hrun
  cases hrun

protected theorem bind (hp : Renumbers [] (fun _ => p) s)
    (hf : ∀ a s', Renumbers (before ++ places a)
      (fun digits => f digits (numbered (valueAt digits) a)) s') :
    Renumbers before (fun digits => p >>= f digits) s := by
  intro digits b s'' hlegible hrun
  obtain ⟨a, s₁, hfirst, hrun⟩ := exists_of_run_bind hrun
  obtain ⟨left, ms, s₁, hleft, hread⟩ := hp digits a _ (List.forall_mem_nil _) hfirst
  rw [hleft.run_eq digits hread] at hfirst
  cases hfirst
  obtain ⟨shape, ms', s₂, hshape, hlegible⟩ :=
    hf left s₁ digits b s'' (legible_append.2 ⟨hlegible, hread⟩) hrun
  refine ⟨shape, ms ++ ms', s₂, ⟨hleft.takes.trans hshape.takes, ?_, fun digits' h => ?_⟩, hlegible⟩
  · rw [hshape.places_eq, hleft.places_eq, hleft.takes.position_eq, numbersFrom_append,
      List.nil_append, List.append_assoc]
  · have hbefore := h
    rw [hshape.places_eq, legible_append, legible_append] at hbefore
    rw [EStateM.run_bind, hleft.run_eq digits' hbefore.1.2]
    exact hshape.run_eq digits' h

/-- The judgement is about runs. -/
theorem of_run_eq {q' : (Nat → String) → Parser β} (hq : Renumbers before q s)
    (h : ∀ digits, (q' digits).run (s.renumber digits) = (q digits).run (s.renumber digits)) :
    Renumbers before q' s := by
  intro digits b s' hlegible hrun
  rw [h] at hrun
  obtain ⟨shape, ms, s₁, hshape, hread⟩ := hq digits b s' hlegible hrun
  exact ⟨shape, ms, s₁, ⟨hshape.takes, hshape.places_eq, fun digits' h' =>
    (h digits').trans (hshape.run_eq digits' h')⟩, hread⟩

/-- What is given is put into another form. -/
theorem andReturn {g : α → β} (hp : Renumbers [] (fun _ => p) s)
    (hg : ∀ a, places (g a) = places a)
    (hgn : ∀ (value : Nat → Int) a, g (numbered value a) = numbered value (g a)) :
    Renumbers [] (fun _ => p >>= fun a => pure (g a)) s := by
  refine hp.bind fun a s' => ?_
  simp only [hgn]
  exact .pure (g a) (hg a)

/-! ### Single tokens -/

/-- A test that does not look at digits. -/
theorem test {γ : Type} {p : Parser γ} {f : (Nat → String) → γ → Parser β} {c : γ}
    (h : ∀ digits, p.run (s.renumber digits) = .ok c (s.renumber digits))
    (hf : Renumbers before (fun digits => f digits c) s) :
    Renumbers before (fun digits => p >>= f digits) s :=
  hf.of_run_eq fun digits => by rw [EStateM.run_bind, h]

protected theorem current {f : (Nat → String) → Token → Parser β}
    (hf : Renumbers before (fun digits => f digits ((next s.rest).renumber (digits s.position))) s) :
    Renumbers before (fun digits => current >>= f digits) s :=
  hf.of_run_eq fun digits => by rw [EStateM.run_bind, run_current, next_renumber]

protected theorem check {kind : Token.Kind} {f : (Nat → String) → Bool → Parser β}
    (hf : ∀ b, (b = true → (next s.rest).kind = kind) →
      Renumbers before (fun digits => f digits b) s) :
    Renumbers before (fun digits => check kind >>= f digits) s := by
  refine test (fun digits => ?_) (hf _ of_decide_eq_true)
  rw [run_check, next_renumber, Token.kind_renumber]

/-- No numeral is a sign. -/
protected theorem checkSign {value : String} {f : (Nat → String) → Bool → Parser β}
    (hf : ∀ b, (b = true → (next s.rest).kind = .operator) →
      Renumbers before (fun digits => f digits b) s) :
    Renumbers before (fun digits => checkValue .operator value >>= f digits) s := by
  refine test (c := decide ((next s.rest).kind = .operator) && decide ((next s.rest).value = value))
    (fun digits => ?_) (hf _ fun h => of_decide_eq_true (Bool.and_eq_true_iff.1 h).1)
  rw [run_checkValue, next_renumber, Token.kind_renumber]
  by_cases h : (next s.rest).kind = .operator
  · rw [Token.renumber_of_ne (by rw [h]; decide)]
  · rw [decide_eq_false h, Bool.false_and, Bool.false_and]

/-- A token is taken that is no numeral. -/
theorem bind_advance {f : (Nat → String) → Token → Parser β} {kind : Token.Kind}
    (h : (next s.rest).kind = kind) (hkind : kind ∉ [.number, .eof])
    (hf : ∀ s', Renumbers before (fun digits => f digits (next s.rest)) s') :
    Renumbers before (fun digits => advance >>= f digits) s := by
  subst h
  simp only [List.mem_cons, List.not_mem_nil, or_false, not_or] at hkind
  obtain ⟨hnumber, heof⟩ := hkind
  have hrun (digits : Nat → String) :
      advance.run (s.renumber digits) = .ok (next s.rest) (s.advanced.renumber digits) := by
    rw [run_advance_renumber, Token.renumber_of_ne hnumber]
  intro digits b s' hlegible hfirst
  rw [EStateM.run_bind, hrun] at hfirst
  obtain ⟨shape, ms, s₁, hshape, hread⟩ := hf s.advanced digits b s' hlegible hfirst
  have htakes := State.takes_advanced heof
  refine ⟨shape, (next s.rest, false) :: ms, s₁, ⟨htakes.trans hshape.takes, ?_, fun digits' h => ?_⟩,
    hread⟩
  · rw [numbersFrom, if_neg fun h => hnumber h.1]
    exact hshape.places_eq
  · rw [EStateM.run_bind, hrun]
    exact hshape.run_eq digits' h

/-- Where the test has come out, a token is taken or the parser fails. -/
theorem taken {b : Bool} {expected : Expectation} {kind : Token.Kind}
    {f : (Nat → String) → Token → Parser β} (hkind : kind ∉ [.number, .eof])
    (hb : b = true → (next s.rest).kind = kind)
    (hf : ∀ s', Renumbers before (fun digits => f digits (next s.rest)) s') :
    Renumbers before
      (fun digits => (if b then Parser.advance else Parser.fail expected) >>= f digits) s := by
  cases b with
  | true => exact bind_advance (hb rfl) hkind hf
  | false =>
    intro digits b s' _ hrun
    cases hrun

protected theorem expect {kind : Token.Kind} {f : (Nat → String) → Token → Parser β}
    (hkind : kind ∉ [.number, .eof])
    (hf : ∀ t s', Renumbers before (fun digits => f digits t) s') :
    Renumbers before (fun digits => Parser.expect kind >>= f digits) s := by
  simp only [Parser.expect, bind_assoc]
  exact .check fun b hb => taken hkind hb (hf _)

protected theorem expectSign {value : String} {f : (Nat → String) → Token → Parser β}
    (hf : ∀ t s', Renumbers before (fun digits => f digits t) s') :
    Renumbers before (fun digits => expectValue .operator value >>= f digits) s := by
  simp only [Parser.expectValue, bind_assoc]
  exact .checkSign fun b hb => taken (by decide) hb (hf _)

protected theorem optional {kind : Token.Kind} (hkind : kind ∉ [.number, .eof])
    (hq : ∀ s', Renumbers before q s') :
    Renumbers before (fun digits => Parser.optional kind >>= fun _ => q digits) s := by
  simp only [Parser.optional, bind_assoc]
  refine .check fun b hb => ?_
  cases b with
  | true =>
    have htaken := bind_advance (f := fun digits _ => q digits) (hb rfl) hkind hq
    exact htaken
  | false => exact hq s

/-- Whether the token that stands next is one of these signs, and which one. -/
protected theorem operator {operators : List String} (f : String → (Nat → String) → Parser β)
    (hf : ∀ sign, (next s.rest).kind = .operator → Renumbers before (f sign) s)
    (hq : Renumbers before q s) :
    Renumbers before (fun digits => do
      let t ← current
      if t.kind = .operator ∧ t.value ∈ operators then f t.value digits else q digits) s := by
  apply Renumbers.current
  by_cases h : (next s.rest).kind = .operator
  · simp only [Token.renumber_of_ne (show (next s.rest).kind ≠ .number by rw [h]; decide)]
    by_cases hvalue : (next s.rest).value ∈ operators
    · simp only [h, hvalue, and_self, if_true]
      exact hf _ h
    · simp only [hvalue, and_false, if_false]
      exact hq
  · simp only [Token.kind_renumber, h, false_and, if_false]
    exact hq

end Renumbers

/-! ## Programs -/

theorem run_numberOf_renumber {t : Token} (ht : t.kind = .number) (text : String) (s : State) :
    (numberOf (t.renumber text)).run s = match read text with
      | .ok n => .ok (.number n) s
      | .error fault => .error (.numeral fault) s := by
  rw [numberOf, Token.renumber, if_pos ht]
  cases read text <;> rfl

/-- A number is read where it stands. -/
theorem number_renumbers (h : (next s.rest).kind = .number) :
    Renumbers [] (fun digits => do
      let _ ← advance
      numberOf ((next s.rest).renumber (digits s.position))) s := by
  have hrun (digits : Nat → String) : (do
      let _ ← advance
      numberOf ((next s.rest).renumber (digits s.position))).run (s.renumber digits) =
        match read (digits s.position) with
        | .ok n => .ok (.number n) (s.advanced.renumber digits)
        | .error fault => .error (.numeral fault) (s.advanced.renumber digits) := by
    rw [EStateM.run_bind, run_advance_renumber, ← run_numberOf_renumber h]
  have hplace : places (Expression.number s.position) = [s.position] := rfl
  intro digits e s' _ hresult
  rw [hrun] at hresult
  cases hread : read (digits s.position) with
  | error fault => rw [hread] at hresult; cases hresult
  | ok n =>
    have htakes : s.Takes [(next s.rest, false)] s.advanced :=
      State.takes_advanced (by rw [h]; decide)
    refine ⟨.number s.position, _, _, ⟨htakes, ?_, fun digits' hlegible => ?_⟩, ?_⟩
    · rw [hplace, numbersFrom, if_pos ⟨h, rfl⟩]
      rfl
    · rw [hrun, hlegible s.position (by rw [hplace]; exact List.mem_singleton_self _)]
      rfl
    · rw [hplace]
      exact List.forall_mem_singleton.2 (read_eq_valueAt hread)

theorem primary_renumbers (s : State) : Renumbers [] (fun _ => primary) s := by
  apply Renumbers.current
  simp only [Token.kind_renumber]
  split
  next h => exact number_renumbers h
  next h =>
    simp only [Token.renumber_of_ne (show (next s.rest).kind ≠ .number by rw [h]; decide)]
    exact .bind_advance h (by decide) fun s' => .pure (Expression.text _) rfl
  next h =>
    simp only [Token.renumber_of_ne (show (next s.rest).kind ≠ .number by rw [h]; decide)]
    exact .bind_advance h (by decide) fun s' => .pure (Expression.identifier _) rfl
  next => exact .fail _

theorem expression_renumbers (s : State) : Renumbers [] (fun _ => expression) s := by
  refine (primary_renumbers s).bind fun left s₁ => ?_
  refine .operator (fun sign digits => do
    let _ ← advance
    let right ← primary
    return Expression.binary sign (left.numbered (valueAt digits)) right) (fun sign hsign => ?_) ?_
  · refine .bind_advance hsign (by decide) fun s₂ => ?_
    refine (primary_renumbers s₂).bind fun right s₃ => ?_
    exact .pure (Expression.binary sign left right) rfl
  · exact .pure left rfl

theorem condition_renumbers (s : State) : Renumbers [] (fun _ => condition) s := by
  refine (primary_renumbers s).bind fun left s₁ => ?_
  refine .operator (fun sign digits => do
    let _ ← advance
    let right ← primary
    return Condition.compare (left.numbered (valueAt digits)) sign right) (fun sign hsign => ?_) ?_
  · refine .bind_advance hsign (by decide) fun s₂ => ?_
    refine (primary_renumbers s₂).bind fun right s₃ => ?_
    exact .pure (Condition.compare left sign right) rfl
  · exact .fail _

/-- The mark that may stand behind a statement holds no digits. -/
theorem semicolon_renumbers (st : Statement) (s : State) :
    Renumbers st.places (fun digits => do
      let _ ← optional .semicolon
      return st.numbered (valueAt digits)) s :=
  .optional (by decide) fun _ => .pure st rfl

theorem declaration_renumbers (s : State) : Renumbers [] (fun _ => declaration) s := by
  refine .expect (by decide) fun _ s₁ => ?_
  refine .expect (by decide) fun name s₂ => ?_
  refine .expectSign fun _ s₃ => ?_
  refine (expression_renumbers s₃).bind fun e s₄ => ?_
  exact semicolon_renumbers (.declare name.value e) s₄

theorem printing_renumbers (s : State) : Renumbers [] (fun _ => printing) s := by
  refine .expect (by decide) fun _ s₁ => ?_
  refine (expression_renumbers s₁).bind fun e s₂ => ?_
  exact semicolon_renumbers (.print e) s₂

theorem simple_renumbers (s : State) : Renumbers [] (fun _ => simple) s := by
  refine .expect (by decide) fun name s₁ => ?_
  refine .checkSign fun b hb => ?_
  cases b with
  | true =>
    refine .bind_advance (hb rfl) (by decide) fun s₂ => ?_
    refine (expression_renumbers s₂).bind fun e s₃ => ?_
    exact semicolon_renumbers (.assign name.value e) s₃
  | false => exact semicolon_renumbers (.evaluate (.identifier name.value)) s₁

/-! ### Statements -/

variable {mode : Strictness}

/-- A statement stands for itself where one may be missing. -/
theorem Renumbers.andSome {p : Parser Statement} (hp : Renumbers [] (fun _ => p) s) :
    Renumbers [] (fun _ => do return some (← p)) s :=
  hp.andReturn (fun st => List.append_nil st.places) fun _ _ => rfl

/-- A token that is passed over is not read, be it a number. -/
theorem skip_renumbers (h : (next s.rest).kind ≠ .eof) :
    Renumbers [] (fun _ => do skip; return (none : Option Statement)) s := by
  let s' : State := { s.advanced with skipped := s.skipped ++ [(s.position, next s.rest)] }
  have hrun (digits : Nat → String) : (do skip; return (none : Option Statement)).run
      (s.renumber digits) = .ok none (s'.renumber digits) := by
    show EStateM.Result.ok _ (State.mk (renumberFrom digits s.position s.rest).tail _
      (_ ++ [(s.position, next (s.renumber digits).rest)])) = _
    rw [tail_renumberFrom, next_renumber]
    simp only [s', State.renumber, State.advanced, List.map_append, List.map_singleton]
  have htakes : s.Takes [(next s.rest, true)] s' :=
    ⟨(State.takes_advanced h).rest_eq, (State.takes_advanced h).position_eq, rfl⟩
  intro digits st s'' hlegible _
  refine ⟨none, _, s', ⟨htakes, ?_, fun digits' _ => hrun digits'⟩, hlegible⟩
  rw [numbersFrom, if_neg fun hread => nomatch hread.2]
  rfl

/-- What comes behind a statement, or behind nothing. -/
theorem append_renumbers (st : Option Statement) (ss : List Statement) (s : State) :
    Renumbers (places st ++ places ss) (fun digits => do
      return (numbered (valueAt digits) st).toList ++ numbered (valueAt digits) ss) s := by
  have hpure : Renumbers (places st ++ places ss) (fun digits => do
      return numberAll (valueAt digits) (st.toList ++ ss)) s :=
    .pure _ (placesAll_append st.toList ss)
  simp only [numberAll_append, numberAll_toList] at hpure
  exact hpure

mutual

theorem statementUpTo_renumbers : ∀ (fuel : Nat) (s : State),
    Renumbers [] (fun _ => statementUpTo mode fuel) s
  | 0, _ => .fail _
  | fuel + 1, s => by
    apply Renumbers.current
    simp only [Token.kind_renumber]
    split
    · exact (declaration_renumbers s).andSome
    · exact (printing_renumbers s).andSome
    · exact (branchUpTo_renumbers fuel s).andSome
    · exact (loopUpTo_renumbers fuel s).andSome
    · exact (simple_renumbers s).andSome
    · exact .fail _
    next heof =>
      cases mode with
      | strict => exact .fail _
      | permissive => exact skip_renumbers heof

theorem branchUpTo_renumbers : ∀ (fuel : Nat) (s : State),
    Renumbers [] (fun _ => branchUpTo mode fuel) s
  | 0, _ => .fail _
  | fuel + 1, s => by
    refine .expect (by decide) fun _ s₁ => ?_
    refine (condition_renumbers s₁).bind fun c s₂ => ?_
    refine (blockUpTo_renumbers fuel s₂).bind fun body s₃ => ?_
    refine (otherwiseUpTo_renumbers fuel s₃).bind fun rest s₄ => ?_
    exact .pure (Statement.branch c body rest) rfl

theorem otherwiseUpTo_renumbers : ∀ (fuel : Nat) (s : State),
    Renumbers [] (fun _ => otherwiseUpTo mode fuel) s
  | 0, _ => .fail _
  | fuel + 1, s => by
    refine .check fun isElseIf hElseIf => ?_
    cases isElseIf with
    | true =>
      refine .bind_advance (hElseIf rfl) (by decide) fun s₁ => ?_
      refine (condition_renumbers s₁).bind fun c s₂ => ?_
      refine (blockUpTo_renumbers fuel s₂).bind fun body s₃ => ?_
      refine (otherwiseUpTo_renumbers fuel s₃).bind fun rest s₄ => ?_
      exact .pure (Otherwise.elseIf c body rest) rfl
    | false =>
      refine .check fun isElse hElse => ?_
      cases isElse with
      | true =>
        refine .bind_advance (hElse rfl) (by decide) fun s₁ => ?_
        refine (blockUpTo_renumbers fuel s₁).bind fun body s₂ => ?_
        exact .pure (Otherwise.last body) rfl
      | false => exact .pure Otherwise.nothing rfl

theorem loopUpTo_renumbers : ∀ (fuel : Nat) (s : State),
    Renumbers [] (fun _ => loopUpTo mode fuel) s
  | 0, _ => .fail _
  | fuel + 1, s => by
    refine .expect (by decide) fun _ s₁ => ?_
    refine (condition_renumbers s₁).bind fun c s₂ => ?_
    refine .optional (by decide) fun s₃ => ?_
    refine (blockUpTo_renumbers fuel s₃).bind fun body s₄ => ?_
    exact .pure (Statement.loop c body) rfl

theorem blockUpTo_renumbers : ∀ (fuel : Nat) (s : State),
    Renumbers [] (fun _ => blockUpTo mode fuel) s
  | 0, _ => .fail _
  | fuel + 1, s => by
    refine .check fun isBrace hBrace => ?_
    cases isBrace with
    | true => exact .bind_advance (hBrace rfl) (by decide) fun s₁ => bracedUpTo_renumbers fuel s₁
    | false =>
      exact (statementUpTo_renumbers fuel s).andReturn (fun _ => rfl)
        fun value st => (numberAll_toList value st).symm

theorem bracedUpTo_renumbers : ∀ (fuel : Nat) (s : State),
    Renumbers [] (fun _ => bracedUpTo mode fuel) s
  | 0, _ => .fail _
  | fuel + 1, s => by
    refine .check fun isClosed hClosed => ?_
    cases isClosed with
    | true => exact .bind_advance (hClosed rfl) (by decide) fun s₁ => .pure [] rfl
    | false =>
      refine .check fun ended _ => ?_
      cases ended with
      | true => exact .fail _
      | false =>
        refine (statementUpTo_renumbers fuel s).bind fun st s₁ => ?_
        refine (bracedUpTo_renumbers fuel s₁).bind fun ss s₂ => ?_
        exact append_renumbers st ss s₂

end

theorem statementsUpTo_renumbers : ∀ (fuel : Nat) (s : State),
    Renumbers [] (fun _ => statementsUpTo mode fuel) s
  | 0, _ => .pure [] rfl
  | fuel + 1, s => by
    refine .check fun ended _ => ?_
    cases ended with
    | true => exact .pure [] rfl
    | false =>
      have hstatement : Renumbers [] (fun _ => statement mode) s := by
        have hfuel : Renumbers [] (fun _ => statementUpTo mode s.fuel) s :=
          statementUpTo_renumbers s.fuel s
        refine hfuel.of_run_eq fun digits => ?_
        show (statementUpTo mode (s.renumber digits).fuel).run _ = _
        rw [State.fuel, State.renumber, length_renumberFrom]
        rfl
      refine hstatement.bind fun st s₁ => ?_
      refine (statementsUpTo_renumbers fuel s₁).bind fun ss s₂ => ?_
      exact append_renumbers st ss s₂

theorem program_renumbers (s : State) : Renumbers [] (fun _ => program mode) s := by
  have hstatements : Renumbers [] (fun _ => do
      return Program.statements (← statementsUpTo mode (s.rest.length + 1))) s :=
    (statementsUpTo_renumbers _ s).andReturn (fun _ => rfl) fun _ _ => rfl
  refine hstatements.of_run_eq fun digits => ?_
  have hlength : (renumberFrom digits s.position s.rest).length = s.rest.length :=
    length_renumberFrom s.position s.rest
  rw [← hlength]
  rfl

/-! ## The numerals that are read -/

/-- The tokens that the parser passes over, by index. -/
def skippedBy (mode : Strictness) (tokens : List Token) : List (Nat × Token) :=
  (lastState ((program mode).run (.start tokens))).skipped

/-- The indices of the number tokens that the parser reads, in order. -/
def numeralsRead (mode : Strictness) (tokens : List Token) : List Nat :=
  (List.range tokens.length).filter fun i =>
    tokens[i]?.map Token.kind = some .number ∧ i ∉ (skippedBy mode tokens).map Prod.fst

theorem numbersFrom_eq_filter (n : Nat) (ms : Marked) :
    numbersFrom n ms = (List.range' n ms.length).filter fun i =>
      ms[i - n]?.any fun m => m.1.kind = .number ∧ m.2 = false := by
  induction ms generalizing n with
  | nil => rfl
  | cons m ms ih =>
    obtain ⟨t, mark⟩ := m
    have hrest : (List.range' (n + 1) ms.length).filter (fun i =>
        ((t, mark) :: ms)[i - n]?.any fun m => m.1.kind = .number ∧ m.2 = false) =
          numbersFrom (n + 1) ms := by
      rw [ih]
      refine List.filter_congr fun i hi => ?_
      have hle : n + 1 ≤ i := (List.mem_range'_1.1 hi).1
      rw [show i - n = i - (n + 1) + 1 by omega, List.getElem?_cons_succ]
    rw [List.length_cons, List.range'_succ, List.filter_cons, hrest, numbersFrom, Nat.sub_self,
      List.getElem?_cons_zero, Option.any_some]
    simp only [decide_eq_true_eq]

/-- The number tokens without a mark are those that are read, if the marks are on those that are
passed over. -/
theorem numbersFrom_eq_numeralsRead {mode : Strictness} {tokens : List Token} {ms : Marked}
    (htokens : tokens = ms.map Prod.fst)
    (hskipped : (skippedBy mode tokens).map Prod.fst = (passedFrom 0 ms).map Prod.fst) :
    numbersFrom 0 ms = numeralsRead mode tokens := by
  have hmark (i : Nat) : i ∈ (passedFrom 0 ms).map Prod.fst ↔ ms[i]?.map Prod.snd = some true := by
    rw [← mem_passedFrom (n := 0), Nat.zero_add]
  rw [numbersFrom_eq_filter, numeralsRead, List.range_eq_range', hskipped, htokens, List.length_map]
  refine List.filter_congr fun i _ => ?_
  simp only [Nat.sub_zero, hmark, List.getElem?_map]
  cases ms[i]? with
  | none => rfl
  | some m => simp

end Parser

open Boli.Parser (numeralsRead skippedBy)

/-- On tokens with other numerals that can be read, the parser has the program of the same shape. -/
theorem exists_shape_of_parse {mode : Strictness} {tokens : List Token}
    (hnone : ∀ t ∈ tokens, t.kind ≠ .eof) {p : Program} (h : parse mode tokens = .ok p) :
    ∃ shape : Program, places shape = numeralsRead mode tokens ∧
      Legible (digitsAt tokens) (places shape) ∧
      ∀ digits, Legible digits (places shape) →
        parse mode (renumber digits tokens) = .ok (numbered (valueAt digits) shape) := by
  have hstop := Parser.stop_of_parse hnone h
  have hown : (Parser.State.start tokens).renumber (digitsAt tokens) = .start tokens :=
    congrArg Parser.State.start (renumber_digitsAt tokens)
  cases hrun : (Parser.program mode).run (.start tokens) with
  | error failure s' => rw [parse, hrun] at h; cases h
  | ok p' s' =>
    obtain ⟨shape, ms, s₁, hshape, hlegible⟩ := Parser.program_renumbers (.start tokens)
      (digitsAt tokens) p' s' (List.forall_mem_nil _) (hown.symm ▸ hrun)
    have hlast := hshape.run_eq _ hlegible
    rw [hown] at hlast
    have hrest : tokens = ms.map Prod.fst := by
      have htokens : tokens = ms.map Prod.fst ++ s₁.rest := hshape.takes.rest_eq
      have hposition : Parser.stop mode tokens = 0 + ms.length := by
        rw [Parser.stop, hlast]
        exact hshape.takes.position_eq
      have hlength := congrArg List.length htokens
      rw [List.length_append, List.length_map] at hlength
      rwa [List.eq_nil_of_length_eq_zero (show s₁.rest.length = 0 by omega), List.append_nil]
        at htokens
    refine ⟨shape, ?_, hlegible, fun digits hdigits => ?_⟩
    · refine hshape.places_eq.trans (Parser.numbersFrom_eq_numeralsRead hrest ?_)
      rw [skippedBy, hlast]
      show List.map _ (List.map _ s₁.skipped) = _
      rw [List.map_map]
      exact congrArg (List.map Prod.fst) hshape.takes.skipped_eq
    · have hother : (Parser.program mode).run (.start (renumber digits tokens)) = _ :=
        hshape.run_eq digits hdigits
      rw [parse, hother]

end Boli
