import Boli.Proofs.Parsing
import Boli.Proofs.Program

/-!
# What the parser builds

In either mode the parser makes its nodes from the tokens that it is given. Names, texts and numbers
are those of tokens, an expression is one operation at most, and nothing in a tree is foreign
(`exists_built_of_parse`).
-/

set_option autoImplicit false

namespace Boli

open Boli.Parser (arithmeticOperators comparisonOperators)

/-! ## Trees made from tokens -/

/-- The name of one of the tokens. -/
def IsNameOf (tokens : List Token) (name : String) : Prop :=
  ∃ t ∈ tokens, t.kind = .identifier ∧ t.value = name

/-- A literal or a name, made from one of the tokens. -/
def Expression.IsPrimaryOf (tokens : List Token) : Expression → Prop
  | .number n => ∃ t ∈ tokens, t.kind = .number ∧ Text.Numeral.read t.value = .ok n
  | .text s => ∃ t ∈ tokens, t.kind = .string ∧ t.value = s
  | .identifier name => IsNameOf tokens name
  | .binary _ _ _ | .foreign _ _ => False

/-- A primary made from one of the tokens, or one operation on two. -/
def Expression.IsBuiltOf (tokens : List Token) : Expression → Prop
  | .binary operator left right =>
    operator ∈ arithmeticOperators ∧ left.IsPrimaryOf tokens ∧ right.IsPrimaryOf tokens
  | e => e.IsPrimaryOf tokens

/-- A comparison of two primaries made from the tokens. -/
def Condition.IsBuiltOf (tokens : List Token) : Condition → Prop
  | .compare left operator right =>
    operator ∈ comparisonOperators ∧ left.IsPrimaryOf tokens ∧ right.IsPrimaryOf tokens
  | .foreign _ _ => False

/-- Trees that the parser makes from tokens. -/
def Form.builtOf (tokens : List Token) : Form where
  name := IsNameOf tokens
  value := Expression.IsBuiltOf tokens
  lone e := ∃ name, e = .identifier name ∧ IsNameOf tokens name
  condition := Condition.IsBuiltOf tokens
  foreign := False

theorem Expression.IsPrimaryOf.isBuiltOf {tokens : List Token} {e : Expression}
    (h : e.IsPrimaryOf tokens) : e.IsBuiltOf tokens := by
  cases e with
  | binary operator left right => exact h.elim
  | number n => exact h
  | text s => exact h
  | identifier name => exact h
  | foreign kind data => exact h

theorem Expression.IsPrimaryOf.writable {tokens : List Token} {e : Expression}
    (h : e.IsPrimaryOf tokens) : e.Writable := by
  cases e with
  | number n =>
    obtain ⟨t, -, -, hread⟩ := h
    exact Text.Numeral.writable_of_read hread
  | text s => trivial
  | identifier name => trivial
  | binary operator left right => exact h.elim
  | foreign kind data => trivial

/-- A number that was read can be written. -/
theorem Form.builtOf_implies_writable (tokens : List Token) :
    (Form.builtOf tokens).Implies .writable where
  name _ _ := trivial
  value e h := by
    cases e with
    | binary operator left right => exact ⟨h.2.1.writable, h.2.2.writable⟩
    | number n => exact Expression.IsPrimaryOf.writable h
    | text s => trivial
    | identifier name => trivial
    | foreign kind data => trivial
  lone e h := by
    obtain ⟨name, rfl, -⟩ := h
    trivial
  condition c h := by
    cases c with
    | compare left operator right => exact ⟨h.2.1.writable, h.2.2.writable⟩
    | foreign kind data => trivial
  foreign _ := trivial

namespace Parser

open Grammar (next)

variable {α β : Type} {tokens : List Token} {P : α → Prop} {Q : β → Prop}

/-! ## Runs that keep to the tokens -/

/-- From any state with none but these tokens left, the parser is left with none but these, and what
it gives has a property. -/
def Gives (tokens : List Token) (p : Parser α) (P : α → Prop) : Prop :=
  ∀ s a s', s.rest ⊆ tokens → p.run s = .ok a s' → s'.rest ⊆ tokens ∧ P a

namespace Gives

variable {p : Parser α} {f : α → Parser β}

protected theorem pure {a : α} (h : P a) : Gives tokens (pure a) P := by
  intro s a' s' hs hrun
  cases hrun
  exact ⟨hs, h⟩

protected theorem fail (expected : Expectation) : Gives tokens (fail expected) P := by
  intro s a s' _ hrun
  cases hrun

protected theorem bind (hp : Gives tokens p P) (hf : ∀ a, P a → Gives tokens (f a) Q) :
    Gives tokens (p >>= f) Q := by
  intro s b s'' hs hrun
  rw [EStateM.run_bind] at hrun
  cases hfirst : p.run s with
  | error failure s' => rw [hfirst] at hrun; cases hrun
  | ok a s' =>
    rw [hfirst] at hrun
    obtain ⟨hs', ha⟩ := hp s a s' hs hfirst
    exact hf a ha s' b s'' hs' hrun

theorem imp {P' : α → Prop} (hp : Gives tokens p P) (h : ∀ a, P a → P' a) : Gives tokens p P' :=
  fun s a s' hs hrun => ⟨(hp s a s' hs hrun).1, h a (hp s a s' hs hrun).2⟩

theorem andReturn {g : α → β} (hp : Gives tokens p P) (h : ∀ a, P a → Q (g a)) :
    Gives tokens (p >>= fun a => pure (g a)) Q :=
  hp.bind fun a ha => .pure (h a ha)

protected theorem current :
    Gives tokens current fun t => t.kind ≠ .eof → t ∈ tokens := by
  intro s t s' hs hrun
  cases hrun
  exact ⟨hs, fun h => hs (next_mem h)⟩

protected theorem advance : Gives tokens advance fun t => t.kind ≠ .eof → t ∈ tokens := by
  intro s t s' hs hrun
  cases hrun
  exact ⟨fun t ht => hs (List.mem_of_mem_tail ht), fun h => hs (next_mem h)⟩

protected theorem skip : Gives tokens skip fun _ => True := by
  intro s u s' hs hrun
  cases hrun
  exact ⟨fun t ht => hs (List.mem_of_mem_tail ht), trivial⟩

/-- A test leaves the tokens as they are. -/
theorem test (h : ∀ s, ∃ a, p.run s = .ok a s) : Gives tokens p fun _ => True := by
  intro s a s' hs hrun
  obtain ⟨a', h⟩ := h s
  rw [h] at hrun
  cases hrun
  exact ⟨hs, trivial⟩

protected theorem check (kind : Token.Kind) : Gives tokens (check kind) fun _ => True :=
  test fun s => ⟨_, run_check kind s⟩

protected theorem checkValue (kind : Token.Kind) (value : String) :
    Gives tokens (checkValue kind value) fun _ => True :=
  test fun s => ⟨_, run_checkValue kind value s⟩

protected theorem atEnd : Gives tokens atEnd fun _ => True := test fun s => ⟨_, run_atEnd s⟩

protected theorem get : Gives tokens get fun _ => True := test fun s => ⟨s, run_get s⟩

protected theorem expect {kind : Token.Kind} (hkind : kind ≠ .eof) :
    Gives tokens (expect kind) fun t => t ∈ tokens ∧ t.kind = kind := by
  intro s t s' hs hrun
  -- the token that is taken is the one that was tested
  rw [expect, EStateM.run_bind, run_check] at hrun
  by_cases h : (next s.rest).kind = kind
  · simp only [h, decide_true, if_true] at hrun
    cases hrun
    exact ⟨fun t ht => hs (List.mem_of_mem_tail ht), hs (next_mem (h ▸ hkind)), h⟩
  · simp only [h, decide_false, Bool.false_eq_true, if_false] at hrun
    cases hrun

protected theorem expectValue (kind : Token.Kind) (value : String) :
    Gives tokens (expectValue kind value) fun _ => True := by
  refine (Gives.checkValue kind value).bind fun b _ => ?_
  cases b with
  | true => exact Gives.advance.imp fun _ _ => trivial
  | false => exact .fail _

protected theorem optional (kind : Token.Kind) : Gives tokens (optional kind) fun _ => True := by
  refine (Gives.check kind).bind fun b _ => ?_
  cases b with
  | true => exact Gives.advance.andReturn fun _ _ => trivial
  | false => exact .pure trivial

end Gives

/-! ## Expressions and simple statements -/

theorem numberOf_gives {t : Token} (ht : t ∈ tokens) (hkind : t.kind = .number) :
    Gives tokens (numberOf t) fun e => e.IsPrimaryOf tokens := by
  intro s e s' hs hrun
  unfold numberOf at hrun
  cases hread : Text.Numeral.read t.value with
  | error fault => rw [hread] at hrun; cases hrun
  | ok n =>
    rw [hread] at hrun
    cases hrun
    exact ⟨hs, t, ht, hkind, hread⟩

theorem primary_gives : Gives tokens primary fun e => e.IsPrimaryOf tokens := by
  refine Gives.current.bind fun t ht => ?_
  split
  next h => exact Gives.advance.bind fun _ _ => numberOf_gives (ht (by rw [h]; decide)) h
  next h => exact Gives.advance.andReturn fun _ _ => ⟨t, ht (by rw [h]; decide), h, rfl⟩
  next h => exact Gives.advance.andReturn fun _ _ => ⟨t, ht (by rw [h]; decide), h, rfl⟩
  next => exact .fail _

theorem expression_gives : Gives tokens expression fun e => e.IsBuiltOf tokens := by
  refine primary_gives.bind fun left hl => Gives.current.bind fun t _ => ?_
  split
  next h =>
    refine Gives.advance.bind fun _ _ => ?_
    exact primary_gives.andReturn fun right hr => ⟨h.2, hl, hr⟩
  next => exact .pure hl.isBuiltOf

theorem condition_gives : Gives tokens condition fun c => c.IsBuiltOf tokens := by
  refine primary_gives.bind fun left hl => Gives.current.bind fun t _ => ?_
  split
  next h =>
    refine Gives.advance.bind fun _ _ => ?_
    exact primary_gives.andReturn fun right hr => ⟨h.2, hl, hr⟩
  next => exact .fail _

theorem declaration_gives : Gives tokens declaration fun s => s.Has (.builtOf tokens) := by
  refine (Gives.expect (by decide)).bind fun _ _ => ?_
  refine (Gives.expect (by decide)).bind fun name hname => ?_
  refine (Gives.expectValue _ _).bind fun _ _ => ?_
  refine expression_gives.bind fun e he => ?_
  exact (Gives.optional _).andReturn fun _ _ => ⟨⟨name, hname.1, hname.2, rfl⟩, he⟩

theorem printing_gives : Gives tokens printing fun s => s.Has (.builtOf tokens) := by
  refine (Gives.expect (by decide)).bind fun _ _ => ?_
  refine expression_gives.bind fun e he => ?_
  exact (Gives.optional _).andReturn fun _ _ => he

theorem simple_gives : Gives tokens simple fun s => s.Has (.builtOf tokens) := by
  refine (Gives.expect (by decide)).bind fun name hname => ?_
  have hname : IsNameOf tokens name.value := ⟨name, hname.1, hname.2, rfl⟩
  refine (Gives.checkValue _ _).bind fun b _ => ?_
  cases b with
  | true =>
    refine Gives.advance.bind fun _ _ => ?_
    refine expression_gives.bind fun e he => ?_
    exact (Gives.optional _).andReturn fun _ _ => ⟨hname, he⟩
  | false => exact (Gives.optional _).andReturn fun _ _ => ⟨_, rfl, hname⟩

/-! ## Statements -/

variable {mode : Strictness}

/-- What is given for a token that may have been passed over. -/
def BuiltIfAny (tokens : List Token) (s : Option Statement) : Prop :=
  ∀ s' ∈ s, s'.Has (.builtOf tokens)

theorem allHave_toList {s : Option Statement} (h : BuiltIfAny tokens s) :
    AllHave (.builtOf tokens) s.toList := by
  cases s with
  | none => trivial
  | some s => exact ⟨h s rfl, trivial⟩

/-- A phrase that is read as a statement is one. -/
theorem Gives.andSome {p : Parser Statement} (h : Gives tokens p fun s => s.Has (.builtOf tokens)) :
    Gives tokens (do return some (← p)) (BuiltIfAny tokens) := by
  refine h.andReturn fun s hs => ?_
  rintro s' ⟨⟩
  exact hs

mutual

theorem statementUpTo_gives : ∀ fuel : Nat,
    Gives tokens (statementUpTo mode fuel) (BuiltIfAny tokens)
  | 0 => .fail _
  | fuel + 1 => by
    refine Gives.current.bind fun t _ => ?_
    split
    · exact declaration_gives.andSome
    · exact printing_gives.andSome
    · exact (branchUpTo_gives fuel).andSome
    · exact (loopUpTo_gives fuel).andSome
    · exact simple_gives.andSome
    · exact .fail _
    next =>
      cases mode with
      | strict => exact .fail _
      | permissive => exact Gives.skip.andReturn fun _ _ => nofun

theorem branchUpTo_gives : ∀ fuel : Nat,
    Gives tokens (branchUpTo mode fuel) fun s => s.Has (.builtOf tokens)
  | 0 => .fail _
  | fuel + 1 => by
    refine (Gives.expect (by decide)).bind fun _ _ => ?_
    refine condition_gives.bind fun c hc => ?_
    refine (blockUpTo_gives fuel).bind fun body hbody => ?_
    exact (otherwiseUpTo_gives fuel).andReturn fun rest hrest => ⟨hc, hbody, hrest⟩

theorem otherwiseUpTo_gives : ∀ fuel : Nat,
    Gives tokens (otherwiseUpTo mode fuel) fun r => r.Has (.builtOf tokens)
  | 0 => .fail _
  | fuel + 1 => by
    refine (Gives.check _).bind fun isElseIf _ => ?_
    cases isElseIf with
    | true =>
      refine Gives.advance.bind fun _ _ => ?_
      refine condition_gives.bind fun c hc => ?_
      refine (blockUpTo_gives fuel).bind fun body hbody => ?_
      exact (otherwiseUpTo_gives fuel).andReturn fun rest hrest => ⟨hc, hbody, hrest⟩
    | false =>
      refine (Gives.check _).bind fun isElse _ => ?_
      cases isElse with
      | true =>
        refine Gives.advance.bind fun _ _ => ?_
        exact (blockUpTo_gives fuel).andReturn fun body hbody => hbody
      | false => exact .pure trivial

theorem loopUpTo_gives : ∀ fuel : Nat,
    Gives tokens (loopUpTo mode fuel) fun s => s.Has (.builtOf tokens)
  | 0 => .fail _
  | fuel + 1 => by
    refine (Gives.expect (by decide)).bind fun _ _ => ?_
    refine condition_gives.bind fun c hc => ?_
    refine (Gives.optional _).bind fun _ _ => ?_
    exact (blockUpTo_gives fuel).andReturn fun body hbody => ⟨hc, hbody⟩

theorem blockUpTo_gives : ∀ fuel : Nat,
    Gives tokens (blockUpTo mode fuel) (AllHave (.builtOf tokens))
  | 0 => .fail _
  | fuel + 1 => by
    refine (Gives.check _).bind fun isBrace _ => ?_
    cases isBrace with
    | true => exact Gives.advance.bind fun _ _ => bracedUpTo_gives fuel
    | false => exact (statementUpTo_gives fuel).andReturn fun s hs => allHave_toList hs

theorem bracedUpTo_gives : ∀ fuel : Nat,
    Gives tokens (bracedUpTo mode fuel) (AllHave (.builtOf tokens))
  | 0 => .fail _
  | fuel + 1 => by
    refine (Gives.check _).bind fun isClosed _ => ?_
    cases isClosed with
    | true => exact Gives.advance.andReturn fun _ _ => trivial
    | false =>
      refine Gives.atEnd.bind fun ended _ => ?_
      cases ended with
      | true => exact .fail _
      | false =>
        refine (statementUpTo_gives fuel).bind fun s hs => ?_
        exact (bracedUpTo_gives fuel).andReturn fun ss hss => allHave_append (allHave_toList hs) hss

end

theorem statementsUpTo_gives : ∀ fuel : Nat,
    Gives tokens (statementsUpTo mode fuel) (AllHave (.builtOf tokens))
  | 0 => .pure trivial
  | fuel + 1 => by
    refine Gives.atEnd.bind fun ended _ => ?_
    cases ended with
    | true => exact .pure trivial
    | false =>
      have hstatement : Gives tokens (statement mode) (BuiltIfAny tokens) :=
        Gives.get.bind fun s _ => statementUpTo_gives s.fuel
      refine hstatement.bind fun s hs => ?_
      exact (statementsUpTo_gives fuel).andReturn fun ss hss => allHave_append (allHave_toList hs) hss

end Parser

/-- A program that is parsed is made from the tokens. -/
theorem exists_built_of_parse {mode : Strictness} {tokens : List Token} {p : Program}
    (h : parse mode tokens = .ok p) :
    ∃ ss, p = .statements ss ∧ AllHave (.builtOf tokens) ss := by
  have hgives : Parser.Gives tokens (Parser.program mode) fun p =>
      ∃ ss, p = .statements ss ∧ AllHave (.builtOf tokens) ss :=
    Parser.Gives.get.bind fun s _ =>
      (Parser.statementsUpTo_gives _).andReturn fun ss hss => ⟨ss, rfl, hss⟩
  unfold parse at h
  cases hrun : (Parser.program mode).run (.start tokens) with
  | error failure s => rw [hrun] at h; cases h
  | ok p' s =>
    rw [hrun] at h
    cases h
    exact (hgives _ _ _ (List.Subset.refl tokens) hrun).2

end Boli
