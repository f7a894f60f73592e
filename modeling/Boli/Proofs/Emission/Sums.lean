import Boli.Proofs.Emission.Kinds
import Boli.Proofs.Emission.Rendering
import Boli.Proofs.Parsing.Built
import Boli.Proofs.Results
import Boli.Target.Catalogue

/-!
# Sums of texts

A target without concatenation refuses a sum with a text in it, and a parsed program holds nothing
else that any target refuses. Which sums have a text in them is said here without the emitter: a
program is read as a sequence of events, and a name holds a text if its last declaration before the
place gives it one (`IsText`). C is the one target that fails for such a program
(`emit_fail_iff_sumsTexts`).
-/

set_option autoImplicit false

namespace Boli

/-! ## Programs as sequences of events -/

/-- What happens to expressions and names as a program is emitted. -/
inductive Event where
  | reads (e : Expression)
  | declares (name : String) (initializer : Expression)

/-- The operands of a condition are read. -/
def Condition.events : Condition → List Event
  | .compare left _ right => [.reads left, .reads right]
  | .foreign _ _ => []

mutual

/-- The events of a statement, in the order of emission. -/
def Statement.events : Statement → List Event
  | .declare name e => [.reads e, .declares name e]
  | .assign _ e | .evaluate e | .print e => [.reads e]
  | .branch c body rest => c.events ++ (allEvents body ++ rest.events)
  | .loop c body => c.events ++ allEvents body
  | .foreign _ _ => []

/-- The events of what follows the body of a branch. -/
def Otherwise.events : Otherwise → List Event
  | .nothing => []
  | .last body => allEvents body
  | .elseIf c body rest => c.events ++ (allEvents body ++ rest.events)

/-- The events of statements. -/
def allEvents : List Statement → List Event
  | [] => []
  | s :: ss => s.events ++ allEvents ss

end

/-- The events of a program. -/
def Program.events : Program → List Event
  | .statements ss => allEvents ss
  | .foreign _ _ => []

/-- An expression has a text for its value, behind the given events: it is a text, an operation with
such an operand, or a name whose last declaration was given a text. -/
inductive IsText : List Event → Expression → Prop where
  | text (before : List Event) (s : String) : IsText before (.text s)
  | left {before : List Event} {operator : String} {l r : Expression} :
    IsText before l → IsText before (.binary operator l r)
  | right {before : List Event} {operator : String} {l r : Expression} :
    IsText before r → IsText before (.binary operator l r)
  | declared {before : List Event} {name : String} {e : Expression} (since : List Event) :
    (∀ e', .declares name e' ∉ since) → IsText before e →
      IsText (before ++ .declares name e :: since) (.identifier name)

/-- Somewhere in a program there is a sum one of whose operands is a text at that place. -/
def Program.SumsTexts (p : Program) : Prop :=
  ∃ before left right since,
    p.events = before ++ .reads (.binary "+" left right) :: since ∧
      (IsText before left ∨ IsText before right)

namespace Rendering

open Emission
open Results (ok_bind)

variable {t : Target} {b : Bindings}

/-! ## Recorded kinds are those of the last declarations -/

/-- The kinds of names behind events. -/
def kindsAfter (b : Bindings) : List Event → Bindings
  | [] => b
  | .reads _ :: es => kindsAfter b es
  | .declares name e :: es => kindsAfter (b.put name (valueKind b e)) es

theorem kindsAfter_append (b : Bindings) (es es' : List Event) :
    kindsAfter b (es ++ es') = kindsAfter (kindsAfter b es) es' := by
  induction es generalizing b with
  | nil => rfl
  | cons e es ih =>
    cases e with
    | reads e => exact ih b
    | declares name e => exact ih _

/-- Events that do not declare a name leave its kind as it was. -/
theorem valueKind_kindsAfter {name : String} {es : List Event}
    (h : ∀ e, .declares name e ∉ es) :
    valueKind (kindsAfter b es) (.identifier name) = valueKind b (.identifier name) := by
  induction es generalizing b with
  | nil => rfl
  | cons e es ih =>
    have hes : ∀ e, .declares name e ∉ es := fun e he => h e (List.mem_cons_of_mem _ he)
    cases e with
    | reads e => exact ih hes
    | declares name' e =>
      have hname : name' ≠ name := by
        rintro rfl
        exact h e List.mem_cons_self
      rw [kindsAfter, ih hes, valueKind_put, if_neg hname]

/-- Behind the last declaration of a name, the name has the kind of its initializer. -/
theorem valueKind_of_lastDeclaration (before : List Event) {since : List Event} {name : String}
    (e : Expression) (h : ∀ e', .declares name e' ∉ since) :
    valueKind (kindsAfter b (before ++ .declares name e :: since)) (.identifier name) =
      valueKind (kindsAfter b before) e := by
  rw [kindsAfter_append, kindsAfter, valueKind_kindsAfter h, valueKind_put, if_pos rfl]

theorem exists_lastDeclaration (name : String) (es : List Event) :
    (∀ e, .declares name e ∉ es) ∨
      ∃ before e since, es = before ++ .declares name e :: since ∧
        ∀ e', .declares name e' ∉ since := by
  induction es with
  | nil => exact .inl fun e => List.not_mem_nil
  | cons e es ih =>
    rcases ih with hnone | ⟨before, e', since, rfl, hsince⟩
    · cases e with
      | reads e => exact .inl fun e' he' => (List.mem_cons.mp he').elim nofun (hnone e')
      | declares name' e =>
        by_cases hname : name' = name
        · subst hname
          exact .inr ⟨[], e, es, rfl, hnone⟩
        · refine .inl fun e' he' => (List.mem_cons.mp he').elim (fun heq => ?_) (hnone e')
          cases heq
          exact hname rfl
    · exact .inr ⟨e :: before, e', since, rfl, hsince⟩

theorem valueKind_of_isText {before : List Event} {e : Expression} (h : IsText before e) :
    valueKind (kindsAfter [] before) e = .string := by
  induction h with
  | text before s => rfl
  | left _ ih => exact valueKind_binary_eq_string.mpr (.inl ih)
  | right _ ih => exact valueKind_binary_eq_string.mpr (.inr ih)
  | declared since hsince _ ih => rw [valueKind_of_lastDeclaration _ _ hsince, ih]

/-- The initializer of the last declaration stands behind fewer events, among which the declarations
of its own names are looked for in turn. -/
theorem isText_of_valueKind : ∀ (before : List Event) (e : Expression),
    valueKind (kindsAfter [] before) e = .string → IsText before e
  | before, .text s, _ => .text before s
  | before, .binary operator l r, h =>
    (valueKind_binary_eq_string.mp h).elim
      (fun hl => .left (isText_of_valueKind before l hl))
      (fun hr => .right (isText_of_valueKind before r hr))
  | before, .identifier name, h => by
    rcases exists_lastDeclaration name before with hnone | ⟨before', e, since, heq, hsince⟩
    · rw [valueKind_kindsAfter hnone] at h
      cases h
    · rw [heq, valueKind_of_lastDeclaration _ _ hsince] at h
      rw [heq]
      exact .declared since hsince (isText_of_valueKind before' e h)
termination_by before e => (before.length, e)
decreasing_by
  · exact Prod.Lex.right _ (by decreasing_tactic)
  · exact Prod.Lex.right _ (by decreasing_tactic)
  · apply Prod.Lex.left
    rw [heq, List.length_append, List.length_cons]
    exact Nat.lt_add_of_pos_right (Nat.succ_pos _)

/-- The emitter's kinds tell which expressions are texts. -/
theorem isText_iff {before : List Event} {e : Expression} :
    IsText before e ↔ valueKind (kindsAfter [] before) e = .string :=
  ⟨valueKind_of_isText, isText_of_valueKind before e⟩

/-! ## Sums with a text in them -/

/-- A sum with a text in it, under the kinds of names at its place. -/
def IsConcatenation (b : Bindings) : Expression → Prop
  | .binary operator left right =>
    operator = "+" ∧ valueKind b (.binary operator left right) = .string
  | .number _ | .text _ | .identifier _ | .foreign _ _ => False

/-- A sum with a text in it is read somewhere among events. -/
def Concatenates (b : Bindings) : List Event → Prop
  | [] => False
  | .reads e :: es => IsConcatenation b e ∨ Concatenates b es
  | .declares name e :: es => Concatenates (b.put name (valueKind b e)) es

theorem concatenates_append {es es' : List Event} :
    Concatenates b (es ++ es') ↔ Concatenates b es ∨ Concatenates (kindsAfter b es) es' := by
  induction es generalizing b with
  | nil => exact (iff_of_eq (false_or _)).symm
  | cons e es ih =>
    cases e with
    | reads e => exact (or_congr_right ih).trans or_assoc.symm
    | declares name e => exact ih

theorem concatenates_iff {es : List Event} :
    Concatenates b es ↔ ∃ before left right since,
      es = before ++ .reads (.binary "+" left right) :: since ∧
        valueKind (kindsAfter b before) (.binary "+" left right) = .string := by
  constructor
  · intro h
    induction es generalizing b with
    | nil => cases h
    | cons event es ih =>
      cases event with
      | declares name e =>
        obtain ⟨before, left, right, since, rfl, hkind⟩ := ih h
        exact ⟨.declares name e :: before, left, right, since, rfl, hkind⟩
      | reads e =>
        rcases h with hhere | hlater
        · cases e with
          | binary operator left right =>
            obtain ⟨rfl, hkind⟩ := hhere
            exact ⟨[], left, right, es, rfl, hkind⟩
          | number n => cases hhere
          | text s => cases hhere
          | identifier name => cases hhere
          | foreign kind data => cases hhere
        · obtain ⟨before, left, right, since, rfl, hkind⟩ := ih hlater
          exact ⟨.reads e :: before, left, right, since, rfl, hkind⟩
  · rintro ⟨before, left, right, since, rfl, hkind⟩
    exact concatenates_append.mpr (.inr (.inl ⟨rfl, hkind⟩))

theorem sumsTexts_iff {p : Program} : p.SumsTexts ↔ Concatenates [] p.events := by
  simp only [Program.SumsTexts, concatenates_iff, valueKind_binary_eq_string, isText_iff]

/-- A name that becomes a text makes nothing else of what is a text already. -/
theorem valueKind_put_string (name : String) {e : Expression} (h : valueKind b e = .string) :
    valueKind (b.put name .string) e = .string := by
  induction e with
  | number n => cases h
  | text s => rfl
  | identifier name' =>
    rw [valueKind_put]
    split
    next => rfl
    next => exact h
  | binary operator left right ihl ihr =>
    exact valueKind_binary_eq_string.mpr ((valueKind_binary_eq_string.mp h).imp ihl ihr)
  | foreign kind data => cases h

/-- A name that does not become a text makes no text. -/
theorem valueKind_of_put {name : String} {kind : ValueKind} (hkind : kind ≠ .string)
    {e : Expression} (h : valueKind (b.put name kind) e = .string) : valueKind b e = .string := by
  induction e with
  | number n => cases h
  | text s => rfl
  | identifier name' =>
    rw [valueKind_put] at h
    split at h
    next => exact absurd h hkind
    next => exact h
  | binary operator left right ihl ihr =>
    exact valueKind_binary_eq_string.mpr ((valueKind_binary_eq_string.mp h).imp ihl ihr)
  | foreign kind data => cases h

/-- That a declaration is known already makes no difference to its own initializer. -/
theorem valueKind_put_self (name : String) (e : Expression) :
    valueKind (b.put name (valueKind b e)) e = .string ↔ valueKind b e = .string := by
  by_cases h : valueKind b e = .string
  · rw [h]
    exact iff_of_true (valueKind_put_string name h) rfl
  · exact iff_of_false (fun hput => h (valueKind_of_put h hput)) h

theorem isConcatenation_put_self (name : String) (e : Expression) :
    IsConcatenation (b.put name (valueKind b e)) e ↔ IsConcatenation b e := by
  cases e with
  | binary operator left right => exact and_congr_right fun _ => valueKind_put_self name _
  | number n => rfl
  | text s => rfl
  | identifier name' => rfl
  | foreign kind data => rfl

/-! ## What is refused of a parsed program -/

variable {tokens : List Token}

theorem exists_primary (ht : t.Complete) (b : Bindings) {e : Expression}
    (he : e.IsPrimaryOf tokens) : ∃ text, expression t b e = .ok text := by
  cases e with
  | number n =>
    obtain ⟨text, htext⟩ := Text.Numeral.exists_write he.writable
    exact ⟨text, by rw [expression, htext]; rfl⟩
  | text s =>
    obtain ⟨text, htext⟩ := ht.exists_quote s
    exact ⟨text, by rw [expression, htext]; rfl⟩
  | identifier name => exact ⟨name, rfl⟩
  | binary operator left right => exact he.elim
  | foreign kind data => exact he.elim

theorem not_isConcatenation {e : Expression} (he : e.IsPrimaryOf tokens) :
    ¬IsConcatenation b e := by
  cases e with
  | binary operator left right => exact he.elim
  | number n => exact id
  | text s => exact id
  | identifier name => exact id
  | foreign kind data => exact id

/-- An expression is refused if it is a concatenation and the target has none. -/
theorem refusal_expression_eq_some (ht : t.Complete) (b : Bindings) {e : Expression}
    (he : e.IsBuiltOf tokens) (kind : String) :
    refusal (expression t b e) = some kind ↔
      kind = "BinaryExpression" ∧ t.concatenation = none ∧ IsConcatenation b e := by
  have hprimary {e : Expression} (he : e.IsPrimaryOf tokens) :
      refusal (expression t b e) = some kind ↔
        kind = "BinaryExpression" ∧ t.concatenation = none ∧ IsConcatenation b e := by
    obtain ⟨text, htext⟩ := exists_primary ht b he
    rw [htext]
    exact iff_of_false (Option.some_ne_none kind).symm fun h => not_isConcatenation he h.2.2
  cases e with
  | number n => exact hprimary he
  | text s => exact hprimary he
  | identifier name => exact hprimary he
  | foreign kind data => exact he.elim
  | binary operator left right =>
    obtain ⟨l, hl⟩ := exists_primary ht b he.2.1
    obtain ⟨r, hr⟩ := exists_primary ht b he.2.2
    rw [expression, hl, hr]
    simp only [ok_bind]
    by_cases hsum : operator = "+" ∧ valueKind b (.binary operator left right) = .string
    · obtain ⟨l', hl'⟩ := exists_asString ht b left l
      obtain ⟨r', hr'⟩ := exists_asString ht b right r
      simp only [if_pos hsum, hl', hr', ok_bind]
      by_cases hc : t.concatenation = none
      · have hnone : t.concatenate l' r' = .ok none := by rw [Target.concatenate, hc]
        rw [hnone]
        show some "BinaryExpression" = some kind ↔ _
        rw [Option.some.injEq, eq_comm]
        exact (and_iff_left ⟨hc, hsum⟩).symm
      · obtain ⟨text, htext⟩ := ht.exists_concatenate hc l' r'
        rw [htext]
        exact iff_of_false (Option.some_ne_none kind).symm fun h => hc h.2.1
    · obtain ⟨text, htext⟩ := ht.exists_binary operator l r
      rw [if_neg hsum, htext]
      exact iff_of_false (Option.some_ne_none kind).symm fun h => hsum h.2.2

/-- A condition is never refused. -/
theorem refusal_condition (ht : t.Complete) (b : Bindings) {c : Condition}
    (hc : c.IsBuiltOf tokens) : refusal (condition t b c) = none := by
  cases c with
  | foreign kind data => exact hc.elim
  | compare left operator right =>
    obtain ⟨l, hl⟩ := exists_primary ht b hc.2.1
    obtain ⟨r, hr⟩ := exists_primary ht b hc.2.2
    obtain ⟨text, htext⟩ := ht.exists_binary operator l r
    obtain ⟨text', htext'⟩ := Template.exists_fill ht.condition text
    rw [condition, hl, hr]
    show refusal ((t.binary operator l r).mapError .template >>= _) = none
    rw [htext]
    show refusal ((t.conditionFormat.fill text).mapError .template) = none
    rw [htext']
    rfl

/-- What there is for a refused condition does not apply. -/
theorem ite_refusal_condition (ht : t.Complete) (b : Bindings) {c : Condition}
    (hc : c.IsBuiltOf tokens) {α : Type} (a a' : α) :
    (if (refusal (condition t b c)).isSome then a else a') = a' := by
  rw [refusal_condition ht b hc]
  rfl

theorem kindsAfter_condition (b : Bindings) (c : Condition) (es : List Event) :
    kindsAfter b (c.events ++ es) = kindsAfter b es := by
  cases c with
  | compare left operator right => rfl
  | foreign kind data => rfl

/-- The operands of a condition are no sums. -/
theorem concatenates_condition {c : Condition} (hc : c.IsBuiltOf tokens) {es : List Event} :
    Concatenates b (c.events ++ es) ↔ Concatenates b es := by
  cases c with
  | foreign kind data => exact hc.elim
  | compare left operator right =>
    have hleft : ¬IsConcatenation b left := not_isConcatenation hc.2.1
    have hright : ¬IsConcatenation b right := not_isConcatenation hc.2.2
    exact (or_iff_right hleft).trans (or_iff_right hright)

mutual

/-- Behind a parsed statement the names have the kinds that its declarations give them. -/
theorem after_eq (ht : t.Complete) : ∀ {s : Statement} (b : Bindings), s.Has (.builtOf tokens) →
    after t b s = kindsAfter b s.events
  | .declare _ _, _, _ | .assign _ _, _, _ | .evaluate _, _, _ | .print _, _, _ => rfl
  | .foreign _ _, _, h => h.elim
  | .branch c body rest, b, ⟨hc, hbody, hrest⟩ => by
    rw [after, ite_refusal_condition ht b hc, allAfter_eq ht b hbody, restAfter_eq ht _ hrest,
      Statement.events, kindsAfter_condition, kindsAfter_append]
  | .loop c body, b, ⟨hc, hbody⟩ => by
    rw [after, ite_refusal_condition ht b hc, allAfter_eq ht b hbody, Statement.events,
      kindsAfter_condition]

theorem restAfter_eq (ht : t.Complete) : ∀ {r : Otherwise} (b : Bindings),
    r.Has (.builtOf tokens) → restAfter t b r = kindsAfter b r.events
  | .nothing, _, _ => rfl
  | .last body, b, hbody => by
    rw [restAfter, allAfter_eq ht b hbody, Otherwise.events]
  | .elseIf c body rest, b, ⟨hc, hbody, hrest⟩ => by
    rw [restAfter, ite_refusal_condition ht b hc, allAfter_eq ht b hbody,
      restAfter_eq ht _ hrest, Otherwise.events, kindsAfter_condition, kindsAfter_append]

theorem allAfter_eq (ht : t.Complete) : ∀ {ss : List Statement} (b : Bindings),
    AllHave (.builtOf tokens) ss → allAfter t b ss = kindsAfter b (allEvents ss)
  | [], _, _ => rfl
  | s :: ss, b, ⟨hs, hss⟩ => by
    rw [allAfter, after_eq ht b hs, allAfter_eq ht _ hss, allEvents, kindsAfter_append]

end

theorem restRejected_eq_none (ht : t.Complete) : ∀ {r : Otherwise} (b : Bindings),
    r.Has (.builtOf tokens) → restRejected t b r = none
  | .nothing, _, _ | .last _, _, _ => rfl
  | .elseIf c body rest, b, ⟨hc, _, hrest⟩ => by
    rw [restRejected, refusal_condition ht b hc, Option.none_or, restRejected_eq_none ht _ hrest]

/-- A kind that is dropped among events: there is a concatenation and the target has none. -/
def DroppedFor (t : Target) (b : Bindings) (es : List Event) (kind : String) : Prop :=
  kind = "BinaryExpression" ∧ t.concatenation = none ∧ Concatenates b es

theorem droppedFor_append {es es' : List Event} {kind : String} :
    DroppedFor t b (es ++ es') kind ↔
      DroppedFor t b es kind ∨ DroppedFor t (kindsAfter b es) es' kind := by
  simp only [DroppedFor, concatenates_append, and_or_left]

theorem droppedFor_condition {c : Condition} (hc : c.IsBuiltOf tokens) {es : List Event}
    {kind : String} : DroppedFor t b (c.events ++ es) kind ↔ DroppedFor t b es kind := by
  simp only [DroppedFor, concatenates_condition hc]

theorem refusal_eq_some_iff (ht : t.Complete) (b : Bindings) {e : Expression}
    (he : e.IsBuiltOf tokens) (kind : String) :
    refusal (expression t b e) = some kind ↔ DroppedFor t b [.reads e] kind := by
  rw [refusal_expression_eq_some ht b he]
  simp only [DroppedFor, Concatenates, or_false]

mutual

theorem mem_drops_statement (ht : t.Complete) (kind : String) :
    ∀ {s : Statement} (b : Bindings), s.Has (.builtOf tokens) →
      (kind ∈ dropsIn t b s ++ (rejected t b s).toList ↔ DroppedFor t b s.events kind)
  | .declare name e, b, ⟨_, he⟩ => by
    rw [dropsIn, rejected, List.nil_append, Option.mem_toList, refusal_eq_some_iff ht _ he]
    simp only [DroppedFor, Statement.events, Concatenates, isConcatenation_put_self, or_false]
  | .assign _ e, b, ⟨_, he⟩ => by
    rw [dropsIn, rejected, List.nil_append, Option.mem_toList]
    exact refusal_eq_some_iff ht b he kind
  | .print e, b, he => by
    rw [dropsIn, rejected, List.nil_append, Option.mem_toList]
    exact refusal_eq_some_iff ht b he kind
  | .evaluate e, b, ⟨name, hname, hn⟩ => by
    subst hname
    rw [dropsIn, rejected, List.nil_append, Option.mem_toList]
    exact refusal_eq_some_iff ht b (show (Expression.identifier name).IsBuiltOf tokens from hn) kind
  | .foreign _ _, _, h => h.elim
  | .branch c body rest, b, ⟨hc, hbody, hrest⟩ => by
    rw [dropsIn, ite_refusal_condition ht b hc, rejected, refusal_condition ht b hc,
      Option.none_or, restRejected_eq_none ht _ hrest, Option.toList_none, List.append_nil,
      List.mem_append, mem_allDrops ht kind b hbody, mem_restDrops ht kind _ hrest,
      allAfter_eq ht b hbody, Statement.events, droppedFor_condition hc, droppedFor_append]
  | .loop c body, b, ⟨hc, hbody⟩ => by
    rw [dropsIn, ite_refusal_condition ht b hc, rejected, refusal_condition ht b hc,
      Option.toList_none, List.append_nil, mem_allDrops ht kind b hbody, Statement.events,
      droppedFor_condition hc]

theorem mem_restDrops (ht : t.Complete) (kind : String) :
    ∀ {r : Otherwise} (b : Bindings), r.Has (.builtOf tokens) →
      (kind ∈ restDrops t b r ↔ DroppedFor t b r.events kind)
  | .nothing, _, _ => iff_of_false nofun fun h => h.2.2
  | .last body, b, hbody => by
    rw [restDrops, mem_allDrops ht kind b hbody, Otherwise.events]
  | .elseIf c body rest, b, ⟨hc, hbody, hrest⟩ => by
    rw [restDrops, ite_refusal_condition ht b hc, List.mem_append, mem_allDrops ht kind b hbody,
      mem_restDrops ht kind _ hrest, allAfter_eq ht b hbody, Otherwise.events,
      droppedFor_condition hc, droppedFor_append]

/-- Comment lines stand in a parsed program for concatenations alone. -/
theorem mem_allDrops (ht : t.Complete) (kind : String) :
    ∀ {ss : List Statement} (b : Bindings), AllHave (.builtOf tokens) ss →
      (kind ∈ allDrops t b ss ↔ DroppedFor t b (allEvents ss) kind)
  | [], _, _ => iff_of_false nofun fun h => h.2.2
  | s :: ss, b, ⟨hs, hss⟩ => by
    rw [allDrops, List.mem_append, mem_drops_statement ht kind b hs, mem_allDrops ht kind _ hss,
      after_eq ht b hs, allEvents, droppedFor_append]

end

/-- Every target but C has a concatenation. -/
theorem concatenation_eq_none_iff (ht : t ∈ Target.catalogue) : t.concatenation = none ↔ t = .c := by
  revert t
  decide

end Rendering

open Rendering

/-- On every target but C a parsed program has a text. On C emission fails just when the program
sums texts somewhere, and it fails for the sum. -/
theorem emit_fail_iff_sumsTexts {mode : Strictness} {tokens : List Token} {p : Program}
    (h : parse mode tokens = .ok p) :
    (∀ t ∈ Target.catalogue, t ≠ .c → ∃ out, emit t .fail p = .ok out) ∧
      ∀ failure, emit .c .fail p = .error failure ↔
        p.SumsTexts ∧ failure = .unsupported "BinaryExpression" "c" := by
  obtain ⟨ss, rfl, hbuilt⟩ := exists_built_of_parse h
  have hwritable := allHave_of_implies (Form.builtOf_implies_writable tokens) ss hbuilt
  constructor
  · intro t ht hne
    have hc := Target.complete_of_mem_catalogue ht
    have hdrops : allDrops t [] ss = [] := by
      refine List.eq_nil_iff_forall_not_mem.mpr fun kind hkind => ?_
      obtain ⟨-, hnone, -⟩ := (mem_allDrops hc kind [] hbuilt).mp hkind
      exact hne ((concatenation_eq_none_iff ht).mp hnone)
    exact ⟨_, by rw [emit_fail hc hwritable, hdrops]⟩
  · intro failure
    have hc : Target.c.Complete := Target.complete_of_mem_catalogue (by simp [Target.catalogue])
    have hmem (kind : String) : kind ∈ allDrops .c [] ss ↔
        kind = "BinaryExpression" ∧ Program.SumsTexts (.statements ss) := by
      rw [mem_allDrops hc kind [] hbuilt, sumsTexts_iff]
      exact and_congr_right fun _ => and_iff_right rfl
    rw [emit_fail hc hwritable]
    cases hdrops : allDrops .c [] ss with
    | nil =>
      refine iff_of_false nofun fun h => ?_
      have hsum := (hmem "BinaryExpression").mpr ⟨rfl, h.1⟩
      rw [hdrops] at hsum
      cases hsum
    | cons kind ds =>
      obtain ⟨rfl, hsums⟩ := (hmem kind).mp (hdrops ▸ List.mem_cons_self)
      rw [Except.error.injEq, eq_comm]
      exact (and_iff_right hsums).symm

/-- A name that was given a text and then, in the body of a branch, a sum of a number and itself. -/
def nestedSum : List Token :=
  [{ kind := .keyword .var, value := "ye" }, { kind := .identifier, value := "s" },
    { kind := .operator, value := "=" }, { kind := .string, value := "a" },
    { kind := .keyword .ifStart, value := "agar" }, { kind := .identifier, value := "s" },
    { kind := .operator, value := "==" }, { kind := .number, value := "1" },
    { kind := .keyword .var, value := "ye" }, { kind := .identifier, value := "s" },
    { kind := .operator, value := "=" }, { kind := .number, value := "1" },
    { kind := .operator, value := "+" }, { kind := .identifier, value := "s" }]

/-- The sum reads the text of the outer declaration, not the value that is being declared. -/
theorem emit_fail_nestedSum :
    let p : Program := .statements
      [.declare "s" (.text "a"),
        .branch (.compare (.identifier "s") "==" (.number 1))
          [.declare "s" (.binary "+" (.number 1) (.identifier "s"))] .nothing]
    parse .strict nestedSum = .ok p ∧ p.SumsTexts ∧
      emit .c .fail p = .error (.unsupported "BinaryExpression" "c") ∧
      ∃ out, emit .java .fail p = .ok out := by
  intro p
  have h : parse .strict nestedSum = .ok p := Results.eq_ok_of_toOption (by decide +kernel)
  have htext : IsText [.reads (.text "a"), .declares "s" (.text "a"), .reads (.identifier "s"),
      .reads (.number 1)] (.identifier "s") :=
    .declared [.reads (.identifier "s"), .reads (.number 1)] (by simp) (.text [_] "a")
  have hsums : p.SumsTexts := ⟨_, .number 1, .identifier "s", _, rfl, .inr htext⟩
  have hresult := emit_fail_iff_sumsTexts h
  exact ⟨h, hsums, (hresult.2 _).mpr ⟨hsums, rfl⟩,
    hresult.1 .java (by simp [Target.catalogue]) (by decide)⟩

end Boli
