import Boli.Proofs.Emission.Context
import Boli.Proofs.Emission.Kinds
import Boli.Proofs.Results
import Boli.Target.Catalogue

/-!
# What a dropped statement leaves behind

A statement that the comment policy drops takes back its lines and its depth. It does not take back
the kinds that it recorded for names, and these reach what is rendered later. So it is without a
trace, whatever follows it, just when these kinds are the ones that the names had before, or when
the target renders all kinds the same, as JavaScript alone does (`dropped_traceless_iff`).
-/

set_option autoImplicit false

namespace Boli.Emission

open Boli.Results (ok_bind)

/-! ## JavaScript -/

/-- In JavaScript a concatenation is written as any other sum. -/
theorem expression_javaScript_binary (b : Bindings) (operator : String) (left right : Expression) :
    expression .javaScript b (.binary operator left right) =
      (do
        let l ← expression .javaScript b left
        let r ← expression .javaScript b right
        (Target.javaScript.binary operator l r).mapError .template) := by
  rw [expression]
  congr 1
  funext l
  congr 1
  funext r
  split
  next h =>
    obtain ⟨rfl, -⟩ := h
    have hs (e : Expression) (text : String) : asString .javaScript b e text = .ok text := by
      unfold asString
      split
      · rfl
      · show Except.ok (text ++ "") = _
        rw [String.append_empty]
    rw [hs, hs]
    show Except.ok (l ++ (" + " ++ (r ++ ""))) = Except.ok (l ++ " " ++ "+" ++ " " ++ r)
    rw [String.append_empty, show " + " = " " ++ "+" ++ " " from rfl]
    simp only [String.append_assoc]
  next => rfl

theorem respects_javaScript : Respects .javaScript fun _ _ => True where
  expression {b b'} _ e := by
    induction e with
    | number n => rfl
    | text s => rfl
    | identifier name => rfl
    | binary operator left right ihl ihr =>
      rw [expression_javaScript_binary, expression_javaScript_binary, ihl, ihr]
    | foreign kind data => rfl
  print {b b'} _ e := by
    cases valueKind b e <;> cases valueKind b' e <;> rfl
  declaration _ e name value := rfl
  put _ _ _ := trivial

/-! ## Telling two kinds apart -/

/-- A statement that shows the kind of a name, in every target but JavaScript. -/
def probe (t : Target) (name : String) : Statement :=
  if t.typed then .declare name (.identifier name)
  else .evaluate (.binary "+" (.identifier name) (.number 1))

/-- What the probe is written as, by the kind of the name. -/
def Shows (t : Target) (name : String) (kind : ValueKind) (text : String) : Prop :=
  ∀ σ : State, valueKind σ.bindings (.identifier name) = kind →
    ∃ b, construct t .comment (probe t name) σ =
      .ok () { σ with lines := σ.lines ++ [⟨σ.depth, text⟩], bindings := b }

theorem exists_shows_of_typed {t : Target} (ht : t.typed = true)
    (hd : t.declaration = Target.typedDeclaration)
    (hne : t.typeName .string ≠ t.typeName .number) (name : String) :
    ∃ x y, Shows t name .string x ∧ Shows t name .number y ∧ x ≠ y := by
  let text (kind : ValueKind) : String :=
    t.typeName kind ++ (" " ++ (name ++ (" = " ++ (name ++ "")))) ++ t.terminator
  have hs (kind : ValueKind) : Shows t name kind (text kind) := by
    intro σ h
    rw [probe, if_pos ht, construct_declare, h, hd]
    exact ⟨_, rfl⟩
  refine ⟨text .string, text .number, hs _, hs _, ?_⟩
  intro h
  exact hne ((String.append_left_inj _).1 ((String.append_left_inj _).1 h))

theorem write_one : Text.Numeral.write 1 = .ok "1" := by rfl

theorem shows_number {t : Target} (ht : t.typed = false) (ho : t.operators.get? "+" = none)
    (name : String) : Shows t name .number (name ++ " + 1" ++ t.terminator) := by
  intro σ h
  have hk : ¬valueKind σ.bindings (.binary "+" (.identifier name) (.number 1)) = .string := by
    rw [valueKind, h]
    simp [valueKind]
  have he : expression t σ.bindings (.binary "+" (.identifier name) (.number 1)) =
      .ok (name ++ " + 1") := by
    simp only [expression, hk, write_one, Target.binary, ho, and_false, if_false]
    show Except.ok (name ++ " " ++ "+" ++ " " ++ "1") = _
    simp only [String.append_assoc]
    rfl
  rw [probe, if_neg (by simp [ht]), construct_evaluate, he]
  exact ⟨_, rfl⟩

theorem shows_string {t : Target} (ht : t.typed = false) {template : Template}
    (hc : t.concatenation = some template) {name one text : String}
    (hs : t.stringify.fill "1" = .ok one)
    (hf : template.fillNamed (Target.operands name one) = .ok text) :
    Shows t name .string (text ++ t.terminator) := by
  intro σ h
  have hk : valueKind σ.bindings (.binary "+" (.identifier name) (.number 1)) = .string := by
    rw [valueKind, h]
    simp
  have hn : ¬valueKind σ.bindings (.number 1) = .string := by simp [valueKind]
  have he : expression t σ.bindings (.binary "+" (.identifier name) (.number 1)) = .ok text := by
    have hl : asString t σ.bindings (.identifier name) name = .ok name := if_pos h
    have hr : asString t σ.bindings (.number 1) "1" = .ok one := by rw [asString, if_neg hn, hs]; rfl
    have hsum : t.concatenate name one = .ok (some text) := by
      rw [Target.concatenate, hc]
      exact congrArg (some <$> ·) hf
    have hname : expression t σ.bindings (.identifier name) = .ok name := by rw [expression]
    have hone : expression t σ.bindings (.number 1) = .ok "1" := by rw [expression, write_one]; rfl
    rw [expression, hname, ok_bind, hone, ok_bind, if_pos ⟨rfl, hk⟩, hl, ok_bind, hr, ok_bind, hsum]
    rfl
  rw [probe, if_neg (by simp [ht]), construct_evaluate, he]
  exact ⟨_, rfl⟩

/-- Every target but JavaScript writes the probe of a text and that of a number differently. -/
theorem exists_shows {t : Target} (ht : t ∈ Target.catalogue) (hjs : t ≠ .javaScript)
    (name : String) :
    ∃ x y, Shows t name .string x ∧ Shows t name .number y ∧ x ≠ y := by
  have hsuffix {x y terminator : String} (h : x ≠ y) :
      name ++ x ++ terminator ≠ name ++ y ++ terminator := by
    intro he
    exact h ((String.append_right_inj _).1 ((String.append_left_inj _).1 he))
  simp only [Target.catalogue, List.mem_cons, List.not_mem_nil, or_false] at ht
  rcases ht with rfl | rfl | rfl | rfl | rfl | rfl | rfl | rfl
  case inl => exact absurd rfl hjs
  case inr.inl => exact exists_shows_of_typed rfl rfl (by decide) name
  case inr.inr.inl => exact exists_shows_of_typed rfl rfl (by decide) name
  case inr.inr.inr.inl =>
    have hs : Shows .go name .string (name ++ " + fmt.Sprint(1)" ++ "") :=
      shows_string rfl rfl rfl rfl
    exact ⟨_, _, hs, shows_number rfl rfl name, hsuffix (by decide)⟩
  case inr.inr.inr.inr.inl =>
    have hs : Shows .rust name .string
        ("format!(\"\x7b\x7d\x7b\x7d\", " ++ (name ++ ", 1)") ++ ";") :=
      shows_string rfl rfl rfl rfl
    refine ⟨_, _, hs, shows_number rfl rfl name, ?_⟩
    intro he
    have hl := congrArg String.length ((String.append_left_inj _).1 he)
    rw [String.length_append, String.length_append, String.length_append] at hl
    change 16 + (name.length + 4) = name.length + 4 at hl
    omega
  case inr.inr.inr.inr.inr.inl =>
    have hs : Shows .kotlin name .string (name ++ " + 1.toString()" ++ "") :=
      shows_string rfl rfl rfl rfl
    exact ⟨_, _, hs, shows_number rfl rfl name, hsuffix (by decide)⟩
  case inr.inr.inr.inr.inr.inr.inl => exact exists_shows_of_typed rfl rfl (by decide) name
  case inr.inr.inr.inr.inr.inr.inr =>
    have hs : Shows .python name .string (name ++ " + str(1)" ++ "") :=
      shows_string rfl rfl rfl rfl
    exact ⟨_, _, hs, shows_number rfl rfl name, hsuffix (by decide)⟩

theorem finish_ne {t : Target} {σ τ : State} {lines : List Line} {depth : Int} {x y : String}
    (hσ : σ.lines = lines ++ [⟨depth, x⟩]) (hτ : τ.lines = lines ++ [⟨depth, y⟩]) (h : x ≠ y) :
    finish t σ ≠ finish t τ := by
  obtain ⟨p, hp⟩ := exists_finish_eq t lines
  obtain ⟨u, hu⟩ := hp []
  intro he
  rw [hu σ _ hσ, hu τ _ hτ] at he
  have hline := (String.append_right_inj _).1 ((String.append_left_inj _).1 he)
  exact h ((String.append_right_inj _).1 hline)

/-! ## The statement at its place -/

/-- A state with the comment line for a node of a kind. -/
def State.commented (t : Target) (σ : State) (kind : String) : State :=
  { σ with
    lines := σ.lines ++ [⟨σ.depth, t.commentMark ++ " Unsupported statement type: " ++ kind⟩]
    dropped := σ.dropped ++ [kind] }

/-- The comment policy drops a statement at the place of a program for a node of a kind: the emitter
comes to the statement in the state `before` and fails in the state `after`. -/
structure Drops (t : Target) (Γ : Context) (s : Statement) (kind : String)
    (before after : State) : Prop where
  enter : Γ.enter t (start t) = .ok () before
  fails : ∃ target, construct t .comment s before = .error (.unsupported kind target) after

section Drops

variable {t : Target} {Γ : Context} {s : Statement} {kind : String} {before after : State}

theorem Drops.statement_eq (h : Drops t Γ s kind before after) :
    statement t .comment s before =
      .ok () (State.commented t { after with lines := before.lines, depth := before.depth } kind) :=
    by
  obtain ⟨target, hf⟩ := h.fails
  rw [statement, guarded_run, hf]
  rfl

theorem statement_foreign (t : Target) (kind : String) (data : Json) (σ : State) :
    statement t .comment (.foreign kind data) σ = .ok () (σ.commented t kind) := by
  rw [statement, guarded_run, construct]
  rfl

/-- Only texts and numbers are recorded on the way to the statement and inside it. -/
theorem Drops.plain (h : Drops t Γ s kind before after) :
    Plain before.bindings ∧ Plain after.bindings := by
  have hstart : Alike (fun b b' => b = b' ∧ Plain b) (start t) (start t) :=
    ⟨rfl, rfl, rfl, fun name => .inr rfl⟩
  have hbefore := Γ.enter_related (respects_plain t) _ _ hstart
  rw [h.enter] at hbefore
  cases hbefore
  case ok hb =>
    obtain ⟨target, hf⟩ := h.fails
    have hafter : Outcome (Alike fun b b' => b = b' ∧ Plain b) (construct t .comment s before)
        (construct t .comment s before) := alike.construct_related (respects_plain t) s _ _ hb
    rw [hf] at hafter
    cases hafter
    case error ha => exact ⟨hb.bindings.2, ha.bindings.2⟩

theorem finish_congr {σ τ : State} (h : σ.lines = τ.lines) : finish t σ = finish t τ := by
  rw [finish, finish, State.output, State.output, h]

/-- A target that cannot tell the bindings apart writes the same program. -/
theorem Drops.emit_eq {B : Bindings → Bindings → Prop} (hB : Respects t B)
    (h : Drops t Γ s kind before after) (hb : B after.bindings before.bindings) (data : Json) :
    emit t .comment (.statements (Γ.plug s)) =
      emit t .comment (.statements (Γ.plug (.foreign kind data))) := by
  have hplace : Outcome (Alike B) (statement t .comment s before)
      (statement t .comment (.foreign kind data) before) := by
    rw [h.statement_eq, statement_foreign]
    exact .ok ⟨rfl, rfl, hb⟩
  have hwhole := Γ.outcome_plug hB hplace h.enter
  rw [emit_statements .comment (Γ.fillIfEmpty_plug t _),
    emit_statements .comment (Γ.fillIfEmpty_plug t _)]
  cases h₁ : each t .comment (Γ.plug s) (start t) <;>
    cases h₂ : each t .comment (Γ.plug (.foreign kind data)) (start t) <;>
    rw [h₁, h₂] at hwhole <;> cases hwhole
  case ok.ok.ok hR => exact congrArg Except.ok (finish_congr hR.lines)
  case error.error.error hR => rfl

/-- The program that goes on with nothing but the probe of a name. -/
theorem emit_probe {name x : String} {σ τ : State} (he : Γ.enter t (start t) = .ok () before)
    (hs : statement t .comment s before = .ok () σ) (hl : Γ.leave t σ = .ok () τ)
    (hx : Shows t name (valueKind τ.bindings (.identifier name)) x) :
    ∃ ρ : State, ρ.lines = τ.lines ++ [⟨τ.depth, x⟩] ∧
      emit t .comment (.statements ((Γ.ending [probe t name]).plug s)) = .ok (finish t ρ) := by
  obtain ⟨τ', hl', hplug⟩ := Γ.each_plug_ending hs he
  rw [hl] at hl'
  cases hl'
  obtain ⟨b, hprobe⟩ := hx τ rfl
  refine ⟨{ τ with lines := τ.lines ++ [⟨τ.depth, x⟩], bindings := b }, rfl, ?_⟩
  rw [emit_statements .comment (Context.fillIfEmpty_plug t _ _), Context.plug_ending,
    each_append, bind_of_ok hplug, each, bind_of_ok (guarded_of_ok hprobe)]
  rfl

/-- Where a name has got another kind, some program shows it. -/
theorem Drops.emit_ne (ht : t ∈ Target.catalogue) (hjs : t ≠ .javaScript)
    (h : Drops t Γ s kind before after) (data : Json) {name : String}
    (hne : valueKind after.bindings (.identifier name) ≠
      valueKind before.bindings (.identifier name)) :
    emit t .comment (.statements ((Γ.ending [probe t name]).plug s)) ≠
      emit t .comment (.statements ((Γ.ending [probe t name]).plug (.foreign kind data))) := by
  obtain ⟨hb, ha⟩ := h.plain
  obtain ⟨x, y, hx, hy, hxy⟩ : ∃ x y, Shows t name (valueKind after.bindings (.identifier name)) x ∧
      Shows t name (valueKind before.bindings (.identifier name)) y ∧ x ≠ y := by
    obtain ⟨x, y, hx, hy, hxy⟩ := exists_shows ht hjs name
    rcases ha name with hka | hka <;> rcases hb name with hkb | hkb <;> rw [hka, hkb] at hne ⊢
    · exact absurd rfl hne
    · exact ⟨x, y, hx, hy, hxy⟩
    · exact ⟨y, x, hy, hx, hxy.symm⟩
    · exact absurd rfl hne
  -- both runs leave the place with the same lines, and each with its own bindings
  let σ := State.commented t { after with lines := before.lines, depth := before.depth } kind
  have hout : Alike (fun b b' => b = after.bindings ∧ b' = before.bindings) σ
      (before.commented t kind) := ⟨rfl, rfl, rfl, rfl⟩
  have hleave := Γ.leave_related (t := t) _ _ hout
  obtain ⟨τ, hl, -⟩ := Γ.each_plug_ending h.statement_eq h.enter
  cases hl' : Γ.leave t (before.commented t kind) <;> rw [hl, hl'] at hleave <;> cases hleave
  case ok.ok τ' hR =>
    obtain ⟨hτ, hτ'⟩ := hR.bindings
    obtain ⟨ρ, hρ, hemit⟩ := emit_probe h.enter h.statement_eq hl (hτ ▸ hx)
    obtain ⟨ρ', hρ', hemit'⟩ := emit_probe h.enter (statement_foreign t kind data before) hl'
      (hτ' ▸ hy)
    rw [hemit, hemit']
    intro he
    refine finish_ne hρ ?_ hxy (Except.ok.inj he)
    rw [hρ', hR.lines, hR.depth]

end Drops

/-- A dropped statement leaves its comment line and the kinds that it recorded. Whatever follows it,
the program is the one with a foreign node in its place, just when every name kept its kind or the
target is JavaScript. -/
theorem dropped_traceless_iff {t : Target} (ht : t ∈ Target.catalogue) {Γ : Context} {s : Statement}
    {kind : String} {before after : State} (h : Drops t Γ s kind before after) (data : Json) :
    statement t .comment s before =
        .ok () { before.commented t kind with
          bindings := after.bindings, dropped := after.dropped ++ [kind] } ∧
      ((∀ Γ' : Context, Γ'.ending [] = Γ.ending [] →
          emit t .comment (.statements (Γ'.plug s)) =
            emit t .comment (.statements (Γ'.plug (.foreign kind data)))) ↔
        t = .javaScript ∨ SameKinds after.bindings before.bindings) := by
  refine ⟨h.statement_eq, ?_, ?_⟩
  · intro hall
    by_cases hjs : t = .javaScript
    · exact .inl hjs
    refine .inr fun name => Decidable.byContradiction fun hne => ?_
    exact h.emit_ne ht hjs data hne (hall _ (Γ.ending_ending _ _))
  · intro hkinds Γ' hΓ
    have h' : Drops t Γ' s kind before after :=
      ⟨by rw [← Γ'.enter_ending t [], hΓ, Γ.enter_ending, h.enter], h.fails⟩
    rcases hkinds with rfl | hsame
    · exact h'.emit_eq respects_javaScript trivial data
    · exact h'.emit_eq (respects_sameKinds t) hsame data

/-- A branch that declares a text in its first body and then fails at its second condition. -/
def halfBranch : Statement :=
  .branch (.compare (.number 1) "==" (.number 1)) [.declare "s" (.text "a")]
    (.elseIf (.foreign "Call" .null) [] .nothing)

/-- The place behind a declaration in the body of a loop. -/
def inLoop : Context :=
  .loopBody [] (.compare (.identifier "n") "<" (.number 2)) (.here [.declare "n" (.number 1)] []) []

/-- The kind of the text is still there behind the dropped branch. -/
theorem dropped_traceless_halfBranch :
    let before : State :=
      { start .python with
        lines := [⟨0, "def main():"⟩, ⟨1, "while n < 2:"⟩, ⟨2, "n = 1"⟩]
        depth := 2
        bindings := [("n", .number)] }
    let after : State :=
      { before with
        lines := before.lines ++ [⟨2, "if 1 == 1:"⟩, ⟨3, "s = \"a\""⟩]
        bindings := [("n", .number), ("s", .string)] }
    Target.python ∈ Target.catalogue ∧ Drops .python inLoop halfBranch "Call" before after ∧
    statement .python .comment halfBranch before =
        .ok () { before.commented .python "Call" with
          bindings := after.bindings, dropped := after.dropped ++ ["Call"] } ∧
      ((∀ Γ' : Context, Γ'.ending [] = inLoop.ending [] →
          emit .python .comment (.statements (Γ'.plug halfBranch)) =
            emit .python .comment (.statements (Γ'.plug (.foreign "Call" .null)))) ↔
        Target.python = .javaScript ∨ SameKinds after.bindings before.bindings) := by
  intro before after
  have ht : Target.python ∈ Target.catalogue := by simp [Target.catalogue]
  have h : Drops .python inLoop halfBranch "Call" before after := ⟨rfl, "py", rfl⟩
  exact ⟨ht, h, dropped_traceless_iff ht h .null⟩

/-- A dropped declaration is not without a trace: the print call behind it takes the recorded kind
for the kind of its value. -/
theorem not_dropped_traceless :
    ¬∀ (t : Target) (Γ : Context) (s : Statement) (kind : String) (before after : State)
      (data : Json), t ∈ Target.catalogue → Drops t Γ s kind before after →
        emit t .comment (.statements (Γ.plug s)) =
          emit t .comment (.statements (Γ.plug (.foreign kind data))) := by
  intro h
  have hd : Drops .c (.here [] [.print (.identifier "s")])
      (.declare "s" (.binary "+" (.text "a") (.text "b"))) "BinaryExpression" (start .c)
      { start .c with bindings := [("s", .string)] } := ⟨rfl, "c", rfl⟩
  have he := h _ _ _ _ _ _ .null (by simp [Target.catalogue]) hd
  have hs : emit .c .comment (.statements
      [.declare "s" (.binary "+" (.text "a") (.text "b")), .print (.identifier "s")]) =
      .ok ("#include <stdio.h>\n\nint main() \x7b\n" ++
        "  // Unsupported statement type: BinaryExpression\n" ++
        "  printf(\"%s\\n\", s);\n  return 0;\n\x7d\n") := by rfl
  have hf : emit .c .comment (.statements
      [.foreign "BinaryExpression" .null, .print (.identifier "s")]) =
      .ok ("#include <stdio.h>\n\nint main() \x7b\n" ++
        "  // Unsupported statement type: BinaryExpression\n" ++
        "  printf(\"%d\\n\", s);\n  return 0;\n\x7d\n") := by rfl
  have : (.ok _ : Except Failure String) = .ok _ := hs.symm.trans (he.trans hf)
  exact absurd (Except.ok.inj this) (by decide)

end Boli.Emission
