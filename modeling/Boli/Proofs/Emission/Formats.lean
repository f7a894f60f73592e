import Boli.Program.Parser
import Boli.Proofs.Emission.Agreement
import Boli.Token.Lexer

/-!
# Print formats and types in C

The emitter goes by the last declaration of a name above in the text, and C by the visible one. So
what it writes has the print formats and types of the visible declarations just when both rules
agree. A program whose names are declared where C sees them (`AllWellScoped`) need not be of this
kind (`not_formats_follow_scopes`); it is when no declaration gives another kind to a name that is
visible already (`AllKeepKinds`).
-/

set_option autoImplicit false

namespace Boli.Scoping

open Emission Results

/-- The names in an expression. -/
def names : Expression → List String
  | .identifier name => [name]
  | .binary _ left right => names left ++ names right
  | .number _ | .text _ | .foreign _ _ => []

/-- The names in a condition. -/
def conditionNames : Condition → List String
  | .compare left _ right => names left ++ names right
  | .foreign _ _ => []

/-- Names that all have a visible declaration. -/
def Declared (v : Bindings) (read : List String) : Prop := ∀ name ∈ read, (v.get? name).isSome = true

/-- The names that a statement declares in the body that it stands in. -/
def declaredBy : Statement → List String
  | .declare name _ => [name]
  | .assign _ _ | .evaluate _ | .print _ | .branch _ _ _ | .loop _ _ | .foreign _ _ => []

mutual

/-- Where `v` are the kinds of the visible declarations and the body has declared the names `own`,
every name that a statement reads or assigns is declared, an assigned value has the kind of the
declaration, and no body declares a name twice. -/
def WellScoped (own : List String) (v : Bindings) : Statement → Prop
  | .declare name e => Declared v (names e) ∧ name ∉ own
  | .assign name e => Declared v (names e) ∧ v.get? name = some (valueKind v e)
  | .evaluate e | .print e => Declared v (names e)
  | .branch c body rest =>
    Declared v (conditionNames c) ∧ AllWellScoped [] v body ∧ RestWellScoped v rest
  | .loop c body => Declared v (conditionNames c) ∧ AllWellScoped [] v body
  | .foreign _ _ => True

/-- The same of what follows the body of a branch. -/
def RestWellScoped (v : Bindings) : Otherwise → Prop
  | .nothing => True
  | .last body => AllWellScoped [] v body
  | .elseIf c body rest =>
    Declared v (conditionNames c) ∧ AllWellScoped [] v body ∧ RestWellScoped v rest

/-- The same of statements. -/
def AllWellScoped (own : List String) (v : Bindings) : List Statement → Prop
  | [] => True
  | s :: ss =>
    WellScoped own v s ∧ AllWellScoped (declaredBy s ++ own) (after blockScope v s) ss

end

mutual

/-- A declaration of a name that is visible already gives it the same kind. -/
def KeepKinds (v : Bindings) : Statement → Prop
  | .declare name e => ∀ kind, v.get? name = some kind → valueKind v e = kind
  | .branch _ body rest => AllKeepKinds v body ∧ RestKeepKinds v rest
  | .loop _ body => AllKeepKinds v body
  | .assign _ _ | .evaluate _ | .print _ | .foreign _ _ => True

/-- The same of what follows the body of a branch. -/
def RestKeepKinds (v : Bindings) : Otherwise → Prop
  | .nothing => True
  | .last body => AllKeepKinds v body
  | .elseIf _ body rest => AllKeepKinds v body ∧ RestKeepKinds v rest

/-- The same of statements. -/
def AllKeepKinds (v : Bindings) : List Statement → Prop
  | [] => True
  | s :: ss => KeepKinds v s ∧ AllKeepKinds (after blockScope v s) ss

end

/-! ## Declarations that keep their kinds -/

/-- Every name that has a kind in `v` has it in `b` as well. -/
def Covers (b v : Bindings) : Prop := ∀ name kind, v.get? name = some kind → b.get? name = some kind

theorem Covers.trans {b v w : Bindings} (h : Covers b v) (h' : Covers v w) : Covers b w :=
  fun name kind hk => h name kind (h' name kind hk)

theorem Covers.valueKind_eq {b v : Bindings} (h : Covers b v) {e : Expression}
    (he : Declared v (names e)) : valueKind b e = valueKind v e := by
  induction e with
  | number n => rfl
  | text s => rfl
  | identifier name =>
    obtain ⟨kind, hk⟩ := Option.isSome_iff_exists.1 (he name (by simp [names]))
    rw [valueKind, valueKind, hk, h name kind hk]
  | binary operator left right ihl ihr =>
    have hl : Declared v (names left) := fun name hn => he name (by simp [names, hn])
    have hr : Declared v (names right) := fun name hn => he name (by simp [names, hn])
    rw [valueKind, valueKind, ihl hl, ihr hr]
  | foreign kind data => rfl

theorem Covers.put {b v : Bindings} (h : Covers b v) (name : String) (kind : ValueKind) :
    Covers (b.put name kind) (v.put name kind) := by
  intro name' kind' hk
  rw [Dictionary.get?_put] at hk ⊢
  split at hk
  · rw [if_pos ‹_›]
    exact hk
  · rw [if_neg ‹_›]
    exact h name' kind' hk

/-- What follows the body of a branch closes all of its blocks. -/
theorem restAfter_blockScope (v : Bindings) (r : Otherwise) : restAfter blockScope v r = v := by
  cases r with
  | nothing => rfl
  | last _ => rfl
  | elseIf _ _ rest => exact restAfter_blockScope v rest

mutual

/-- The two rules agree on a statement and cover the same names behind it; it takes no kind from a
name. -/
theorem agree_of_keepKinds : ∀ (s : Statement) {own : List String} {b v : Bindings}, Covers b v →
    WellScoped own v s → KeepKinds v s →
    Agree b v s ∧ Covers (after noScope b s) (after blockScope v s) ∧
      Covers (after blockScope v s) v
  | .declare name e, own, b, v, hc, hw, hk => by
    have he : valueKind b e = valueKind v e := hc.valueKind_eq hw.1
    refine ⟨by rw [Agree, he], ?_, ?_⟩
    · rw [after, after, he]
      exact hc.put name _
    · -- the declaration hides one of the same kind, if any
      intro name' kind hkind
      rw [after, Dictionary.get?_put]
      split
      · subst name'
        rw [hk kind hkind]
      · exact hkind
  | .assign _ _, _, _, _, hc, _, _ => ⟨trivial, hc, fun _ _ h => h⟩
  | .evaluate _, _, _, _, hc, _, _ => ⟨trivial, hc, fun _ _ h => h⟩
  | .print e, _, _, _, hc, hw, _ => ⟨by rw [Agree, hc.valueKind_eq hw], hc, fun _ _ h => h⟩
  | .foreign _ _, _, _, _, hc, _, _ => ⟨trivial, hc, fun _ _ h => h⟩
  | .branch c body rest, own, b, v, hc, hw, hk => by
    obtain ⟨hbody, hin, hout⟩ := allAgree_of_keepKinds body hc hw.2.1 hk.1
    obtain ⟨hrest, hbehind⟩ := restAgree_of_keepKinds rest (hin.trans hout) hw.2.2 hk.2
    refine ⟨⟨hbody, hrest⟩, ?_, ?_⟩
    · rw [after, after, blockScope, restAfter_blockScope]
      exact hbehind
    · rw [after, blockScope, restAfter_blockScope]
      exact fun _ _ h => h
  | .loop c body, own, b, v, hc, hw, hk => by
    obtain ⟨hbody, hin, hout⟩ := allAgree_of_keepKinds body hc hw.2 hk
    exact ⟨hbody, hin.trans hout, fun _ _ h => h⟩

theorem restAgree_of_keepKinds : ∀ (r : Otherwise) {b v : Bindings}, Covers b v →
    RestWellScoped v r → RestKeepKinds v r →
    RestAgree b v r ∧ Covers (restAfter noScope b r) v
  | .nothing, _, _, hc, _, _ => ⟨trivial, hc⟩
  | .last body, b, v, hc, hw, hk => by
    obtain ⟨hbody, hin, hout⟩ := allAgree_of_keepKinds body hc hw hk
    exact ⟨hbody, hin.trans hout⟩
  | .elseIf c body rest, b, v, hc, hw, hk => by
    obtain ⟨hbody, hin, hout⟩ := allAgree_of_keepKinds body hc hw.2.1 hk.1
    obtain ⟨hrest, hbehind⟩ := restAgree_of_keepKinds rest (hin.trans hout) hw.2.2 hk.2
    exact ⟨⟨hbody, hrest⟩, hbehind⟩

theorem allAgree_of_keepKinds : ∀ (ss : List Statement) {own : List String} {b v : Bindings},
    Covers b v → AllWellScoped own v ss → AllKeepKinds v ss →
    AllAgree b v ss ∧ Covers (allAfter noScope b ss) (allAfter blockScope v ss) ∧
      Covers (allAfter blockScope v ss) v
  | [], _, _, _, hc, _, _ => ⟨trivial, hc, fun _ _ h => h⟩
  | s :: ss, own, b, v, hc, hw, hk => by
    obtain ⟨hs, hin, hout⟩ := agree_of_keepKinds s hc hw.1 hk.1
    obtain ⟨hss, hin', hout'⟩ := allAgree_of_keepKinds ss hin hw.2 hk.2
    exact ⟨⟨hs, hss⟩, hin', hout'.trans hout⟩

end

/-! ## What the emitter writes -/

/-- What the emitter writes for C without a failure has the print formats and types of the visible
declarations just when the last declarations above give the same kinds, and so wherever names are
declared where C sees them and keep their kinds. -/
theorem formats_follow_scopes_iff {ss : List Statement} {out : String}
    (h : emit .c .fail (.statements ss) = .ok out) :
    (out = text blockScope ss ↔ AllAgree [] [] ss) ∧
      (AllWellScoped [] [] ss → AllKeepKinds [] ss → out = text blockScope ss) := by
  have hiff : out = text blockScope ss ↔ AllAgree [] [] ss := by
    rw [emit_c h]
    exact text_eq_iff ss
  refine ⟨hiff, fun hw hk => hiff.2 ?_⟩
  have hc : Covers [] [] := fun _ _ h => h
  exact (allAgree_of_keepKinds ss hc hw hk).1

/-- A text that an inner body declares again as a text, and a number that only one body knows. -/
def redeclared : List Statement :=
  [.declare "s" (.text "a"),
    .branch (.compare (.number 1) "<" (.number 2))
      [.declare "s" (.binary "*" (.identifier "s") (.number 2)), .print (.identifier "s")]
      (.last [.declare "n" (.number 1), .print (.identifier "n")]),
    .print (.identifier "s")]

/-- The program `redeclared` in C. -/
def redeclaredText : String :=
  "#include <stdio.h>\n\nint main() \x7b\n  char* s = \"a\";\n  if (1 < 2) \x7b\n" ++
    "    char* s = s * 2;\n    printf(\"%s\\n\", s);\n  \x7d else \x7b\n    int n = 1;\n" ++
    "    printf(\"%d\\n\", n);\n  \x7d\n  printf(\"%s\\n\", s);\n  return 0;\n\x7d\n"

/-- Declarations that keep their kinds have the formats of the visible ones. -/
theorem formats_follow_scopes_redeclared :
    emit .c .fail (.statements redeclared) = .ok redeclaredText ∧
    AllWellScoped [] [] redeclared ∧ AllKeepKinds [] redeclared ∧
    (redeclaredText = text blockScope redeclared ↔ AllAgree [] [] redeclared) ∧
      redeclaredText = text blockScope redeclared := by
  have h : emit .c .fail (.statements redeclared) = .ok redeclaredText :=
    eq_ok_of_toOption (by decide +kernel)
  have hw : AllWellScoped [] [] redeclared := by
    simp [redeclared, AllWellScoped, WellScoped, RestWellScoped, Declared, names, conditionNames,
      after, restAfter, blockScope, Dictionary.put, Dictionary.get?, valueKind]
  have hk : AllKeepKinds [] redeclared := by
    simp [redeclared, AllKeepKinds, KeepKinds, RestKeepKinds, after, Dictionary.put,
      Dictionary.get?, valueKind]
  obtain ⟨hiff, hkept⟩ := formats_follow_scopes_iff h
  exact ⟨h, hw, hk, hiff, hkept hw hk⟩

/-- A number that an inner body hides behind a text. -/
def hidden : List Statement :=
  [.declare "x" (.number 5),
    .branch (.compare (.number 1) "==" (.number 1)) [.declare "x" (.text "a")] .nothing,
    .print (.identifier "x")]

/-- Names that are declared where C sees them are not enough: the print call behind the inner body
takes the number for a text. -/
theorem not_formats_follow_scopes :
    ¬∀ (table : Keyword.Table) (source : String) (tokens : List Token) (ss : List Statement)
      (out : String), tokenize table source = .ok tokens →
        parse .strict tokens = .ok (.statements ss) → AllWellScoped [] [] ss →
        emit .c .fail (.statements ss) = .ok out → out = text blockScope ss := by
  intro h
  let source := "ye x = 5 agar 1 == 1 \x7b ye x = \"a\" \x7d bol x"
  have hsource : ((tokenize .standard source).toOption.bind fun tokens =>
      (parse .strict tokens).toOption) = some (.statements hidden) := by
    decide +kernel
  obtain ⟨tokens, ht, hp⟩ := Option.bind_eq_some_iff.1 hsource
  have hw : AllWellScoped [] [] hidden := by
    simp [hidden, AllWellScoped, WellScoped, RestWellScoped, Declared, names, conditionNames,
      after, restAfter, blockScope, Dictionary.put, Dictionary.get?, valueKind]
  have hc : emit .c .fail (.statements hidden) = .ok
      ("#include <stdio.h>\n\nint main() \x7b\n  int x = 5;\n  if (1 == 1) \x7b\n" ++
        "    char* x = \"a\";\n  \x7d\n  printf(\"%s\\n\", x);\n  return 0;\n\x7d\n") := by rfl
  have hv : text blockScope hidden =
      "#include <stdio.h>\n\nint main() \x7b\n  int x = 5;\n  if (1 == 1) \x7b\n" ++
        "    char* x = \"a\";\n  \x7d\n  printf(\"%d\\n\", x);\n  return 0;\n\x7d\n" := by rfl
  have he := h .standard source tokens hidden _ (eq_ok_of_toOption ht) (eq_ok_of_toOption hp) hw hc
  rw [hv] at he
  exact absurd he (by decide)

end Boli.Scoping
