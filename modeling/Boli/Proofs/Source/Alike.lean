import Boli.Proofs.Diagnostics
import Boli.Proofs.Parsing.Alike

/-!
# Sources with alike tokens

Compilation goes by the tokens of a source alone, and of these by no more than the parser reads. So
sources with alike tokens, be it by different tables of keywords, are compiled to the same text, or
the errors tell the same (`compile_alike`).
-/

set_option autoImplicit false

namespace Boli

open Boli.Keyword (Table)

/-- What a token is apart from where it stands: its kind, its value and its spelling. -/
def Token.content (t : Token) : Token.Kind × String × String := (t.kind, t.value, t.text)

theorem Token.alike_of_content_eq {t u : Token} (h : t.content = u.content) : t.Alike u := by
  obtain ⟨hkind, hrest⟩ := Prod.mk.inj h
  exact ⟨hkind.symm, fun _ => (Prod.mk.inj hrest).1.symm⟩

theorem Token.forall₂_alike_of_map_content {ts us : List Token}
    (h : ts.map Token.content = us.map Token.content) : List.Forall₂ Token.Alike ts us := by
  have hcontents : List.Forall₂ Eq (ts.map Token.content) (us.map Token.content) := by
    rwa [List.forall₂_eq_eq_eq]
  rw [List.forall₂_map_left_iff, List.forall₂_map_right_iff] at hcontents
  exact hcontents.imp fun _ _ => Token.alike_of_content_eq

/-- The tokens of a tiling are its lexemes but for the places. -/
theorem Tiling.map_content_tokens (table : Table) (place : Place) (T : Tiling) :
    (T.tokens table place).map Token.content =
      T.lexemes.map fun l => (Token.ofLexeme table {} l).content := by
  induction T generalizing place with
  | last gap => rfl
  | tile gap l rest ih => exact congrArg (_ :: ·) (ih _)

/-- Errors of one class, for sources with these tokens and with those. If it is a token that does
not fit, the parser asks for the same, and the token stands at the same index and has the same
kind. -/
inductive CompileError.Alike (mode : Strictness) (ts us : List Token) :
    CompileError → CompileError → Prop where
  | target (error : Target.Unknown) : CompileError.Alike mode ts us (.target error) (.target error)
  | grammar {f f' : Parser.Failure} : Parser.Failure.Alike mode ts us f f' →
      CompileError.Alike mode ts us (.grammar f) (.grammar f')
  | emission (failure : Emission.Failure) :
      CompileError.Alike mode ts us (.emission failure) (.emission failure)

variable {table table' : Table} {source source' : String} {ts us : List Token}

theorem compileFor_alike (htokens : tokenize table source = .ok ts)
    (htokens' : tokenize table' source' = .ok us) (h : List.Forall₂ Token.Alike ts us) (t : Target)
    (mode : Strictness) (policy : Policy) :
    Results.SameOr (CompileError.Alike mode ts us) (compileFor t table mode policy source)
      (compileFor t table' mode policy source') := by
  have hparse := parse_alike mode h
  generalize hp : parse mode ts = r at hparse
  generalize hp' : parse mode us = r' at hparse
  cases hparse with
  | ok p =>
    rw [compileFor_of_parse_eq_ok htokens hp, compileFor_of_parse_eq_ok htokens' hp']
    cases emit t policy p with
    | ok text => exact .ok text
    | error failure => exact .error (.emission failure)
  | error hfailure =>
    rw [compileFor_of_parse_eq_error htokens hp, compileFor_of_parse_eq_error htokens' hp']
    exact .error (.grammar hfailure)

/-- Sources with alike tokens are compiled to the same text, or they fail with alike errors. -/
theorem compile_alike (htokens : tokenize table source = .ok ts)
    (htokens' : tokenize table' source' = .ok us) (h : List.Forall₂ Token.Alike ts us)
    (identifier : String) (mode : Strictness) (policy : Policy) :
    Results.SameOr (CompileError.Alike mode ts us) (compile source identifier table mode policy)
      (compile source' identifier table' mode policy) := by
  unfold compile
  cases Target.find identifier with
  | error e => exact .error (.target e)
  | ok t => exact compileFor_alike htokens htokens' h t mode policy

end Boli
