import Boli.Compile
import Boli.Proofs.Emission.Policies
import Boli.Proofs.Parsing.Blotting
import Boli.Proofs.Parsing.Built
import Boli.Proofs.Results
import Boli.Proofs.Tiling

/-!
# What compilation fails with

Compilation has a text or a diagnostic for every source, every target and every table of keywords,
with one exception: a numeral of more than 4300 digits, once the parser comes to read it
(`compile_undiagnosed_iff`).

Stage by stage, a look-up and the tokenizer fail with nothing but diagnostics. The tokenizer hands
the parser numerals of ASCII digits, so that only their length can be a fault. What the parser makes
holds numbers that can be written, and the catalogue has no target with a template that cannot be
filled, so that emission fails for a node alone.
-/

set_option autoImplicit false

namespace Boli

open Boli.Keyword (Table)
open Text.Numeral (digitLimit)

/-! ## Stages -/

/-- The targets that are found are those of the catalogue. -/
theorem Target.mem_catalogue_of_find {identifier : String} {t : Target}
    (h : Target.find identifier = .ok t) : t ∈ catalogue := by
  unfold Target.find at h
  cases hget : Registry.standard.get? (lower (Text.trim identifier)) with
  | none => rw [hget] at h; cases h
  | some t' =>
    rw [hget] at h
    cases h
    obtain ⟨t'', ht, hmem⟩ := List.mem_flatMap.mp (Dictionary.mem_of_get? hget)
    obtain ⟨key, -, heq⟩ := List.mem_map.mp hmem
    obtain ⟨-, rfl⟩ := Prod.mk.inj heq
    exact ht

/-- Of a lexeme there is no token that is blotted out, and its number token is a run of digits. -/
theorem Token.Tells.isLexed {table : Table} {l : Lexeme} {t : Token} (hl : l.WellFormed)
    (h : t.Tells table l) : t.IsLexed := by
  obtain ⟨kind, value, text, line, column, offset⟩ := t
  have hmeans : l.Means table kind value := h.means
  cases hmeans with
  | @number digits =>
    obtain ⟨hne, hdigits⟩ := hl
    refine ⟨nofun, fun _ => ?_, fun _ => ?_⟩
    · rw [String.length_ofList]
      exact List.length_pos_iff.mpr hne
    · rwa [String.toList_ofList]
  | _ => exact ⟨nofun, nofun, nofun⟩

theorem isLexed_of_tokenize {table : Table} {source : String} {tokens : List Token}
    (h : tokenize table source = .ok tokens) : ∀ t ∈ tokens, t.IsLexed := by
  intro t ht
  obtain ⟨l, hl, htells⟩ := exists_lexeme_of_tokenize h t ht
  exact htells.isLexed hl

/-- Of a program that was parsed emission can refuse no more than a node. -/
theorem exists_unsupported_of_emit {t : Target} (ht : t ∈ Target.catalogue) {policy : Policy}
    {mode : Strictness} {tokens : List Token} {p : Program} {failure : Emission.Failure}
    (hp : parse mode tokens = .ok p) (h : emit t policy p = .error failure) :
    ∃ kind, failure = .unsupported kind t.name := by
  have hc := Target.complete_of_mem_catalogue ht
  obtain ⟨ss, rfl, hbuilt⟩ := exists_built_of_parse hp
  have hss : AllHave .writable ss :=
    allHave_of_implies (Form.builtOf_implies_writable tokens) ss hbuilt
  cases policy with
  | comment =>
    rw [Rendering.emit_comment hc hss] at h
    cases h
  | fail =>
    rw [Rendering.emit_fail hc hss] at h
    split at h
    next => cases h
    next kind ds _ =>
      cases h
      exact ⟨kind, rfl⟩

/-! ## Compilation -/

section Stages

variable {t : Target} {table : Table} {mode : Strictness} {policy : Policy} {source : String}
  {tokens : List Token}

theorem compileFor_of_parse_eq_error {failure : Parser.Failure}
    (htokens : tokenize table source = .ok tokens) (hparse : parse mode tokens = .error failure) :
    compileFor t table mode policy source = .error (.grammar failure) := by
  rw [compileFor, htokens, Except.mapError, Results.ok_bind, hparse]
  rfl

theorem compileFor_of_parse_eq_ok {p : Program} (htokens : tokenize table source = .ok tokens)
    (hparse : parse mode tokens = .ok p) :
    compileFor t table mode policy source = (emit t policy p).mapError .emission := by
  rw [compileFor, htokens, Except.mapError, Results.ok_bind, hparse]
  rfl

/-- For a target of the catalogue only the reading of a numeral fails without a diagnostic. -/
theorem compileFor_undiagnosed_iff (ht : t ∈ Target.catalogue) {error : CompileError} :
    compileFor t table mode policy source = .error error ∧ error.isDiagnostic = false ↔
      ∃ tokens fault, tokenize table source = .ok tokens ∧
        parse mode tokens = .error (.numeral fault) ∧ error = .grammar (.numeral fault) := by
  constructor
  · rintro ⟨h, hundiagnosed⟩
    cases htokens : tokenize table source with
    | error failure =>
      rw [compileFor, htokens] at h
      cases h
      cases hundiagnosed
    | ok tokens =>
      cases hparse : parse mode tokens with
      | error failure =>
        rw [compileFor_of_parse_eq_error htokens hparse] at h
        cases h
        cases failure with
        | unexpected expected found => cases hundiagnosed
        | numeral fault => exact ⟨tokens, fault, rfl, hparse, rfl⟩
      | ok p =>
        rw [compileFor_of_parse_eq_ok htokens hparse] at h
        cases hemit : emit t policy p with
        | ok out => rw [hemit] at h; cases h
        | error failure =>
          obtain ⟨kind, rfl⟩ := exists_unsupported_of_emit ht hparse hemit
          rw [hemit] at h
          cases h
          cases hundiagnosed
  · rintro ⟨tokens, fault, htokens, hparse, rfl⟩
    exact ⟨compileFor_of_parse_eq_error htokens hparse, rfl⟩

end Stages

/-- Compilation fails without a diagnostic just when the target is known, the source has tokens, and
the parser comes to a numeral of more than 4300 digits where it reads a primary: were it blotted out,
the parser would miss the primary there. The failure gives the number of its digits. -/
theorem compile_undiagnosed_iff (source identifier : String) (table : Table) (mode : Strictness)
    (policy : Policy) (error : CompileError) :
    compile source identifier table mode policy = .error error ∧ error.isDiagnostic = false ↔
      (∃ t, Target.find identifier = .ok t) ∧
      ∃ tokens, tokenize table source = .ok tokens ∧
        ∃ t ∈ tokens, t.IsOverlong ∧
          parse mode (tokens.map Token.blot) = .error (.unexpected .primary t.blot) ∧
          error = .grammar (.numeral (.tooLongToRead t.value.length)) := by
  cases hfind : Target.find identifier with
  | error unknown =>
    constructor
    · rintro ⟨h, hundiagnosed⟩
      rw [compile, hfind] at h
      cases h
      cases hundiagnosed
    · rintro ⟨⟨t, ht⟩, -⟩
      cases ht
  | ok t =>
    have hcompile : compile source identifier table mode policy =
        compileFor t table mode policy source := by rw [compile, hfind]; rfl
    rw [hcompile, compileFor_undiagnosed_iff (Target.mem_catalogue_of_find hfind)]
    constructor
    · rintro ⟨tokens, fault, htokens, hparse, rfl⟩
      obtain ⟨u, hu, hlong, hblot, rfl⟩ :=
        (parse_eq_numeral_iff (isLexed_of_tokenize htokens)).mp hparse
      exact ⟨⟨t, rfl⟩, tokens, htokens, u, hu, hlong, hblot, rfl⟩
    · rintro ⟨-, tokens, htokens, u, hu, hlong, hblot, rfl⟩
      exact ⟨tokens, _, htokens, (parse_eq_numeral_iff (isLexed_of_tokenize htokens)).mpr
        ⟨u, hu, hlong, hblot, rfl⟩, rfl⟩

/-! ## A numeral that is printed -/

/-- The tiling of a statement that prints a numeral. -/
def printedTiling (digits : List Char) : Tiling :=
  .tile [] (.word ['b', 'o', 'l']) (.tile [' '] (.number digits) (.last []))

/-- The source of a statement that prints a numeral. -/
def printedSource (digits : List Char) : String := String.ofList (printedTiling digits).text

theorem valid_printedTiling {digits : List Char} (hne : digits ≠ [])
    (hdigits : ∀ c ∈ digits, c.isDigit = true) : (printedTiling digits).Valid := by
  have hletters : ∀ c ∈ ['o', 'l'], c.isAlphanum = true :=
    List.forall_mem_cons.mpr ⟨rfl, List.forall_mem_singleton.mpr rfl⟩
  have hblank : ∀ c ∈ [' '], Text.isBlank c = true := List.forall_mem_singleton.mpr rfl
  refine ⟨nofun, ⟨'b', ['o', 'l'], rfl, rfl, hletters⟩, ?_, hblank, ⟨hne, hdigits⟩, nofun, nofun⟩
  intro c hc
  cases hc
  rfl

theorem parse_print_blot {print blot : Token} (hprint : print.kind = .keyword .print)
    (hblot : blot.kind = .blotted) (mode : Strictness) :
    parse mode [print, blot] = .error (.unexpected .primary blot) := by
  obtain ⟨_, value, text, line, column, offset⟩ := print
  obtain ⟨_, value', text', line', column', offset'⟩ := blot
  cases hprint
  cases hblot
  rfl

/-- For a numeral that is too long the limit is reported, and no place in the source. -/
theorem compile_printedSource {digits : List Char} (hlong : digitLimit < digits.length)
    (hdigits : ∀ c ∈ digits, c.isDigit = true) (mode : Strictness) (policy : Policy) :
    compile (printedSource digits) "js" .standard mode policy =
      .error (.grammar (.numeral (.tooLongToRead digits.length))) := by
  have hfind : Target.find "js" = .ok .javaScript := by decide +kernel
  have hvalid := valid_printedTiling (List.ne_nil_of_length_pos (by omega)) hdigits
  have htokens := Tiling.tokens_text .standard {} hvalid
  rw [← String.toList_ofList (l := (printedTiling digits).text)] at htokens
  obtain ⟨print, number, heq, hprint, hnumber, hvalue⟩ : ∃ print number : Token,
      (printedTiling digits).tokens .standard {} = [print, number] ∧
      print.kind = .keyword .print ∧ number.kind = .number ∧ number.value = String.ofList digits :=
    ⟨_, _, rfl, rfl, rfl, rfl⟩
  rw [heq] at htokens
  have hoverlong : number.IsOverlong := ⟨hnumber, by rwa [hvalue, String.length_ofList]⟩
  have hparse : parse mode [print, number] = .error (.numeral (.tooLongToRead digits.length)) := by
    apply (parse_eq_numeral_iff (isLexed_of_tokenize htokens)).mpr
    refine ⟨number, by simp, hoverlong, ?_, by rw [hvalue, String.length_ofList]⟩
    have hkept : print.blot = print := Token.blot_eq_self (Token.not_isOverlong (hprint ▸ rfl))
    rw [List.map_cons, List.map_singleton, hkept]
    exact parse_print_blot hprint (Token.kind_blot hoverlong) mode
  rw [compile, hfind]
  exact compileFor_of_parse_eq_error htokens hparse

/-- So not every failure is a diagnostic. -/
theorem not_failures_diagnosed :
    ¬∀ (source identifier : String) (table : Table) (mode : Strictness) (policy : Policy)
      (error : CompileError), compile source identifier table mode policy = .error error →
        error.isDiagnostic = true := by
  intro h
  have hlong : digitLimit < (List.replicate 4301 '1').length := by
    rw [List.length_replicate]
    decide
  have hdigits : ∀ c ∈ List.replicate 4301 '1', c.isDigit = true := by
    intro c hc
    rw [List.eq_of_mem_replicate hc]
    decide
  cases h _ _ _ _ _ _ (compile_printedSource hlong hdigits .strict .fail)

end Boli
