import Boli.Proofs.Cli.Driver
import Boli.Proofs.Keyword.Loading
import Boli.Proofs.Path

/-!
# Errors that no report is made of

A run ends with status 0, 1 or 2, or it ends with an error that is not reported. With arguments that
are texts there are six ways to come to such an error (`Escapes`), each of them open to a user: a mark
in the place of the policy, an array or an object in the place of a keyword, a source or an output
path with the character U+0000 in it, a source file that is no UTF-8, and a numeral that is too long.
Every other failure has its status (`run_ending_cases`).

The stages of a run come one after the other, and an error counts only where all stages before it have
a result.

Two more ways are left aside here. Arguments that hold lone surrogates can make paths or code without
bytes: such runs are those of `runLoose`, and `Boli.Proofs.Cli.Atomicity` tells what becomes of the
files. And there is no limit here to how deep a program may be nested, so that none is run into.
-/

set_option autoImplicit false

namespace Boli.Cli

open Boli.Keyword (Alias Configuration Container Table Valid container?)
open Boli.Results (bind_eq_error_iff mapError_eq_error_iff mapError_ok ok_bind)

variable {a : Arguments} {tree : FileTree} {e : RunError}

/-! ## Unreported errors -/

/-- The policy of a run is known and its target is registered, so that it begins to read files. -/
def Arguments.Begins (a : Arguments) : Prop :=
  (∃ policy, a.policy = some policy) ∧ ∃ t, Target.select a.target a.out = .ok t

/-- The errors that end a run without a report. -/
inductive Escapes (a : Arguments) (tree : FileTree) : RunError → Prop where
  /-- The option for the policy was given the mark `--`. -/
  | policy : a.policy = none → Escapes a tree (.policy ⟨.array []⟩)
  /-- In the keyword file the first value that names no keyword is an array or an object. -/
  | keywords {path : String} {before after : Configuration} {entry : Alias × Json}
      {container : Container} : a.Begins → a.keywordsPath = some path →
    Keyword.loadConfiguration tree path = .ok (before ++ entry :: after) →
    Valid (Configuration.groups before) → container? entry.2 = some container →
    Escapes a tree (.keywords (.table (.compositeKind container)))
  /-- The path of the source holds the character that ends a path. -/
  | sourcePath {table : Table} : a.Begins → a.table tree = .ok table → a.isString = false →
    '\x00' ∈ a.source.toList → Escapes a tree (.source (.unreadable .embeddedNull a.source))
  /-- The source file is no UTF-8. -/
  | sourceBytes {table : Table} {bytes : List UInt8} {fault : Text.Utf8.Fault} : a.Begins →
    a.table tree = .ok table → a.isString = false → tree.read a.source = .ok bytes →
    Text.Utf8.decode bytes = .error fault → Escapes a tree (.source (.notUtf8 fault))
  /-- The parser comes to read a numeral of more than 4300 digits. -/
  | numeral {table : Table} {text : String} {tokens : List Token} {t : Token} : a.Begins →
    a.table tree = .ok table → a.text tree = .ok text → tokenize table text = .ok tokens →
    t ∈ tokens → t.IsOverlong →
    Boli.parse a.strictness (tokens.map Token.blot) = .error (.unexpected .primary t.blot) →
    Escapes a tree (.compile (.grammar (.numeral (.tooLongToRead t.value.length))))
  /-- There is code for an output path that holds the character that ends a path. -/
  | outputPath {t : Target} {code path : String} : a.code tree = .ok (t, code) →
    a.toStdout = false → a.outPath = some path → '\x00' ∈ path.toList →
    Escapes a tree (.output .embeddedNull path)

/-! ## The stages of a run -/

/-- The error of the first stage that has one is the error of the run. -/
theorem code_eq_of_begins (h : a.Begins) (tree : FileTree) : ∃ (policy : Policy) (t : Target),
    a.code tree = do
      let table ← a.table tree
      let text ← a.text tree
      let tokens ← a.tokens table text
      let program ← (Boli.parse a.strictness tokens).mapError (.compile ∘ .grammar)
      let code ← (emit t policy program).mapError (.compile ∘ .emission)
      return (t, code) := by
  obtain ⟨⟨policy, hpolicy⟩, t, ht⟩ := h
  refine ⟨policy, t, ?_⟩
  rw [Arguments.code, givenPolicy_eq_ok_iff.mpr hpolicy, ht]
  rfl

theorem code_of_table (h : a.Begins) (htable : a.table tree = .error e) : a.code tree = .error e := by
  obtain ⟨policy, t, hcode⟩ := code_eq_of_begins h tree
  rw [hcode, htable]
  rfl

theorem code_of_text {table : Table} (h : a.Begins) (htable : a.table tree = .ok table)
    (htext : a.text tree = .error e) : a.code tree = .error e := by
  obtain ⟨policy, t, hcode⟩ := code_eq_of_begins h tree
  rw [hcode, htable, htext]
  rfl

theorem code_of_parse {table : Table} {text : String} {tokens : List Token}
    {failure : Parser.Failure} (h : a.Begins) (htable : a.table tree = .ok table)
    (htext : a.text tree = .ok text) (htokens : tokenize table text = .ok tokens)
    (hparse : Boli.parse a.strictness tokens = .error failure) :
    a.code tree = .error (.compile (.grammar failure)) := by
  obtain ⟨policy, t, hcode⟩ := code_eq_of_begins h tree
  rw [hcode, htable, htext]
  simp only [ok_bind, tokens_eq_ok_iff.mpr htokens, hparse]
  rfl

theorem result_of_code (h : a.code tree = .error e) : a.result tree = .error e := by
  rw [Arguments.result, h]
  rfl

/-! ## What each stage lets escape -/

theorem faultTreatment_eq_escapes_iff {fault : FileTree.Fault} :
    faultTreatment fault = .escapes ↔ fault.isNumbered = false := by
  unfold faultTreatment
  cases fault.isNumbered with
  | true => decide
  | false => decide

theorem treatment_keywords_eq_escapes_iff {error : Keyword.FileError} :
    (RunError.keywords error).treatment = .escapes ↔
      ∃ container, error = .table (.compositeKind container) := by
  constructor
  · intro h
    cases error with
    | table error =>
      cases error with
      | compositeKind container => exact ⟨container, rfl⟩
      | unknownKind shown word => cases h
      | notAWord shown => cases h
      | notAMapping => cases h
      | collisions found => cases h
    | unreadable fault path => cases h
    | notUtf8 fault => cases h
    | notJson => cases h
    | numeralTooLong digits => cases h
    | notAnObject => cases h
  · intro h
    obtain ⟨container, rfl⟩ := h
    rfl

/-- Beside a source that was read there is a path for the code. -/
theorem null_notMem_stem {text : String} {t : Target} (ht : t ∈ Target.catalogue)
    (htext : a.text tree = .ok text) (hfile : a.isString = false) :
    '\x00' ∉ (Path.stem a.source ++ "." ++ t.name).toList := by
  have hname : ∀ t ∈ Target.catalogue, '\x00' ∉ ("." ++ t.name).toList := by decide +kernel
  obtain ⟨bytes, hread⟩ := exists_read_of_text htext hfile
  rw [String.append_assoc, String.toList_append, List.mem_append]
  rintro (hstem | hnull)
  · have hsource : tree.read a.source = .error .embeddedNull :=
      (FileTree.read_unnumbered_iff.mpr ⟨rfl, Path.mem_of_mem_stem hstem⟩).1
    rw [hread] at hsource
    cases hsource
  · exact hname t ht hnull

section Texts

variable (hlone : a.lone = none)

include hlone

/-- A keyword file fails without a report for an array or an object alone. -/
theorem escapes_of_table (hbegins : a.Begins) (h : a.table tree = .error e)
    (hescapes : e.treatment = .escapes) : Escapes a tree e := by
  unfold Arguments.table at h
  split at h
  next => cases h
  next path hpath =>
    rw [checkPath_eq hlone, mapError_ok, ok_bind] at h
    obtain ⟨error, herror, rfl⟩ := mapError_eq_error_iff.mp h
    obtain ⟨container, rfl⟩ := treatment_keywords_eq_escapes_iff.mp hescapes
    obtain ⟨c, hload, hwith⟩ := Keyword.ofFile_eq_table_iff.mp herror
    obtain ⟨before, entry, after, rfl, hvalid, hcontainer⟩ :=
      Keyword.withAliases_eq_compositeKind_iff.mp hwith
    exact .keywords hbegins hpath hload hvalid hcontainer

/-- A source fails without a report for its path or for its bytes. -/
theorem escapes_of_text {table : Table} (hbegins : a.Begins) (htable : a.table tree = .ok table)
    (h : a.text tree = .error e) (hescapes : e.treatment = .escapes) : Escapes a tree e := by
  unfold Arguments.text at h
  split at h
  next => cases h
  next hfile =>
    rw [Bool.not_eq_true] at hfile
    rw [checkPath_eq hlone, mapError_ok, ok_bind] at h
    rcases bind_eq_error_iff.mp h with h | ⟨text, -, h⟩
    · obtain ⟨fault, hfault, rfl⟩ := mapError_eq_error_iff.mp h
      rcases bind_eq_error_iff.mp hfault with hfault | ⟨bytes, hread, hfault⟩
      · obtain ⟨fault, hread, rfl⟩ := mapError_eq_error_iff.mp hfault
        obtain ⟨rfl, hnull⟩ := FileTree.read_unnumbered_iff.mp
          ⟨hread, faultTreatment_eq_escapes_iff.mp hescapes⟩
        exact .sourcePath hbegins htable hfile hnull
      · have hread := Results.eq_ok_of_mapError hread
        rcases bind_eq_error_iff.mp hfault with hfault | ⟨text, -, hfault⟩
        · obtain ⟨fault, hdecode, rfl⟩ := mapError_eq_error_iff.mp hfault
          exact .sourceBytes hbegins htable hfile hread hdecode
        · cases hfault
    · cases h

/-- Up to its code a run fails without a report in one of these ways alone. -/
theorem escapes_of_code (h : a.code tree = .error e) (hescapes : e.treatment = .escapes) :
    Escapes a tree e := by
  unfold Arguments.code at h
  rcases bind_eq_error_iff.mp h with h | ⟨policy, hpolicy, h⟩
  · unfold Arguments.givenPolicy at h
    split at h
    next => cases h
    next hnone =>
      cases h
      exact .policy hnone
  rcases bind_eq_error_iff.mp h with h | ⟨t, hselect, h⟩
  · obtain ⟨unknown, -, rfl⟩ := mapError_eq_error_iff.mp h
    cases hescapes
  have hselect := Results.eq_ok_of_mapError hselect
  have hbegins : a.Begins := ⟨⟨policy, givenPolicy_eq_ok_iff.mp hpolicy⟩, t, hselect⟩
  rcases bind_eq_error_iff.mp h with h | ⟨table, htable, h⟩
  · exact escapes_of_table hlone hbegins h hescapes
  rcases bind_eq_error_iff.mp h with h | ⟨text, htext, h⟩
  · exact escapes_of_text hlone hbegins htable h hescapes
  rw [tokens_eq hlone] at h
  rcases bind_eq_error_iff.mp h with h | ⟨tokens, htokens, h⟩
  · obtain ⟨failure, -, rfl⟩ := mapError_eq_error_iff.mp h
    cases hescapes
  have htokens := Results.eq_ok_of_mapError htokens
  rcases bind_eq_error_iff.mp h with h | ⟨program, hprogram, h⟩
  · obtain ⟨failure, hparse, rfl⟩ := mapError_eq_error_iff.mp h
    cases failure with
    | unexpected expected found => cases hescapes
    | numeral fault =>
      obtain ⟨t, ht, hlong, hblot, rfl⟩ :=
        (parse_eq_numeral_iff (isLexed_of_tokenize htokens)).mp hparse
      exact .numeral hbegins htable htext htokens ht hlong hblot
  have hprogram := Results.eq_ok_of_mapError hprogram
  rcases bind_eq_error_iff.mp h with h | ⟨code, -, h⟩
  · -- emission refuses nothing but nodes, and that is reported
    obtain ⟨failure, hemit, rfl⟩ := mapError_eq_error_iff.mp h
    have ht := Target.mem_catalogue_of_find ((select_eq_find a).symm.trans hselect)
    obtain ⟨kind, rfl⟩ := exists_unsupported_of_emit ht hprogram hemit
    cases hescapes
  · cases h

/-- Behind its code a run fails without a report for an output path that is given. -/
theorem escapes_of_delivered {t : Target} {code : String} (hcode : a.code tree = .ok (t, code))
    (h : a.delivered tree t code = .error e) (hescapes : e.treatment = .escapes) :
    Escapes a tree e := by
  obtain ⟨table, text, policy, -, htext, -, hfind, -⟩ := exists_compile_of_code hcode
  have ht := Target.mem_catalogue_of_find hfind
  cases hprints : a.prints with
  | true =>
    rw [Arguments.delivered, if_pos hprints, encode_eq hlone] at h
    cases h
  | false =>
    cases hopened : a.opened tree t with
    | ok r =>
      -- what is open can be written to
      rcases delivered_of_opened code hprints hopened with
        ⟨_, _, -, -, hdelivered⟩ | ⟨fault, hencode, -⟩
      · rw [hdelivered] at h
        cases h
      · rw [encode_eq hlone] at hencode
        cases hencode
    | error e' =>
      rw [Arguments.delivered, if_neg (Bool.eq_false_iff.mp hprints), hopened] at h
      cases h
      rcases bind_eq_error_iff.mp hopened with hopened | ⟨path, hpath, hopened⟩
      · obtain ⟨unknown, -, rfl⟩ := mapError_eq_error_iff.mp hopened
        cases hescapes
      have hpath := Results.eq_ok_of_mapError hpath
      rw [checkPath_eq hlone, mapError_ok, ok_bind] at hopened
      rcases bind_eq_error_iff.mp hopened with hopened | ⟨opened, -, hopened⟩
      · obtain ⟨fault, hwrite, rfl⟩ := mapError_eq_error_iff.mp hopened
        obtain ⟨rfl, hnull⟩ := FileTree.write_unnumbered_iff.mp
          ⟨hwrite, faultTreatment_eq_escapes_iff.mp hescapes⟩
        cases hout : a.outPath with
        | some given =>
          rw [outputPath_of_outPath hout] at hpath
          cases hpath
          have hstdout : a.toStdout = false := by
            refine Bool.eq_false_iff.mpr fun hyes => ?_
            rw [(prints_iff a).mpr (.inl hyes)] at hprints
            cases hprints
          exact .outputPath hcode hstdout hout hnull
        | none =>
          rw [outputPath_of_none hout ht] at hpath
          obtain rfl := Except.ok.inj hpath
          obtain ⟨-, hfile⟩ := (prints_eq_false_iff hout).mp hprints
          exact absurd hnull (null_notMem_stem ht htext hfile)
      · cases hopened

/-! ## Escapes and endings -/

/-- The errors without a report are those that are listed. -/
theorem escapes_iff : Escapes a tree e ↔ a.result tree = .error e ∧ e.treatment = .escapes := by
  constructor
  · intro h
    cases h with
    | policy hnone =>
      refine ⟨result_of_code ?_, rfl⟩
      rw [Arguments.code, Arguments.givenPolicy, hnone]
      rfl
    | keywords hbegins hpath hload hvalid hcontainer =>
      refine ⟨result_of_code (code_of_table hbegins ?_), rfl⟩
      rw [Arguments.table, hpath]
      dsimp only
      rw [checkPath_eq hlone, mapError_ok, ok_bind, Table.ofFile, hload, ok_bind,
        Keyword.withAliases_eq_compositeKind_iff.mpr ⟨_, _, _, rfl, hvalid, hcontainer⟩]
      rfl
    | sourcePath hbegins htable hfile hnull =>
      refine ⟨result_of_code (code_of_text hbegins htable ?_), rfl⟩
      rw [Arguments.text, hfile, if_neg Bool.false_ne_true, checkPath_eq hlone, mapError_ok, ok_bind,
        FileTree.readText, (FileTree.read_unnumbered_iff.mpr ⟨rfl, hnull⟩).1]
      rfl
    | sourceBytes hbegins htable hfile hread hdecode =>
      refine ⟨result_of_code (code_of_text hbegins htable ?_), rfl⟩
      rw [Arguments.text, hfile, if_neg Bool.false_ne_true, checkPath_eq hlone, mapError_ok, ok_bind,
        FileTree.readText, hread, mapError_ok, ok_bind, hdecode]
      rfl
    | numeral hbegins htable htext htokens ht hlong hblot =>
      refine ⟨result_of_code (code_of_parse hbegins htable htext htokens ?_), rfl⟩
      exact (parse_eq_numeral_iff (isLexed_of_tokenize htokens)).mpr ⟨_, ht, hlong, hblot, rfl⟩
    | outputPath hcode hstdout hout hnull =>
      have hprints : ¬ a.prints = true := by
        rw [prints_iff, hstdout, hout]
        simp
      refine ⟨?_, rfl⟩
      rw [Arguments.result, hcode, ok_bind]
      dsimp only
      rw [Arguments.delivered, if_neg hprints, Arguments.opened, outputPath_of_outPath hout,
        mapError_ok, ok_bind, checkPath_eq hlone, mapError_ok, ok_bind,
        (FileTree.write_unnumbered_iff.mpr ⟨rfl, hnull⟩).1]
      rfl
  · intro h
    obtain ⟨hresult, hescapes⟩ := h
    rcases bind_eq_error_iff.mp hresult with hcode | ⟨⟨t, code⟩, hcode, hdelivered⟩
    · exact escapes_of_code hlone hcode hescapes
    · exact escapes_of_delivered hlone hcode hdelivered hescapes

theorem escapes_unique {e' : RunError} (h : Escapes a tree e) (h' : Escapes a tree e') : e = e' := by
  have hresult := ((escapes_iff hlone).mp h).1
  rw [((escapes_iff hlone).mp h').1] at hresult
  exact (Except.error.inj hresult).symm

end Texts

/-- An error is reported with status 1, or it ends the run. -/
theorem report_cases (e : RunError) :
    (report e).2 = .exit 1 ∧ e.treatment ≠ .escapes ∨
      (report e).2 = .escaped e ∧ e.treatment = .escapes := by
  unfold report
  cases e.treatment with
  | compilation => exact .inl ⟨rfl, nofun⟩
  | inputOutput => exact .inl ⟨rfl, nofun⟩
  | escapes => exact .inr ⟨rfl, rfl⟩

/-- A run of accepted arguments ends with an error that escapes, or it has status 0 or 1. -/
theorem ending_cases {argv : List String} (h : Arguments.parse argv = .ok a) (tree : FileTree) :
    (∃ e, Escapes a tree e ∧ (run argv tree).ending = .escaped e) ∨
      (∀ e, ¬ Escapes a tree e) ∧
        ((run argv tree).ending = .exit 0 ∨ (run argv tree).ending = .exit 1) := by
  have hlone := parse_lone h
  obtain ⟨logged, hrun⟩ := runArguments_eq a tree
  rw [run_eq_runArguments h, hrun]
  cases hresult : a.result tree with
  | ok r =>
    refine .inr ⟨fun e hescapes => ?_, .inl rfl⟩
    rw [((escapes_iff hlone).mp hescapes).1] at hresult
    cases hresult
  | error e =>
    rcases report_cases e with ⟨hreport, hreported⟩ | ⟨hreport, hescapes⟩
    · refine .inr ⟨fun e' hescapes => ?_, .inr hreport⟩
      obtain ⟨hresult', htreatment⟩ := (escapes_iff hlone).mp hescapes
      rw [hresult] at hresult'
      cases hresult'
      exact hreported htreatment
    · exact .inl ⟨e, (escapes_iff hlone).mpr ⟨hresult, hescapes⟩, hreport⟩

/-- For all arguments and all files: a run ends with an error that no report is made of just if the
arguments are accepted and the error is one of those that escape; else it has status 0, 1 or 2. It has
status 2 just if the arguments do not fit. -/
theorem run_ending_cases (argv : List String) (tree : FileTree) :
    (∀ e, (run argv tree).ending = .escaped e ↔
      ∃ a, Arguments.parse argv = .ok a ∧ Escapes a tree e) ∧
    ((∃ status ∈ [0, 1, 2], (run argv tree).ending = .exit status) ↔
      ∀ a, Arguments.parse argv = .ok a → ∀ e, ¬ Escapes a tree e) ∧
    ((run argv tree).ending = .exit 2 ↔ Arguments.parse argv = .error .usage) := by
  cases hparse : Arguments.parse argv with
  | error stop =>
    cases stop with
    | help =>
      have hending : (run argv tree).ending = .exit 0 := by rw [run, hparse]; rfl
      simp [hending]
    | usage =>
      have hending : (run argv tree).ending = .exit 2 := by rw [run, hparse]; rfl
      simp [hending]
  | ok a =>
    rcases ending_cases hparse tree with ⟨e, hescapes, hending⟩ | ⟨hnone, hending⟩
    · rw [hending]
      refine ⟨?_, ?_, ?_⟩
      · intro e'
        constructor
        · intro h
          cases h
          exact ⟨a, rfl, hescapes⟩
        · rintro ⟨a', heq, h⟩
          cases heq
          rw [escapes_unique (parse_lone hparse) hescapes h]
      · refine iff_of_false (by simp) ?_
        intro h
        exact h a rfl e hescapes
      · simp
    · refine ⟨?_, ?_, ?_⟩
      · intro e
        refine iff_of_false ?_ ?_
        · rcases hending with h | h <;> simp [h]
        · rintro ⟨a', heq, h⟩
          cases heq
          exact hnone e h
      · refine iff_of_true ?_ ?_
        · rcases hending with h | h <;> simp [h]
        · rintro a' heq
          cases heq
          exact hnone
      · rcases hending with h | h <;> simp [h]

/-- A source file of one byte that begins no character. -/
def oneByte : FileTree where
  files := [(["p.ye"], [0xFF])]

/-- Its fault is reported by no status. -/
theorem not_run_ends_with_status :
    (run ["p.ye"] oneByte).ending = .escaped (.source (.notUtf8 ⟨0xFF, 0, 1, .invalidStart⟩)) ∧
      ¬ ∀ (argv : List String) (tree : FileTree),
        ∃ status ∈ [0, 1, 2], (run argv tree).ending = .exit status := by
  have hparse : Arguments.parse ["p.ye"] = .ok { source := "p.ye" } :=
    Results.eq_ok_of_toOption (by decide +kernel)
  have hread : oneByte.read "p.ye" = .ok [0xFF] := Results.eq_ok_of_toOption (by decide +kernel)
  have hbegins : Arguments.Begins { source := "p.ye" } := ⟨⟨.fail, rfl⟩, .default, rfl⟩
  have hescapes : Escapes { source := "p.ye" } oneByte
      (.source (.notUtf8 ⟨0xFF, 0, 1, .invalidStart⟩)) :=
    .sourceBytes hbegins rfl rfl hread rfl
  have hending : (run ["p.ye"] oneByte).ending =
      .escaped (.source (.notUtf8 ⟨0xFF, 0, 1, .invalidStart⟩)) := by
    rcases ending_cases hparse oneByte with ⟨e, he, hending⟩ | ⟨hnone, -⟩
    · rw [hending, escapes_unique rfl he hescapes]
    · exact absurd hescapes (hnone _)
  refine ⟨hending, ?_⟩
  intro hall
  obtain ⟨status, -, hstatus⟩ := hall ["p.ye"] oneByte
  rw [hending] at hstatus
  cases hstatus

end Boli.Cli
