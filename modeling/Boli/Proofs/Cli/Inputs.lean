import Boli.Proofs.Cli.Driver
import Boli.Proofs.Path

/-!
# The files that a run reads

Without an output path the code of a run goes beside its source, and nothing looks whether there is a
file already. So a run keeps the files that it reads unless it has status 0 and one of them stands
where the code goes (`run_inputs`). For the source this is a matter of its extension: it is replaced
just if it has the name of the target for its extension. A keyword file is replaced if its path leads
there.
-/

set_option autoImplicit false

namespace Boli

namespace Cli

open Boli.Results (exists_of_bind_eq_ok)

/-- The files that a run reads are its source, if it is a path, and its keyword file. -/
def Arguments.Reads (a : Arguments) (path : String) : Prop :=
  a.isString = false ∧ path = a.source ∨ a.keywordsPath = some path

variable {a : Arguments} {tree : FileTree} {t : Target} {code : String}

/-- A run that has code has read all of its files. -/
theorem exists_read_of_code (h : a.code tree = .ok (t, code)) {path : String} (hpath : a.Reads path) :
    ∃ bytes, tree.read path = .ok bytes := by
  obtain ⟨table, text, policy, htable, htext, -⟩ := exists_compile_of_code h
  rcases hpath with ⟨hfile, rfl⟩ | hpath
  · exact exists_read_of_text htext hfile
  · exact exists_read_of_table htable hpath

/-- Where the code goes beside the source, it goes to the place of a file, and this is the place of the
source just if the source has the name of the target for its extension. -/
theorem exists_place_of_delivered {printed : String} {after : FileTree}
    (hcode : a.code tree = .ok (t, code)) (hprints : a.prints = false) (hout : a.outPath = none)
    (h : a.delivered tree t code = .ok (printed, after)) :
    ∃ place, tree.Writes (Path.stem a.source ++ "." ++ t.name) (Text.Utf8.encode code) place after ∧
      after = tree.withFile place (Text.Utf8.encode code) ∧
      (tree.LeadsTo a.source place ↔ Path.extensionName a.source = t.name) := by
  obtain ⟨-, -, -, -, -, -, hfind, -⟩ := exists_compile_of_code hcode
  have ht := Target.mem_catalogue_of_find hfind
  obtain ⟨hne, hletters⟩ := Target.isAlphanum_name ht
  obtain ⟨-, hfile⟩ := (prints_eq_false_iff hout).mp hprints
  obtain ⟨bytes, hread⟩ := exists_read_of_code hcode (.inl ⟨hfile, rfl⟩)
  rcases delivered_cases h with ⟨hyes, -⟩ | ⟨-, -, path, hpath, hwrite⟩
  · rw [hprints] at hyes
    cases hyes
  · rw [outputPath_of_none hout ht] at hpath
    obtain rfl := Except.ok.inj hpath
    obtain ⟨hopen, place, hleads, rfl⟩ := FileTree.exists_leadsTo_of_write hwrite
    refine ⟨place, hleads.writes hopen, rfl, ?_⟩
    rw [FileTree.leadsTo_stem_iff hne hletters hread hleads, Path.stem_append_eq_iff _ hne]

/-- A run without an output path leaves all files as they were, and then it has another status than 0,
prints its code or has a source that is no path; or it has status 0 and writes its code to the path of
its source with the name of the target for its extension. Of the files that it reads, those whose paths
lead to the same place hold the code then, and all others hold what they held. The source leads there
just if the name of the target is its extension. -/
theorem run_inputs {argv : List String} (h : ∀ a, Arguments.parse argv = .ok a → a.outPath = none)
    (tree : FileTree) :
    (run argv tree).tree = tree ∧ (∀ a, Arguments.parse argv = .ok a →
      (run argv tree).ending = .exit 0 → a.toStdout = true ∨ a.isString = true) ∨
    ∃ a t code place, Arguments.parse argv = .ok a ∧ a.code tree = .ok (t, code) ∧
      a.toStdout = false ∧ a.isString = false ∧ (run argv tree).ending = .exit 0 ∧
      tree.Writes (Path.stem a.source ++ "." ++ t.name) (Text.Utf8.encode code) place
        (run argv tree).tree ∧
      (∀ path, a.Reads path → tree.LeadsTo path place →
        (run argv tree).tree.read path = .ok (Text.Utf8.encode code)) ∧
      (∀ path, a.Reads path → ¬ tree.LeadsTo path place →
        (run argv tree).tree.read path = tree.read path) ∧
      (tree.LeadsTo a.source place ↔ Path.extensionName a.source = t.name) := by
  cases hparse : Arguments.parse argv with
  | error stop =>
    refine .inl ⟨?_, fun a ha => by cases ha⟩
    rw [run, hparse]
    cases stop with
    | help => rfl
    | usage => rfl
  | ok a =>
    have hout := h a hparse
    obtain ⟨logged, hrun⟩ := runArguments_eq a tree
    rw [run_eq_runArguments hparse, hrun]
    cases hresult : a.result tree with
    | error e =>
      exact .inl ⟨abandoned_eq_self (parse_lone hparse) hresult,
        fun _ _ hexit => absurd hexit (report_ne_exit_zero e)⟩
    | ok r =>
      obtain ⟨printed, after⟩ := r
      obtain ⟨⟨t, code⟩, hcode, hdelivered⟩ := exists_of_bind_eq_ok hresult
      cases hprints : a.prints with
      | true =>
        rcases delivered_cases hdelivered with ⟨-, -, rfl⟩ | ⟨hno, -⟩
        · refine .inl ⟨rfl, ?_⟩
          intro a' ha' _
          obtain rfl := Except.ok.inj ha'
          exact ((prints_iff a).mp hprints).imp_right And.left
        · rw [hprints] at hno
          cases hno
      | false =>
        obtain ⟨place, hwrites, rfl, hsource⟩ :=
          exists_place_of_delivered hcode hprints hout hdelivered
        obtain ⟨hstdout, hfile⟩ := (prints_eq_false_iff hout).mp hprints
        refine .inr ⟨a, t, code, place, rfl, hcode, hstdout, hfile, rfl, hwrites, ?_, ?_, hsource⟩
        · intro path hpath hleads
          obtain ⟨bytes, hread⟩ := exists_read_of_code hcode hpath
          exact FileTree.read_withFile hleads hread
        · intro path hpath hleads
          obtain ⟨bytes, hread⟩ := exists_read_of_code hcode hpath
          rw [hread]
          exact FileTree.read_withFile_of_not_leadsTo hleads hread

/-- A source without an extension, in a folder with the extension of the target, is kept. -/
theorem run_inputs_noExtension :
    let argv := ["lib.js/prog"]
    let tree : FileTree := FileTree.addFile {} ["lib.js", "prog"] (Text.Utf8.encode "bol 1")
    (∀ a, Arguments.parse argv = .ok a → a.outPath = none) ∧
      (run argv tree).tree.read "lib.js/prog" = .ok (Text.Utf8.encode "bol 1") := by
  intro argv tree
  have hparse : Arguments.parse argv = .ok { source := "lib.js/prog" } :=
    Results.eq_ok_of_toOption (by decide +kernel)
  have hread : tree.read "lib.js/prog" = .ok (Text.Utf8.encode "bol 1") :=
    Results.eq_ok_of_toOption (by decide +kernel)
  have hout : ∀ a, Arguments.parse argv = .ok a → a.outPath = none := by
    intro a ha
    rw [hparse] at ha
    cases ha
    rfl
  refine ⟨hout, ?_⟩
  rcases run_inputs hout tree with
    ⟨hsame, -⟩ | ⟨a, t, code, place, ha, hcode, -, -, -, -, -, hkept, hiff⟩
  · rw [hsame, hread]
  · rw [hparse] at ha
    cases ha
    obtain ⟨-, -, -, -, -, -, hfind, -⟩ := exists_compile_of_code hcode
    have hdefault : Target.find (Arguments.identifier { source := "lib.js/prog" }) =
        .ok .javaScript := Results.eq_ok_of_toOption (by decide +kernel)
    rw [hdefault] at hfind
    cases hfind
    have hextension : Path.extensionName "lib.js/prog" ≠ Target.javaScript.name := by decide +kernel
    rw [hkept "lib.js/prog" (.inl ⟨rfl, rfl⟩) fun hleads => hextension (hiff.mp hleads), hread]

/-- A source with the extension of the default target, and a keyword file where the code of another
source goes, are both replaced. -/
theorem not_run_keeps_inputs :
    let source : FileTree := { files := [(["prog.js"], Text.Utf8.encode "bol 1")] }
    let keywords : FileTree :=
      { files := [(["prog.ye"], Text.Utf8.encode "bol 1"),
        (["prog.js"], Text.Utf8.encode "\x7b\x7d")] }
    let code := Text.Utf8.encode "// Generated JavaScript code\n\nconsole.log(1);\n"
    (run ["prog.js"] source).ending = .exit 0 ∧
      (run ["prog.js"] source).tree.read "prog.js" = .ok code ∧
      (run ["prog.ye", "--keywords", "prog.js"] keywords).ending = .exit 0 ∧
      (run ["prog.ye", "--keywords", "prog.js"] keywords).tree.read "prog.js" = .ok code ∧
      ¬ ∀ (argv : List String) (tree : FileTree) (a : Arguments), Arguments.parse argv = .ok a →
        a.outPath = none → ∀ path, a.Reads path →
          (run argv tree).tree.read path = tree.read path := by
  intro source keywords code
  have hread : (run ["prog.js"] source).tree.read "prog.js" = .ok code :=
    Results.eq_ok_of_toOption (by decide +kernel)
  refine ⟨Ending.eq_exit_of_status? (by decide +kernel), hread,
    Ending.eq_exit_of_status? (by decide +kernel), Results.eq_ok_of_toOption (by decide +kernel), ?_⟩
  intro hall
  have hparse : Arguments.parse ["prog.js"] = .ok { source := "prog.js" } :=
    Results.eq_ok_of_toOption (by decide +kernel)
  have hbefore : source.read "prog.js" = .ok (Text.Utf8.encode "bol 1") :=
    Results.eq_ok_of_toOption (by decide +kernel)
  have hsame := hall ["prog.js"] source _ hparse rfl "prog.js" (.inl ⟨rfl, rfl⟩)
  rw [hread, hbefore, Except.ok.injEq] at hsame
  revert hsame
  decide +kernel

end Cli

end Boli
