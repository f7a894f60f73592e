import Boli.Proofs.Cli.Listings
import Boli.Proofs.Cli.Session
import Boli.Proofs.Diagnostics
import Boli.Proofs.Files
import Boli.Proofs.Selection

/-!
# The driver and the compiler

A run that ends with status 0 gives the code that compilation gives for the source, the target, the
keywords, the mode and the policy that its arguments name, and gives it to one place: to the standard
output, or to the file at the output path (`run_refines_compile`). The two listings are printed in
front and change nothing else.
-/

set_option autoImplicit false

namespace Boli

open Boli.Keyword (Table)

namespace Target

theorem find_default : find default.name = .ok default := by decide +kernel

end Target

namespace Cli

open Boli.Results (eq_ok_of_mapError exists_of_bind_eq_ok mapError_ok)

variable {a : Arguments} {tree : FileTree} {t : Target} {code : String}

/-! ## What the arguments name -/

/-- The identifier of the target: the one that is given, else the extension of the output path, else
the name of the default target. -/
def Arguments.identifier (a : Arguments) : String :=
  ((Target.present a.target).or (Target.present (a.outPath.map Path.extensionName))).getD
    Target.default.name

theorem select_eq_find (a : Arguments) :
    Target.select a.target a.out = Target.find a.identifier := by
  have hout : a.outPath = Target.present a.out := rfl
  unfold Target.select Arguments.identifier
  rw [hout]
  cases Target.present a.target with
  | some s => rfl
  | none =>
    cases Target.present ((Target.present a.out).map Path.extensionName) with
    | some extension => rfl
    | none => exact Target.find_default.symm

example : Target.default.name = "js" := rfl

/-- The output path is the same for an identifier of a target as for its name. -/
theorem outputPath_name (h : Target.find a.identifier = .ok t) :
    Target.outputPath a.source a.out t.name = Target.outputPath a.source a.out a.identifier := by
  unfold Target.outputPath
  rw [Target.find_name (Target.mem_catalogue_of_find h), h]

/-- An output path that is given is where the code goes. -/
theorem outputPath_of_outPath {path : String} (h : a.outPath = some path) (identifier : String) :
    Target.outputPath a.source a.out identifier = .ok path := by
  have hpresent : Target.present a.out = some path := h
  rw [Target.outputPath, hpresent]

/-- Without one the code goes beside the source, with the name of the target for its extension. -/
theorem outputPath_of_none (h : a.outPath = none) (ht : t ∈ Target.catalogue) :
    Target.outputPath a.source a.out t.name = .ok (Path.stem a.source ++ "." ++ t.name) := by
  have hpresent : Target.present a.out = none := h
  rw [Target.outputPath, hpresent]
  show (do return Path.stem a.source ++ "." ++ (← Target.find t.name).name) = _
  rw [Target.find_name ht]
  rfl

theorem prints_iff (a : Arguments) :
    a.prints = true ↔ a.toStdout = true ∨ a.isString = true ∧ a.outPath = none := by
  rw [Arguments.prints, Bool.or_eq_true, Bool.and_eq_true, Option.isNone_iff_eq_none]

/-- Without an output path the code goes to a file just if it is asked for and the source is a path. -/
theorem prints_eq_false_iff (h : a.outPath = none) :
    a.prints = false ↔ a.toStdout = false ∧ a.isString = false := by
  rw [Arguments.prints, h, Option.isNone_none, Bool.and_true, Bool.or_eq_false_iff]

theorem givenPolicy_eq_ok_iff {policy : Policy} :
    a.givenPolicy = .ok policy ↔ a.policy = some policy := by
  unfold Arguments.givenPolicy
  cases a.policy with
  | some given => rw [Except.ok.injEq, Option.some.injEq]
  | none => exact iff_of_false nofun nofun

/-- What a run comes to has nothing to do with the listings. -/
theorem result_unlisted (a : Arguments) (tree : FileTree) :
    a.unlisted.result tree = a.result tree := rfl

theorem listings_unlisted (a : Arguments) (tree : FileTree) : a.unlisted.listings tree = "" := by
  unfold Arguments.listings
  refine behind_eq_empty fun _ => behind_eq_empty fun _ => behind_eq_empty fun _ => ?_
  refine behind_eq_empty fun _ => behind_eq_empty fun _ => ?_
  exact String.empty_append.trans (behind_eq_empty fun _ => rfl)

/-- The code of a run is what is compiled from what its arguments name. -/
theorem exists_compile_of_code (h : a.code tree = .ok (t, code)) :
    ∃ (table : Table) (text : String) (policy : Policy),
      a.table tree = .ok table ∧ a.text tree = .ok text ∧ a.policy = some policy ∧
        Target.find a.identifier = .ok t ∧
        compile text a.identifier table a.strictness policy = .ok code := by
  unfold Arguments.code at h
  obtain ⟨policy, hpolicy, h⟩ := exists_of_bind_eq_ok h
  obtain ⟨t', hselect, h⟩ := exists_of_bind_eq_ok h
  obtain ⟨table, htable, h⟩ := exists_of_bind_eq_ok h
  obtain ⟨text, htext, h⟩ := exists_of_bind_eq_ok h
  obtain ⟨tokens, htokens, h⟩ := exists_of_bind_eq_ok h
  obtain ⟨program, hprogram, h⟩ := exists_of_bind_eq_ok h
  obtain ⟨code', hcode', h⟩ := exists_of_bind_eq_ok h
  cases h
  have hfind : Target.find a.identifier = .ok t :=
    (select_eq_find a).symm.trans (eq_ok_of_mapError hselect)
  refine ⟨table, text, policy, htable, htext, givenPolicy_eq_ok_iff.mp hpolicy, hfind, ?_⟩
  unfold compile compileFor
  rw [hfind]
  simp only [mapError_ok, Results.ok_bind, tokens_eq_ok_iff.mp htokens,
    eq_ok_of_mapError hprogram, eq_ok_of_mapError hcode']

theorem exists_read_of_readText {path : String} {cs : List Char} (h : tree.readText path = .ok cs) :
    ∃ bytes, tree.read path = .ok bytes := by
  obtain ⟨bytes, hbytes, -⟩ := exists_of_bind_eq_ok h
  exact ⟨bytes, eq_ok_of_mapError hbytes⟩

/-- A source that is a path and has a text is the path of a file. -/
theorem exists_read_of_text {text : String} (h : a.text tree = .ok text)
    (hfile : a.isString = false) : ∃ bytes, tree.read a.source = .ok bytes := by
  unfold Arguments.text at h
  rw [hfile, if_neg Bool.false_ne_true] at h
  obtain ⟨_, -, h⟩ := exists_of_bind_eq_ok h
  obtain ⟨cs, hcs, -⟩ := exists_of_bind_eq_ok h
  exact exists_read_of_readText (eq_ok_of_mapError hcs)

/-- So is the path of the keywords of a run that has a table. -/
theorem exists_read_of_table {table : Table} {path : String} (h : a.table tree = .ok table)
    (hpath : a.keywordsPath = some path) : ∃ bytes, tree.read path = .ok bytes := by
  rw [Arguments.table, hpath] at h
  obtain ⟨_, -, h⟩ := exists_of_bind_eq_ok h
  obtain ⟨c, hload, -⟩ := exists_of_bind_eq_ok (eq_ok_of_mapError h)
  unfold Keyword.loadConfiguration at hload
  split at hload
  next cs hcs => exact exists_read_of_readText hcs
  next => cases hload
  next => cases hload

/-! ## How a run ends -/

/-- The end of a run with a result: the code is printed, or it is written to the output path. -/
theorem delivered_cases {printed : String} {after : FileTree}
    (h : a.delivered tree t code = .ok (printed, after)) :
    (a.prints = true ∧ printed = code ∧ after = tree) ∨
      (a.prints = false ∧ printed = "" ∧ ∃ path,
        Target.outputPath a.source a.out t.name = .ok path ∧
        tree.write path (Text.Utf8.encode code) = .ok after) := by
  unfold Arguments.delivered at h
  split at h
  next hprints =>
    obtain ⟨_, -, h⟩ := exists_of_bind_eq_ok h
    cases h
    exact .inl ⟨hprints, rfl, rfl⟩
  next hprints =>
    obtain ⟨⟨path, opened⟩, hopened, h⟩ := exists_of_bind_eq_ok h
    obtain ⟨hpath, -, hopen⟩ := opened_eq_ok_iff.mp hopened
    obtain ⟨written, hwritten, h⟩ := exists_of_bind_eq_ok h
    cases h
    obtain ⟨bytes, hencode, hwrite⟩ := exists_of_bind_eq_ok (eq_ok_of_mapError hwritten)
    obtain rfl := eq_of_encode hencode
    refine .inr ⟨Bool.eq_false_iff.2 hprints, rfl, path, hpath, ?_⟩
    rw [← FileTree.write_write hopen, hwrite]

/-- No error has status 0. -/
theorem report_ne_exit_zero (e : RunError) : (report e).2 ≠ .exit 0 := by
  unfold report
  cases e.treatment with
  | compilation => nofun
  | inputOutput => nofun
  | escapes => nofun

theorem run_eq_runArguments {argv : List String} (h : Arguments.parse argv = .ok a)
    (tree : FileTree) : run argv tree = runArguments a tree := by
  rw [run, h]
  rfl

/-- If a run of accepted arguments ends with status 0, its code is what compilation gives for the
source text, the target, the keywords, the mode and the policy that they name. The code is printed
behind the listings, and no file changes, or it is written to the file at the output path, and no
other file changes. Without its listings the run ends in the same way with the same files and prints
what stands behind them; an option for a listing changes nothing else about the arguments. -/
theorem run_refines_compile {argv : List String} (h : Arguments.parse argv = .ok a)
    (tree : FileTree) :
    ((run argv tree).ending = .exit 0 →
      ∃ (table : Table) (text : String) (policy : Policy) (code : String),
        a.table tree = .ok table ∧ a.text tree = .ok text ∧ a.policy = some policy ∧
        compile text a.identifier table a.strictness policy = .ok code ∧
        (a.toStdout = true ∨ a.isString = true ∧ a.outPath = none →
          (run argv tree).printed = a.listings tree ++ code ∧ (run argv tree).tree = tree) ∧
        (¬(a.toStdout = true ∨ a.isString = true ∧ a.outPath = none) →
          (run argv tree).printed = a.listings tree ∧
          ∃ path place, Target.outputPath a.source a.out a.identifier = .ok path ∧
            tree.Writes path (Text.Utf8.encode code) place (run argv tree).tree)) ∧
    (∀ argv' : List String, Arguments.parse argv' = .ok a.unlisted →
      (run argv tree).ending = (run argv' tree).ending ∧
      (run argv tree).tree = (run argv' tree).tree ∧
      (run argv tree).printed = a.listings tree ++ (run argv' tree).printed) ∧
    ∀ option ∈ listingOptions,
      ∃ a', Arguments.parse (option :: argv) = .ok a' ∧ a'.unlisted = a.unlisted := by
  obtain ⟨logged, hrun⟩ := runArguments_eq a tree
  rw [run_eq_runArguments h, hrun]
  refine ⟨fun hexit => ?_, fun argv' h' => ?_, exists_parse_cons_listing h⟩
  · cases hresult : a.result tree with
    | error e =>
      rw [hresult] at hexit
      exact absurd hexit (report_ne_exit_zero e)
    | ok r =>
      obtain ⟨printed, after⟩ := r
      obtain ⟨⟨t, code⟩, hcode, hdelivered⟩ := exists_of_bind_eq_ok hresult
      obtain ⟨table, text, policy, htable, htext, hpolicy, hfind, hcompile⟩ :=
        exists_compile_of_code hcode
      refine ⟨table, text, policy, code, htable, htext, hpolicy, hcompile, ?_⟩
      rw [← prints_iff]
      rcases delivered_cases hdelivered with
        ⟨hprints, rfl, rfl⟩ | ⟨hprints, rfl, path, hpath, hwrite⟩
      · exact ⟨fun _ => ⟨rfl, rfl⟩, fun hno => absurd hprints hno⟩
      · obtain ⟨place, hwrites⟩ := FileTree.exists_writes_of_write hwrite
        rw [outputPath_name hfind] at hpath
        refine ⟨fun hyes => absurd hyes (Bool.eq_false_iff.1 hprints), fun _ => ⟨?_, ?_⟩⟩
        · exact String.append_empty
        · exact ⟨path, place, hpath, hwrites⟩
  · obtain ⟨logged', hrun'⟩ := runArguments_eq a.unlisted tree
    rw [run_eq_runArguments h', hrun', result_unlisted, listings_unlisted]
    cases a.result tree with
    | error e => exact ⟨rfl, rfl, String.append_empty.symm⟩
    | ok r => exact ⟨rfl, rfl, congrArg (a.listings tree ++ ·) String.empty_append.symm⟩

/-- The status of an ending that has one. -/
def Ending.status? : Ending → Option Nat
  | .exit status => some status
  | .escaped _ => none

theorem Ending.eq_exit_of_status? {ending : Ending} {status : Nat}
    (h : ending.status? = some status) : ending = .exit status := by
  cases ending with
  | exit status' => cases h; rfl
  | escaped e => cases h

/-- Two sources, of which the second is no program, and a file where output may go. -/
def twoSources : FileTree where
  files := [(["first"], Text.Utf8.encode "bol 5"), (["second"], Text.Utf8.encode "bol bol"),
    (["out.py"], Text.Utf8.encode "kept")]

/-- The code of the first source replaces what is in the file, and the listing is all that is
printed. -/
theorem run_first_source :
    let argv := ["first", "-o", "out.py", "--dump-tokens"]
    let a : Arguments := { source := "first", out := some "out.py", dumpTokens := true }
    Arguments.parse argv = .ok a ∧ (run argv twoSources).ending = .exit 0 ∧
    ∃ (table : Table) (text : String) (policy : Policy) (code : String),
      a.table twoSources = .ok table ∧ a.text twoSources = .ok text ∧ a.policy = some policy ∧
      compile text a.identifier table a.strictness policy = .ok code ∧
      (run argv twoSources).printed = a.listings twoSources ∧
      ∃ path place, Target.outputPath a.source a.out a.identifier = .ok path ∧
        twoSources.Writes path (Text.Utf8.encode code) place (run argv twoSources).tree := by
  intro argv a
  have hparse : Arguments.parse argv = .ok a := Results.eq_ok_of_toOption (by decide +kernel)
  have hexit : (run argv twoSources).ending = .exit 0 :=
    Ending.eq_exit_of_status? (by decide +kernel)
  obtain ⟨table, text, policy, code, htable, htext, hpolicy, hcompile, -, hwritten⟩ :=
    (run_refines_compile hparse twoSources).1 hexit
  exact ⟨hparse, hexit, table, text, policy, code, htable, htext, hpolicy, hcompile,
    hwritten (by decide)⟩

end Cli

end Boli
