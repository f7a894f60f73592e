import Boli.Proofs.Cli.Driver

/-!
# Failed runs and the files

Up to its code a run reads files and writes none, so that what fails there leaves no trace in them. It
goes on by opening its output file, which makes or empties the file, and encodes the code only then.
Code that holds a lone surrogate has no bytes, so that the run fails with nothing in the file
(`Arguments.Truncates`). A source that is read from a file holds none; it has to stand in the arguments.

This is the one way in which a failed run leaves another tree than it found (`failed_run_tree`), and it
is at odds with what a compilation is meant to be, which produces nothing if it fails
(`not_failed_run_keeps_files`).
-/

set_option autoImplicit false

namespace Boli.Cli

open Boli.Results (exists_of_bind_eq_ok ok_bind)
open Boli.Text (Block CodePoint Loose Unencodable)

variable {a : Arguments} {tree : FileTree} {path : String} {fault : Unencodable}

/-- The code of a run is there and goes to the file at a path. The file can be opened, and the code
holds a lone surrogate. -/
structure Arguments.Truncates (a : Arguments) (tree : FileTree) (path : String) (fault : Unencodable) :
    Prop where
  isString : a.isString = true
  toStdout : a.toStdout = false
  outPath : a.outPath = some path
  checkPath : a.checkPath path = .ok ()
  opens : ∃ opened, tree.write path [] = .ok opened
  code : ∃ t code, a.code tree = .ok (t, code) ∧ (a.loose code).fault? (fun _ => false) = some fault

theorem encode_eq_error_iff {s : String} {f : FileTree.Fault} : a.encode s = .error f ↔
    a.isString = true ∧ ∃ fault, (a.loose s).fault? (fun _ => false) = some fault ∧
      f = .unencodable fault := by
  unfold Arguments.encode
  cases hstring : a.isString with
  | false => exact iff_of_false nofun nofun
  | true =>
    rw [if_pos rfl]
    cases (a.loose s).fault? fun _ => false with
    | none => exact iff_of_false nofun (by simp)
    | some fault => simp [eq_comm]

/-- A run with such code ends there, and the tree that it leaves is the one with the open file. -/
theorem Arguments.Truncates.result_eq (h : a.Truncates tree path fault) :
    a.result tree = .error (.output (.unencodable fault) path) ∧
      tree.write path [] = .ok (a.abandoned tree) := by
  obtain ⟨t, code, hcode, hfault⟩ := h.code
  obtain ⟨opened, hopen⟩ := h.opens
  have hprints : a.prints = false := by
    rw [Arguments.prints, h.toStdout, h.outPath]
    exact Bool.and_false _
  have hopened : a.opened tree t = .ok (path, opened) :=
    opened_eq_ok_iff.mpr ⟨outputPath_of_outPath h.outPath _, h.checkPath, hopen⟩
  have hencode : a.encode code = .error (.unencodable fault) :=
    encode_eq_error_iff.mpr ⟨h.isString, fault, hfault, rfl⟩
  constructor
  · rw [Arguments.result, hcode, ok_bind]
    rcases delivered_of_opened code hprints hopened with
      ⟨bytes, _, hbytes, -⟩ | ⟨f, hf, hdelivered⟩
    · rw [hencode] at hbytes
      cases hbytes
    · rw [hencode] at hf
      cases hf
      exact hdelivered
  · rw [abandoned_of_opened hcode hprints hopened, hopen]

/-- A run that comes to no result in another way leaves the files as they are. -/
theorem abandoned_eq_self_of_not_truncates {e : RunError} (hresult : a.result tree = .error e)
    (h : ∀ path fault, ¬ a.Truncates tree path fault) : a.abandoned tree = tree := by
  rcases abandoned_cases hresult with hsame | ⟨t, code, path, f, hcode, hprints, hopened, hencode⟩
  · exact hsame
  · obtain ⟨hstring, fault, hfault, -⟩ := encode_eq_error_iff.mp hencode
    obtain ⟨hpath, hcheck, hopen⟩ := opened_eq_ok_iff.mp hopened
    obtain ⟨hstdout, hout⟩ : a.toStdout = false ∧ a.outPath.isNone = false := by
      rwa [Arguments.prints, Bool.or_eq_false_iff, hstring, Bool.true_and] at hprints
    obtain ⟨given, hgiven⟩ := Option.isSome_iff_exists.mp (Option.isNone_eq_false_iff.mp hout)
    obtain rfl := Except.ok.inj ((outputPath_of_outPath hgiven _).symm.trans hpath)
    exact absurd ⟨hstring, hstdout, hgiven, hcheck, ⟨_, hopen⟩, t, code, hcode, hfault⟩ (h given fault)

/-- A run without a result leaves the files as they are, unless it empties a file. -/
theorem abandoned_eq_self_iff {e : RunError} (hresult : a.result tree = .error e) :
    a.abandoned tree = tree ↔
      ∀ path fault, a.Truncates tree path fault → tree.read path = .ok [] := by
  constructor
  · intro hsame path fault h
    exact (FileTree.eq_self_of_write_iff h.result_eq.2).mp hsame
  · intro hempty
    by_cases htruncates : ∃ path fault, a.Truncates tree path fault
    · obtain ⟨path, fault, h⟩ := htruncates
      exact (FileTree.eq_self_of_write_iff h.result_eq.2).mpr (hempty path fault h)
    · exact abandoned_eq_self_of_not_truncates hresult fun path fault h =>
        htruncates ⟨path, fault, h⟩

/-- Texts stand for themselves. -/
theorem not_truncates_of_lone (h : a.lone = none) : ¬ a.Truncates tree path fault := by
  intro htruncates
  obtain ⟨t, code, -, hfault⟩ := htruncates.code
  rw [fault?_loose h] at hfault
  cases hfault

theorem parseLoose_lone {argv : List Loose} (h : Arguments.parseLoose argv = .ok a)
    (htexts : ∀ w ∈ argv, ∀ p ∈ w, p.isLone = false) : a.lone = none := by
  obtain ⟨a', -, h⟩ := exists_of_bind_eq_ok h
  cases h
  refine if_neg fun hany => ?_
  obtain ⟨w, hw, hany⟩ := List.any_eq_true.mp hany
  obtain ⟨p, hp, hlone⟩ := List.any_eq_true.mp hany
  rw [htexts w hw p hp] at hlone
  cases hlone

/-- Arguments that are texts are read as such. -/
theorem parseLoose_ofString (argv : List String) :
    Arguments.parseLoose (argv.map Loose.ofString) = Arguments.parse argv := by
  have htext (block : Block) : (argv.map Loose.ofString).map (·.text block) = argv := by
    rw [List.map_map]
    exact (List.map_congr_left fun s _ => Loose.text_ofString block s).trans (List.map_id argv)
  have hlone : (argv.map Loose.ofString).any (·.any CodePoint.isLone) = false := by
    simp only [List.any_map, List.any_eq_false, Function.comp_apply]
    intro s _
    rw [Bool.not_eq_true, List.any_eq_false]
    intro p hp
    rw [Loose.not_isLone_of_mem_ofString hp]
    exact Bool.false_ne_true
  unfold Arguments.parseLoose
  simp only [htext, hlone, Bool.false_eq_true, if_false]
  cases hparse : Arguments.parse argv with
  | error stop => rfl
  | ok a =>
    rw [ok_bind, ← parse_lone hparse]
    rfl

/-- Arguments with surrogates are read as they were given, as long as there are characters left that can
stand for surrogates. -/
theorem loose_text_of_parseLoose {argv : List Loose} {block : Block}
    (h : Arguments.parseLoose argv = .ok a) (hlone : a.lone = some block)
    (hfree : ∃ b : Block, ∀ w ∈ argv, ∀ c ∈ w.chars, b.holds c.toNat = false) {w : Loose}
    (hw : w ∈ argv) : a.loose (w.text block) = w := by
  rw [Arguments.loose, hlone]
  obtain ⟨a', -, h⟩ := exists_of_bind_eq_ok h
  obtain rfl := Except.ok.inj h
  dsimp only at hlone ⊢
  split at hlone
  next =>
    obtain rfl := Option.some.inj hlone
    refine Loose.ofText_text fun c hc => Block.free_holds ?_ _ ?_
    · obtain ⟨b, hb⟩ := hfree
      refine ⟨b, fun n hn => ?_⟩
      obtain ⟨w', hw', hn⟩ := List.mem_flatMap.mp hn
      obtain ⟨c', hc', rfl⟩ := List.mem_map.mp hn
      exact hb w' hw' c' hc'
    · exact List.mem_flatMap.mpr ⟨w, hw, List.mem_map_of_mem hc⟩
  next => cases hlone

theorem runLoose_ofString (argv : List String) (tree : FileTree) :
    runLoose (argv.map Loose.ofString) tree = run argv tree := by
  rw [runLoose, parseLoose_ofString, run]

theorem report_of_escapes {e : RunError} (h : e.treatment = .escapes) : (report e).2 = .escaped e := by
  unfold report
  rw [h]

theorem runLoose_eq_runArguments {argv : List Loose} (h : Arguments.parseLoose argv = .ok a)
    (tree : FileTree) : runLoose argv tree = runArguments a tree := by
  rw [runLoose, h]
  rfl

theorem runLoose_tree_of_stop {argv : List Loose} {stop : Stop}
    (h : Arguments.parseLoose argv = .error stop) (tree : FileTree) :
    (runLoose argv tree).tree = tree := by
  rw [runLoose, h]
  cases stop with
  | help => rfl
  | usage => rfl

/-- The error of such a run is not reported, and its output file is empty. -/
theorem runLoose_of_truncates {argv : List Loose} (hparse : Arguments.parseLoose argv = .ok a)
    (h : a.Truncates tree path fault) :
    (runLoose argv tree).ending = .escaped (.output (.unencodable fault) path) ∧
      ∃ place, tree.Writes path [] place (runLoose argv tree).tree := by
  obtain ⟨hresult, hopen⟩ := h.result_eq
  obtain ⟨logged, hrun⟩ := runArguments_eq a tree
  rw [runLoose_eq_runArguments hparse, hrun, hresult]
  dsimp only
  exact ⟨report_of_escapes rfl, FileTree.exists_writes_of_write hopen⟩

/-- For all arguments and all files: if its code goes to a file and holds a lone surrogate, a run ends
with an error that no report is made of, and the output file is empty; all other files are as they were.
A run that fails in any other way leaves all files as they were, and so does this one just if the
output file was there and empty. It takes a lone surrogate in the arguments to come to it. -/
theorem failed_run_tree (argv : List Loose) (tree : FileTree) :
    (∀ a path fault, Arguments.parseLoose argv = .ok a → a.Truncates tree path fault →
      (runLoose argv tree).ending = .escaped (.output (.unencodable fault) path) ∧
      ∃ place, tree.Writes path [] place (runLoose argv tree).tree) ∧
    ((∀ a, Arguments.parseLoose argv = .ok a → (runLoose argv tree).ending ≠ .exit 0) →
      ((runLoose argv tree).tree = tree ↔ ∀ a path fault, Arguments.parseLoose argv = .ok a →
        a.Truncates tree path fault → tree.read path = .ok [])) ∧
    ((∀ w ∈ argv, ∀ p ∈ w, p.isLone = false) →
      ∀ a path fault, Arguments.parseLoose argv = .ok a → ¬ a.Truncates tree path fault) := by
  refine ⟨fun a path fault => runLoose_of_truncates, ?_, fun htexts a path fault hparse => ?_⟩
  · intro hfail
    cases hparse : Arguments.parseLoose argv with
    | error stop =>
      refine iff_of_true (runLoose_tree_of_stop hparse tree) fun a path fault ha => ?_
      cases ha
    | ok a =>
      obtain ⟨logged, hrun⟩ := runArguments_eq a tree
      have hending := hfail a hparse
      rw [runLoose_eq_runArguments hparse, hrun] at hending ⊢
      cases hresult : a.result tree with
      | ok r =>
        rw [hresult] at hending
        exact absurd rfl hending
      | error e =>
        refine (abandoned_eq_self_iff hresult).trans ⟨fun hempty a' path fault ha => ?_,
          fun hempty path fault => hempty a path fault rfl⟩
        obtain rfl := Except.ok.inj ha
        exact hempty path fault
  · exact not_truncates_of_lone (parseLoose_lone hparse htexts)

/-- A run whose program prints the surrogate U+DCFF fails and empties the file that its code is for. -/
theorem not_failed_run_keeps_files :
    let argv : List Loose := [Loose.ofString "-s",
      Loose.ofString "bol '" ++ .lone 0x4FF :: Loose.ofString "'", Loose.ofString "-o",
      Loose.ofString "out.js"]
    let tree : FileTree := { files := [(["out.js"], Text.Utf8.encode "kept")] }
    (runLoose argv tree).ending = .escaped (.output (.unencodable ⟨0x4FF, 43, 1⟩) "out.js") ∧
      (runLoose argv tree).tree.read "out.js" = .ok [] ∧
      ¬ ∀ (argv : List Loose) (tree : FileTree), (runLoose argv tree).ending ≠ .exit 0 →
        (runLoose argv tree).tree = tree := by
  intro argv tree
  let surrogate := String.singleton (Block.default.standIn 0x4FF)
  let a : Arguments :=
    { source := "bol '" ++ surrogate ++ "'", isString := true, out := some "out.js",
      lone := some .default }
  let code := "// Generated JavaScript code\n\nconsole.log(\"" ++ surrogate ++ "\");\n"
  have hparse : Arguments.parseLoose argv = .ok a := Results.eq_ok_of_toOption (by decide +kernel)
  have hcode : a.code tree = .ok (.javaScript, code) :=
    Results.eq_ok_of_toOption (by decide +kernel)
  have htruncates : a.Truncates tree "out.js" ⟨0x4FF, 43, 1⟩ :=
    ⟨rfl, rfl, rfl, Results.eq_ok_of_toOption (by decide +kernel), ⟨_, rfl⟩, .javaScript, code, hcode,
      by decide +kernel⟩
  obtain ⟨hending, place, hwrites⟩ := runLoose_of_truncates hparse htruncates
  refine ⟨hending, hwrites.read_eq, fun hall => ?_⟩
  have hkept : (runLoose argv tree).tree = tree := by
    refine hall argv tree ?_
    rw [hending]
    nofun
  have hread := hwrites.read_eq
  rw [hkept] at hread
  revert hread
  decide +kernel

end Boli.Cli
