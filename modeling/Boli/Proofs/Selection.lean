import Boli.Proofs.Diagnostics
import Boli.Proofs.Path
import Boli.Target.Selection

/-!
# Output paths and the targets that they select

A target is asked for by an identifier or by the extension of the output path, and an output path that
is not given has the name of the target for its extension. The two agree: a path that is derived for a
target selects that target again, and it is its own derived path (`outputPath_selects`). Of the source
it keeps the folders and the name, and only a source of nothing but points is left out: there the
points of the derived path stand in front of all else, so that its extension is none.
-/

set_option autoImplicit false

namespace Boli.Target

open Boli.Path (IsSplit)

/-- A target is found under its own name. -/
theorem find_name {t : Target} (h : t ∈ catalogue) : find t.name = .ok t := by
  have hall : ∀ t ∈ catalogue, find t.name = .ok t := by decide +kernel
  exact hall t h

/-- The name of a target can be an extension. -/
theorem isAlphanum_name {t : Target} (ht : t ∈ catalogue) :
    t.name ≠ "" ∧ ∀ c ∈ t.name.toList, c.isAlphanum = true := by
  have hall : ∀ t ∈ catalogue, t.name ≠ "" ∧ t.name.toList.all Char.isAlphanum = true := by
    decide +kernel
  obtain ⟨hne, hletters⟩ := hall t ht
  exact ⟨hne, List.all_eq_true.mp hletters⟩

/-- An output path with an extension selects what is registered under the extension. -/
theorem select_of_isSplit {p : String} {folders name letters : List Char}
    (hp : IsSplit p.toList folders name ('.' :: letters)) (hletters : letters ≠ []) :
    select none (some p) = find (String.ofList letters) := by
  have hne : p ≠ "" := by
    rintro rfl
    have happend := hp.append_eq
    simp at happend
  have hextension := hp.extensionName_eq
  rw [String.ofList_toList] at hextension
  have hpresent : present (some p) = some p := if_pos (by simpa using hne)
  have hgiven : present (some (String.ofList letters)) = some (String.ofList letters) :=
    if_pos (by simpa using hletters)
  have hnone : present none = none := rfl
  simp only [select, hnone, hpresent, Option.map_some, hextension, List.drop_succ_cons,
    List.drop_zero, hgiven]

/-- Without an output path the output stands beside the source. -/
theorem outputPath_of_isSplit {source identifier : String} {t : Target}
    {folders name extension : List Char} (hsource : IsSplit source.toList folders name extension)
    (hfind : find identifier = .ok t) :
    outputPath source none identifier =
      .ok (String.ofList (folders ++ (name ++ '.' :: t.name.toList))) := by
  have hderived := hsource.stem_append t.name
  rw [String.ofList_toList] at hderived
  rw [← hderived]
  show (do return Path.stem source ++ "." ++ (← find identifier).name) = _
  rw [hfind]
  rfl

/-- For every source whose last component is not made of points alone, and for every identifier of a
target: the output path that is derived for them has the folders and the name of the source and the
name of the target for its extension. It selects the target again, and with the same identifier its
own derived path is the path itself. -/
theorem outputPath_selects {source : String} {folders name extension : List Char}
    (hsource : IsSplit source.toList folders name extension)
    (hlast : ∃ c ∈ name ++ extension, c ≠ '.') {identifier : String} {t : Target}
    (hfind : find identifier = .ok t) :
    ∃ p, outputPath source none identifier = .ok p ∧
      IsSplit p.toList folders name ('.' :: t.name.toList) ∧
      select none (some p) = .ok t ∧ outputPath p none identifier = .ok p := by
  have ht := mem_catalogue_of_find hfind
  obtain ⟨hne, hletters⟩ := isAlphanum_name ht
  have hname : ∃ c ∈ name, c ≠ '.' := by
    cases hsource.isExtension with
    | none points hrest => simpa using hlast
    | point hname _ => exact hname
  have hplain : ∀ c, c.isAlphanum = false → c ∉ t.name.toList := by
    intro c hc hmem
    rw [hletters c hmem] at hc
    cases hc
  have hp : IsSplit (String.ofList (folders ++ (name ++ '.' :: t.name.toList))).toList folders name
      ('.' :: t.name.toList) := by
    refine ⟨String.toList_ofList.symm, hsource.folders_cases, ?_, .point hname (hplain '.' rfl)⟩
    intro hmem
    rcases List.mem_append.mp hmem with hmem | hmem
    · exact hsource.slash_notMem (List.mem_append_left _ hmem)
    · exact hplain '/' rfl (List.mem_of_ne_of_mem (by decide) hmem)
  refine ⟨_, outputPath_of_isSplit hsource hfind, hp, ?_, outputPath_of_isSplit hp hfind⟩
  rw [select_of_isSplit hp (fun hnil => hne (String.toList_inj.mp hnil)), String.ofList_toList,
    find_name ht]

/-- A hidden source with two points in its name, below a folder with a point in its own. -/
theorem outputPath_selects_hidden :
    ∃ p, outputPath "a.b/.x..ye" none " \u2003C++" = .ok p ∧
      IsSplit p.toList "a.b/".toList ".x.".toList ".cpp".toList ∧
      select none (some p) = .ok cpp ∧ outputPath p none " \u2003C++" = .ok p := by
  have hsource : IsSplit "a.b/.x..ye".toList "a.b/".toList ".x.".toList ".ye".toList :=
    ⟨rfl, .inr ⟨"a.b".toList, rfl⟩, by decide, .point ⟨'x', by decide, by decide⟩ (by decide)⟩
  have hfind : find " \u2003C++" = .ok cpp := Results.eq_ok_of_toOption (by decide +kernel)
  exact outputPath_selects hsource ⟨'x', by decide, by decide⟩ hfind

end Boli.Target
