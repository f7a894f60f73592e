import Boli.FileTree
import Boli.Proofs.Path
import Boli.Proofs.Results

/-!
# Writing to one file

A walk that ends at something other than a folder has gone through folders up to there, so that a
file put where it ends changes nothing on its way. So a path that a content is written to leads to
that content afterwards, and all other files are what they were (`exists_writes_of_write`).

Two paths can lead to one file in many ways, but not if they differ in their extensions alone
(`leadsTo_stem_iff`).
-/

set_option autoImplicit false

namespace Boli.FileTree

open Boli.Results (bind_eq_error_iff exists_of_bind_eq_ok)

variable {tree after : FileTree} {place : List String} {content : List UInt8} {spot : Spot}

/-- The tree `after` is the tree `tree` with a content in the one file that a path leads to. -/
structure Writes (tree : FileTree) (path : String) (content : List UInt8) (place : List String)
    (after : FileTree) : Prop where
  locate_eq : after.locate path = .ok (.file place content)
  read_eq : after.read path = .ok content
  others : ∀ other, other ≠ place → after.files.get? other = tree.files.get? other
  folders_eq : after.folders = tree.folders
  here_eq : after.here = tree.here

/-- A tree with a content in the file at a place. -/
def withFile (tree : FileTree) (place : List String) (content : List UInt8) : FileTree :=
  { tree with files := tree.files.put place content }

/-- A spot at a place, where a file is or could be. -/
def Spot.IsFileAt (spot : Spot) (place : List String) : Prop :=
  spot = .vacant place ∨ ∃ content, spot = .file place content

theorem Spot.not_isFileAt_folder {other : List String} : ¬ (Spot.folder other).IsFileAt place := by
  rintro (h | ⟨_, h⟩)
  · cases h
  · cases h

/-- What stands at a place is a folder, whatever file is put into the tree, or it is the place of a
file, and then there is the file that is put there. -/
theorem spotAt_cases (tree : FileTree) (other : List String) :
    (∀ place content, (tree.withFile place content).spotAt other = .folder other) ∧
        tree.spotAt other = .folder other ∨
      (∀ content, (tree.withFile other content).spotAt other = .file other content) ∧
        (tree.spotAt other).IsFileAt other := by
  by_cases hfolder : other.isEmpty = true ∨ other ∈ tree.folders
  · exact .inl ⟨fun _ _ => if_pos hfolder, if_pos hfolder⟩
  · refine .inr ⟨fun content => ?_, ?_⟩
    · have hget : (tree.files.put other content).get? other = some content := by
        rw [Dictionary.get?_put, if_pos rfl]
      refine (if_neg hfolder).trans ?_
      simp only [withFile, hget]
    · unfold spotAt
      rw [if_neg hfolder]
      split
      next content _ => exact .inr ⟨content, rfl⟩
      next => exact .inl rfl

theorem get?_of_spotAt {other : List String} (h : tree.spotAt place = .file other content) :
    tree.files.get? place = some content := by
  unfold spotAt at h
  split at h
  next => cases h
  next =>
    split at h
    next old hget =>
      cases h
      exact hget
    next => cases h

/-- At the place of a file stands the file that is put there. -/
theorem spotAt_withFile (h : (tree.spotAt place).IsFileAt place) :
    (tree.withFile place content).spotAt place = .file place content := by
  rcases spotAt_cases tree place with ⟨-, hfolder⟩ | ⟨hfile, -⟩
  · rw [hfolder] at h
    exact absurd h Spot.not_isFileAt_folder
  · exact hfile content

/-- At all other places stands what stood there. -/
theorem spotAt_withFile_of_ne {other : List String} (h : other ≠ place) :
    (tree.withFile place content).spotAt other = tree.spotAt other := by
  have hget : (tree.files.put place content).get? other = tree.files.get? other :=
    (Dictionary.get?_put _ _ _ _).trans (if_neg h.symm)
  unfold spotAt
  simp only [withFile, hget]

/-- A walk that goes on from something other than a folder stays there. -/
theorem walk_of_isFileAt {other : List String} {names : List String}
    (h : spot.IsFileAt other) {spot' : Spot} (hwalk : tree.walk spot names = .ok spot') :
    names = [] ∧ spot' = spot := by
  cases names with
  | nil =>
    cases hwalk
    exact ⟨rfl, rfl⟩
  | cons name names =>
    rcases h with rfl | ⟨content, rfl⟩
    · cases hwalk
    · cases hwalk

theorem Spot.IsFileAt.unique {other : List String} (h : spot.IsFileAt place)
    (h' : spot.IsFileAt other) : place = other := by
  rcases h with rfl | ⟨content, rfl⟩
  · rcases h' with h' | ⟨_, h'⟩
    · cases h'; rfl
    · cases h'
  · rcases h' with h' | ⟨_, h'⟩
    · cases h'
    · cases h'; rfl

/-- One component further from a folder is the same folder, what stands at some place, or a fault,
whatever files there are. -/
theorem enter_folder_cases (folder : List String) (name : String) :
    (∀ tree : FileTree, tree.enter (.folder folder) name = .ok (.folder folder)) ∨
      (∃ other, ∀ tree : FileTree, tree.enter (.folder folder) name = .ok (tree.spotAt other)) ∨
      ∃ fault, ∀ tree : FileTree, tree.enter (.folder folder) name = .error fault := by
  by_cases hdot : name = "."
  · exact .inl fun tree => if_pos hdot
  · by_cases hdots : name = ".."
    · exact .inr (.inl ⟨folder.dropLast, fun tree => (if_neg hdot).trans (if_pos hdots)⟩)
    · by_cases hlong : 255 < (Text.Utf8.encode name).length
      · exact .inr (.inr ⟨.nameTooLong, fun tree =>
          (if_neg hdot).trans ((if_neg hdots).trans (if_pos hlong))⟩)
      · exact .inr (.inl ⟨folder ++ [name], fun tree =>
          (if_neg hdot).trans ((if_neg hdots).trans (if_neg hlong))⟩)

/-- A walk to the place of a file ends at what stands there, whatever file is put into the tree. -/
theorem walk_withFile {other : List String} (hspot : spot.IsFileAt other) :
    ∀ (names folder : List String), tree.walk (.folder folder) names = .ok spot →
      tree.spotAt other = spot ∧ ∀ place content,
        (tree.withFile place content).walk (.folder folder) names =
          .ok ((tree.withFile place content).spotAt other)
  | [], folder, hwalk => by
    cases hwalk
    exact absurd hspot Spot.not_isFileAt_folder
  | name :: names, folder, hwalk => by
    obtain ⟨next, henter, hrest⟩ := exists_of_bind_eq_ok hwalk
    simp only [walk]
    rcases enter_folder_cases folder name with hstay | ⟨reached, hgo⟩ | ⟨fault, hfault⟩
    · rw [hstay] at henter
      cases henter
      simp only [hstay]
      exact walk_withFile hspot names folder hrest
    · rw [hgo] at henter
      cases henter
      simp only [hgo, Results.ok_bind]
      rcases spotAt_cases tree reached with ⟨hafter, hbefore⟩ | ⟨-, hbefore⟩
      · rw [hbefore] at hrest
        simp only [hafter]
        exact walk_withFile hspot names reached hrest
      · -- no walk goes on from here, so this is where the walk ends
        obtain ⟨rfl, rfl⟩ := walk_of_isFileAt hbefore hrest
        obtain rfl := hbefore.unique hspot
        exact ⟨rfl, fun _ _ => rfl⟩
    · rw [hfault] at henter
      cases henter

/-! ## Paths -/

/-- A path leads to the place of a file, which is there or could be. -/
def LeadsTo (tree : FileTree) (path : String) (place : List String) : Prop :=
  ∃ spot, tree.locate path = .ok spot ∧ spot.IsFileAt place

section Paths

variable {path : String}

theorem exists_walk_of_locate (h : tree.locate path = .ok spot) :
    checkPath path = .ok () ∧
      tree.walk (tree.startOf (Route.of path)) (Route.of path).names = .ok spot := by
  obtain ⟨_, hpath, hwalk⟩ := exists_of_bind_eq_ok h
  exact ⟨hpath, hwalk⟩

/-- A path to the place of a file leads to what stands there, whatever file is put into the tree. -/
theorem spotAt_of_locate {other : List String} (h : tree.locate path = .ok spot)
    (hspot : spot.IsFileAt other) : tree.spotAt other = spot ∧ ∀ place content,
      (tree.withFile place content).locate path =
        .ok ((tree.withFile place content).spotAt other) := by
  obtain ⟨hpath, hwalk⟩ := exists_walk_of_locate h
  unfold locate
  rw [hpath]
  exact walk_withFile hspot _ _ hwalk

theorem locate_withFile (h : tree.LeadsTo path place) :
    (tree.withFile place content).locate path = .ok (.file place content) := by
  obtain ⟨spot, hlocate, hspot⟩ := h
  obtain ⟨rfl, hafter⟩ := spotAt_of_locate hlocate hspot
  rw [hafter, spotAt_withFile hspot]

theorem locate_withFile_of_ne {other : List String} {old : List UInt8} (hne : other ≠ place)
    (h : tree.locate path = .ok (.file other old)) :
    (tree.withFile place content).locate path = .ok (.file other old) := by
  obtain ⟨hbefore, hafter⟩ := spotAt_of_locate h (.inr ⟨old, rfl⟩)
  rw [hafter, spotAt_withFile_of_ne hne, hbefore]

/-- A file can be read at a path that leads to it and is not closed by a slash. -/
theorem read_eq_ok_iff : tree.read path = .ok content ↔
    (Route.of path).closed = false ∧ ∃ place, tree.locate path = .ok (.file place content) := by
  unfold read
  constructor
  · intro h
    obtain ⟨spot, hlocate, h⟩ := exists_of_bind_eq_ok h
    cases spot with
    | folder place => cases h
    | vacant place => cases h
    | file place old =>
      dsimp only at h
      split at h
      next => cases h
      next hopen =>
        cases h
        exact ⟨Bool.eq_false_iff.mpr hopen, place, hlocate⟩
  · intro h
    obtain ⟨hopen, place, hlocate⟩ := h
    rw [hlocate, Results.ok_bind]
    exact if_neg (Bool.eq_false_iff.mp hopen)

/-- What is read at a path that leads to the place of a file that is put into the tree is this file. -/
theorem read_withFile {old : List UInt8} (h : tree.LeadsTo path place)
    (hread : tree.read path = .ok old) : (tree.withFile place content).read path = .ok content :=
  read_eq_ok_iff.mpr ⟨(read_eq_ok_iff.mp hread).1, place, locate_withFile h⟩

/-- What is read at any other path is what was read before. -/
theorem read_withFile_of_not_leadsTo {old : List UInt8} (h : ¬ tree.LeadsTo path place)
    (hread : tree.read path = .ok old) : (tree.withFile place content).read path = .ok old := by
  obtain ⟨hopen, other, hlocate⟩ := read_eq_ok_iff.mp hread
  have hne : other ≠ place := by
    rintro rfl
    exact h ⟨_, hlocate, .inr ⟨old, rfl⟩⟩
  exact read_eq_ok_iff.mpr ⟨hopen, other, locate_withFile_of_ne hne hlocate⟩

/-- A content is written to the place of a file, at a path that is not closed by a slash. -/
theorem exists_leadsTo_of_write (h : tree.write path content = .ok after) :
    (Route.of path).closed = false ∧
      ∃ place, tree.LeadsTo path place ∧ after = tree.withFile place content := by
  unfold write at h
  obtain ⟨_, hpath, h⟩ := exists_of_bind_eq_ok h
  dsimp only at h
  split at h
  next =>
    obtain ⟨_, -, h⟩ := exists_of_bind_eq_ok h
    obtain ⟨_, -, h⟩ := exists_of_bind_eq_ok h
    cases h
  next hopen =>
    obtain ⟨spot, hwalk, h⟩ := exists_of_bind_eq_ok h
    have hlocate : tree.locate path = .ok spot := by
      unfold locate
      rw [hpath]
      exact hwalk
    refine ⟨Bool.eq_false_iff.mpr hopen, ?_⟩
    cases spot with
    | folder place => cases h
    | vacant place =>
      cases h
      exact ⟨place, ⟨_, hlocate, .inl rfl⟩, rfl⟩
    | file place old =>
      cases h
      exact ⟨place, ⟨_, hlocate, .inr ⟨old, rfl⟩⟩, rfl⟩

/-- Whatever is written to such a path goes to the place that it leads to. -/
theorem write_of_leadsTo (h : tree.LeadsTo path place) (hopen : (Route.of path).closed = false) :
    tree.write path content = .ok (tree.withFile place content) := by
  obtain ⟨spot, hlocate, hspot⟩ := h
  obtain ⟨hpath, hwalk⟩ := exists_walk_of_locate hlocate
  unfold write
  rw [hpath, Results.ok_bind]
  dsimp only
  rw [if_neg (Bool.eq_false_iff.mp hopen), hwalk, Results.ok_bind]
  rcases hspot with rfl | ⟨old, rfl⟩
  · rfl
  · rfl

/-- Where something can be written, anything can. -/
theorem exists_write_of_write {first : List UInt8} (content : List UInt8)
    (h : tree.write path first = .ok after) : ∃ written, tree.write path content = .ok written := by
  obtain ⟨hopen, place, hleads, -⟩ := exists_leadsTo_of_write h
  exact ⟨_, write_of_leadsTo hleads hopen⟩

/-- Opening a file to write to it comes to the same as writing to it. -/
theorem write_write {opened : FileTree} {first : List UInt8}
    (h : tree.write path first = .ok opened) :
    opened.write path content = tree.write path content := by
  obtain ⟨hopen, place, hleads, rfl⟩ := exists_leadsTo_of_write h
  have hagain : (tree.withFile place first).LeadsTo path place :=
    ⟨_, locate_withFile hleads, .inr ⟨first, rfl⟩⟩
  rw [write_of_leadsTo hagain hopen, write_of_leadsTo hleads hopen, withFile, withFile, withFile,
    Dictionary.put_put]

/-- A file that is written is as it was just if it held what is written. -/
theorem eq_self_of_write_iff (h : tree.write path content = .ok after) :
    after = tree ↔ tree.read path = .ok content := by
  obtain ⟨hopen, place, hleads, rfl⟩ := exists_leadsTo_of_write h
  constructor
  · intro hsame
    have hread : (tree.withFile place content).read path = .ok content :=
      read_eq_ok_iff.mpr ⟨hopen, place, locate_withFile hleads⟩
    rwa [hsame] at hread
  · intro hread
    obtain ⟨-, other, hlocate⟩ := read_eq_ok_iff.mp hread
    obtain ⟨spot, hspot, hfile⟩ := hleads
    obtain rfl := Except.ok.inj (hspot.symm.trans hlocate)
    obtain rfl := hfile.unique (.inr ⟨content, rfl⟩)
    rw [withFile, Dictionary.put_of_get? (get?_of_spotAt (spotAt_of_locate hlocate hfile).1)]

theorem LeadsTo.writes (h : tree.LeadsTo path place) (hopen : (Route.of path).closed = false) :
    tree.Writes path content place (tree.withFile place content) where
  locate_eq := locate_withFile h
  read_eq := read_eq_ok_iff.mpr ⟨hopen, place, locate_withFile h⟩
  others _ hother := (Dictionary.get?_put _ _ _ _).trans (if_neg (Ne.symm hother))
  folders_eq := rfl
  here_eq := rfl

/-- A content that is written to a path is what the path leads to afterwards. -/
theorem exists_writes_of_write (h : tree.write path content = .ok after) :
    ∃ place, tree.Writes path content place after := by
  obtain ⟨hopen, place, hleads, rfl⟩ := exists_leadsTo_of_write h
  exact ⟨place, hleads.writes hopen⟩

/-! ## Paths through the same folders -/

/-- The components of a path that are not empty. -/
def namesOf (path : List Char) : List String :=
  ((Path.components path).map String.ofList).filter (· ≠ "")

theorem namesOf_append_slash (around last : List Char) :
    namesOf (around ++ '/' :: last) = namesOf around ++ namesOf last := by
  simp only [namesOf, Path.components_append_slash, List.map_append, List.filter_append]

theorem namesOf_of_notMem {last : List Char} (hslash : '/' ∉ last) (hne : last ≠ []) :
    namesOf last = [String.ofList last] := by
  have hname : String.ofList last ≠ "" := by
    rw [Ne, ← String.toList_inj, String.toList_ofList]
    exact hne
  rw [namesOf, Path.components_of_notMem hslash, List.map_singleton]
  exact List.filter_cons_of_pos (decide_eq_true hname)

section Siblings

variable {folders last : List Char}

theorem names_of_append (hfolders : folders = [] ∨ ∃ around, folders = around ++ ['/'])
    (hslash : '/' ∉ last) (hne : last ≠ []) :
    (Route.of (String.ofList (folders ++ last))).names =
      namesOf folders ++ [String.ofList last] := by
  show namesOf (String.ofList (folders ++ last)).toList = _
  rw [String.toList_ofList]
  rcases hfolders with rfl | ⟨around, rfl⟩
  · exact namesOf_of_notMem hslash hne
  · have hnil : namesOf [] = [] := by decide
    rw [List.append_assoc, List.singleton_append, namesOf_append_slash, namesOf_append_slash,
      namesOf_of_notMem hslash hne, hnil, List.append_nil]

theorem absolute_of_append (hslash : '/' ∉ last) :
    (Route.of (String.ofList (folders ++ last))).absolute = decide (folders.head? = some '/') := by
  show decide ((String.ofList (folders ++ last)).toList.head? = some '/') = _
  rw [String.toList_ofList]
  cases folders with
  | cons c cs => rfl
  | nil =>
    apply decide_eq_decide.mpr
    refine iff_of_false ?_ nofun
    intro hhead
    exact hslash (List.mem_of_head? hhead)

theorem walk_append (names names' : List String) (spot : Spot) :
    tree.walk spot (names ++ names') = tree.walk spot names >>= (tree.walk · names') := by
  induction names generalizing spot with
  | nil => rfl
  | cons name names ih =>
    show tree.enter spot name >>= (tree.walk · (names ++ names')) = _
    simp only [ih, walk, bind_assoc]

/-- A path through folders leads where its last component leads from there. -/
theorem exists_enter_of_locate (hfolders : folders = [] ∨ ∃ around, folders = around ++ ['/'])
    (hslash : '/' ∉ last) (hne : last ≠ [])
    (h : tree.locate (String.ofList (folders ++ last)) = .ok spot) :
    ∃ around, tree.walk (.folder (if folders.head? = some '/' then [] else tree.here))
        (namesOf folders) = .ok around ∧
      tree.enter around (String.ofList last) = .ok spot := by
  obtain ⟨-, hwalk⟩ := exists_walk_of_locate h
  rw [names_of_append hfolders hslash hne, startOf, absolute_of_append hslash, walk_append] at hwalk
  obtain ⟨around, haround, hlast⟩ := exists_of_bind_eq_ok hwalk
  obtain ⟨spot', henter, hspot⟩ := exists_of_bind_eq_ok hlast
  cases hspot
  refine ⟨around, ?_, henter⟩
  simpa only [decide_eq_true_eq] using haround

/-- The place of a file is in the folder that it is entered from, or around this folder. -/
theorem place_of_enter {around : Spot} {name : String} (h : tree.enter around name = .ok spot)
    (hspot : spot.IsFileAt place) : ∃ folder, around = .folder folder ∧
      (name = ".." ∧ place = folder.dropLast ∨ place = folder ++ [name]) := by
  cases around with
  | file other content => cases h
  | vacant other => cases h
  | folder folder =>
    have hplace {other : List String} (h : tree.spotAt other = spot) : place = other := by
      rcases spotAt_cases tree other with ⟨-, hfolder⟩ | ⟨-, hfile⟩
      · rw [← h, hfolder] at hspot
        exact absurd hspot Spot.not_isFileAt_folder
      · exact hspot.unique (h ▸ hfile)
    refine ⟨folder, rfl, ?_⟩
    unfold enter at h
    dsimp only at h
    split at h
    next =>
      cases h
      exact absurd hspot Spot.not_isFileAt_folder
    next =>
      split at h
      next hdots =>
        exact .inl ⟨hdots, hplace (Except.ok.inj h)⟩
      next =>
        split at h
        next => cases h
        next => exact .inr (hplace (Except.ok.inj h))

/-- Two paths through the same folders lead to one file just if they are the same, where the second
one does not go back at its end. -/
theorem last_eq_of_leadsTo {last' : List Char}
    (hfolders : folders = [] ∨ ∃ around, folders = around ++ ['/']) (hslash : '/' ∉ last)
    (hne : last ≠ []) (hslash' : '/' ∉ last') (hne' : last' ≠ []) (hdots : last' ≠ ['.', '.'])
    (h : tree.LeadsTo (String.ofList (folders ++ last)) place)
    (h' : tree.LeadsTo (String.ofList (folders ++ last')) place) : last = last' := by
  obtain ⟨spot, hlocate, hspot⟩ := h
  obtain ⟨spot', hlocate', hspot'⟩ := h'
  obtain ⟨around, hwalk, henter⟩ := exists_enter_of_locate hfolders hslash hne hlocate
  obtain ⟨around', hwalk', henter'⟩ := exists_enter_of_locate hfolders hslash' hne' hlocate'
  obtain rfl := Except.ok.inj (hwalk.symm.trans hwalk')
  obtain ⟨folder, rfl, hplace⟩ := place_of_enter henter hspot
  obtain ⟨folder', heq, hplace'⟩ := place_of_enter henter' hspot'
  cases heq
  have hplace' : place = folder ++ [String.ofList last'] := by
    refine hplace'.resolve_left fun h => hdots ?_
    rw [← String.toList_ofList (l := last'), h.1]
    rfl
  rcases hplace with ⟨-, hplace⟩ | hplace
  · -- a folder is not in the folder around it
    have hlength := congrArg List.length (hplace.symm.trans hplace')
    rw [List.length_dropLast, List.length_append, List.length_singleton] at hlength
    omega
  · have hlast := List.append_cancel_left (hplace.symm.trans hplace')
    have hchars := congrArg String.toList (List.singleton_inj.mp hlast)
    rwa [String.toList_ofList, String.toList_ofList] at hchars

end Siblings

/-- A file can be read at a path only if the path has a last component. -/
theorem last_ne_nil_of_read {folders last : List Char}
    (hfolders : folders = [] ∨ ∃ around, folders = around ++ ['/'])
    (hread : tree.read (String.ofList (folders ++ last)) = .ok content) : last ≠ [] := by
  rintro rfl
  rw [List.append_nil] at hread
  obtain ⟨hopen, other, hlocate⟩ := read_eq_ok_iff.mp hread
  rcases hfolders with rfl | ⟨around, rfl⟩
  · cases (exists_walk_of_locate hlocate).1
  · have hclosed : (Route.of (String.ofList (around ++ ['/']))).closed = true := by
      show decide ((String.ofList (around ++ ['/'])).toList.getLast? = some '/') = true
      rw [String.toList_ofList, List.getLast?_concat]
      rfl
    rw [hclosed] at hopen
    cases hopen

/-- Beside a file that can be read, the path with another extension leads to the same file just if it
is the same path. -/
theorem leadsTo_stem_iff {letters : String} (hne : letters ≠ "")
    (hletters : ∀ c ∈ letters.toList, c.isAlphanum = true) (hread : tree.read path = .ok content)
    (h : tree.LeadsTo (Path.stem path ++ "." ++ letters) place) :
    tree.LeadsTo path place ↔ Path.stem path ++ "." ++ letters = path := by
  constructor
  · intro hpath
    obtain ⟨folders, name, extension, hsplit⟩ := Path.exists_isSplit path.toList
    have hderived := hsplit.stem_append letters
    rw [String.ofList_toList] at hderived
    have hsource : path = String.ofList (folders ++ (name ++ extension)) := by
      rw [hsplit.append_eq, String.ofList_toList]
    rw [hsource] at hread hpath
    rw [hderived] at h
    have hslash : '/' ∉ name ++ '.' :: letters.toList := by
      intro hmem
      rcases List.mem_append.mp hmem with hmem | hmem
      · exact hsplit.slash_notMem (List.mem_append_left _ hmem)
      · rcases List.mem_cons.mp hmem with hmem | hmem
        · cases hmem
        · cases hletters _ hmem
    have hdots : name ++ '.' :: letters.toList ≠ ['.', '.'] := by
      intro hdots
      obtain ⟨c, hc⟩ := List.exists_mem_of_ne_nil letters.toList
        (fun hnil => hne (String.toList_inj.mp hnil))
      have hmem : c ∈ name ++ '.' :: letters.toList :=
        List.mem_append_right _ (List.mem_cons_of_mem _ hc)
      rw [hdots] at hmem
      have hpoint : c = '.' := by simpa using hmem
      subst hpoint
      cases hletters _ hc
    have hlast := last_eq_of_leadsTo hsplit.folders_cases hsplit.slash_notMem
      (last_ne_nil_of_read hsplit.folders_cases hread) hslash (by simp) hdots hpath h
    rw [hderived, ← hlast, ← hsource]
  · intro heq
    rwa [heq] at h

/-! ## The character that ends a path -/

variable {fault : Fault}

theorem isNumbered_of_enter {name : String} (h : tree.enter spot name = .error fault) :
    fault.isNumbered = true := by
  cases spot with
  | file place content =>
    cases h
    rfl
  | vacant place =>
    cases h
    rfl
  | folder folder =>
    unfold enter at h
    dsimp only at h
    split at h
    next => cases h
    next =>
      split at h
      next => cases h
      next =>
        split at h
        next =>
          cases h
          rfl
        next => cases h

/-- A walk has faults of the system alone. -/
theorem isNumbered_of_walk {names : List String} (h : tree.walk spot names = .error fault) :
    fault.isNumbered = true := by
  induction names generalizing spot with
  | nil => cases h
  | cons name names ih =>
    rcases bind_eq_error_iff.mp h with h | ⟨next, -, h⟩
    · exact isNumbered_of_enter h
    · exact ih h

theorem checkPath_unnumbered_iff :
    checkPath path = .error fault ∧ fault.isNumbered = false ↔
      fault = .embeddedNull ∧ '\x00' ∈ path.toList := by
  unfold checkPath
  split
  next hnull =>
    constructor
    · rintro ⟨h, -⟩
      cases h
      exact ⟨rfl, List.contains_iff_mem.mp hnull⟩
    · rintro ⟨rfl, -⟩
      exact ⟨rfl, rfl⟩
  next hnull =>
    refine iff_of_false ?_ fun h => hnull (List.contains_iff_mem.mpr h.2)
    rintro ⟨h, hfault⟩
    split at h
    next =>
      cases h
      cases hfault
    next =>
      split at h
      next =>
        cases h
        cases hfault
      next => cases h

/-- Nothing but the path itself can hold the character that ends it. -/
theorem read_unnumbered_iff :
    tree.read path = .error fault ∧ fault.isNumbered = false ↔
      fault = .embeddedNull ∧ '\x00' ∈ path.toList := by
  rw [← checkPath_unnumbered_iff, read, bind_eq_error_iff, locate, bind_eq_error_iff, or_assoc]
  refine and_congr_left fun hfault => or_iff_left ?_
  rintro (⟨_, -, hwalk⟩ | ⟨spot, -, hspot⟩)
  · exact Bool.eq_false_iff.mp hfault (isNumbered_of_walk hwalk)
  · refine Bool.eq_false_iff.mp hfault ?_
    cases spot with
    | folder place =>
      cases hspot
      rfl
    | vacant place =>
      cases hspot
      rfl
    | file place content =>
      dsimp only at hspot
      split at hspot
      next =>
        cases hspot
        rfl
      next => cases hspot

theorem write_unnumbered_iff :
    tree.write path content = .error fault ∧ fault.isNumbered = false ↔
      fault = .embeddedNull ∧ '\x00' ∈ path.toList := by
  rw [← checkPath_unnumbered_iff, write, bind_eq_error_iff]
  refine and_congr_left fun hfault => or_iff_left ?_
  rintro ⟨_, -, h⟩
  refine Bool.eq_false_iff.mp hfault ?_
  dsimp only at h
  split at h
  next =>
    rcases bind_eq_error_iff.mp h with h | ⟨around, -, h⟩
    · exact isNumbered_of_walk h
    · rcases bind_eq_error_iff.mp h with h | ⟨_, -, h⟩
      · exact isNumbered_of_enter h
      · cases h
        rfl
  next =>
    rcases bind_eq_error_iff.mp h with h | ⟨spot, -, h⟩
    · exact isNumbered_of_walk h
    · cases spot with
      | folder place =>
        cases h
        rfl
      | vacant place => cases h
      | file place old => cases h

end Paths

end Boli.FileTree
