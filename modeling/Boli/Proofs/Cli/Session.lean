import Boli.Cli.Run
import Boli.Proofs.Files
import Boli.Proofs.Results

/-!
# What a run does

The steps of a run up to its code read files and write none. On a tree of files each of them comes
to a result that the tree decides, prints a listing or nothing, and adds to the log (`Settles`); a
step behind it goes on from there. So a whole run is a function of its arguments and the files
(`runArguments_eq`): what it prints are the listings that are asked for and then the code, and the
files afterwards are the ones before, or those with the code in one of them.

A run that fails leaves the files as it found them, unless it has opened its output file
(`Arguments.abandoned`). Behind that the code can still be without bytes, if the arguments hold lone
surrogates. If they hold none, nothing fails there (`abandoned_eq_self`).
-/

set_option autoImplicit false

namespace Boli.Cli

open Boli.Keyword (Table)
open Boli.Results (eq_ok_of_mapError exists_of_bind_eq_ok mapError_bind mapError_id
  mapError_mapError mapError_ok ok_bind)

variable {α β : Type} {tree : FileTree}

/-- A step that has come to a result, in the state in which it stops. -/
def settle (r : Except RunError α) (s : Session) : EStateM.Result RunError Session α :=
  match r with
  | .ok a => .ok a s
  | .error e => .error e s

theorem run_lift {ε : Type} (cause : ε → RunError) (r : Except ε α) (s : Session) :
    (lift cause r).run s = settle (r.mapError cause) s := by
  cases r with
  | ok a => rfl
  | error e => rfl

/-- On a tree of files a step comes to a result, prints a text and logs some lines, whatever is
printed and logged before, and it leaves the files as they are. -/
def Settles (p : Run α) (tree : FileTree) (r : Except RunError α) (out : String) : Prop :=
  ∃ lines, ∀ front log, p.run ⟨tree, front, log⟩ = settle r ⟨tree, front ++ out, log ++ lines⟩

/-- What is printed behind a step: a text that its result decides, and nothing if it fails. -/
def behind (r : Except RunError α) (out : α → String) : String :=
  match r with
  | .ok a => out a
  | .error _ => ""

theorem behind_eq_empty {r : Except RunError α} {out : α → String} (h : ∀ a, out a = "") :
    behind r out = "" := by
  cases r with
  | ok a => exact h a
  | error e => rfl

namespace Settles

variable {p : Run α} {f : α → Run β} {r : Except RunError α} {g : α → Except RunError β}
  {out : String}

protected theorem pure (a : α) : Settles (pure a) tree (.ok a) "" :=
  ⟨[], fun front log => by simp only [settle, String.append_empty, List.append_nil]; rfl⟩

protected theorem throw (e : RunError) : Settles (throw e : Run α) tree (.error e) "" :=
  ⟨[], fun front log => by simp only [settle, String.append_empty, List.append_nil]; rfl⟩

protected theorem lift {ε : Type} (cause : ε → RunError) (r : Except ε α) :
    Settles (lift cause r) tree (r.mapError cause) "" := by
  cases r with
  | ok a => exact Settles.pure a
  | error e => exact Settles.throw (cause e)

theorem lift_id (r : Except RunError α) : Settles (lift id r) tree r "" := by
  have hlift : Settles (lift id r) tree (r.mapError id) "" := .lift id r
  rwa [mapError_id] at hlift

protected theorem log (level : Level) (message : String) :
    Settles (log level message) tree (.ok ()) "" :=
  ⟨[⟨level, message⟩], fun front log => by simp only [settle, String.append_empty]; rfl⟩

/-- A step that prints nothing, and what goes on behind it if it has a result. -/
protected theorem bind {out : α → String} (hp : Settles p tree r "")
    (hf : ∀ a, r = .ok a → Settles (f a) tree (g a) (out a)) :
    Settles (p >>= f) tree (r >>= g) (behind r out) := by
  obtain ⟨lines, hrun⟩ := hp
  cases r with
  | error e =>
    refine ⟨lines, fun front log => ?_⟩
    rw [EStateM.run_bind, hrun]
    rfl
  | ok a =>
    obtain ⟨more, hmore⟩ := hf a rfl
    refine ⟨lines ++ more, fun front log => ?_⟩
    rw [EStateM.run_bind, hrun]
    show (f a).run _ = _
    rw [String.append_empty, hmore, List.append_assoc]
    rfl

/-- Both steps print nothing. -/
theorem bind_quiet (hp : Settles p tree r "") (hf : ∀ a, r = .ok a → Settles (f a) tree (g a) "") :
    Settles (p >>= f) tree (r >>= g) "" := by
  have hbind := hp.bind hf
  cases r with
  | ok a => exact hbind
  | error e => exact hbind

/-- A step that always has a result. -/
theorem bind_ok {a : α} {r : Except RunError β} (hp : Settles p tree (.ok a) "")
    (hf : Settles (f a) tree r out) : Settles (p >>= f) tree r out :=
  have hbind : Settles (p >>= f) tree (Except.ok a >>= fun _ => r) (behind (.ok a) fun _ => out) :=
    hp.bind fun _ h => by cases h; exact hf
  hbind

/-- A step that depends on the files. -/
theorem bind_tree {f : FileTree → Run α} (hf : Settles (f tree) tree r out) :
    Settles (do let s ← get; f s.tree) tree r out := hf

/-- A text may be printed first. -/
theorem print_if {b : Bool} {text : String} {k : Unit → Run α} (hk : Settles (k ()) tree r out) :
    Settles (if b = true then print text >>= k else k ()) tree r
      ((if b then text else "") ++ out) := by
  cases b with
  | false => simpa only [Bool.false_eq_true, if_false, String.empty_append] using hk
  | true =>
    obtain ⟨lines, hrun⟩ := hk
    refine ⟨lines, fun front log => ?_⟩
    have hprint := hrun (front ++ text) log
    rw [String.append_assoc] at hprint
    exact hprint

theorem forM_log {ι : Type} (level : Level) (message : ι → String) : ∀ xs : List ι,
    Settles (xs.forM fun x => log level (message x)) tree (.ok ()) ""
  | [] => .pure ()
  | x :: xs => (Settles.log level (message x)).bind_ok (forM_log level message xs)

end Settles

/-! ## The stages of a run -/

/-- The policy of a run. -/
def Arguments.givenPolicy (a : Arguments) : Except RunError Policy :=
  match a.policy with
  | some policy => .ok policy
  | none => .error (.policy ⟨.array []⟩)

/-- The keyword table of a run on a tree of files. -/
def Arguments.table (a : Arguments) (tree : FileTree) : Except RunError Table :=
  match a.keywordsPath with
  | none => .ok .standard
  | some path => do
    (a.checkPath path).mapError (.keywords ∘ (.unreadable · path))
    (Table.ofFile tree path).mapError .keywords

/-- The source text of a run on a tree of files. -/
def Arguments.text (a : Arguments) (tree : FileTree) : Except RunError String :=
  if a.isString then .ok a.source
  else do
    (a.checkPath a.source).mapError (.source ∘ (.unreadable · a.source))
    return String.ofList (← (tree.readText a.source).mapError .source)

theorem settles_readTable (a : Arguments) : Settles (readTable a) tree (a.table tree) "" := by
  unfold readTable Arguments.table
  cases a.keywordsPath with
  | none => exact .pure _
  | some path =>
    simp only [Table.ofFile, Table.withAliases, mapError_bind, mapError_mapError]
    refine (Settles.lift _ _).bind_quiet fun _ _ => ?_
    refine Settles.bind_tree (f := fun tree => do
      let configuration ← lift .keywords (Keyword.loadConfiguration tree path)
      let added ← lift (.keywords ∘ .table) (Table.standard.additions configuration)
      log .debug ("Keyword table extended with " ++ toString added.length ++ " alias(es)")
      lift (.keywords ∘ .table) (Table.standard.extend added)) ?_
    refine (Settles.lift _ _).bind_quiet fun configuration _ => ?_
    refine (Settles.lift _ _).bind_quiet fun added _ => ?_
    exact (Settles.log _ _).bind_ok (.lift _ _)

theorem settles_readSource (a : Arguments) : Settles (readSource a) tree (a.text tree) "" := by
  unfold readSource Arguments.text
  split
  next => exact .pure _
  next =>
    refine (Settles.lift _ _).bind_quiet fun _ _ => ?_
    refine Settles.bind_tree (f := fun tree => do
      return String.ofList (← lift .source (tree.readText a.source))) ?_
    exact (Settles.lift _ _).bind_quiet fun cs _ => .pure _

theorem settles_readTokens (a : Arguments) (table : Table) (source : String) :
    Settles (readTokens a table source) tree (a.tokens table source) "" := by
  unfold readTokens
  rw [← bind_pure (a.tokens table source)]
  refine Settles.bind_quiet ?_ fun tokens _ => (Settles.log _ _).bind_ok (.pure tokens)
  rw [bind_pure]
  exact .lift_id _

theorem settles_readProgram (mode : Strictness) (tokens : List Token) :
    Settles (readProgram mode tokens) tree
      ((parse mode tokens).mapError (.compile ∘ .grammar)) "" := by
  unfold readProgram parse
  refine Settles.bind_ok (Settles.forM_log _ _ _) ?_
  cases (Parser.program mode).run (.start tokens) with
  | error failure s => exact .throw _
  | ok p s =>
    cases p with
    | statements body => exact (Settles.log _ _).bind_ok (.pure _)
    | foreign kind data => exact .pure _

theorem settles_generate (t : Target) (policy : Policy) (p : Program) :
    Settles (generate t policy p) tree ((emit t policy p).mapError (.compile ∘ .emission)) "" := by
  unfold generate emit
  rw [map_eq_pure_bind, mapError_bind]
  exact (Settles.lift _ _).bind_quiet fun r _ => (Settles.forM_log _ _ _).bind_ok (.pure r.1)

/-! ## Encoding -/

/-- A text that has bytes has those of its characters. -/
theorem eq_of_encode {a : Arguments} {s : String} {bytes : List UInt8}
    (h : a.encode s = .ok bytes) : bytes = Text.Utf8.encode s := by
  unfold Arguments.encode at h
  split at h
  next => cases h
  next =>
    cases h
    rfl

/-- A source has the same tokens whatever its characters stand for. -/
theorem tokens_eq_ok_iff {a : Arguments} {table : Table} {text : String} {tokens : List Token} :
    a.tokens table text = .ok tokens ↔ tokenize table text = .ok tokens := by
  unfold Arguments.tokens
  cases tokenize table text with
  | ok tokens' => exact ⟨fun h => by cases h; rfl, fun h => by cases h; rfl⟩
  | error failure =>
    refine iff_of_false (fun h => ?_) nofun
    obtain ⟨_, -, h⟩ := exists_of_bind_eq_ok h
    cases h

section Texts

variable {a : Arguments} (h : a.lone = none)

include h

theorem fault?_loose (allowed : Text.Surrogate → Bool) (s : String) :
    (a.loose s).fault? allowed = none := by
  rw [Arguments.loose, h, Text.Loose.fault?_eq_none_iff]
  intro surrogate hmem
  cases Text.Loose.not_isLone_of_mem_ofString hmem

theorem encode_eq (s : String) : a.encode s = .ok (Text.Utf8.encode s) := by
  rw [Arguments.encode, fault?_loose h, ite_self]

theorem checkPath_eq (path : String) : a.checkPath path = .ok () := by
  rw [Arguments.checkPath, fault?_loose h]

theorem tokens_eq (table : Table) (text : String) :
    a.tokens table text = (tokenize table text).mapError (.compile ∘ .lexical) := by
  unfold Arguments.tokens
  cases tokenize table text with
  | ok tokens => rfl
  | error failure =>
    simp only [encode_eq h]
    rfl

end Texts

/-! ## Up to the code -/

/-- A run up to its code, which is neither printed nor written yet. -/
def draft (a : Arguments) : Run (Target × String) := do
  let policy ← lift id a.givenPolicy
  let t ← lift .target (Target.select a.target a.out)
  log .debug ("Selected target " ++ t.name)
  let table ← readTable a
  let source ← readSource a
  let tokens ← readTokens a table source
  if a.dumpTokens then print (tokenListing tokens)
  let program ← readProgram a.strictness tokens
  if a.dumpAst then print (programListing program)
  let code ← generate t policy program
  return (t, code)

/-- The end of a run: its code is printed or written. -/
def deliver (a : Arguments) (t : Target) (code : String) : Run String := do
  if a.prints then printCode a code else save a t code
  return code

theorem session_eq (a : Arguments) : session a = draft a >>= fun (t, code) => deliver a t code := by
  unfold session draft deliver Arguments.givenPolicy
  cases a.policy with
  | none => rfl
  | some policy =>
    simp only [lift, bind_assoc, pure_bind]
    cases a.dumpTokens <;> cases a.dumpAst <;>
      simp only [Bool.false_eq_true, if_true, if_false, bind_assoc, pure_bind]

/-- The target and the code of a run on a tree of files, or the first error. -/
def Arguments.code (a : Arguments) (tree : FileTree) : Except RunError (Target × String) := do
  let policy ← a.givenPolicy
  let t ← (Target.select a.target a.out).mapError .target
  let table ← a.table tree
  let text ← a.text tree
  let tokens ← a.tokens table text
  let program ← (Boli.parse a.strictness tokens).mapError (.compile ∘ .grammar)
  let code ← (emit t policy program).mapError (.compile ∘ .emission)
  return (t, code)

/-- The listings that are asked for, up to the first error of the run. -/
def Arguments.listings (a : Arguments) (tree : FileTree) : String :=
  behind a.givenPolicy fun _ =>
  behind ((Target.select a.target a.out).mapError .target) fun _ =>
  behind (a.table tree) fun table =>
  behind (a.text tree) fun text =>
  behind (a.tokens table text) fun tokens =>
    (if a.dumpTokens then tokenListing tokens else "") ++
  behind ((Boli.parse a.strictness tokens).mapError (.compile ∘ .grammar)) fun program =>
    if a.dumpAst then programListing program else ""

/-- Up to its code a run leaves the files as they are, and prints nothing but listings. -/
theorem settles_draft (a : Arguments) (tree : FileTree) :
    Settles (draft a) tree (a.code tree) (a.listings tree) := by
  unfold draft Arguments.code Arguments.listings
  refine (Settles.lift_id a.givenPolicy).bind fun policy _ => ?_
  refine (Settles.lift _ _).bind fun t _ => (Settles.log _ _).bind_ok ?_
  refine (settles_readTable a).bind fun table _ => ?_
  refine (settles_readSource a).bind fun text _ => ?_
  refine (settles_readTokens a table text).bind fun tokens _ => Settles.print_if ?_
  refine (settles_readProgram a.strictness tokens).bind fun program _ => ?_
  have hlast : (if a.dumpAst then programListing program else "") ++ "" = _ := String.append_empty
  rw [← hlast]
  exact Settles.print_if ((settles_generate t policy program).bind_quiet fun code _ => .pure _)

/-! ## The whole run -/

/-- The output path of a run, and the files when the file there has been opened and holds nothing
yet. -/
def Arguments.opened (a : Arguments) (tree : FileTree) (t : Target) :
    Except RunError (String × FileTree) := do
  let path ← (Target.outputPath a.source a.out t.name).mapError .target
  (a.checkPath path).mapError (.output · path)
  let opened ← (tree.write path []).mapError (.output · path)
  return (path, opened)

/-- What the end of a run comes to: the code as far as it is printed, and the files afterwards. -/
def Arguments.delivered (a : Arguments) (tree : FileTree) (t : Target) (code : String) :
    Except RunError (String × FileTree) :=
  if a.prints then do
    let _ ← (a.encode code).mapError (.output · "<stdout>")
    return (code, tree)
  else do
    let (path, opened) ← a.opened tree t
    let written ← (a.encode code >>= opened.write path).mapError (.output · path)
    return ("", written)

/-- What a run on a tree of files comes to. -/
def Arguments.result (a : Arguments) (tree : FileTree) : Except RunError (String × FileTree) := do
  let (t, code) ← a.code tree
  a.delivered tree t code

/-- The files that a run leaves if it comes to no result. -/
def Arguments.abandoned (a : Arguments) (tree : FileTree) : FileTree :=
  match a.code tree with
  | .error _ => tree
  | .ok (t, _) => if a.prints then tree else ((a.opened tree t).map Prod.snd).toOption.getD tree

/-- The code is written to the file that has been opened, or it is left open and empty. -/
theorem run_save (a : Arguments) (tree : FileTree) (t : Target) (code front : String)
    (log : List LogLine) :
    ∃ lines, (save a t code).run ⟨tree, front, log⟩ =
      match a.opened tree t with
      | .error e => .error e ⟨tree, front, log⟩
      | .ok (path, opened) =>
        match (a.encode code >>= opened.write path).mapError (.output · path) with
        | .error e => .error e ⟨opened, front, log⟩
        | .ok written => .ok () ⟨written, front, log ++ lines⟩ := by
  unfold save Arguments.opened
  simp only [EStateM.run_bind, run_lift, EStateM.run_get, EStateM.run_modify]
  cases Target.outputPath a.source a.out t.name with
  | error e => exact ⟨[], rfl⟩
  | ok path =>
    simp only [mapError_ok, settle, ok_bind]
    cases a.checkPath path with
    | error fault => exact ⟨[], rfl⟩
    | ok _ =>
      simp only [mapError_ok, ok_bind]
      cases tree.write path [] with
      | error fault => exact ⟨[], rfl⟩
      | ok opened =>
        refine ⟨[⟨.info, "Code saved to " ++ path⟩], ?_⟩
        simp only [mapError_ok, ok_bind, pure, Except.pure]
        cases a.encode code with
        | error fault => rfl
        | ok bytes =>
          simp only [mapError_ok, ok_bind]
          cases opened.write path bytes with
          | error fault => rfl
          | ok written => rfl

theorem run_deliver {a : Arguments} {tree : FileTree} {t : Target} {code : String}
    (hcode : a.code tree = .ok (t, code)) (front : String) (log : List LogLine) :
    ∃ lines, (deliver a t code).run ⟨tree, front, log⟩ =
      match a.delivered tree t code with
      | .ok (printed, after) => .ok code ⟨after, front ++ printed, log ++ lines⟩
      | .error e => .error e ⟨a.abandoned tree, front, log⟩ := by
  unfold deliver Arguments.delivered Arguments.abandoned
  rw [hcode]
  dsimp only
  split
  next =>
    unfold printCode
    cases a.encode code with
    | error fault => exact ⟨[], rfl⟩
    | ok bytes => exact ⟨[], by rw [List.append_nil]; rfl⟩
  next =>
    obtain ⟨lines, hsave⟩ := run_save a tree t code front log
    refine ⟨lines, ?_⟩
    rw [EStateM.run_bind, hsave]
    cases a.opened tree t with
    | error e => rfl
    | ok r =>
      obtain ⟨path, opened⟩ := r
      dsimp only
      rw [ok_bind]
      dsimp only
      cases a.encode code >>= opened.write path with
      | error fault => rfl
      | ok written =>
        show _ = EStateM.Result.ok code (Session.mk written (front ++ "") _)
        rw [String.append_empty]
        rfl

/-- A run prints its listings and then the code, if it prints it. If it fails it leaves the files as
they are, or with an empty output file. -/
theorem runArguments_eq (a : Arguments) (tree : FileTree) :
    ∃ logged, runArguments a tree =
      match a.result tree with
      | .ok (printed, after) => ⟨.exit 0, a.listings tree ++ printed, logged, after⟩
      | .error e => ⟨(report e).2, a.listings tree, logged, a.abandoned tree⟩ := by
  obtain ⟨lines, hdraft⟩ := settles_draft a tree
  unfold runArguments Arguments.result
  rw [session_eq, EStateM.run_bind, hdraft "" [], String.empty_append, List.nil_append]
  cases hcode : a.code tree with
  | error e =>
    rw [Arguments.abandoned, hcode]
    exact ⟨_, rfl⟩
  | ok r =>
    obtain ⟨t, code⟩ := r
    obtain ⟨more, hdeliver⟩ := run_deliver hcode (a.listings tree) lines
    rw [ok_bind]
    simp only [settle, hdeliver]
    cases a.delivered tree t code with
    | error e => exact ⟨_, rfl⟩
    | ok r => exact ⟨_, rfl⟩

/-! ## Runs without a result -/

section Abandoned

variable {a : Arguments} {tree opened : FileTree} {t : Target} {code path : String}

theorem opened_eq_ok_iff : a.opened tree t = .ok (path, opened) ↔
    Target.outputPath a.source a.out t.name = .ok path ∧ a.checkPath path = .ok () ∧
      tree.write path [] = .ok opened := by
  constructor
  · intro h
    obtain ⟨path', hpath, h⟩ := exists_of_bind_eq_ok h
    obtain ⟨_, hcheck, h⟩ := exists_of_bind_eq_ok h
    obtain ⟨opened', hwrite, h⟩ := exists_of_bind_eq_ok h
    cases h
    exact ⟨eq_ok_of_mapError hpath, eq_ok_of_mapError hcheck, eq_ok_of_mapError hwrite⟩
  · rintro ⟨hpath, hcheck, hwrite⟩
    rw [Arguments.opened, hpath, mapError_ok, ok_bind, hcheck, mapError_ok, ok_bind, hwrite]
    rfl

/-- Behind the opening of its output file a run fails just if its code has no bytes. -/
theorem delivered_of_opened (code : String) (hprints : a.prints = false)
    (hopened : a.opened tree t = .ok (path, opened)) :
    (∃ bytes written, a.encode code = .ok bytes ∧ tree.write path bytes = .ok written ∧
        a.delivered tree t code = .ok ("", written)) ∨
      ∃ fault, a.encode code = .error fault ∧
        a.delivered tree t code = .error (.output fault path) := by
  obtain ⟨-, -, hwrite⟩ := opened_eq_ok_iff.mp hopened
  rw [Arguments.delivered, if_neg (Bool.eq_false_iff.mp hprints), hopened, ok_bind]
  dsimp only
  cases hencode : a.encode code with
  | error fault => exact .inr ⟨fault, rfl, rfl⟩
  | ok bytes =>
    obtain ⟨written, hwritten⟩ := FileTree.exists_write_of_write bytes hwrite
    refine .inl ⟨bytes, written, rfl, hwritten, ?_⟩
    rw [ok_bind, FileTree.write_write hwrite, hwritten]
    rfl

theorem abandoned_of_opened (hcode : a.code tree = .ok (t, code)) (hprints : a.prints = false)
    (hopened : a.opened tree t = .ok (path, opened)) : a.abandoned tree = opened := by
  unfold Arguments.abandoned
  rw [hcode]
  dsimp only
  rw [if_neg (Bool.eq_false_iff.mp hprints), hopened]
  rfl

/-- A run that comes to no result leaves the files as they are, or its code has no bytes and the output
file has been opened. -/
theorem abandoned_cases {e : RunError} (h : a.result tree = .error e) :
    a.abandoned tree = tree ∨ ∃ t code path fault,
      a.code tree = .ok (t, code) ∧ a.prints = false ∧
      a.opened tree t = .ok (path, a.abandoned tree) ∧ a.encode code = .error fault := by
  cases hcode : a.code tree with
  | error e' =>
    left
    unfold Arguments.abandoned
    rw [hcode]
  | ok r =>
    obtain ⟨t, code⟩ := r
    cases hprints : a.prints with
    | true =>
      left
      unfold Arguments.abandoned
      rw [hcode]
      exact if_pos hprints
    | false =>
      cases hopened : a.opened tree t with
      | error e' =>
        left
        unfold Arguments.abandoned
        rw [hcode]
        dsimp only
        rw [if_neg (Bool.eq_false_iff.mp hprints), hopened]
        rfl
      | ok r =>
        obtain ⟨path, opened⟩ := r
        right
        rw [abandoned_of_opened hcode hprints hopened]
        rcases delivered_of_opened code hprints hopened with
          ⟨bytes, written, -, -, hdelivered⟩ | ⟨fault, hencode, -⟩
        · rw [Arguments.result, hcode, ok_bind] at h
          dsimp only at h
          rw [hdelivered] at h
          cases h
        · exact ⟨t, code, path, fault, rfl, rfl, hopened, hencode⟩

/-- If its arguments are texts, a run that comes to no result leaves the files as they are. -/
theorem abandoned_eq_self {e : RunError} (hlone : a.lone = none) (h : a.result tree = .error e) :
    a.abandoned tree = tree := by
  rcases abandoned_cases h with hsame | ⟨t, code, path, fault, -, -, -, hencode⟩
  · exact hsame
  · rw [encode_eq hlone] at hencode
    cases hencode

end Abandoned

end Boli.Cli
