import Boli.Proofs.Emission
import Boli.Proofs.Program
import Boli.Proofs.Template

/-!
# The text of a program, policy aside

`text` says without states and failures what a program looks like in a target that can fill its
templates. A statement is one comment line if something that it directly holds is refused
(`rejected`), and otherwise its own lines around those of its bodies. `allDrops` lists the kinds
that comment lines are written for.

Both policies follow from one judgement on runs (`Goes`): under the comment policy the text is
written (`run_comment`), and under the other one emission fails for the first of the dropped kinds,
or writes the same text if there is none (`emit_fail`).
-/

set_option autoImplicit false

namespace Boli.Rendering

open Emission

/-! ## Texts that are given or refused -/

/-- The kind of node that a text is refused for. -/
def refusal : Except Failure String → Option String
  | .error (.unsupported kind _) => some kind
  | .error (.template _) | .error (.numeral _) | .ok _ => none

/-- A text that is given; a refused one shows nothing. -/
def shown (r : Except Failure String) : String := r.toOption.getD ""

/-- A text is given, or refused for a node that the target cannot express. -/
inductive Settled (t : Target) : Except Failure String → Prop where
  | given (text : String) : Settled t (.ok text)
  | refused (kind : String) : Settled t (unsupported t kind)

variable {t : Target}

theorem Settled.bind {r : Except Failure String} {f : String → Except Failure String}
    (hr : Settled t r) (hf : ∀ v, Settled t (f v)) : Settled t (r >>= f) := by
  cases hr with
  | given text => exact hf text
  | refused kind => exact .refused kind

theorem Settled.of_ok {r : Except Failure String} (h : ∃ v, r = .ok v) : Settled t r := by
  obtain ⟨v, rfl⟩ := h
  exact .given v

theorem Settled.mapError {r : Except Template.Fault String} (h : ∃ v, r = .ok v) :
    Settled t (r.mapError .template) := by
  obtain ⟨v, rfl⟩ := h
  exact .given v

/-- A step that always succeeds refuses nothing. -/
theorem refusal_bind {r : Except Failure String} {f : String → Except Template.Fault String}
    (hf : ∀ v, ∃ text, f v = .ok text) :
    refusal (r >>= fun v => (f v).mapError .template) = refusal r := by
  cases r with
  | ok v =>
    obtain ⟨text, htext⟩ := hf v
    show refusal ((f v).mapError .template) = none
    rw [htext]
    rfl
  | error failure => rfl

theorem exists_ok {r : Except Failure String} (hr : Settled t r) (h : refusal r = none) :
    ∃ text, r = .ok text := by
  cases hr with
  | given text => exact ⟨text, rfl⟩
  | refused kind => cases h

/-- A text that is given and then put into a template. -/
theorem filled_eq {r : Except Failure String} {f : String → Except Template.Fault String}
    {v text : String} (hr : r = .ok v) (hf : f v = .ok text) :
    (r >>= fun v => (f v).mapError Failure.template) = .ok text := by
  subst hr
  show (f v).mapError Failure.template = .ok text
  rw [hf]
  rfl

theorem exists_asString (ht : t.Complete) (b : Bindings) (e : Expression) (text : String) :
    ∃ text', asString t b e text = .ok text' := by
  unfold asString
  split
  next => exact ⟨text, rfl⟩
  next =>
    obtain ⟨text', h⟩ := Template.exists_fill ht.stringify text
    exact ⟨text', by rw [h]; rfl⟩

theorem expression_settled (ht : t.Complete) (b : Bindings) :
    ∀ e : Expression, e.Writable → Settled t (expression t b e)
  | .number n, h => by
    obtain ⟨text, hn⟩ := Text.Numeral.exists_write h
    rw [expression, hn]
    exact .given text
  | .text s, _ => .mapError (ht.exists_quote s)
  | .identifier name, _ => .given name
  | .foreign kind _, _ => .refused kind
  | .binary operator left right, ⟨hl, hr⟩ => by
    rw [expression]
    refine (expression_settled ht b left hl).bind fun l => ?_
    refine (expression_settled ht b right hr).bind fun r => ?_
    split
    next =>
      refine (Settled.of_ok (exists_asString ht b left l)).bind fun l' => ?_
      refine (Settled.of_ok (exists_asString ht b right r)).bind fun r' => ?_
      by_cases hc : t.concatenation = none
      · have hnone : t.concatenate l' r' = .ok none := by rw [Target.concatenate, hc]
        rw [hnone]
        exact .refused _
      · obtain ⟨text, htext⟩ := ht.exists_concatenate hc l' r'
        rw [htext]
        exact .given text
    next => exact .mapError (ht.exists_binary operator l r)

theorem condition_settled (ht : t.Complete) (b : Bindings) :
    ∀ c : Condition, c.Writable → Settled t (condition t b c)
  | .foreign kind _, _ => .refused kind
  | .compare left operator right, ⟨hl, hr⟩ => by
    rw [condition]
    refine (expression_settled ht b left hl).bind fun l => ?_
    refine (expression_settled ht b right hr).bind fun r => ?_
    refine (Settled.mapError (ht.exists_binary operator l r)).bind fun text => ?_
    exact .mapError (Template.exists_fill ht.condition text)

/-! ## Texts of statements -/

/-- The text of a declaration; the initializer is written with the new kind already known. -/
def declarationText (t : Target) (b : Bindings) (name : String) (e : Expression) :
    Except Failure String := do
  let value ← expression t (b.put name (valueKind b e)) e
  (t.declaration.fillNamed
    [("type", t.typeName (valueKind b e)), ("name", name), ("value", value)]).mapError .template

/-- The text of an assignment. -/
def assignmentText (t : Target) (b : Bindings) (name : String) (e : Expression) :
    Except Failure String := do
  let value ← expression t b e
  (t.assignment.fillNamed [("name", name), ("value", value)]).mapError .template

/-- The text of a print call. -/
def printText (t : Target) (b : Bindings) (e : Expression) : Except Failure String := do
  let template ← (t.printTemplate (valueKind b e)).mapError .template
  let value ← expression t b e
  (template.fillNamed [("value", value)]).mapError .template

/-- The text of a comment line. -/
def comment (t : Target) (kind : String) : String :=
  t.commentMark ++ " Unsupported statement type: " ++ kind

/-- The text that opens a block. -/
def opener (t : Target) (header : String) : String :=
  match t.blockStyle with
  | .colon => header ++ ":"
  | .braces => header ++ " \x7b"

/-- The lines that close the last block of a statement. -/
def closer (t : Target) (depth : Int) : List Line :=
  match t.blockStyle with
  | .braces => [⟨depth, "\x7d"⟩]
  | .colon => []

/-- The lines that fill a block without statements. -/
def filler (t : Target) (depth : Int) (body : List Statement) : List Line :=
  match body, t.emptyBlock with
  | [], some text => [⟨depth, text⟩]
  | _, _ => []

/-- A block: its header, and the lines of its body one level deeper. -/
def blockLines (t : Target) (depth : Int) (header : String) (body : List Statement)
    (inner : List Line) : List Line :=
  ⟨depth, opener t header⟩ :: (filler t (depth + 1) body ++ inner)

/-! ## What is dropped -/

mutual

/-- The kinds of names behind a statement. What is recorded before something is refused stays. -/
def after (t : Target) (b : Bindings) : Statement → Bindings
  | .declare name e => b.put name (valueKind b e)
  | .branch c body rest =>
    if (refusal (condition t b c)).isSome then b else restAfter t (allAfter t b body) rest
  | .loop c body => if (refusal (condition t b c)).isSome then b else allAfter t b body
  | .assign _ _ | .evaluate _ | .print _ | .foreign _ _ => b

/-- The kinds of names behind what follows the body of a branch. -/
def restAfter (t : Target) (b : Bindings) : Otherwise → Bindings
  | .nothing => b
  | .last body => allAfter t b body
  | .elseIf c body rest =>
    if (refusal (condition t b c)).isSome then b else restAfter t (allAfter t b body) rest

/-- The kinds of names behind statements. -/
def allAfter (t : Target) (b : Bindings) : List Statement → Bindings
  | [] => b
  | s :: ss => allAfter t (after t b s) ss

end

/-- The kind for which one of the further conditions of a branch is refused. -/
def restRejected (t : Target) (b : Bindings) : Otherwise → Option String
  | .nothing | .last _ => none
  | .elseIf c body rest =>
    (refusal (condition t b c)).or (restRejected t (allAfter t b body) rest)

/-- The kind for which a statement is replaced by a comment line: its own if it is foreign, or the
one for which its expression, its condition or a further condition is refused. What its bodies hold
does not count. -/
def rejected (t : Target) (b : Bindings) : Statement → Option String
  | .foreign kind _ => some kind
  | .declare name e => refusal (expression t (b.put name (valueKind b e)) e)
  | .assign _ e | .evaluate e | .print e => refusal (expression t b e)
  | .branch c body rest =>
    (refusal (condition t b c)).or (restRejected t (allAfter t b body) rest)
  | .loop c _ => refusal (condition t b c)

mutual

/-- The kinds of the comment lines in the bodies of a statement, up to a condition that is
refused. -/
def dropsIn (t : Target) (b : Bindings) : Statement → List String
  | .branch c body rest =>
    if (refusal (condition t b c)).isSome then []
    else allDrops t b body ++ restDrops t (allAfter t b body) rest
  | .loop c body => if (refusal (condition t b c)).isSome then [] else allDrops t b body
  | .declare _ _ | .assign _ _ | .evaluate _ | .print _ | .foreign _ _ => []

/-- The kinds of the comment lines in what follows the body of a branch. -/
def restDrops (t : Target) (b : Bindings) : Otherwise → List String
  | .nothing => []
  | .last body => allDrops t b body
  | .elseIf c body rest =>
    if (refusal (condition t b c)).isSome then []
    else allDrops t b body ++ restDrops t (allAfter t b body) rest

/-- The kinds of the comment lines for statements, in the order in which they are written. -/
def allDrops (t : Target) (b : Bindings) : List Statement → List String
  | [] => []
  | s :: ss => dropsIn t b s ++ (rejected t b s).toList ++ allDrops t (after t b s) ss

end

/-! ## Lines -/

/-- One comment line for a kind, or the lines of a statement for which there is none. -/
def replaced (t : Target) (depth : Int) (lines : List Line) : Option String → List Line
  | none => lines
  | some kind => [⟨depth, comment t kind⟩]

mutual

/-- The lines of a statement that is not replaced. -/
def lines (t : Target) (b : Bindings) (depth : Int) : Statement → List Line
  | .foreign _ _ => []
  | .declare name e => [⟨depth, shown (declarationText t b name e) ++ t.terminator⟩]
  | .assign name e => [⟨depth, shown (assignmentText t b name e) ++ t.terminator⟩]
  | .evaluate e => [⟨depth, shown (expression t b e) ++ t.terminator⟩]
  | .print e => [⟨depth, shown (printText t b e) ++ t.terminator⟩]
  | .branch c body rest =>
    blockLines t depth (t.ifKeyword ++ " " ++ shown (condition t b c)) body
        (allLines t b (depth + 1) body) ++
      restLines t (allAfter t b body) depth rest ++ closer t depth
  | .loop c body =>
    blockLines t depth (t.whileKeyword ++ " " ++ shown (condition t b c)) body
        (allLines t b (depth + 1) body) ++ closer t depth

/-- The lines of what follows the body of a branch. -/
def restLines (t : Target) (b : Bindings) (depth : Int) : Otherwise → List Line
  | .nothing => []
  | .last body =>
    blockLines t depth (continuation t t.elseKeyword) body (allLines t b (depth + 1) body)
  | .elseIf c body rest =>
    blockLines t depth (continuation t (t.elseIfKeyword ++ " " ++ shown (condition t b c))) body
        (allLines t b (depth + 1) body) ++
      restLines t (allAfter t b body) depth rest

/-- The lines of statements, some of which are replaced. -/
def allLines (t : Target) (b : Bindings) (depth : Int) : List Statement → List Line
  | [] => []
  | s :: ss =>
    replaced t depth (lines t b depth s) (rejected t b s) ++ allLines t (after t b s) depth ss

end

/-- The text of a program of statements. -/
def text (t : Target) (ss : List Statement) : String :=
  finish t { start t with
    lines := (start t).lines ++ (filler t t.bodyLevel ss ++ allLines t [] t.bodyLevel ss) }

/-! ## How a run goes -/

/-- The state behind some lines, with the kinds of names that are then recorded and the kinds of
nodes that were dropped on the way. -/
def written (σ : State) (ls : List Line) (b : Bindings) (ds : List String) : State :=
  { σ with lines := σ.lines ++ ls, bindings := b, dropped := σ.dropped ++ ds }

theorem written_written (σ : State) (ls ls' : List Line) (b b' : Bindings) (ds ds' : List String) :
    written (written σ ls b ds) ls' b' ds' = written σ (ls ++ ls') b' (ds ++ ds') := by
  simp only [written, List.append_assoc]

/-- A run of the emitter that writes comment lines for `ds` on its way and is then stopped by a
refusal for `last`, if there is one. If nothing stops it, it ends in `τ`; in any case the kinds of
names and of dropped nodes are those of `τ`. Where emission is to fail, the first kind stops it. -/
def Goes (t : Target) (policy : Policy) (m : Emission Unit) (σ τ : State) (ds : List String)
    (last : Option String) : Prop :=
  match policy with
  | .comment =>
    match last with
    | none => m σ = .ok () τ
    | some kind => ∃ υ : State, m σ = .error (.unsupported kind t.name) υ ∧
        υ.bindings = τ.bindings ∧ υ.dropped = τ.dropped
  | .fail =>
    match ds ++ last.toList with
    | [] => m σ = .ok () τ
    | kind :: _ => ∃ υ : State, m σ = .error (.unsupported kind t.name) υ

namespace Goes

variable {policy : Policy} {m m' : Emission Unit} {f : Unit → Emission Unit} {σ σ' τ υ : State}
  {ds ds' : List String} {last : Option String} {kind : String}

theorem of_ok (h : m σ = .ok () τ) : Goes t policy m σ τ [] none := by
  cases policy with
  | fail => exact h
  | comment => exact h

/-- The judgement is about one run. -/
theorem of_run_eq (h : Goes t policy m' σ' τ ds last) (heq : m σ = m' σ') :
    Goes t policy m σ τ ds last := by
  unfold Goes at h ⊢
  rwa [heq]

theorem of_unsupported (h : m σ = .error (.unsupported kind t.name) υ)
    (hb : υ.bindings = τ.bindings) (hd : υ.dropped = τ.dropped) :
    Goes t policy m σ τ [] (some kind) := by
  cases policy with
  | fail => exact ⟨υ, h⟩
  | comment => exact ⟨υ, h, hb, hd⟩

theorem bind_of_error {failure : Failure} (h : m σ = .error failure υ) :
    (m >>= f) σ = .error failure υ := by
  show EStateM.bind m f σ = _
  rw [EStateM.bind, h]

theorem bind (hm : Goes t policy m σ τ ds none) (hf : Goes t policy (f ()) τ υ ds' last) :
    Goes t policy (m >>= f) σ υ (ds ++ ds') last := by
  cases policy with
  | comment =>
    have hm : m σ = .ok () τ := hm
    exact hf.of_run_eq (bind_of_ok hm)
  | fail =>
    cases ds with
    | nil =>
      have hm : m σ = .ok () τ := hm
      exact hf.of_run_eq (bind_of_ok hm)
    | cons kind ds =>
      obtain ⟨υ', hm⟩ := hm
      exact ⟨υ', bind_of_error hm⟩

/-- A step at the end that only writes is made unless something stops the run before it. -/
theorem bind_write (hm : Goes t policy m σ τ ds last) (hf : f () τ = .ok () υ)
    (hb : τ.bindings = υ.bindings) (hd : τ.dropped = υ.dropped) :
    Goes t policy (m >>= f) σ υ ds last := by
  cases last with
  | none =>
    have hbind := hm.bind (of_ok hf)
    rwa [List.append_nil] at hbind
  | some kind =>
    cases policy with
    | comment =>
      obtain ⟨υ', hm, hb', hd'⟩ := hm
      exact ⟨υ', bind_of_error hm, hb'.trans hb, hd'.trans hd⟩
    | fail =>
      cases ds with
      | nil =>
        obtain ⟨υ', hm⟩ := hm
        exact ⟨υ', bind_of_error hm⟩
      | cons kind' ds =>
        obtain ⟨υ', hm⟩ := hm
        exact ⟨υ', bind_of_error hm⟩

/-- A step that waits for a text. -/
theorem bind_lift {r : Except Failure String} {g : String → Emission Unit} (hr : Settled t r)
    (hgiven : ∀ v, r = .ok v → Goes t policy (g v) σ τ ds last)
    (hrefused : ∀ kind, r = unsupported t kind →
      σ.bindings = τ.bindings ∧ σ.dropped = τ.dropped ∧ ds = [] ∧ last = some kind) :
    Goes t policy (lift r >>= g) σ τ ds last := by
  cases hr with
  | given v => exact (hgiven v rfl).of_run_eq rfl
  | refused kind =>
    obtain ⟨hb, hd, rfl, rfl⟩ := hrefused kind rfl
    exact of_unsupported rfl hb hd

/-- A run that nothing stops ends where it is said to. -/
theorem run_eq_ok (h : Goes t policy m σ τ ds none) (hds : policy = .fail → ds = []) :
    m σ = .ok () τ := by
  cases policy with
  | comment => exact h
  | fail =>
    obtain rfl := hds rfl
    exact h

/-- A run that nothing stops at its end goes to that end, or it is stopped on its way there. -/
theorem run_cases (h : Goes t policy m σ τ ds none) :
    m σ = .ok () τ ∨
      policy = .fail ∧ ∃ kind υ, m σ = .error (.unsupported kind t.name) υ := by
  cases policy with
  | comment => exact .inl h
  | fail =>
    cases ds with
    | nil => exact .inl h
    | cons kind ds =>
      obtain ⟨υ, h⟩ := h
      exact .inr ⟨rfl, kind, υ, h⟩

/-- Behind a guarded run stand its lines, or one comment line where something stopped it. -/
theorem guarded {ls : List Line} {b : Bindings}
    (h : Goes t policy m σ (written σ ls b ds) ds last) :
    Goes t policy (guarded t policy m) σ
      (written σ (replaced t σ.depth ls last) b (ds ++ last.toList)) (ds ++ last.toList) none := by
  cases policy with
  | comment =>
    cases last with
    | none =>
      have hm : m σ = .ok () _ := h
      show Emission.guarded t .comment m σ = _
      rw [guarded_run, hm, Option.toList_none, List.append_nil]
      rfl
    | some kind =>
      obtain ⟨υ, hm, hb, hd⟩ := h
      show Emission.guarded t .comment m σ = _
      rw [guarded_run, hm]
      show EStateM.Result.ok () (State.mk _ _ υ.bindings (υ.dropped ++ [kind])) = _
      rw [hb, hd]
      simp only [written, List.append_assoc]
      rfl
  | fail =>
    unfold Goes at h ⊢
    rw [guarded_fail, Option.toList_none, List.append_nil]
    cases last with
    | none =>
      rw [Option.toList_none, List.append_nil] at h ⊢
      exact h
    | some kind =>
      cases ds with
      | nil => exact h
      | cons kind' ds => exact h

end Goes

/-! ## Statements -/

section Statements

variable {policy : Policy}

/-- A simple statement is written if its text is given. -/
theorem goes_simple {r : Except Failure String} (hr : Settled t r) (σ : State) :
    Goes t policy (lift r >>= simple t) σ
      (written σ [⟨σ.depth, shown r ++ t.terminator⟩] σ.bindings []) [] (refusal r) := by
  refine .bind_lift hr (fun v hv => ?_) (fun kind hkind => ?_)
  · subst hv
    refine .of_ok ?_
    show EStateM.Result.ok () _ = _
    rw [written, List.append_nil]
    rfl
  · subst hkind
    exact ⟨rfl, (List.append_nil _).symm, rfl, rfl⟩

theorem fillIfEmpty_run (body : List Statement) (σ : State) :
    fillIfEmpty t body σ = .ok () (written σ (filler t σ.depth body) σ.bindings []) := by
  unfold fillIfEmpty filler written
  rw [List.append_nil]
  cases body with
  | cons s ss =>
    rw [List.append_nil]
    rfl
  | nil =>
    cases t.emptyBlock with
    | none =>
      rw [List.append_nil]
      rfl
    | some text => rfl

theorem closeBlock_run (σ : State) :
    closeBlock t σ = .ok () (written σ (closer t σ.depth) σ.bindings []) := by
  unfold closeBlock closer written
  rw [List.append_nil]
  cases t.blockStyle with
  | braces => rfl
  | colon =>
    rw [List.append_nil]
    rfl

/-- A block writes its header and its body and goes on with the kinds of its declarations. -/
theorem goes_block {m : Emission Unit} (header : String) {body : List Statement} (σ : State)
    {τ : State} {ds : List String} {last : Option String}
    (hbody : ∀ σ, Goes t policy (each t policy body) σ
      (written σ (allLines t σ.bindings σ.depth body) (allAfter t σ.bindings body)
        (allDrops t σ.bindings body)) (allDrops t σ.bindings body) none)
    (hm : Goes t policy m
      (written σ (blockLines t σ.depth header body (allLines t σ.bindings (σ.depth + 1) body))
        (allAfter t σ.bindings body) (allDrops t σ.bindings body)) τ ds last) :
    Goes t policy
      (do openBlock t header; fillIfEmpty t body; each t policy body; indent (-1); m) σ τ
      (allDrops t σ.bindings body ++ ds) last := by
  let σ₁ : State :=
    { σ with lines := σ.lines ++ [⟨σ.depth, opener t header⟩], depth := σ.depth + 1 }
  have hopen : Goes t policy (openBlock t header) σ σ₁ [] none := by
    refine .of_ok ?_
    simp only [σ₁, opener]
    rfl
  have hfill : Goes t policy (fillIfEmpty t body) σ₁ _ [] none := .of_ok (fillIfEmpty_run body σ₁)
  refine hopen.bind (hfill.bind ?_)
  refine (hbody _).bind ?_
  -- the indentation of the body is taken back
  refine hm.of_run_eq ?_
  show m (State.mk _ (σ.depth + 1 + -1) _ _) = _
  rw [Int.add_neg_cancel_right]
  simp only [written, blockLines, σ₁, List.append_assoc, List.cons_append, List.nil_append,
    List.append_nil]

/-! ### Runs of simple statements -/

/-- Texts that are waited for one after the other are one text. -/
theorem lift_bind_simple (r : Except Failure String) (f : String → Except Failure String) :
    (lift r >>= fun v => lift (f v) >>= simple t) = lift (r >>= f) >>= simple t := by
  cases r with
  | ok v => rfl
  | error failure => rfl

theorem declare_run (name : String) (e : Expression) (σ : State) :
    construct t policy (.declare name e) σ =
      (lift (declarationText t σ.bindings name e) >>= simple t)
        { σ with bindings := σ.bindings.put name (valueKind σ.bindings e) } := by
  rw [declarationText, ← lift_bind_simple]
  rfl

theorem assign_run (name : String) (e : Expression) (σ : State) :
    construct t policy (.assign name e) σ =
      (lift (assignmentText t σ.bindings name e) >>= simple t) σ := by
  rw [assignmentText, ← lift_bind_simple, construct]
  rfl

theorem evaluate_run (e : Expression) (σ : State) :
    construct t policy (.evaluate e) σ = (lift (expression t σ.bindings e) >>= simple t) σ := by
  rw [construct]
  rfl

theorem print_run (e : Expression) (σ : State) :
    construct t policy (.print e) σ = (lift (printText t σ.bindings e) >>= simple t) σ := by
  show EStateM.bind (lift ((t.printTemplate (valueKind σ.bindings e)).mapError .template)) _ σ = _
  rw [printText]
  cases (t.printTemplate (valueKind σ.bindings e)).mapError Failure.template with
  | error failure => rfl
  | ok template => exact congrFun (lift_bind_simple (expression t σ.bindings e) _) σ

/-- A simple statement that is written has a text, and its line is added. -/
theorem exists_of_simple {r : Except Failure String} {σ τ : State}
    (h : (lift r >>= simple t) σ = .ok () τ) :
    ∃ text, r = .ok text ∧ τ = written σ [⟨σ.depth, text ++ t.terminator⟩] σ.bindings [] := by
  obtain ⟨text, υ, hr, h⟩ := bind_eq_ok h
  obtain ⟨rfl, rfl⟩ := eq_of_lift_eq_ok hr
  cases h
  refine ⟨text, rfl, ?_⟩
  rw [written, List.append_nil]

/-- A statement that fills a template with a value is written if the value is given. -/
theorem goes_filled {r : Except Failure String} {f : String → Except Template.Fault String}
    (hr : Settled t r) (hfill : ∀ v, ∃ text, f v = .ok text) (σ : State) :
    Goes t policy (lift r >>= fun v => lift ((f v).mapError .template) >>= simple t) σ
      (written σ [⟨σ.depth, shown (r >>= fun v => (f v).mapError .template) ++ t.terminator⟩]
        σ.bindings []) [] (refusal r) := by
  rw [← refusal_bind hfill]
  refine (goes_simple (hr.bind fun v => .mapError (hfill v)) σ).of_run_eq ?_
  rw [lift_bind_simple]

variable {e : Expression}

theorem declare_goes (ht : t.Complete) (name : String) (he : e.Writable) (σ : State) :
    Goes t policy (construct t policy (.declare name e)) σ
      (written σ (lines t σ.bindings σ.depth (.declare name e))
        (after t σ.bindings (.declare name e)) [])
      [] (rejected t σ.bindings (.declare name e)) := by
  have hfill (value : String) := Template.exists_fillNamed t.declaration
    [("type", t.typeName (valueKind σ.bindings e)), ("name", name), ("value", value)] ht.declaration
  exact (goes_filled (expression_settled ht _ e he) hfill
    { σ with bindings := σ.bindings.put name (valueKind σ.bindings e) }).of_run_eq rfl

theorem assign_goes (ht : t.Complete) (name : String) (he : e.Writable) (σ : State) :
    Goes t policy (construct t policy (.assign name e)) σ
      (written σ (lines t σ.bindings σ.depth (.assign name e))
        (after t σ.bindings (.assign name e)) [])
      [] (rejected t σ.bindings (.assign name e)) := by
  have hfill (value : String) :=
    Template.exists_fillNamed t.assignment [("name", name), ("value", value)] ht.assignment
  exact (goes_filled (expression_settled ht _ e he) hfill σ).of_run_eq rfl

theorem evaluate_goes (ht : t.Complete) (he : e.Writable) (σ : State) :
    Goes t policy (construct t policy (.evaluate e)) σ
      (written σ (lines t σ.bindings σ.depth (.evaluate e)) (after t σ.bindings (.evaluate e)) [])
      [] (rejected t σ.bindings (.evaluate e)) := by
  exact (goes_simple (expression_settled ht _ e he) σ).of_run_eq (evaluate_run e σ)

theorem print_goes (ht : t.Complete) (he : e.Writable) (σ : State) :
    Goes t policy (construct t policy (.print e)) σ
      (written σ (lines t σ.bindings σ.depth (.print e)) (after t σ.bindings (.print e)) [])
      [] (rejected t σ.bindings (.print e)) := by
  obtain ⟨template, htemplate, hfits⟩ := ht.exists_printTemplate (valueKind σ.bindings e)
  have hfill (value : String) := Template.exists_fillNamed template [("value", value)] hfits
  rw [lines, printText, htemplate]
  refine (goes_filled (expression_settled ht _ e he) hfill σ).of_run_eq ?_
  show EStateM.bind (lift ((t.printTemplate (valueKind σ.bindings e)).mapError .template)) _ σ = _
  rw [htemplate]
  rfl

/-! ### Runs of statements -/

/-- A block below a condition, with what comes behind it, runs if the condition is given. -/
theorem goes_guardedBlock (ht : t.Complete) (header : String → String) {c : Condition}
    (hc : c.Writable) {body : List Statement} {m : Emission Unit} {σ : State}
    {ls : List Line} {b : Bindings} {ds : List String} {last : Option String}
    (hbody : ∀ σ, Goes t policy (each t policy body) σ
      (written σ (allLines t σ.bindings σ.depth body) (allAfter t σ.bindings body)
        (allDrops t σ.bindings body)) (allDrops t σ.bindings body) none)
    (hm : ∀ υ : State, υ.bindings = allAfter t σ.bindings body → υ.depth = σ.depth →
      Goes t policy m υ (written υ ls b ds) ds last) :
    Goes t policy
      (do openBlock t (header (← conditionText t c)); fillIfEmpty t body; each t policy body
          indent (-1); m) σ
      (written σ
        (blockLines t σ.depth (header (shown (condition t σ.bindings c))) body
          (allLines t σ.bindings (σ.depth + 1) body) ++ ls)
        (if (refusal (condition t σ.bindings c)).isSome then σ.bindings else b)
        (if (refusal (condition t σ.bindings c)).isSome then []
          else allDrops t σ.bindings body ++ ds))
      (if (refusal (condition t σ.bindings c)).isSome then []
        else allDrops t σ.bindings body ++ ds)
      ((refusal (condition t σ.bindings c)).or last) := by
  refine (Goes.bind_lift (condition_settled ht σ.bindings c hc)
    (fun v hv => ?_) (fun kind hkind => ?_)).of_run_eq rfl
  · rw [hv]
    have hnext := hm (written σ
      (blockLines t σ.depth (header v) body (allLines t σ.bindings (σ.depth + 1) body))
      (allAfter t σ.bindings body) (allDrops t σ.bindings body)) rfl rfl
    rw [written_written] at hnext
    exact goes_block _ σ hbody hnext
  · rw [hkind]
    exact ⟨rfl, (List.append_nil _).symm, rfl, rfl⟩

mutual

theorem construct_goes (ht : t.Complete) : ∀ (s : Statement) (σ : State), s.Has .writable →
    Goes t policy (construct t policy s) σ
      (written σ (lines t σ.bindings σ.depth s) (after t σ.bindings s) (dropsIn t σ.bindings s))
      (dropsIn t σ.bindings s) (rejected t σ.bindings s)
  | .foreign kind data, σ, _ => by
    rw [construct]
    exact .of_unsupported rfl rfl (List.append_nil _).symm
  | .declare name e, σ, h => declare_goes ht name h.2 σ
  | .assign name e, σ, h => assign_goes ht name h.2 σ
  | .evaluate e, σ, h => evaluate_goes ht h σ
  | .print e, σ, h => print_goes ht h σ
  | .branch c body rest, σ, ⟨hc, hbody, hrest⟩ => by
    rw [construct, lines, after, dropsIn, rejected, List.append_assoc]
    refine goes_guardedBlock ht _ hc (fun σ => each_goes ht body σ hbody) fun υ hb hd => ?_
    rw [← hb, ← hd]
    refine (continueBranch_goes ht rest υ hrest).bind_write ?_ rfl rfl
    rw [closeBlock_run, written_written, List.append_nil]
    rfl
  | .loop c body, σ, ⟨hc, hbody⟩ => by
    rw [construct, lines, after, dropsIn, rejected]
    have hclose (υ : State) (hb : υ.bindings = allAfter t σ.bindings body)
        (hd : υ.depth = σ.depth) : Goes t policy (closeBlock t) υ
          (written υ (closer t σ.depth) (allAfter t σ.bindings body) []) [] none := by
      rw [← hb, ← hd]
      exact .of_ok (closeBlock_run υ)
    have hblock := goes_guardedBlock ht (t.whileKeyword ++ " " ++ ·) hc
      (fun σ => each_goes ht body σ hbody) hclose
    rwa [List.append_nil, Option.or_none] at hblock

theorem continueBranch_goes (ht : t.Complete) : ∀ (r : Otherwise) (σ : State), r.Has .writable →
    Goes t policy (continueBranch t policy r) σ
      (written σ (restLines t σ.bindings σ.depth r) (restAfter t σ.bindings r)
        (restDrops t σ.bindings r))
      (restDrops t σ.bindings r) (restRejected t σ.bindings r)
  | .nothing, σ, _ => by
    rw [continueBranch, restLines, restAfter, restDrops, restRejected]
    refine .of_ok ?_
    rw [written, List.append_nil, List.append_nil]
    rfl
  | .last body, σ, hbody => by
    rw [continueBranch, restLines, restAfter, restDrops, restRejected]
    have hblock := goes_block (m := pure ()) (continuation t t.elseKeyword) σ
      (fun σ => each_goes ht body σ hbody) (.of_ok rfl)
    rw [List.append_nil] at hblock
    exact hblock
  | .elseIf c body rest, σ, ⟨hc, hbody, hrest⟩ => by
    rw [continueBranch, restLines, restAfter, restDrops, restRejected]
    refine goes_guardedBlock ht _ hc (fun σ => each_goes ht body σ hbody) fun υ hb hd => ?_
    rw [← hb, ← hd]
    exact continueBranch_goes ht rest υ hrest

theorem each_goes (ht : t.Complete) : ∀ (ss : List Statement) (σ : State), AllHave .writable ss →
    Goes t policy (each t policy ss) σ
      (written σ (allLines t σ.bindings σ.depth ss) (allAfter t σ.bindings ss)
        (allDrops t σ.bindings ss)) (allDrops t σ.bindings ss) none
  | [], σ, _ => by
    rw [each, allLines, allAfter, allDrops]
    refine .of_ok ?_
    rw [written, List.append_nil, List.append_nil]
    rfl
  | s :: ss, σ, ⟨hs, hss⟩ => by
    rw [each, allLines, allAfter, allDrops, ← written_written]
    exact (construct_goes ht s σ hs).guarded.bind (each_goes ht ss _ hss)

end

end Statements

/-! ## Whole programs -/

theorem body_goes (ht : t.Complete) (policy : Policy) {ss : List Statement}
    (h : AllHave .writable ss) (σ : State) :
    Goes t policy (body t policy ss) σ
      (written σ (filler t σ.depth ss ++ allLines t σ.bindings σ.depth ss)
        (allAfter t σ.bindings ss) (allDrops t σ.bindings ss))
      (allDrops t σ.bindings ss) none := by
  let σ₁ := written σ (filler t σ.depth ss) σ.bindings []
  have heach : Goes t policy (each t policy ss) σ₁ _ _ none := each_goes ht ss σ₁ h
  rw [written_written] at heach
  have hfill : Goes t policy (fillIfEmpty t ss) σ σ₁ [] none := .of_ok (fillIfEmpty_run ss σ)
  exact hfill.bind heach

/-- Where the emitter stands at the end of a program whose last statement it has left behind. -/
def closed (t : Target) (σ : State) : State :=
  { σ with lines := σ.lines ++ t.closing.map (⟨0, ·⟩), depth := 0 }

/-- The steps behind the body of a program. -/
def close (t : Target) : Emission String := do
  modify fun s => { s with depth := 0 }
  frame t.closing
  return (← get).output t

/-- A program is run from its opening lines on. -/
theorem run_eq_bind (t : Target) (policy : Policy) (ss : List Statement) :
    EStateM.run (program t policy (.statements ss)) {} =
      EStateM.bind (body t policy ss) (fun _ => close t) (start t) := by
  rw [program]
  rfl

/-- A program has a text if its body can be run, and the closing lines come behind it. -/
theorem run_program_eq_ok_iff {policy : Policy} {ss : List Statement} {out : String} {σ : State} :
    EStateM.run (program t policy (.statements ss)) {} = .ok out σ ↔
      ∃ υ : State, body t policy ss (start t) = .ok () υ ∧ σ = closed t υ ∧ out = σ.output t := by
  rw [run_eq_bind, EStateM.bind]
  cases body t policy ss (start t) with
  | error failure υ =>
    constructor
    · intro h
      cases h
    · rintro ⟨υ', h, -⟩
      cases h
  | ok a υ =>
    constructor
    · intro h
      cases h
      exact ⟨υ, rfl, rfl, rfl⟩
    · rintro ⟨υ', h, rfl, rfl⟩
      cases h
      rfl

/-- A program is run from its opening lines on, and its text ends with the closing ones. -/
theorem run_statements (t : Target) (policy : Policy) (ss : List Statement) :
    run t policy (.statements ss) =
      match body t policy ss (start t) with
      | .ok _ σ => .ok (finish t σ, σ.dropped)
      | .error failure _ => .error failure := by
  rw [run, run_eq_bind, EStateM.bind]
  cases body t policy ss (start t) with
  | ok a σ => rfl
  | error failure σ => rfl

/-- Under the comment policy the text is written, with a comment line for each of the drops. -/
theorem run_comment (ht : t.Complete) {ss : List Statement} (h : AllHave .writable ss) :
    run t .comment (.statements ss) = .ok (text t ss, allDrops t [] ss) := by
  have hbody : body t .comment ss (start t) = .ok () _ := body_goes ht .comment h (start t)
  rw [run_statements, hbody]
  rfl

/-- Emission that is to fail does so for the first of the drops. -/
theorem emit_fail (ht : t.Complete) {ss : List Statement} (h : AllHave .writable ss) :
    emit t .fail (.statements ss) =
      match allDrops t [] ss with
      | [] => .ok (text t ss)
      | kind :: _ => .error (.unsupported kind t.name) := by
  have hbody := body_goes ht .fail h (start t)
  rw [emit, run_statements]
  rw [show (start t).bindings = [] from rfl] at hbody
  unfold Goes at hbody
  cases hd : allDrops t [] ss with
  | nil =>
    rw [hd] at hbody
    have hbody : body t .fail ss (start t) = .ok () _ := hbody
    rw [hbody]
    rfl
  | cons kind ds =>
    rw [hd] at hbody
    obtain ⟨υ, hbody⟩ := hbody
    rw [hbody]
    rfl

end Boli.Rendering
