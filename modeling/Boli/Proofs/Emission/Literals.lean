import Boli.Proofs.Emission.Policies
import Boli.Proofs.Emission.Sums
import Boli.Proofs.Literals
import Boli.Proofs.Tiling

/-!
# The contents of text literals

What stands between the quotes of a source text stays between the quotes of the output. An output is
compared with the one of the program whose texts are all empty (`blank`): piece by piece the scan
for literals and the brackets take the same course through both, so that an output ends outside of
any literal, its brackets are nested, and without the bodies of its literals it does not depend on
the contents of texts (`contents_stay_in_literals`).
-/

set_option autoImplicit false

namespace Boli

open Boli.Keyword (Table)
open Emission Rendering Literal

/-! ## Programs whose texts are empty -/

/-- The expression with all its texts empty. -/
def Expression.blank : Expression → Expression
  | .text _ => .text ""
  | .binary operator left right => .binary operator left.blank right.blank
  | .number n => .number n
  | .identifier name => .identifier name
  | .foreign kind data => .foreign kind data

/-- The condition with all its texts empty. -/
def Condition.blank : Condition → Condition
  | .compare left operator right => .compare left.blank operator right.blank
  | .foreign kind data => .foreign kind data

mutual

/-- The statement with all its texts empty. -/
def Statement.blank : Statement → Statement
  | .declare name e => .declare name e.blank
  | .assign name e => .assign name e.blank
  | .evaluate e => .evaluate e.blank
  | .print e => .print e.blank
  | .branch c body rest => .branch c.blank (blankAll body) rest.blank
  | .loop c body => .loop c.blank (blankAll body)
  | .foreign kind data => .foreign kind data

/-- What follows the body of a branch, with all its texts empty. -/
def Otherwise.blank : Otherwise → Otherwise
  | .nothing => .nothing
  | .last body => .last (blankAll body)
  | .elseIf c body rest => .elseIf c.blank (blankAll body) rest.blank

/-- The statements with all their texts empty. -/
def blankAll : List Statement → List Statement
  | [] => []
  | s :: ss => s.blank :: blankAll ss

end

/-- The program with all its texts empty. Two programs differ in the contents of their texts only if
they become the same program. -/
def Program.blank : Program → Program
  | .statements ss => .statements (blankAll ss)
  | .foreign kind data => .foreign kind data

/-! ## Targets -/

/-- Texts as lines, each with its line break. -/
def rows (texts : List String) : List Char := texts.flatMap fun s => s.toList ++ ['\n']

/-- Fixed texts of a target around the texts of a program. -/
def Target.words (t : Target) : List String :=
  [t.terminator, t.indentUnit, t.ifKeyword, t.elseIfKeyword, t.elseKeyword, t.whileKeyword,
    t.commentMark] ++ t.emptyBlock.toList ++ t.typeNames.map Prod.snd

/-- The templates of a target close the literals and brackets that they open, its other texts hold
none, and the last lines close what the first ones open. -/
structure Target.Closed (t : Target) : Prop where
  declaration : Seals .code t.declaration
  assignment : Seals .code t.assignment
  print : ∀ e ∈ t.printTemplates, Seals .code e.2
  string : Seals .literal t.stringTemplate
  operators : ∀ e ∈ t.operators, Seals .code e.2
  concatenation : ∀ template ∈ t.concatenation, Seals .code template
  stringify : Seals .code t.stringify
  condition : Seals .code t.conditionFormat
  words : ∀ s ∈ t.words, PlainText s
  opening_ne_nil : t.opening ≠ []
  scan_opening : scan .code (rows t.opening) = .code
  scan_closing : scan .code (rows t.closing) = .code
  nest_frame : (nest [] (erase .code (rows t.opening))).bind
    (nest · (erase .code (rows t.closing))) = some []

theorem Target.closed_of_mem_catalogue {t : Target} (h : t ∈ catalogue) : t.Closed := by
  have hall : ∀ t ∈ catalogue,
      Seals .code t.declaration ∧ Seals .code t.assignment ∧
      (∀ e ∈ t.printTemplates, Seals .code e.2) ∧ Seals .literal t.stringTemplate ∧
      (∀ e ∈ t.operators, Seals .code e.2) ∧
      (∀ template ∈ t.concatenation, Seals .code template) ∧
      Seals .code t.stringify ∧ Seals .code t.conditionFormat ∧
      (∀ s ∈ t.words, PlainText s) ∧ t.opening ≠ [] ∧
      scan .code (rows t.opening) = .code ∧ scan .code (rows t.closing) = .code ∧
      (nest [] (erase .code (rows t.opening))).bind
        (nest · (erase .code (rows t.closing))) = some [] := by
    decide +kernel
  obtain ⟨hd, ha, hp, hs, ho, hc, hy, hf, hw, hne, hso, hsc, hn⟩ := hall t h
  exact ⟨hd, ha, hp, hs, ho, hc, hy, hf, hw, hne, hso, hsc, hn⟩

/-- A template for an operation, filled with operands that fit. -/
theorem operands_agree {template : Template} {l l' r r' : String} (h : Seals .code template)
    (hl : Fits .code l l') (hr : Fits .code r r') :
    Agree (Fits .code) (template.fillNamed (Target.operands l r))
      (template.fillNamed (Target.operands l' r')) :=
  fillNamed_agree h (rel_get?_cons _ hl (rel_get?_cons _ hr fun _ => .none))

namespace Target.Closed

variable {t : Target}

theorem fits_word (h : t.Closed) {s : String} (hs : s ∈ t.words) : Fits .code s s :=
  (h.words s hs).fits

theorem binary_agree (h : t.Closed) {operator l l' r r' : String}
    (hop : PlainText operator) (hl : Fits .code l l') (hr : Fits .code r r') :
    Agree (Fits .code) (t.binary operator l r) (t.binary operator l' r') := by
  unfold Target.binary
  split
  next =>
    have hblank : Fits .code " " " " := PlainText.fits (by decide)
    exact .given ((((hl.append hblank).append hop.fits).append hblank).append hr)
  next template hget =>
    exact operands_agree (h.operators _ (Dictionary.mem_of_get? hget)) hl hr

theorem quote_agree (h : t.Closed) (s s' : String) :
    Agree (Fits .code) (t.quote s) (t.quote s') :=
  fill_agree h.string (fits_escapeContent s s')

/-- The print call of a kind is sealed, whichever of the target's it is. -/
theorem seals_of_printTemplate (h : t.Closed) {kind : ValueKind} {template : Template}
    (htemplate : t.printTemplate kind = .ok template) : Seals .code template := by
  obtain ⟨kind', hmem⟩ := mem_of_printTemplate htemplate
  exact h.print _ hmem

end Target.Closed

/-! ## Texts of a program and of its blank -/

theorem valueKind_blank (b : Bindings) (e : Expression) : valueKind b e.blank = valueKind b e := by
  induction e with
  | binary operator left right ihl ihr =>
    rw [Expression.blank, valueKind, valueKind, ihl, ihr]
  | number n => rfl
  | text s => rfl
  | identifier name => rfl
  | foreign kind data => rfl

theorem refusal_eq_of_agree {R : String → String → Prop} {r r' : Except Failure String}
    (h : Agree R r r') : refusal r = refusal r' := by
  cases h with
  | given _ => rfl
  | refused failure => rfl

theorem fits_shown {r r' : Except Failure String} (h : Agree (Fits .code) r r') :
    Fits .code (shown r) (shown r') := by
  cases h with
  | given hv => exact hv
  | refused failure => exact Twins.nil

section Blank

variable {t : Target} {tokens : List Token}

/-- The names among tokens hold neither quotes nor brackets. -/
def PlainNames (tokens : List Token) : Prop :=
  ∀ name, IsNameOf tokens name → PlainText name

/-- A name among the tokens of a source is made of letters and digits. -/
theorem isAlphanum_of_isNameOf {table : Table} {source : String}
    (h : tokenize table source = .ok tokens) {name : String} (hname : IsNameOf tokens name) :
    ∀ c ∈ name.toList, c.isAlphanum = true := by
  obtain ⟨tok, hmem, hkind, rfl⟩ := hname
  obtain ⟨l, hwf, ⟨hmeans, -⟩⟩ := exists_lexeme_of_tokenize h tok hmem
  rw [hkind] at hmeans
  generalize tok.value = value at hmeans
  cases hmeans with
  | identifier _ =>
    obtain ⟨c, cs, rfl, hc, hcs⟩ := hwf
    rw [String.toList_ofList]
    exact List.forall_mem_cons.mpr ⟨by rw [Char.isAlphanum, hc, Bool.true_or], hcs⟩

theorem plainNames_of_tokenize {table : Table} {source : String}
    (h : tokenize table source = .ok tokens) : PlainNames tokens := fun _ hname c hc =>
  isPlain_of_isAlphanum (isAlphanum_of_isNameOf h hname c hc)

theorem plainText_of_arithmetic {operator : String}
    (h : operator ∈ Parser.arithmeticOperators) : PlainText operator := by
  revert operator
  decide

theorem plainText_of_comparison {operator : String}
    (h : operator ∈ Parser.comparisonOperators) : PlainText operator := by
  revert operator
  decide

theorem asString_agree (ht : t.Closed) (b : Bindings) (e : Expression) {v v' : String}
    (hv : Fits .code v v') :
    Agree (Fits .code) (asString t b e v) (asString t b e.blank v') := by
  unfold asString
  rw [valueKind_blank]
  split
  next => exact .given hv
  next => exact (fill_agree ht.stringify hv).mapError

section Texts

variable (ht : t.Closed) (hnames : PlainNames tokens)

include ht hnames

theorem primary_agree (b : Bindings) {e : Expression} (he : e.IsPrimaryOf tokens) :
    Agree (Fits .code) (expression t b e) (expression t b e.blank) := by
  cases e with
  | number n =>
    refine Agree.mapError (.refl fun v hv => (plainText_of_write hv).fits)
  | text s => exact (ht.quote_agree s "").mapError
  | identifier name => exact .given (hnames name he).fits
  | binary operator left right => exact he.elim
  | foreign kind data => exact he.elim

theorem expression_agree (b : Bindings) {e : Expression} (he : e.IsBuiltOf tokens) :
    Agree (Fits .code) (expression t b e) (expression t b e.blank) := by
  cases e with
  | number n => exact primary_agree ht hnames b he
  | text s => exact primary_agree ht hnames b he
  | identifier name => exact primary_agree ht hnames b he
  | foreign kind data => exact he.elim
  | binary operator left right =>
    have hkind := valueKind_blank b (.binary operator left right)
    rw [Expression.blank] at hkind ⊢
    rw [expression, expression]
    refine (primary_agree ht hnames b he.2.1).bind fun l l' hl => ?_
    refine (primary_agree ht hnames b he.2.2).bind fun r r' hr => ?_
    rw [hkind]
    split
    next =>
      refine (asString_agree ht b left hl).bind fun l l' hl => ?_
      refine (asString_agree ht b right hr).bind fun r r' hr => ?_
      cases hc : t.concatenation with
      | none =>
        simp only [Target.concatenate, hc]
        exact .refused _
      | some template =>
        have hfill := operands_agree (ht.concatenation template hc) hl hr
        simp only [Target.concatenate, hc]
        generalize template.fillNamed (Target.operands l r) = v,
          template.fillNamed (Target.operands l' r') = v' at hfill
        cases hfill with
        | given hv => exact .given hv
        | refused fault => exact .refused _
    next => exact (ht.binary_agree (plainText_of_arithmetic he.1) hl hr).mapError

theorem condition_agree (b : Bindings) {c : Condition} (hc : c.IsBuiltOf tokens) :
    Agree (Fits .code) (condition t b c) (condition t b c.blank) := by
  cases c with
  | foreign kind data => exact hc.elim
  | compare left operator right =>
    refine (primary_agree ht hnames b hc.2.1).bind fun l l' hl => ?_
    refine (primary_agree ht hnames b hc.2.2).bind fun r r' hr => ?_
    refine (ht.binary_agree (plainText_of_comparison hc.1) hl hr).mapError.bind fun v v' hv => ?_
    exact (fill_agree ht.condition hv).mapError

theorem declarationText_agree (b : Bindings) {name : String} (hname : IsNameOf tokens name)
    {e : Expression} (he : e.IsBuiltOf tokens) :
    Agree (Fits .code) (declarationText t b name e) (declarationText t b name e.blank) := by
  unfold declarationText
  rw [valueKind_blank]
  refine (expression_agree ht hnames _ he).bind fun v v' hv => ?_
  refine (fillNamed_agree ht.declaration (rel_get?_cons _ ?_ (rel_get?_cons _
    (hnames name hname).fits (rel_get?_cons _ hv fun _ => .none)))).mapError
  rcases List.mem_cons.mp (t.typeName_mem (valueKind b e)) with hnone | hmem
  · rw [hnone]
    exact Twins.nil
  · exact ht.fits_word (List.mem_append_right _ hmem)

theorem assignmentText_agree (b : Bindings) {name : String} (hname : IsNameOf tokens name)
    {e : Expression} (he : e.IsBuiltOf tokens) :
    Agree (Fits .code) (assignmentText t b name e) (assignmentText t b name e.blank) := by
  refine (expression_agree ht hnames b he).bind fun v v' hv => ?_
  exact (fillNamed_agree ht.assignment (rel_get?_cons _ (hnames name hname).fits
    (rel_get?_cons _ hv fun _ => .none))).mapError

theorem printText_agree (b : Bindings) {e : Expression} (he : e.IsBuiltOf tokens) :
    Agree (Fits .code) (printText t b e) (printText t b e.blank) := by
  unfold printText
  rw [valueKind_blank]
  cases htemplate : t.printTemplate (valueKind b e) with
  | error fault => exact .refused _
  | ok template =>
    refine (expression_agree ht hnames b he).bind fun v v' hv => ?_
    exact (fillNamed_agree (ht.seals_of_printTemplate htemplate)
      (rel_get?_cons _ hv fun _ => .none)).mapError

/-! ## What is dropped -/

theorem refusal_expression_blank (b : Bindings) {e : Expression} (he : e.IsBuiltOf tokens) :
    refusal (expression t b e.blank) = refusal (expression t b e) :=
  (refusal_eq_of_agree (expression_agree ht hnames b he)).symm

theorem refusal_condition_blank (b : Bindings) {c : Condition} (hc : c.IsBuiltOf tokens) :
    refusal (condition t b c.blank) = refusal (condition t b c) :=
  (refusal_eq_of_agree (condition_agree ht hnames b hc)).symm

end Texts

mutual

/-- Behind a statement and its blank the same is recorded, and both are dropped or neither is. -/
theorem statement_blank (ht : t.Closed) (hnames : PlainNames tokens) : ∀ {s : Statement}
    (b : Bindings), s.Has (.builtOf tokens) →
      after t b s.blank = after t b s ∧ rejected t b s.blank = rejected t b s ∧
        dropsIn t b s.blank = dropsIn t b s
  | .declare name e, b, ⟨_, he⟩ => by
    rw [Statement.blank, after, after, rejected, rejected, valueKind_blank,
      refusal_expression_blank ht hnames _ he]
    exact ⟨rfl, rfl, rfl⟩
  | .assign name e, b, ⟨_, he⟩ => ⟨rfl, refusal_expression_blank ht hnames b he, rfl⟩
  | .print e, b, he => ⟨rfl, refusal_expression_blank ht hnames b he, rfl⟩
  | .evaluate e, b, ⟨name, hname, _⟩ => by
    subst hname
    exact ⟨rfl, rfl, rfl⟩
  | .foreign _ _, _, h => h.elim
  | .branch c body rest, b, ⟨hc, hbody, hrest⟩ => by
    obtain ⟨hafter, hdrops⟩ := all_blank ht hnames b hbody
    obtain ⟨hafter', hrejected', hdrops'⟩ := rest_blank ht hnames (allAfter t b body) hrest
    simp only [Statement.blank, after, rejected, dropsIn, refusal_condition_blank ht hnames b hc,
      hafter, hdrops, hafter', hrejected', hdrops', and_self]
  | .loop c body, b, ⟨hc, hbody⟩ => by
    obtain ⟨hafter, hdrops⟩ := all_blank ht hnames b hbody
    simp only [Statement.blank, after, rejected, dropsIn, refusal_condition_blank ht hnames b hc,
      hafter, hdrops, and_self]

theorem rest_blank (ht : t.Closed) (hnames : PlainNames tokens) : ∀ {r : Otherwise}
    (b : Bindings), r.Has (.builtOf tokens) →
      restAfter t b r.blank = restAfter t b r ∧ restRejected t b r.blank = restRejected t b r ∧
        restDrops t b r.blank = restDrops t b r
  | .nothing, _, _ => ⟨rfl, rfl, rfl⟩
  | .last body, b, hbody => by
    obtain ⟨hafter, hdrops⟩ := all_blank ht hnames b hbody
    exact ⟨hafter, rfl, hdrops⟩
  | .elseIf c body rest, b, ⟨hc, hbody, hrest⟩ => by
    obtain ⟨hafter, hdrops⟩ := all_blank ht hnames b hbody
    obtain ⟨hafter', hrejected', hdrops'⟩ := rest_blank ht hnames (allAfter t b body) hrest
    simp only [Otherwise.blank, restAfter, restRejected, restDrops,
      refusal_condition_blank ht hnames b hc, hafter, hdrops, hafter', hrejected', hdrops',
      and_self]

theorem all_blank (ht : t.Closed) (hnames : PlainNames tokens) : ∀ {ss : List Statement}
    (b : Bindings), AllHave (.builtOf tokens) ss →
      allAfter t b (blankAll ss) = allAfter t b ss ∧ allDrops t b (blankAll ss) = allDrops t b ss
  | [], _, _ => ⟨rfl, rfl⟩
  | s :: ss, b, ⟨hs, hss⟩ => by
    obtain ⟨hafter, hrejected, hdrops⟩ := statement_blank ht hnames b hs
    obtain ⟨hafter', hdrops'⟩ := all_blank ht hnames (after t b s) hss
    simp only [blankAll, allAfter, allDrops, hafter, hrejected, hdrops, hafter', hdrops', and_self]

end

/-! ## Lines -/

/-- The brackets that are due inside a block. -/
def inner (t : Target) (due : List Char) : List Char :=
  match t.blockStyle with
  | .braces => '\x7d' :: due
  | .colon => due

/-- Two sequences of lines that a scan cannot tell apart. -/
def TwinLines (t : Target) (due : List Char) (ls ls' : List Line) (due' : List Char) : Prop :=
  Twins .code due (rows (ls.map (Line.render t))) (rows (ls'.map (Line.render t))) .code due'

namespace TwinLines

variable {due due' due'' : List Char} {ls ls' ms ms' : List Line}

theorem nil : TwinLines t due [] [] due := Twins.nil

theorem append (h : TwinLines t due ls ls' due') (h' : TwinLines t due' ms ms' due'') :
    TwinLines t due (ls ++ ms) (ls' ++ ms') due'' := by
  unfold TwinLines rows at *
  rw [List.map_append, List.map_append, List.flatMap_append, List.flatMap_append]
  exact Twins.append h h'

theorem fits_indentation (ht : t.Closed) (depth : Int) :
    Fits .code (indentation t depth) (indentation t depth) := by
  unfold indentation repeated
  generalize depth.toNat = n
  induction n with
  | zero => exact Twins.nil
  | succ n ih =>
    rw [List.replicate_succ, String.join_cons]
    exact (ht.fits_word (by simp [Target.words])).append ih

/-- One line whose texts take the brackets from some that are due to others. -/
theorem line (ht : t.Closed) (depth : Int) {v v' : String}
    (h : Twins .code due v.toList v'.toList .code due') :
    TwinLines t due [⟨depth, v⟩] [⟨depth, v'⟩] due' := by
  have hbreak : Twins .code due' ['\n'] ['\n'] .code due' :=
    (twins_of_isPlain (by decide)).frame due'
  unfold TwinLines rows
  simp only [List.map_cons, List.map_nil, List.flatMap_cons, List.flatMap_nil, List.append_nil,
    Line.render, String.toList_append]
  exact (((fits_indentation ht depth).twins due).append h).append hbreak

/-- A line of code that fits anywhere. -/
theorem of_fits (ht : t.Closed) (depth : Int) {v v' : String} (h : Fits .code v v') :
    TwinLines t due [⟨depth, v⟩] [⟨depth, v'⟩] due :=
  line ht depth (h.twins due)

end TwinLines

section Lines

variable {due due' : List Char}

/-- A block opens with a bracket that is due inside it. -/
theorem opener_twins {header header' : String}
    (h : Twins .code due header.toList header'.toList .code due') :
    Twins .code due (opener t header).toList (opener t header').toList .code (inner t due') := by
  unfold opener inner
  cases t.blockStyle with
  | braces =>
    have hopen : Twins .code [] " \x7b".toList " \x7b".toList .code ['\x7d'] := .refl (by decide)
    simp only [String.toList_append]
    exact h.append (hopen.frame due')
  | colon =>
    have hcolon : Fits .code ":" ":" := PlainText.fits (by decide)
    simp only [String.toList_append]
    exact h.append (hcolon.twins due')

/-- A further branch closes the one in front of it. -/
theorem continuation_twins (t : Target) (due : List Char) {header header' : String}
    (h : Fits .code header header') :
    Twins .code (inner t due) (continuation t header).toList (continuation t header').toList .code
      due := by
  unfold continuation inner
  cases t.blockStyle with
  | braces =>
    have hclose : Twins .code ['\x7d'] "\x7d ".toList "\x7d ".toList .code [] :=
      .refl (by decide)
    simp only [String.toList_append]
    exact (hclose.frame due).append (h.twins due)
  | colon => exact h.twins due

theorem closer_twins (ht : t.Closed) (depth : Int) :
    TwinLines t (inner t due) (closer t depth) (closer t depth) due := by
  unfold closer inner
  cases t.blockStyle with
  | braces =>
    have hclose : Twins .code ['\x7d'] "\x7d".toList "\x7d".toList .code [] := .refl (by decide)
    exact .line ht depth (hclose.frame due)
  | colon => exact .nil

theorem filler_blank (t : Target) (depth : Int) (body : List Statement) :
    filler t depth (blankAll body) = filler t depth body := by
  cases body with
  | nil => rfl
  | cons s ss => rfl

theorem filler_twins (ht : t.Closed) (depth : Int) (body : List Statement) :
    TwinLines t due (filler t depth body) (filler t depth body) due := by
  unfold filler
  split
  next text hfiller =>
    exact .of_fits ht depth (ht.fits_word (by simp [Target.words, hfiller]))
  next => exact .nil

theorem block_twins (ht : t.Closed) (depth : Int) {header header' : String} (body : List Statement)
    {ls ls' : List Line} (hheader : Twins .code due header.toList header'.toList .code due')
    (hbody : TwinLines t (inner t due') ls ls' (inner t due')) :
    TwinLines t due (blockLines t depth header body ls)
      (blockLines t depth header' (blankAll body) ls') (inner t due') := by
  unfold blockLines
  rw [filler_blank]
  exact (TwinLines.line ht depth (opener_twins hheader)).append
    ((filler_twins ht (depth + 1) body).append hbody)

theorem comment_twins (ht : t.Closed) (depth : Int) :
    TwinLines t due [⟨depth, comment t "BinaryExpression"⟩] [⟨depth, comment t "BinaryExpression"⟩]
      due := by
  have hmark : Fits .code t.commentMark t.commentMark := ht.fits_word (by simp [Target.words])
  have htext : Fits .code " Unsupported statement type: " " Unsupported statement type: " :=
    PlainText.fits (by decide)
  have hkind : Fits .code "BinaryExpression" "BinaryExpression" := PlainText.fits (by decide)
  exact .of_fits ht depth ((hmark.append htext).append hkind)

/-- A simple statement is one line. -/
theorem simple_twins (ht : t.Closed) (depth : Int) {r r' : Except Failure String}
    (h : Agree (Fits .code) r r') :
    TwinLines t due [⟨depth, shown r ++ t.terminator⟩] [⟨depth, shown r' ++ t.terminator⟩] due :=
  .of_fits ht depth ((fits_shown h).append (ht.fits_word (by simp [Target.words])))

/-- A condition behind a keyword. -/
theorem header_fits (ht : t.Closed) (hnames : PlainNames tokens) (b : Bindings) {c : Condition}
    (hc : c.IsBuiltOf tokens) {keyword : String} (hkeyword : keyword ∈ t.words) :
    Fits .code (keyword ++ " " ++ shown (condition t b c))
      (keyword ++ " " ++ shown (condition t b c.blank)) :=
  ((ht.fits_word hkeyword).append (PlainText.fits (by decide))).append
    (fits_shown (condition_agree ht hnames b hc))

end Lines

mutual

theorem lines_twins (ht : t.Closed) (hc : t.Complete) (hnames : PlainNames tokens) :
    ∀ {s : Statement} (b : Bindings) (depth : Int) (due : List Char), s.Has (.builtOf tokens) →
      TwinLines t due (lines t b depth s) (lines t b depth s.blank) due
  | .declare name e, b, depth, due, ⟨hname, he⟩ =>
    simple_twins ht depth (declarationText_agree ht hnames b hname he)
  | .assign name e, b, depth, due, ⟨hname, he⟩ =>
    simple_twins ht depth (assignmentText_agree ht hnames b hname he)
  | .print e, b, depth, due, he => simple_twins ht depth (printText_agree ht hnames b he)
  | .evaluate e, b, depth, due, ⟨name, hname, hn⟩ => by
    subst hname
    exact simple_twins ht depth (.given (hnames name hn).fits)
  | .foreign _ _, _, _, _, h => h.elim
  | .branch c body rest, b, depth, due, ⟨hcond, hbody, hrest⟩ => by
    rw [Statement.blank, lines, lines, (all_blank ht hnames b hbody).1]
    have hheader : Fits .code (t.ifKeyword ++ " " ++ _) _ :=
      header_fits ht hnames b hcond (by simp [Target.words])
    have hlines := allLines_twins ht hc hnames b (depth + 1) (inner t due) hbody
    have hblock := block_twins ht depth body (hheader.twins due) hlines
    have hlast := restLines_twins ht hc hnames (allAfter t b body) depth due hrest
    exact (hblock.append hlast).append (closer_twins ht depth)
  | .loop c body, b, depth, due, ⟨hcond, hbody⟩ => by
    rw [Statement.blank, lines, lines]
    have hheader : Fits .code (t.whileKeyword ++ " " ++ _) _ :=
      header_fits ht hnames b hcond (by simp [Target.words])
    have hlines := allLines_twins ht hc hnames b (depth + 1) (inner t due) hbody
    have hblock := block_twins ht depth body (hheader.twins due) hlines
    exact hblock.append (closer_twins ht depth)

theorem restLines_twins (ht : t.Closed) (hc : t.Complete) (hnames : PlainNames tokens) :
    ∀ {r : Otherwise} (b : Bindings) (depth : Int) (due : List Char), r.Has (.builtOf tokens) →
      TwinLines t (inner t due) (restLines t b depth r) (restLines t b depth r.blank) (inner t due)
  | .nothing, _, _, _, _ => .nil
  | .last body, b, depth, due, hbody => by
    rw [Otherwise.blank, restLines, restLines]
    have hheader : Fits .code t.elseKeyword t.elseKeyword := ht.fits_word (by simp [Target.words])
    have hlines := allLines_twins ht hc hnames b (depth + 1) (inner t due) hbody
    exact block_twins ht depth body (continuation_twins t due hheader) hlines
  | .elseIf c body rest, b, depth, due, ⟨hcond, hbody, hrest⟩ => by
    rw [Otherwise.blank, restLines, restLines, (all_blank ht hnames b hbody).1]
    have hheader : Fits .code (t.elseIfKeyword ++ " " ++ _) _ :=
      header_fits ht hnames b hcond (by simp [Target.words])
    have hlines := allLines_twins ht hc hnames b (depth + 1) (inner t due) hbody
    have hblock := block_twins ht depth body (continuation_twins t due hheader) hlines
    exact hblock.append (restLines_twins ht hc hnames (allAfter t b body) depth due hrest)

/-- The lines of statements cannot be told from those of their blanks. -/
theorem allLines_twins (ht : t.Closed) (hc : t.Complete) (hnames : PlainNames tokens) :
    ∀ {ss : List Statement} (b : Bindings) (depth : Int) (due : List Char),
      AllHave (.builtOf tokens) ss →
        TwinLines t due (allLines t b depth ss) (allLines t b depth (blankAll ss)) due
  | [], _, _, _, _ => .nil
  | s :: ss, b, depth, due, ⟨hs, hss⟩ => by
    obtain ⟨hafter, hrejected, -⟩ := statement_blank ht hnames b hs
    rw [blankAll, allLines, allLines, hafter, hrejected]
    refine .append ?_ (allLines_twins ht hc hnames _ depth due hss)
    cases hkind : rejected t b s with
    | none => exact lines_twins ht hc hnames b depth due hs
    | some kind =>
      have hmem : kind ∈ dropsIn t b s ++ (rejected t b s).toList := by
        rw [hkind]
        exact List.mem_append_right _ (List.mem_singleton_self kind)
      obtain ⟨rfl, -⟩ := (mem_drops_statement hc kind b hs).mp hmem
      exact comment_twins ht depth

end

end Blank

/-! ## Outputs -/

/-- The last line of a text ends with a line break too. -/
theorem toList_intercalate_append {texts : List String} (h : texts ≠ []) :
    ("\n".intercalate texts ++ "\n").toList = rows texts := by
  induction texts with
  | nil => exact absurd rfl h
  | cons s texts ih =>
    rw [rows, List.flatMap_cons, ← rows]
    cases texts with
    | nil =>
      rw [String.intercalate_singleton, String.toList_append]
      exact (List.append_nil _).symm
    | cons s' texts =>
      rw [String.intercalate_cons_cons, String.append_assoc, String.toList_append,
        ih (List.cons_ne_nil _ _), String.toList_append]
      rfl

theorem render_frame (t : Target) (texts : List String) :
    (texts.map (Line.mk 0)).map (Line.render t) = texts := by
  rw [List.map_map]
  refine (List.map_congr_left fun s _ => ?_).trans (List.map_id texts)
  exact String.empty_append

/-- The output of a program, line by line. -/
theorem toList_text {t : Target} (ht : t.Closed) (ss : List Statement) :
    (text t ss).toList = rows t.opening ++
      rows ((filler t t.bodyLevel ss ++ allLines t [] t.bodyLevel ss).map (Line.render t)) ++
      rows t.closing := by
  rw [text, finish, State.output, toList_intercalate_append]
  · simp only [start, List.map_append, render_frame, rows, List.flatMap_append, List.append_assoc]
  · have hne : t.opening ≠ [] := ht.opening_ne_nil
    simp [start, hne]

/-- The output of a program and that of its blank cannot be told apart. -/
theorem text_twins {t : Target} (ht : t ∈ Target.catalogue) {tokens : List Token}
    (hnames : PlainNames tokens) {ss : List Statement} (hss : AllHave (.builtOf tokens) ss) :
    Twins .code [] (text t ss).toList (text t (blankAll ss)).toList .code [] := by
  have hclosed := Target.closed_of_mem_catalogue ht
  have hcomplete := Target.complete_of_mem_catalogue ht
  obtain ⟨due, hopening, hclosing⟩ := Option.bind_eq_some_iff.mp hclosed.nest_frame
  have hfirst : Twins .code [] (rows t.opening) (rows t.opening) .code due :=
    ⟨hclosed.scan_opening, hclosed.scan_opening, rfl, hopening⟩
  have hlast : Twins .code due (rows t.closing) (rows t.closing) .code [] :=
    ⟨hclosed.scan_closing, hclosed.scan_closing, rfl, hclosing⟩
  have hlines := (filler_twins hclosed t.bodyLevel ss).append
    (allLines_twins hclosed hcomplete hnames [] t.bodyLevel due hss)
  rw [toList_text hclosed, toList_text hclosed, filler_blank]
  exact (hfirst.append hlines).append hlast

/-- A program that is read from a source text, with any table of keywords and in either mode. -/
def Accepted (p : Program) : Prop :=
  ∃ (table : Table) (source : String) (tokens : List Token) (mode : Strictness),
    tokenize table source = .ok tokens ∧ parse mode tokens = .ok p

theorem Accepted.exists_built {p : Program} (h : Accepted p) :
    ∃ ss tokens, p = .statements ss ∧ AllHave (.builtOf tokens) ss ∧ PlainNames tokens := by
  obtain ⟨table, source, tokens, mode, htokens, hparse⟩ := h
  obtain ⟨ss, rfl, hss⟩ := exists_built_of_parse hparse
  exact ⟨ss, tokens, rfl, hss, plainNames_of_tokenize htokens⟩

/-- An output ends outside of any literal, without the bodies of its literals its brackets are
nested, and it is then the same for all programs that differ in the contents of their texts only. -/
theorem contents_stay_in_literals {t : Target} (ht : t ∈ Target.catalogue) {policy : Policy}
    {p : Program} (hp : Accepted p) {out : String} (hout : emit t policy p = .ok out) :
    scan .code out.toList = .code ∧ Nested (erase .code out.toList) ∧
      ∀ p', Accepted p' → p'.blank = p.blank →
        ∃ out', emit t policy p' = .ok out' ∧
          erase .code out'.toList = erase .code out.toList := by
  obtain ⟨ss, tokens, rfl, hss, hnames⟩ := hp.exists_built
  have hcomplete := Target.complete_of_mem_catalogue ht
  have hclosed := Target.closed_of_mem_catalogue ht
  have hwritable := allHave_of_implies (Form.builtOf_implies_writable tokens) ss hss
  obtain ⟨hdrops, rfl⟩ := (emit_eq_ok_iff hcomplete policy hwritable).mp hout
  have htwins := text_twins ht hnames hss
  refine ⟨htwins.scan_left, nested_of_nest htwins.nest_eq, fun p' hp' hblank => ?_⟩
  obtain ⟨ss', tokens', rfl, hss', hnames'⟩ := hp'.exists_built
  have hwritable' := allHave_of_implies (Form.builtOf_implies_writable tokens') ss' hss'
  have htwins' := text_twins ht hnames' hss'
  have hblank : blankAll ss' = blankAll ss := Program.statements.inj hblank
  rw [hblank] at htwins'
  refine ⟨text t ss', (emit_eq_ok_iff hcomplete policy hwritable').mpr ⟨fun hfail => ?_, rfl⟩,
    htwins'.erase_eq.trans htwins.erase_eq.symm⟩
  rw [← (all_blank hclosed hnames' [] hss').2, hblank, (all_blank hclosed hnames [] hss).2]
  exact hdrops hfail

/-- A sum of two texts. -/
def textSum (left right : String) : Program :=
  .statements [.print (.binary "+" (.text left) (.text right))]

theorem accepted_of_tokens (source : String) {p : Program}
    (h : ((tokenize .standard source).toOption.bind fun tokens =>
      (parse .strict tokens).toOption) = some p) : Accepted p := by
  obtain ⟨tokens, htokens, hparse⟩ := Option.bind_eq_some_iff.mp h
  exact ⟨.standard, source, tokens, .strict, Results.eq_ok_of_toOption htokens,
    Results.eq_ok_of_toOption hparse⟩

/-- Contents with a quote, with brackets that do not match and with a backslash in front of the
closing quote. -/
theorem contents_stay_in_literals_textSum :
    let p := textSum "a\x7d\x22(" "b\\"
    let out := "fn main() \x7b\n  println!(\x22\x7b\x7d\x22, format!(\x22\x7b\x7d\x7b\x7d\x22, " ++
      "String::from(\x22a\x7d\\\x22(\x22), String::from(\x22b\\\\\x22)));\n\x7d\n"
    Target.rust ∈ Target.catalogue ∧ Accepted p ∧ emit .rust .fail p = .ok out ∧
      Accepted (textSum "x" "y") ∧ (textSum "x" "y").blank = p.blank ∧
      scan .code out.toList = .code ∧ Nested (erase .code out.toList) ∧
      ∃ out', emit .rust .fail (textSum "x" "y") = .ok out' ∧
        erase .code out'.toList = erase .code out.toList := by
  intro p out
  have ht : Target.rust ∈ Target.catalogue := by simp [Target.catalogue]
  have hp : Accepted p :=
    accepted_of_tokens "bol 'a\x7d\x22(' + \x22b\\\x22" (by decide +kernel)
  have hp' : Accepted (textSum "x" "y") :=
    accepted_of_tokens "bol 'x' + 'y'" (by decide +kernel)
  have hout : emit .rust .fail p = .ok out := Results.eq_ok_of_toOption (by decide +kernel)
  obtain ⟨hscan, hnested, hsame⟩ := contents_stay_in_literals ht hp hout
  exact ⟨ht, hp, hout, hp', rfl, hscan, hnested, hsame _ hp' rfl⟩

end Boli
