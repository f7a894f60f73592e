import Boli.Proofs.Diagnostics
import Boli.Proofs.Emission.Frames
import Boli.Proofs.Parsing.Renumbering

/-!
# Numerals in the output

The text of a program depends on its numbers only by their numerals: a program whose numbers are
places has a frame with these places as holes, and the text for any numbers is the frame with their
numerals in it (`Rendering.exists_frame_of_text`). With the shape that the parser finds whatever the
digits are, this makes an output a frame for the number tokens of a source. In the holes stand their
digits without leading zeros (`numerals_keep_value`).

What is recorded and dropped for a program is the same for all numbers, since a number has the kind of
any other and is never refused. Where something is dropped, its numbers do not come into the text.
-/

set_option autoImplicit false

namespace Boli

open Boli.Keyword (Table)
open Boli.Parser (numeralsRead)
open Emission Rendering Template
open Numbered (places numbered)
open Text.Numeral (IsDigitRun canonical decimal read write)

namespace Rendering

variable {t : Target} {places is js : List Nat}

/-! ## Texts of a program -/

/-- A family of texts has a frame with these places, or is refused for one kind. -/
inductive Framed (t : Target) (places : List Nat) (f : Numbering → Except Failure String) : Prop where
  | given (F : Frame Nat) (v : Numbering → String) : F.Writes places v → (∀ w, f w = .ok (v w)) →
      Framed t places f
  | refused (kind : String) : (∀ w, f w = unsupported t kind) → Framed t places f

namespace Framed

variable {f : Numbering → Except Failure String}

/-- Whether a text is refused does not depend on the numbers. -/
theorem refusal_eq (h : Framed t places f) (w w' : Numbering) : refusal (f w) = refusal (f w') := by
  cases h with
  | given F v hF hf => rw [hf, hf]; rfl
  | refused kind hf => rw [hf, hf]

/-- A text goes on where it is given. -/
theorem bind {g : Numbering → String → Except Failure String} (hf : Framed t is f)
    (hg : ∀ (F : Frame Nat) v, F.Writes is v → Framed t js fun w => g w (v w)) :
    Framed t js fun w => f w >>= g w := by
  cases hf with
  | given F v hF hf =>
    simp only [hf]
    exact hg F v hF
  | refused kind hf =>
    simp only [hf]
    exact .refused kind fun _ => rfl

/-- A template is filled. -/
theorem of_fill {r : Numbering → Except Template.Fault String} (hr : ∀ w, ∃ text, r w = .ok text)
    (h : ∀ text, (∀ w, r w = .ok (text w)) → ∃ F : Frame Nat, F.Writes places text) :
    Framed t places fun w => (r w).mapError .template := by
  choose text htext using hr
  obtain ⟨F, hF⟩ := h text htext
  exact .given F text hF fun w => by rw [htext]; rfl

end Framed

theorem valueKind_numbered (b : Bindings) (value : Nat → Int) (e : Expression) :
    valueKind b (e.numbered value) = valueKind b e := by
  induction e with
  | binary operator left right ihl ihr =>
    rw [Expression.numbered, valueKind, valueKind, ihl, ihr]
  | number n => rfl
  | text s => rfl
  | identifier name => rfl
  | foreign kind data => rfl

/-- Two texts in the holes of an operation. -/
theorem exists_operands {template : Template} (h : template.Spaced [.named "left", .named "right"])
    {L R : Frame Nat} {l r text : Numbering → String} (hL : L.Writes is l) (hR : R.Writes js r)
    (htext : ∀ w, template.fillNamed (Target.operands (l w) (r w)) = .ok (text w)) :
    ∃ F : Frame Nat, F.Writes (is ++ js) text :=
  exists_writes_fillNamed h (.cons "left" hL (.cons "right" hR .nil))
    (by simp [framesUnder, Dictionary.get?, hL.holes_eq, hR.holes_eq]) htext

/-- An operator between blanks parts its operands. -/
theorem exists_infix (operator : String) {L R : Frame Nat} {l r : Numbering → String}
    (hL : L.Writes is l) (hR : R.Writes js r) :
    ∃ F : Frame Nat, F.Writes (is ++ js) fun w => l w ++ " " ++ operator ++ " " ++ r w := by
  have hletters : (" " ++ operator ++ " ").toList = ' ' :: operator.toList ++ [' '] := by
    rw [String.toList_append, String.toList_append]
    rfl
  have hlead : Frame.Leads (" " ++ operator ++ " ").toList := by
    rw [hletters]
    exact Frame.leads_blank _
  have hbetween := hL.between hR ⟨_, _, hletters, by decide⟩ hlead
  simp only [← String.append_assoc] at hbetween
  exact ⟨_, hbetween⟩

section Texts

variable (hc : t.Complete) (ht : t.Spaced)

include hc ht

theorem binary_framed (operator : String) {L R : Frame Nat} {l r : Numbering → String}
    (hL : L.Writes is l) (hR : R.Writes js r) :
    Framed t (is ++ js) fun w => (t.binary operator (l w) (r w)).mapError .template := by
  refine .of_fill (fun w => hc.exists_binary operator (l w) (r w)) fun text htext => ?_
  unfold Target.binary at htext
  split at htext
  next =>
    obtain rfl : (fun w => l w ++ " " ++ operator ++ " " ++ r w) = text :=
      funext fun w => Except.ok.inj (htext w)
    exact exists_infix operator hL hR
  next template hget =>
    exact exists_operands (ht.operators _ (Dictionary.mem_of_get? hget)) hL hR htext

theorem asString_framed (b : Bindings) (e : Expression) {F : Frame Nat} {v : Numbering → String}
    (hF : F.Writes is v) : Framed t is fun w => asString t b (e.numbered w.value) (v w) := by
  simp only [asString, valueKind_numbered]
  split
  next => exact .given F v hF fun _ => rfl
  next =>
    exact .of_fill (fun w => exists_fill hc.stringify (v w)) fun text htext =>
      ⟨_, writes_fill ht.stringify hF htext⟩

/-- The text of an expression is one with holes for its numbers, or it is refused whatever they
are. -/
theorem expression_framed (b : Bindings) (e : Expression) :
    Framed t e.places fun w => expression t b (e.numbered w.value) := by
  induction e with
  | number n =>
    exact .given _ _ (.numeral n.toNat) fun w => by
      rw [Expression.numbered, expression, w.write_eq]
      rfl
  | text s =>
    obtain ⟨text, htext⟩ := hc.exists_quote s
    exact .given _ _ (.const text) fun _ => by
      rw [Expression.numbered, expression, htext]
      rfl
  | identifier name => exact .given _ _ (.const name) fun _ => rfl
  | foreign kind data => exact .refused kind fun _ => rfl
  | binary operator left right ihl ihr =>
    have hkind (w : Numbering) := valueKind_numbered b w.value (.binary operator left right)
    simp only [Expression.numbered] at hkind
    simp only [Expression.numbered, expression, hkind]
    refine ihl.bind fun L l hL => ?_
    refine ihr.bind fun R r hR => ?_
    split
    next =>
      refine (asString_framed hc ht b left hL).bind fun L' l' hL' => ?_
      refine (asString_framed hc ht b right hR).bind fun R' r' hR' => ?_
      cases htemplate : t.concatenation with
      | none =>
        simp only [Target.concatenate, htemplate]
        exact .refused _ fun _ => rfl
      | some template =>
        have hne : t.concatenation ≠ none := by
          rw [htemplate]
          exact Option.some_ne_none template
        choose text htext using fun w => hc.exists_concatenate hne (l' w) (r' w)
        have hfill (w : Numbering) :
            template.fillNamed (Target.operands (l' w) (r' w)) = .ok (text w) := by
          have hsome := htext w
          simp only [Target.concatenate, htemplate] at hsome
          obtain ⟨_, hfill, hsame⟩ := Results.exists_of_map_eq_ok hsome
          cases hsame
          exact hfill
        obtain ⟨F, hF⟩ := exists_operands (ht.concatenation template htemplate) hL' hR' hfill
        exact .given F text hF fun w => by rw [htext]; rfl
    next => exact binary_framed hc ht operator hL hR

theorem condition_framed (b : Bindings) (c : Condition) :
    Framed t c.places fun w => condition t b (c.numbered w.value) := by
  cases c with
  | foreign kind data => exact .refused kind fun _ => rfl
  | compare left operator right =>
    refine (expression_framed hc ht b left).bind fun L l hL => ?_
    refine (expression_framed hc ht b right).bind fun R r hR => ?_
    refine (binary_framed hc ht operator hL hR).bind fun F v hF => ?_
    exact .of_fill (fun w => exists_fill hc.condition (v w)) fun text htext =>
      ⟨_, writes_fill ht.condition hF htext⟩

theorem declarationText_framed (b : Bindings) (name : String) (e : Expression) :
    Framed t e.places fun w => declarationText t b name (e.numbered w.value) := by
  simp only [declarationText, valueKind_numbered]
  refine (expression_framed hc ht _ e).bind fun F v hF => ?_
  refine .of_fill (fun w => exists_fillNamed _ _ hc.declaration) fun text htext => ?_
  have hnames := ((NamesWrite.nil.cons "value" hF).cons "name" (.const name)).cons "type"
    (.const (t.typeName (valueKind b e)))
  rcases ht.declaration with h | h
  · exact exists_writes_fillNamed h hnames (by simp [framesUnder, Dictionary.get?, hF.holes_eq]) htext
  · exact exists_writes_fillNamed h hnames (by simp [framesUnder, Dictionary.get?, hF.holes_eq]) htext

theorem assignmentText_framed (b : Bindings) (name : String) (e : Expression) :
    Framed t e.places fun w => assignmentText t b name (e.numbered w.value) := by
  refine (expression_framed hc ht b e).bind fun F v hF => ?_
  refine .of_fill (fun w => exists_fillNamed _ _ hc.assignment) fun text htext => ?_
  exact exists_writes_fillNamed ht.assignment ((NamesWrite.nil.cons "value" hF).cons "name"
    (.const name)) (by simp [framesUnder, Dictionary.get?, hF.holes_eq]) htext

theorem printText_framed (b : Bindings) (e : Expression) :
    Framed t e.places fun w => printText t b (e.numbered w.value) := by
  obtain ⟨template, htemplate, hfits⟩ := hc.exists_printTemplate (valueKind b e)
  obtain ⟨kind, hmem⟩ := Target.mem_of_printTemplate htemplate
  simp only [printText, valueKind_numbered, htemplate]
  refine (expression_framed hc ht b e).bind fun F v hF => ?_
  refine .of_fill (fun w => exists_fillNamed _ _ hfits) fun text htext => ?_
  exact exists_writes_fillNamed (ht.print _ hmem) (NamesWrite.nil.cons "value" hF)
    (by simp [framesUnder, Dictionary.get?, hF.holes_eq]) htext

end Texts

/-! ## What is dropped -/

/-- A template refuses nothing, so that a text is refused where its expression is. -/
theorem refusal_declarationText (hc : t.Complete) (b : Bindings) (name : String) (e : Expression) :
    refusal (declarationText t b name e) = refusal (expression t (b.put name (valueKind b e)) e) :=
  refusal_bind fun _ => exists_fillNamed _ _ hc.declaration

theorem refusal_assignmentText (hc : t.Complete) (b : Bindings) (name : String) (e : Expression) :
    refusal (assignmentText t b name e) = refusal (expression t b e) :=
  refusal_bind fun _ => exists_fillNamed _ _ hc.assignment

theorem refusal_printText (hc : t.Complete) (b : Bindings) (e : Expression) :
    refusal (printText t b e) = refusal (expression t b e) := by
  obtain ⟨template, htemplate, hfits⟩ := hc.exists_printTemplate (valueKind b e)
  rw [printText, htemplate]
  exact refusal_bind fun _ => exists_fillNamed _ _ hfits

mutual

/-- What is recorded behind a statement and what is dropped in it does not depend on its numbers. -/
theorem statement_numbered (hc : t.Complete) (ht : t.Spaced) (w w' : Numbering) :
    ∀ (s : Statement) (b : Bindings),
    after t b (s.numbered w.value) = after t b (s.numbered w'.value) ∧
      rejected t b (s.numbered w.value) = rejected t b (s.numbered w'.value) ∧
        dropsIn t b (s.numbered w.value) = dropsIn t b (s.numbered w'.value)
  | .declare name e, b => by
    simp only [Statement.numbered, after, rejected, dropsIn, valueKind_numbered, true_and, and_true]
    exact (expression_framed hc ht _ e).refusal_eq w w'
  | .assign _ e, b | .print e, b | .evaluate e, b =>
    ⟨rfl, (expression_framed hc ht b e).refusal_eq w w', rfl⟩
  | .foreign _ _, _ => ⟨rfl, rfl, rfl⟩
  | .branch c body rest, b => by
    obtain ⟨hafter, hdrops⟩ := all_numbered hc ht w w' body b
    obtain ⟨hafter', hrejected', hdrops'⟩ :=
      rest_numbered hc ht w w' rest (allAfter t b (numberAll w'.value body))
    simp only [Statement.numbered, after, rejected, dropsIn,
      (condition_framed hc ht b c).refusal_eq w w', hafter, hdrops, hafter', hrejected', hdrops',
      and_self]
  | .loop c body, b => by
    obtain ⟨hafter, hdrops⟩ := all_numbered hc ht w w' body b
    simp only [Statement.numbered, after, rejected, dropsIn,
      (condition_framed hc ht b c).refusal_eq w w', hafter, hdrops, and_self]

theorem rest_numbered (hc : t.Complete) (ht : t.Spaced) (w w' : Numbering) :
    ∀ (r : Otherwise) (b : Bindings),
    restAfter t b (r.numbered w.value) = restAfter t b (r.numbered w'.value) ∧
      restRejected t b (r.numbered w.value) = restRejected t b (r.numbered w'.value) ∧
        restDrops t b (r.numbered w.value) = restDrops t b (r.numbered w'.value)
  | .nothing, _ => ⟨rfl, rfl, rfl⟩
  | .last body, b => by
    obtain ⟨hafter, hdrops⟩ := all_numbered hc ht w w' body b
    exact ⟨hafter, rfl, hdrops⟩
  | .elseIf c body rest, b => by
    obtain ⟨hafter, hdrops⟩ := all_numbered hc ht w w' body b
    obtain ⟨hafter', hrejected', hdrops'⟩ :=
      rest_numbered hc ht w w' rest (allAfter t b (numberAll w'.value body))
    simp only [Otherwise.numbered, restAfter, restRejected, restDrops,
      (condition_framed hc ht b c).refusal_eq w w', hafter, hdrops, hafter', hrejected', hdrops',
      and_self]

theorem all_numbered (hc : t.Complete) (ht : t.Spaced) (w w' : Numbering) :
    ∀ (ss : List Statement) (b : Bindings),
    allAfter t b (numberAll w.value ss) = allAfter t b (numberAll w'.value ss) ∧
      allDrops t b (numberAll w.value ss) = allDrops t b (numberAll w'.value ss)
  | [], _ => ⟨rfl, rfl⟩
  | s :: ss, b => by
    obtain ⟨hafter, hrejected, hdrops⟩ := statement_numbered hc ht w w' s b
    obtain ⟨hafter', hdrops'⟩ := all_numbered hc ht w w' ss (after t b (s.numbered w'.value))
    simp only [numberAll, allAfter, allDrops, hafter, hrejected, hdrops, hafter', hdrops', and_self]

end

/-! ## Lines of a program -/

/-- Lines with frames for their texts, and the depths at which they stand. -/
abbrev Rows : Type := List (Int × Frame Nat)

namespace Rows

/-- The lines with the numerals of numbers in their holes. -/
def lines (rows : Rows) (w : Numbering) : List Line :=
  rows.map fun row => ⟨row.1, String.ofList (row.2.fill w.text)⟩

/-- The holes of all lines, in order. -/
def holes (rows : Rows) : List Nat := rows.flatMap fun row => row.2.holes

/-- Rows are those of a family of lines. Their holes are among the places, and they are all of them if
everything is written. -/
structure Writes (rows : Rows) (places : List Nat) (whole : Prop) (f : Numbering → List Line) :
    Prop where
  apart : ∀ row ∈ rows, row.2.Apart
  sublist : rows.holes.Sublist places
  holes_eq : whole → rows.holes = places
  lines_eq : ∀ w, f w = rows.lines w

end Rows

/-- A family of lines has rows, with holes that are among the places. -/
def FramedLines (places : List Nat) (whole : Prop) (f : Numbering → List Line) : Prop :=
  ∃ rows : Rows, rows.Writes places whole f

namespace FramedLines

variable {whole whole' : Prop} {f g : Numbering → List Line} {depth : Int}

/-- Lines that are the same for all numbers. -/
theorem const (ls : List Line) : FramedLines [] True fun _ => ls := by
  have hholes : Rows.holes (ls.map fun l => (l.depth, Frame.ofChars l.text.toList)) = [] := by
    simp [Rows.holes, List.flatMap_map]
  refine ⟨_, ?_, hholes ▸ List.Sublist.slnil, fun _ => hholes, fun w => ?_⟩
  · intro row hrow
    obtain ⟨l, -, rfl⟩ := List.mem_map.1 hrow
    exact Frame.apart_ofChars _
  · simp [Rows.lines, Function.comp_def]

theorem append (hf : FramedLines is whole f) (hg : FramedLines js whole' g) :
    FramedLines (is ++ js) (whole ∧ whole') fun w => f w ++ g w := by
  obtain ⟨rows, hrows⟩ := hf
  obtain ⟨rows', hrows'⟩ := hg
  have hholes : Rows.holes (rows ++ rows') = rows.holes ++ rows'.holes := List.flatMap_append
  refine ⟨rows ++ rows', ?_, ?_, ?_, fun w => ?_⟩
  · exact List.forall_mem_append.2 ⟨hrows.apart, hrows'.apart⟩
  · rw [hholes]
    exact hrows.sublist.append hrows'.sublist
  · rintro ⟨h, h'⟩
    rw [hholes, hrows.holes_eq h, hrows'.holes_eq h']
  · rw [hrows.lines_eq, hrows'.lines_eq, Rows.lines, Rows.lines, Rows.lines, List.map_append]

theorem imp (hf : FramedLines places whole f) (h : whole' → whole) : FramedLines places whole' f :=
  let ⟨rows, hrows⟩ := hf
  ⟨rows, hrows.apart, hrows.sublist, fun hwhole => hrows.holes_eq (h hwhole), hrows.lines_eq⟩

theorem nil : FramedLines [] whole fun _ => [] := (const []).imp fun _ => trivial

/-- Where nothing is claimed to be whole, there may be more places. -/
theorem weaken (hf : FramedLines is whole f) (h : is.Sublist places) (hnot : ¬whole') :
    FramedLines places whole' f :=
  let ⟨rows, hrows⟩ := hf
  ⟨rows, hrows.apart, hrows.sublist.trans h, fun hwhole => absurd hwhole hnot, hrows.lines_eq⟩

theorem line {F : Frame Nat} {v : Numbering → String} (hF : F.Writes places v) (depth : Int) :
    FramedLines places whole fun w => [⟨depth, v w⟩] := by
  have hholes : Rows.holes [(depth, F)] = places := (List.append_nil _).trans hF.holes_eq
  refine ⟨[(depth, F)], List.forall_mem_singleton.2 hF.apart, hholes ▸ List.Sublist.refl _,
    fun _ => hholes, fun w => ?_⟩
  rw [Rows.lines, List.map_singleton, ← hF.toList_eq, String.ofList_toList]

/-- A line around a text, which shows nothing if the text is refused. -/
theorem of_framed {r : Numbering → Except Failure String} (h : Framed t places r) (w₀ : Numbering)
    (around : String → String) (haround : ∀ {is : List Nat} {F : Frame Nat} {v : Numbering → String},
      F.Writes is v → ∃ G : Frame Nat, G.Writes is fun w => around (v w)) (depth : Int) :
    FramedLines places (refusal (r w₀) = none) fun w => [⟨depth, around (shown (r w))⟩] := by
  cases h with
  | given F v hF hr =>
    obtain ⟨G, hG⟩ := haround hF
    simp only [hr]
    exact line hG depth
  | refused kind hr =>
    simp only [hr]
    exact (const [_]).weaken (List.nil_sublist _) nofun

end FramedLines

section Lines

/-- The start of a line, which a blank ends. -/
theorem leads_of_blank (keyword : String) : Frame.Leads (keyword ++ " ").toList := by
  rw [String.toList_append]
  exact Frame.leads_blank _

/-- A text between a keyword and what opens a block. -/
theorem exists_opener (t : Target) {lead : String}
    (hlead : Frame.Leads lead.toList) {F : Frame Nat} {v : Numbering → String}
    (hF : F.Writes is v) : ∃ G : Frame Nat, G.Writes is fun w => opener t (lead ++ v w) := by
  unfold opener
  cases t.blockStyle with
  | colon => exact ⟨_, (hF.behind hlead).before (by decide)⟩
  | braces => exact ⟨_, (hF.behind hlead).before (by decide)⟩

theorem continuation_append (t : Target) (lead header : String) :
    continuation t (lead ++ header) = continuation t lead ++ header := by
  unfold continuation
  cases t.blockStyle with
  | braces => exact String.append_assoc.symm
  | colon => rfl

theorem leads_of_continuation (t : Target) (keyword : String) :
    Frame.Leads (continuation t (keyword ++ " ")).toList := by
  rw [continuation_append]
  exact leads_of_blank _

theorem filler_numbered (t : Target) (depth : Int) (value : Nat → Int) (body : List Statement) :
    filler t depth (numberAll value body) = filler t depth body := by
  cases body with
  | nil => rfl
  | cons s ss => rfl

variable {whole whole' : Prop}

theorem block_framed {header : Numbering → String} {depth : Int} {inner : Numbering → List Line}
    (body : List Statement)
    (hheader : FramedLines is whole fun w => [⟨depth, opener t (header w)⟩])
    (hinner : FramedLines js whole' inner) :
    FramedLines (is ++ js) (whole ∧ whole') fun w =>
      blockLines t depth (header w) (numberAll w.value body) (inner w) := by
  simp only [blockLines, filler_numbered]
  have hfilled := (FramedLines.const (filler t (depth + 1) body)).append hinner
  exact (hheader.append hfilled).imp fun h => ⟨h.1, trivial, h.2⟩

/-- A simple statement is one line. -/
theorem simple_framed (ht : t.Spaced) {r : Numbering → Except Failure String}
    (h : Framed t places r) (depth : Int) :
    FramedLines places (refusal (r .zero) = none) fun w =>
      [⟨depth, shown (r w) ++ t.terminator⟩] :=
  .of_framed h .zero (· ++ t.terminator) (fun hF => ⟨_, hF.before ht.terminator⟩) depth

/-- A condition behind a keyword. -/
theorem header_framed (hc : t.Complete) (ht : t.Spaced) (b : Bindings) (c : Condition) {lead : String}
    (hlead : Frame.Leads lead.toList) (depth : Int) :
    FramedLines c.places (refusal (condition t b (c.numbered Numbering.zero.value)) = none) fun w =>
      [⟨depth, opener t (lead ++ shown (condition t b (c.numbered w.value)))⟩] :=
  .of_framed (condition_framed hc ht b c) .zero (fun v => opener t (lead ++ v))
    (exists_opener t hlead) depth

/-- Where neither a condition nor what follows is refused, and nothing is dropped, all is written. -/
theorem none_of_or {kind kind' : Option String} {ds ds' : List String}
    (h : kind.or kind' = none ∧ (if kind.isSome then [] else ds ++ ds') = []) :
    (kind = none ∧ ds = []) ∧ kind' = none ∧ ds' = [] := by
  obtain ⟨hkinds, hdrops⟩ := h
  obtain ⟨rfl, rfl⟩ := Option.or_eq_none_iff.1 hkinds
  obtain ⟨hds, hds'⟩ := List.append_eq_nil_iff.1 hdrops
  exact ⟨⟨rfl, hds⟩, rfl, hds'⟩

variable (hc : t.Complete) (ht : t.Spaced)

include hc ht

mutual

theorem lines_framed :
    ∀ (s : Statement) (b : Bindings) (depth : Int),
      FramedLines s.places
        (rejected t b (s.numbered Numbering.zero.value) = none ∧
          dropsIn t b (s.numbered Numbering.zero.value) = [])
        fun w => lines t b depth (s.numbered w.value)
  | .declare name e, b, depth => by
    have hline := simple_framed ht (declarationText_framed hc ht b name e) depth
    rw [refusal_declarationText hc] at hline
    exact hline.imp And.left
  | .assign name e, b, depth => by
    have hline := simple_framed ht (assignmentText_framed hc ht b name e) depth
    rw [refusal_assignmentText hc] at hline
    exact hline.imp And.left
  | .print e, b, depth => by
    have hline := simple_framed ht (printText_framed hc ht b e) depth
    rw [refusal_printText hc] at hline
    exact hline.imp And.left
  | .evaluate e, b, depth =>
    (simple_framed ht (expression_framed hc ht b e) depth).imp And.left
  | .foreign kind data, b, depth => .nil
  | .branch c body rest, b, depth => by
    have hafter (w : Numbering) := (all_numbered hc ht w .zero body b).1
    have hheader := header_framed hc ht b c (leads_of_blank t.ifKeyword) depth
    have hblock := block_framed body hheader (allLines_framed body b (depth + 1))
    have hrest := restLines_framed rest (allAfter t b (numberAll Numbering.zero.value body)) depth
    have hlines := (hblock.append hrest).append (.const (closer t depth))
    rw [List.append_nil] at hlines
    simp only [Statement.numbered, lines, rejected, dropsIn, hafter]
    exact hlines.imp fun h => ⟨none_of_or h, trivial⟩
  | .loop c body, b, depth => by
    have hheader := header_framed hc ht b c (leads_of_blank t.whileKeyword) depth
    have hblock := block_framed body hheader (allLines_framed body b (depth + 1))
    have hlines := hblock.append (.const (closer t depth))
    rw [List.append_nil] at hlines
    simp only [Statement.numbered, lines, rejected, dropsIn]
    refine hlines.imp fun ⟨hkind, hdrops⟩ => ⟨⟨hkind, ?_⟩, trivial⟩
    rwa [hkind] at hdrops

theorem restLines_framed :
    ∀ (r : Otherwise) (b : Bindings) (depth : Int),
      FramedLines r.places
        (restRejected t b (r.numbered Numbering.zero.value) = none ∧
          restDrops t b (r.numbered Numbering.zero.value) = [])
        fun w => restLines t b depth (r.numbered w.value)
  | .nothing, b, depth => .nil
  | .last body, b, depth => by
    have hheader := FramedLines.const
      [⟨depth, opener t (continuation t t.elseKeyword)⟩]
    have hblock := block_framed body hheader (allLines_framed body b (depth + 1))
    exact hblock.imp fun h => ⟨trivial, h.2⟩
  | .elseIf c body rest, b, depth => by
    have hafter (w : Numbering) := (all_numbered hc ht w .zero body b).1
    have hheader := header_framed hc ht b c (leads_of_continuation t t.elseIfKeyword) depth
    simp only [← continuation_append] at hheader
    have hblock := block_framed body hheader (allLines_framed body b (depth + 1))
    have hrest := restLines_framed rest (allAfter t b (numberAll Numbering.zero.value body)) depth
    simp only [Otherwise.numbered, restLines, restRejected, restDrops, hafter]
    exact (hblock.append hrest).imp none_of_or

/-- The lines of statements are ones with holes for their numbers. All of these are written unless
something is dropped. -/
theorem allLines_framed :
    ∀ (ss : List Statement) (b : Bindings) (depth : Int),
      FramedLines (placesAll ss) (allDrops t b (numberAll Numbering.zero.value ss) = [])
        fun w => allLines t b depth (numberAll w.value ss)
  | [], b, depth => .nil
  | s :: ss, b, depth => by
    have hafter (w : Numbering) := (statement_numbered hc ht w .zero s b).1
    have hrejected (w : Numbering) := (statement_numbered hc ht w .zero s b).2.1
    have hrest := allLines_framed ss (after t b (s.numbered Numbering.zero.value)) depth
    have hlines := lines_framed s b depth
    simp only [numberAll, allLines, allDrops, hafter, hrejected]
    generalize rejected t b (s.numbered Numbering.zero.value) = kind at hlines
    cases kind with
    | none =>
      refine (hlines.append hrest).imp fun h => ?_
      obtain ⟨hfirst, hmore⟩ := List.append_eq_nil_iff.1 h
      exact ⟨⟨rfl, (List.append_eq_nil_iff.1 hfirst).1⟩, hmore⟩
    | some kind =>
      have hcomment : FramedLines s.places False fun _ => [⟨depth, comment t kind⟩] :=
        (FramedLines.const _).weaken (List.nil_sublist _) id
      refine (hcomment.append hrest).imp fun h => ?_
      have hfirst := (List.append_eq_nil_iff.1 h).1
      exact nomatch (List.append_eq_nil_iff.1 hfirst).2

end

end Lines

/-! ## Whole programs -/

theorem closed_indentation (ht : t.Spaced) (depth : Int) :
    (Frame.ofChars (indentation t depth).toList : Frame Nat).Closed := by
  unfold indentation repeated
  generalize depth.toNat = n
  induction n with
  | zero => exact nofun
  | succ n ih =>
    rw [List.replicate_succ, String.join_cons, String.toList_append, Frame.ofChars, List.map_append]
    exact (Frame.closed_ofChars ht.indentUnit).append ih

namespace Rows

/-- The frame of a text that has these lines. -/
def frame (t : Target) (R : Rows) : Frame Nat :=
  R.flatMap fun row =>
    Frame.ofChars (indentation t row.1).toList ++ (row.2 ++ Frame.ofChars ['\n'])

theorem fill_frame (R : Rows) (w : Numbering) :
    (R.frame t).fill w.text = Boli.rows ((R.lines w).map (Line.render t)) := by
  induction R with
  | nil => rfl
  | cons row R ih =>
    rw [frame, List.flatMap_cons, ← frame, Frame.fill_append, ih, Frame.fill_append,
      Frame.fill_append, Frame.fill_ofChars, Frame.fill_ofChars]
    simp only [lines, Boli.rows, List.map_cons, List.flatMap_cons, Line.render, String.toList_append,
      String.toList_ofList, List.append_assoc]

theorem holes_frame (R : Rows) : (R.frame t).holes = R.holes := by
  induction R with
  | nil => rfl
  | cons row R ih =>
    rw [frame, List.flatMap_cons, ← frame, Frame.holes_append, ih, Frame.holes_append,
      Frame.holes_append, Frame.holes_ofChars, Frame.holes_ofChars, List.nil_append, List.append_nil]
    rfl

/-- A line break parts a line from the next one, and so the indentation does. -/
theorem apart_frame (ht : t.Spaced) {R : Rows} (h : ∀ row ∈ R, row.2.Apart) : (R.frame t).Apart := by
  induction R with
  | nil => exact .nil
  | cons row R ih =>
    obtain ⟨hrow, hR⟩ := List.forall_mem_cons.1 h
    have hline : (row.2 ++ Frame.ofChars ['\n']).Apart := hrow.append_ofChars (by decide)
    rw [frame, List.flatMap_cons, ← frame, List.append_assoc]
    refine (Frame.apart_ofChars _).append (closed_indentation ht row.1) ?_
    refine hline.append (fun x hx y => ?_) (ih hR)
    obtain rfl : .inl '\n' = x := Option.some.inj (List.getLast?_concat.symm.trans hx)
    exact Frame.parts_of_mayPrecede (by decide) y

end Rows

/-- The text of a program has a frame, with holes for the numbers of what is not dropped. -/
theorem exists_frame_of_text (ht : t ∈ Target.catalogue) (ss : List Statement) :
    ∃ F : Frame Nat, F.Apart ∧ F.holes.Sublist (placesAll ss) ∧
      (allDrops t [] (numberAll Numbering.zero.value ss) = [] → F.holes = placesAll ss) ∧
      ∀ w : Numbering, (text t (numberAll w.value ss)).toList = F.fill w.text := by
  have hspaced := Target.spaced_of_mem_catalogue ht
  have hclosed := Target.closed_of_mem_catalogue ht
  have hbody := allLines_framed (Target.complete_of_mem_catalogue ht) hspaced ss [] t.bodyLevel
  have hfilled := (FramedLines.const (filler t t.bodyLevel ss)).append hbody
  obtain ⟨R, hR⟩ := ((FramedLines.const (t.opening.map (Line.mk 0))).append
    hfilled).append (.const (t.closing.map (Line.mk 0)))
  rw [List.append_nil, List.nil_append, List.nil_append] at hR
  refine ⟨R.frame t, Rows.apart_frame hspaced hR.apart, ?_, fun hdrops => ?_, fun w => ?_⟩
  · rw [Rows.holes_frame]
    exact hR.sublist
  · rw [Rows.holes_frame]
    exact hR.holes_eq ⟨⟨trivial, trivial, hdrops⟩, trivial⟩
  · rw [Rows.fill_frame, ← hR.lines_eq, toList_text hclosed, filler_numbered]
    simp only [List.map_append, render_frame, Boli.rows, List.flatMap_append]

end Rendering

/-! ## Numerals of a source -/

theorem kind_ne_eof_of_tokenize {table : Table} {source : String} {tokens : List Token}
    (h : tokenize table source = .ok tokens) : ∀ t ∈ tokens, t.kind ≠ .eof := by
  intro t ht
  obtain ⟨l, -, hmeans, -⟩ := exists_lexeme_of_tokenize h t ht
  generalize t.kind = kind, t.value = value at hmeans
  cases hmeans <;> nofun

/-- The numbers that are read at indices; one that cannot be read does not matter. -/
def Numbering.ofDigits (digits : Nat → String) : Numbering where
  value := valueAt digits
  writable i := by
    unfold valueAt
    cases hread : read (digits i) with
    | ok n => exact Text.Numeral.writable_of_read hread
    | error fault => exact Numbering.zero.writable i

theorem Numbering.text_ofDigits {digits : Nat → String} {i : Nat} (h : IsDigitRun (digits i)) :
    (Numbering.ofDigits digits).text i = canonical (digits i) := by
  have hvalue : valueAt digits i = decimal (digits i) := by
    rw [valueAt, Text.Numeral.read_eq_decimal h]
    rfl
  show (write (valueAt digits i)).toOption.getD "" = _
  rw [hvalue, Text.Numeral.write_decimal h]
  rfl

theorem legible_of_isDigitRun {digits : Nat → String} {indices : List Nat}
    (h : ∀ i ∈ indices, IsDigitRun (digits i)) : Legible digits indices :=
  fun i hi => read_eq_valueAt (Text.Numeral.read_eq_decimal (h i hi))

/-- A number token that is read is a run of digits, not too many of them. -/
theorem isDigitRun_digitsAt {tokens : List Token} (hl : ∀ t ∈ tokens, t.IsLexed) {mode : Strictness}
    (h : Legible (digitsAt tokens) (numeralsRead mode tokens)) :
    ∀ i ∈ numeralsRead mode tokens, IsDigitRun (digitsAt tokens i) := by
  intro i hi
  have hread := h i hi
  rw [numeralsRead, List.mem_filter, decide_eq_true_eq] at hi
  obtain ⟨t, ht, hkind⟩ := Option.map_eq_some_iff.1 hi.2.1
  have hlexed := hl t (List.mem_of_getElem? ht)
  have hdigits : digitsAt tokens i = t.value := by rw [digitsAt, ht]; rfl
  rw [hdigits] at hread ⊢
  refine ⟨hlexed.one_le_length hkind, Nat.not_lt.1 fun hlong => ?_, hlexed.isDigit hkind⟩
  rw [Text.Numeral.read_of_isDigit (hlexed.one_le_length hkind) (hlexed.isDigit hkind),
    if_pos (show Text.Numeral.digitLimit < _ from hlong)] at hread
  cases hread

/-- The output for tokens is this frame, with the numerals of number tokens in its holes. The holes
are for tokens that the parser reads, in order, and for all of them if nothing may be dropped. A numeral
is the digits of its token without leading zeros, and so it is with any other digits: nothing else in
the output comes from the digits of number tokens. -/
structure Frame.IsOutput (F : Frame Nat) (mode : Strictness) (tokens : List Token) (t : Target)
    (policy : Policy) (out : String) : Prop where
  apart : F.Apart
  sublist : F.holes.Sublist (numeralsRead mode tokens)
  holes_eq : policy = .fail → F.holes = numeralsRead mode tokens
  toList_eq : out.toList = F.fill fun i => canonical (digitsAt tokens i)
  renumber : ∀ digits, (∀ i ∈ numeralsRead mode tokens, IsDigitRun (digits i)) →
    ∃ p out', parse mode (renumber digits tokens) = .ok p ∧ emit t policy p = .ok out' ∧
      out'.toList = F.fill fun i => canonical (digits i)

/-- A program that is parsed has a text if nothing is dropped that must not be. -/
theorem emit_eq_ok_iff_of_parse {t : Target} (ht : t ∈ Target.catalogue) (policy : Policy)
    {mode : Strictness} {tokens : List Token} {ss : List Statement}
    (h : parse mode tokens = .ok (.statements ss)) {out : String} :
    emit t policy (.statements ss) = .ok out ↔
      (policy = .fail → allDrops t [] ss = []) ∧ out = text t ss := by
  obtain ⟨ss', hsame, hss⟩ := exists_built_of_parse h
  cases hsame
  exact emit_eq_ok_iff (Target.complete_of_mem_catalogue ht) policy
    (allHave_of_implies (Form.builtOf_implies_writable tokens) _ hss)

/-- A number token that is read and comes into the output is written there as the numeral of the same
number without leading zeros, and nothing next to it is a part of it. Digits are read exactly, and what
is written for them stands for the same number, whatever their length. -/
theorem numerals_keep_value {table : Table} {source : String} {tokens : List Token}
    (htokens : tokenize table source = .ok tokens) {mode : Strictness} {p : Program}
    (hparse : parse mode tokens = .ok p) {t : Target} (ht : t ∈ Target.catalogue) {policy : Policy}
    {out : String} (hout : emit t policy p = .ok out) :
    (∀ i ∈ numeralsRead mode tokens, IsDigitRun (digitsAt tokens i)) ∧
    (∃ F : Frame Nat, F.IsOutput mode tokens t policy out) ∧
    ∀ d, IsDigitRun d →
      read d = .ok (decimal d) ∧ write (decimal d) = .ok (canonical d) ∧
        decimal (canonical d) = decimal d ∧ IsDigitRun (canonical d) ∧
        ((canonical d).toList.head? = some '0' → canonical d = "0") := by
  have hc := Target.complete_of_mem_catalogue ht
  have hspaced := Target.spaced_of_mem_catalogue ht
  obtain ⟨shape, hplaces, hlegible, hshape⟩ :=
    exists_shape_of_parse (kind_ne_eof_of_tokenize htokens) hparse
  rw [hplaces] at hlegible
  have hruns := isDigitRun_digitsAt (isLexed_of_tokenize htokens) hlegible
  refine ⟨hruns, ?_, fun d hd => ⟨Text.Numeral.read_eq_decimal hd, Text.Numeral.write_decimal hd,
    Text.Numeral.decimal_canonical hd.isDigit, Text.Numeral.isDigitRun_canonical hd,
    Text.Numeral.canonical_eq_zero_of_head?⟩⟩
  cases shape with
  | foreign kind data =>
    have hown := hshape (digitsAt tokens) (hplaces ▸ hlegible)
    obtain ⟨_, hstatements, -⟩ := exists_built_of_parse hown
    cases hstatements
  | statements ss =>
    obtain ⟨F, hapart, hsublist, hholes, htext⟩ := exists_frame_of_text ht ss
    have hsublist : F.holes.Sublist (numeralsRead mode tokens) := hplaces ▸ hsublist
    -- What is dropped is the same for all digits.
    have hfilled (digits : Nat → String)
        (h : ∀ i ∈ numeralsRead mode tokens, IsDigitRun (digits i)) :
        ∃ ss', parse mode (renumber digits tokens) = .ok (.statements ss') ∧
          allDrops t [] ss' = allDrops t [] (numberAll Numbering.zero.value ss) ∧
          (text t ss').toList = F.fill fun i => canonical (digits i) := by
      refine ⟨numberAll (valueAt digits) ss, hshape digits (hplaces ▸ legible_of_isDigitRun h),
        (all_numbered hc hspaced (.ofDigits digits) .zero ss []).2, ?_⟩
      refine (htext (.ofDigits digits)).trans (Frame.fill_congr fun i hi => ?_)
      exact Numbering.text_ofDigits (h i (hsublist.subset hi))
    obtain ⟨ss', hown, hdrops, hfill⟩ := hfilled _ hruns
    rw [renumber_digitsAt] at hown
    obtain rfl : .statements ss' = p := Except.ok.inj (hown.symm.trans hparse)
    obtain ⟨hnone, rfl⟩ := (emit_eq_ok_iff_of_parse ht policy hown).1 hout
    rw [hdrops] at hnone
    refine ⟨F, hapart, hsublist, fun hfail => ?_, hfill, fun digits h => ?_⟩
    · exact (hholes (hnone hfail)).trans hplaces
    · obtain ⟨ss₁, hother, hdrops₁, hfill₁⟩ := hfilled digits h
      exact ⟨_, _, hother,
        (emit_eq_ok_iff_of_parse ht policy hother).2 ⟨hdrops₁ ▸ hnone, rfl⟩, hfill₁⟩

/-- The tokens of `08 bol 007 + '0'`. -/
def paddedNumerals : List Token :=
  [{ kind := .number, value := "08", text := "08", line := 1, column := 1, offset := 0 },
    { kind := .keyword .print, value := "bol", text := "bol", line := 1, column := 4, offset := 3 },
    { kind := .number, value := "007", text := "007", line := 1, column := 8, offset := 7 },
    { kind := .operator, value := "+", text := "+", line := 1, column := 12, offset := 11 },
    { kind := .string, value := "0", text := "'0'", line := 1, column := 14, offset := 13 }]

/-- The first numeral is passed over, and the other one loses its zeros, which a text keeps. -/
theorem numerals_keep_value_paddedNumerals :
    let p : Program := .statements [.print (.binary "+" (.number 7) (.text "0"))]
    let out := "fun main() \x7b\n    println(7.toString() + \x220\x22)\n\x7d\n"
    tokenize .standard "08 bol 007 + '0'" = .ok paddedNumerals ∧
    parse .permissive paddedNumerals = .ok p ∧ Target.kotlin ∈ Target.catalogue ∧
    emit .kotlin .fail p = .ok out ∧
    numeralsRead .permissive paddedNumerals = [2] ∧
    (∀ i ∈ numeralsRead .permissive paddedNumerals, IsDigitRun (digitsAt paddedNumerals i)) ∧
    (∃ F : Frame Nat, F.IsOutput .permissive paddedNumerals .kotlin .fail out) ∧
    ∀ d, IsDigitRun d →
      read d = .ok (decimal d) ∧ write (decimal d) = .ok (canonical d) ∧
        decimal (canonical d) = decimal d ∧ IsDigitRun (canonical d) ∧
        ((canonical d).toList.head? = some '0' → canonical d = "0") := by
  intro p out
  have htokens : tokenize .standard "08 bol 007 + '0'" = .ok paddedNumerals := by rfl
  have hparse : parse .permissive paddedNumerals = .ok p := by rfl
  have ht : Target.kotlin ∈ Target.catalogue := by simp [Target.catalogue]
  have hout : emit .kotlin .fail p = .ok out := Results.eq_ok_of_toOption (by decide +kernel)
  exact ⟨htokens, hparse, ht, hout, by decide +kernel, numerals_keep_value htokens hparse ht hout⟩

end Boli
