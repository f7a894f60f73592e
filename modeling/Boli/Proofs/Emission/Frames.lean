import Boli.Proofs.Emission.Styles
import Mathlib.Data.List.Chain

/-!
# Texts with holes for numerals

A `Frame` is a text with holes, and it is `Apart` if a numeral in any of its holes is a word by itself:
no letter, digit or underscore stands next to it, and no point in front of it. Templates are frames
too, and a template with frames in its holes is one again (`Template.writes_spell`). Those of the
catalogue keep numerals apart (`Target.spaced_of_mem_catalogue`).

That a text depends on numbers only by their numerals is said of a family of texts, one for each
`Numbering`, which has one frame (`Frame.Writes`).
-/

set_option autoImplicit false

namespace Boli

/-! ## Texts with holes -/

/-- A text with holes of some sort. -/
abbrev Frame (ι : Type) : Type := List (Char ⊕ ι)

namespace Frame

variable {ι κ : Type}

/-- A text without holes. -/
def ofChars (cs : List Char) : Frame ι := cs.map .inl

/-- The frame with texts in its holes. -/
def fill (text : ι → String) (F : Frame ι) : List Char :=
  F.flatMap (Sum.elim (fun c => [c]) fun hole => (text hole).toList)

/-- The holes of a frame, in order. -/
def holes (F : Frame ι) : List ι := F.filterMap Sum.getRight?

/-- The frame with frames in its holes. -/
def subst (frame : ι → Frame κ) (F : Frame ι) : Frame κ :=
  F.flatMap (Sum.elim (fun c => [.inl c]) frame)

/-- A numeral may stand behind a character. -/
def MayPrecede (c : Char) : Prop := c.isAlphanum = false ∧ c ≠ '_' ∧ c ≠ '.'

/-- A numeral may stand in front of a character. -/
def MayFollow (c : Char) : Prop := c.isAlphanum = false ∧ c ≠ '_'

instance : DecidablePred MayPrecede := fun _ => inferInstanceAs (Decidable (_ ∧ _))

instance : DecidablePred MayFollow := fun _ => inferInstanceAs (Decidable (_ ∧ _))

/-- A numeral may stand behind a text. -/
def Leads (cs : List Char) : Prop := ∀ c ∈ cs.getLast?, MayPrecede c

/-- A numeral may stand in front of a text. -/
def Trails (cs : List Char) : Prop := ∀ c ∈ cs.head?, MayFollow c

-- These look at one character; there are also decisions that go through all of them.
instance (cs : List Char) : Decidable (Leads cs) := Option.decidableForallMem cs.getLast?

instance (cs : List Char) : Decidable (Trails cs) := Option.decidableForallMem cs.head?

/-- What may stand next to each other where the holes are for numerals. -/
def Parts : Char ⊕ ι → Char ⊕ ι → Prop
  | .inl _, .inl _ => True
  | .inl c, .inr _ => MayPrecede c
  | .inr _, .inl c => MayFollow c
  | .inr _, .inr _ => False

instance : ∀ x y : Char ⊕ ι, Decidable (Parts x y)
  | .inl _, .inl _ => inferInstanceAs (Decidable True)
  | .inl c, .inr _ => inferInstanceAs (Decidable (MayPrecede c))
  | .inr _, .inl c => inferInstanceAs (Decidable (MayFollow c))
  | .inr _, .inr _ => inferInstanceAs (Decidable False)

/-- Numerals in the holes of a frame do not run into each other or into a word or another number. -/
def Apart (F : Frame ι) : Prop := F.IsChain Parts

instance (F : Frame ι) : Decidable F.Apart := inferInstanceAs (Decidable (F.IsChain Parts))

/-- Anything may stand behind a frame. -/
def Closed (F : Frame ι) : Prop := ∀ x ∈ F.getLast?, ∀ y, Parts x y

theorem parts_of_mayPrecede {c : Char} (h : MayPrecede c) : ∀ y : Char ⊕ ι, Parts (.inl c) y
  | .inl _ => trivial
  | .inr _ => h

theorem parts_of_mayFollow {c : Char} (h : MayFollow c) : ∀ x : Char ⊕ ι, Parts x (.inl c)
  | .inl _ => trivial
  | .inr _ => h

theorem leads_blank (cs : List Char) : Leads (cs ++ [' ']) := by
  rw [Leads, List.getLast?_concat]
  rintro c ⟨⟩
  decide

variable {F G : Frame ι} {text : ι → String}

@[simp] theorem fill_append (F G : Frame ι) : fill text (F ++ G) = fill text F ++ fill text G :=
  List.flatMap_append

@[simp] theorem fill_ofChars (cs : List Char) : fill text (ofChars cs) = cs := by
  rw [fill, ofChars, List.flatMap_map]
  exact List.flatMap_singleton' cs

@[simp] theorem holes_append (F G : Frame ι) : (F ++ G).holes = F.holes ++ G.holes :=
  List.filterMap_append

@[simp] theorem holes_ofChars (cs : List Char) : (ofChars cs : Frame ι).holes = [] :=
  List.filterMap_eq_nil_iff.2 fun x hx => by
    obtain ⟨c, -, rfl⟩ := List.mem_map.1 hx
    rfl

/-- Only the texts for its holes make a difference to a frame. -/
theorem fill_congr {text' : ι → String} {F : Frame ι} (h : ∀ hole ∈ F.holes, text hole = text' hole) :
    fill text F = fill text' F := by
  refine List.flatMap_congr fun x hx => ?_
  cases x with
  | inl c => rfl
  | inr hole => exact congrArg String.toList (h hole (List.mem_filterMap.2 ⟨_, hx, rfl⟩))

theorem fill_subst (frame : κ → Frame ι) (F : Frame κ) :
    fill text (F.subst frame) = F.fill fun hole => String.ofList (fill text (frame hole)) := by
  rw [fill, subst, List.flatMap_assoc, fill]
  refine List.flatMap_congr fun x _ => ?_
  cases x with
  | inl c => rfl
  | inr hole => exact String.toList_ofList.symm

theorem holes_subst (frame : κ → Frame ι) (F : Frame κ) :
    (F.subst frame).holes = F.holes.flatMap fun hole => (frame hole).holes := by
  induction F with
  | nil => rfl
  | cons x F ih =>
    rw [subst, List.flatMap_cons, holes_append, ← subst, ih]
    cases x with
    | inl c => rfl
    | inr hole => rfl

theorem apart_ofChars (cs : List Char) : (ofChars cs : Frame ι).Apart := by
  induction cs with
  | nil => exact .nil
  | cons c cs ih =>
    cases cs with
    | nil => exact .singleton _
    | cons d cs => exact .cons_cons trivial ih

/-- A frame that anything may stand behind goes in front of any other. -/
theorem Apart.append (hF : F.Apart) (hclosed : F.Closed) (hG : G.Apart) : (F ++ G).Apart :=
  List.isChain_append.2 ⟨hF, hG, fun x hx y _ => hclosed x hx y⟩

/-- A text that may stand behind numerals goes behind any frame. -/
theorem Apart.append_ofChars (hF : F.Apart) {cs : List Char} (h : Trails cs) :
    (F ++ ofChars cs).Apart := by
  refine List.isChain_append.2 ⟨hF, apart_ofChars cs, fun x _ y hy => ?_⟩
  rw [ofChars, List.head?_map] at hy
  obtain ⟨c, hc, rfl⟩ := Option.map_eq_some_iff.1 hy
  exact parts_of_mayFollow (h c hc) x

theorem closed_ofChars {cs : List Char} (h : Leads cs) :
    (ofChars cs : Frame ι).Closed := by
  intro x hx y
  rw [ofChars, List.getLast?_map] at hx
  obtain ⟨c, hc, rfl⟩ := Option.map_eq_some_iff.1 hx
  exact parts_of_mayPrecede (h c hc) y

theorem Closed.append (hF : F.Closed) (hG : G.Closed) : (F ++ G).Closed := by
  intro x hx
  rw [List.getLast?_append] at hx
  rcases Option.or_eq_some_iff.1 hx with h | ⟨-, h⟩
  · exact hG x h
  · exact hF x h

/-- Frames with frames in their holes are apart if all of them are. -/
theorem Apart.subst {frame : κ → Frame ι} (hframe : ∀ hole, (frame hole).Apart) :
    ∀ {F : Frame κ}, F.Apart → (F.subst frame).Apart
  | [], _ => .nil
  | [.inl c], _ => .singleton _
  | [.inr hole], _ => by
    rw [Frame.subst, List.flatMap_singleton]
    exact hframe hole
  | .inl c :: .inl d :: F, h => .cons_cons trivial (Apart.subst hframe h.tail)
  | .inl c :: .inr hole :: F, h => by
    obtain ⟨hc, hrest⟩ := List.isChain_cons_cons.1 h
    have hclosed : Frame.Closed [(.inl c : Char ⊕ ι)] := fun x hx y => by
      cases hx
      exact parts_of_mayPrecede hc y
    exact Apart.append (.singleton _) hclosed (Apart.subst hframe hrest)
  | .inr hole :: .inl c :: F, h => by
    obtain ⟨hc, hrest⟩ := List.isChain_cons_cons.1 h
    exact List.isChain_append.2 ⟨hframe hole, Apart.subst hframe hrest,
      fun x _ y hy => by cases hy; exact parts_of_mayFollow hc x⟩
  | .inr _ :: .inr _ :: _, h => (List.isChain_cons_cons.1 h).1.elim

end Frame

/-! ## Families of texts -/

/-- A number for each place, which has a numeral. -/
structure Numbering where
  value : Nat → Int
  writable : ∀ i, Text.Numeral.Writable (value i)

namespace Numbering

/-- The numeral for a place. -/
def text (w : Numbering) (i : Nat) : String := (Text.Numeral.write (w.value i)).toOption.getD ""

theorem write_eq (w : Numbering) (i : Nat) : Text.Numeral.write (w.value i) = .ok (w.text i) := by
  obtain ⟨text, h⟩ := Text.Numeral.exists_write (w.writable i)
  rw [Numbering.text, h]
  rfl

/-- Zero for each place. -/
def zero : Numbering := ⟨fun _ => 0, fun _ => by decide⟩

end Numbering

/-- A frame with these places as holes, in which they are apart, is the one of a family of texts. -/
structure Frame.Writes (F : Frame Nat) (places : List Nat) (v : Numbering → String) : Prop where
  apart : F.Apart
  holes_eq : F.holes = places
  toList_eq : ∀ w, (v w).toList = F.fill w.text

namespace Frame.Writes

variable {F G : Frame Nat} {is js : List Nat} {v u : Numbering → String}

/-- A text that is the same for all numbers. -/
theorem const (s : String) : (ofChars s.toList).Writes [] fun _ => s where
  apart := apart_ofChars _
  holes_eq := holes_ofChars _
  toList_eq _ := (fill_ofChars _).symm

theorem numeral (i : Nat) : Frame.Writes [.inr i] [i] fun w => w.text i where
  apart := .singleton _
  holes_eq := rfl
  toList_eq _ := (List.append_nil _).symm

/-- A text between two others that parts them. -/
theorem between (hF : F.Writes is v) (hG : G.Writes js u) {s : String}
    (hfollow : ∃ c cs, s.toList = c :: cs ∧ MayFollow c)
    (hlead : Leads s.toList) :
    (F ++ (ofChars s.toList ++ G)).Writes (is ++ js) fun w => v w ++ s ++ u w where
  apart := by
    have hbehind : (ofChars s.toList ++ G).Apart :=
      (apart_ofChars _).append (closed_ofChars hlead) hG.apart
    obtain ⟨c, cs, hs, hc⟩ := hfollow
    rw [hs] at hbehind ⊢
    exact List.isChain_append.2 ⟨hF.apart, hbehind, fun x _ y hy => by
      cases hy
      exact parts_of_mayFollow hc x⟩
  holes_eq := by
    rw [holes_append, holes_append, holes_ofChars, hF.holes_eq, hG.holes_eq, List.nil_append]
  toList_eq w := by
    simp only [String.toList_append, fill_append, fill_ofChars, hF.toList_eq, hG.toList_eq,
      List.append_assoc]

/-- A text in front that a numeral may stand behind. -/
theorem behind (hF : F.Writes is v) {s : String} (h : Leads s.toList) :
    (ofChars s.toList ++ F).Writes is fun w => s ++ v w where
  apart := (apart_ofChars _).append (closed_ofChars h) hF.apart
  holes_eq := by rw [holes_append, holes_ofChars, hF.holes_eq, List.nil_append]
  toList_eq w := by rw [String.toList_append, fill_append, fill_ofChars, hF.toList_eq]

/-- A text behind that may stand behind a numeral. -/
theorem before (hF : F.Writes is v) {s : String} (h : Trails s.toList) :
    (F ++ ofChars s.toList).Writes is fun w => v w ++ s where
  apart := hF.apart.append_ofChars h
  holes_eq := by rw [holes_append, holes_ofChars, hF.holes_eq, List.append_nil]
  toList_eq w := by rw [String.toList_append, fill_append, fill_ofChars, hF.toList_eq]

end Frame.Writes

/-! ## Templates -/

namespace Template

/-- A template with these holes, in which numerals are apart. -/
def Spaced (template : Template) (holes : List Piece) : Prop :=
  Frame.Apart template.symbols ∧ Frame.holes template.symbols = holes

instance (template : Template) (holes : List Piece) : Decidable (template.Spaced holes) :=
  inferInstanceAs (Decidable (_ ∧ _))

section Writes

variable {template : Template} {holes : List Piece} {text : Numbering → String}

/-- A template with frames in its holes is the frame of what it says. -/
theorem writes_spell (htemplate : template.Spaced holes) {frame : Piece → Frame Nat}
    {value : Numbering → Piece → String} (hapart : ∀ hole, (frame hole).Apart)
    (hvalue : ∀ w hole, (value w hole).toList = (frame hole).fill w.text)
    (htext : ∀ w, (text w).toList = spell (value w) template.symbols) :
    (Frame.subst frame template.symbols).Writes (holes.flatMap fun hole => (frame hole).holes)
      text where
  apart := htemplate.1.subst hapart
  holes_eq := by rw [Frame.holes_subst, htemplate.2]
  toList_eq w := by
    rw [htext, Frame.fill_subst]
    have hfilled : value w = fun hole => String.ofList ((frame hole).fill w.text) :=
      funext fun hole => by rw [← hvalue, String.ofList_toList]
    rw [hfilled]
    rfl

theorem writes_fill (htemplate : template.Spaced [.next]) {F : Frame Nat} {places : List Nat}
    {v : Numbering → String} (hF : F.Writes places v) (h : ∀ w, template.fill (v w) = .ok (text w)) :
    (Frame.subst (fun _ => F) template.symbols).Writes places text := by
  have hwrites := writes_spell htemplate (fun _ => hF.apart) (fun w _ => hF.toList_eq w)
    fun w => toList_fill (h w)
  rwa [List.flatMap_singleton, hF.holes_eq] at hwrites

/-- Frames for the holes of a template, by their names. -/
def framesUnder (frames : Dictionary String (Frame Nat)) : Piece → Frame Nat
  | .named name => (frames.get? name).getD []
  | .text _ | .next => []

/-- Families of texts under names, and their frames under the same names. -/
structure NamesWrite (names : Numbering → Dictionary String String)
    (frames : Dictionary String (Frame Nat)) : Prop where
  apart : ∀ hole, (framesUnder frames hole).Apart
  toList_eq : ∀ w hole, (under (names w) hole).toList = (framesUnder frames hole).fill w.text

theorem NamesWrite.nil : NamesWrite (fun _ => []) [] where
  apart
    | .named _ | .text _ | .next => .nil
  toList_eq
    | _, .named _ | _, .text _ | _, .next => rfl

theorem NamesWrite.cons {names : Numbering → Dictionary String String}
    {frames : Dictionary String (Frame Nat)} {F : Frame Nat} {places : List Nat}
    {v : Numbering → String} (key : String) (hF : F.Writes places v) (h : NamesWrite names frames) :
    NamesWrite (fun w => (key, v w) :: names w) ((key, F) :: frames) where
  apart
    | .named name => by
      rw [framesUnder, Dictionary.get?]
      split
      · exact hF.apart
      · exact h.apart (.named name)
    | .text _ | .next => .nil
  toList_eq
    | w, .named name => by
      rw [under, framesUnder, Dictionary.get?, Dictionary.get?]
      split
      · exact hF.toList_eq w
      · exact h.toList_eq w (.named name)
    | _, .text _ | _, .next => rfl

theorem exists_writes_fillNamed (htemplate : template.Spaced holes)
    {names : Numbering → Dictionary String String} {frames : Dictionary String (Frame Nat)}
    (hnames : NamesWrite names frames) {places : List Nat}
    (hplaces : (holes.flatMap fun hole => (framesUnder frames hole).holes) = places)
    (h : ∀ w, template.fillNamed (names w) = .ok (text w)) :
    ∃ F : Frame Nat, F.Writes places text :=
  ⟨_, hplaces ▸ writes_spell htemplate hnames.apart hnames.toList_eq fun w => toList_fillNamed (h w)⟩

end Writes

end Template

/-! ## Targets -/

open Template

/-- The templates of a target have a hole for each value that they are for, and numerals in them are
apart, as they are from the other texts of the target. -/
structure Target.Spaced (t : Target) : Prop where
  declaration : t.declaration.Spaced [.named "type", .named "name", .named "value"] ∨
    t.declaration.Spaced [.named "name", .named "value"]
  assignment : t.assignment.Spaced [.named "name", .named "value"]
  print : ∀ e ∈ t.printTemplates, e.2.Spaced [.named "value"]
  operators : ∀ e ∈ t.operators, e.2.Spaced [.named "left", .named "right"]
  concatenation : ∀ template ∈ t.concatenation, template.Spaced [.named "left", .named "right"]
  stringify : t.stringify.Spaced [.next]
  condition : t.conditionFormat.Spaced [.next]
  terminator : Frame.Trails t.terminator.toList
  indentUnit : Frame.Leads t.indentUnit.toList

theorem Target.spaced_of_mem_catalogue {t : Target} (h : t ∈ catalogue) : t.Spaced := by
  have hall : ∀ t ∈ catalogue,
      (t.declaration.Spaced [.named "type", .named "name", .named "value"] ∨
        t.declaration.Spaced [.named "name", .named "value"]) ∧
      t.assignment.Spaced [.named "name", .named "value"] ∧
      (∀ e ∈ t.printTemplates, e.2.Spaced [.named "value"]) ∧
      (∀ e ∈ t.operators, e.2.Spaced [.named "left", .named "right"]) ∧
      (∀ template ∈ t.concatenation, template.Spaced [.named "left", .named "right"]) ∧
      t.stringify.Spaced [.next] ∧ t.conditionFormat.Spaced [.next] ∧
      Frame.Trails t.terminator.toList ∧
      Frame.Leads t.indentUnit.toList := by
    decide +kernel
  obtain ⟨hd, ha, hp, ho, hc, hy, hf, ht, hi⟩ := hall t h
  exact ⟨hd, ha, hp, ho, hc, hy, hf, ht, hi⟩

end Boli
