import Boli.Proofs.Template
import Boli.Text.Numeral

/-!
# Text literals in generated text

A scan goes through a text from left to right. A double quote opens a literal, and inside one the
next double quote that no backslash escapes closes it. `erase` leaves out what the scan finds inside
literals, and `nest` follows the brackets of what is left.

`Twins` says of two texts, from one place on, that the scan and the brackets take the same course
through both and that they are the same where literals are erased. It composes along `++`, so that
templates keep it (`fillFrom_twins`). The content of a literal as a target writes it keeps the scan
inside the literal whatever the content is (`twins_escapeContent`).
-/

set_option autoImplicit false

namespace Boli.Literal

/-! ## Scans -/

/-- Where a scan stands. -/
inductive Mode where
  | code
  /-- Inside a literal. -/
  | literal
  /-- Inside a literal, behind a backslash that escapes the next character. -/
  | escaped
  deriving DecidableEq

/-- Where the scan stands behind a character. -/
def Mode.next : Mode → Char → Mode
  | .code, c => if c = '\x22' then .literal else .code
  | .literal, c => if c = '\x22' then .code else if c = '\\' then .escaped else .literal
  | .escaped, _ => .literal

/-- Where the scan stands behind a text. -/
def scan (m : Mode) (cs : List Char) : Mode := cs.foldl Mode.next m

/-- A text without the bodies of its literals; the quotes around them stay. -/
def erase (m : Mode) : List Char → List Char
  | [] => []
  | c :: cs =>
    if m = .code ∨ m.next c = .code then c :: erase (m.next c) cs else erase (m.next c) cs

theorem scan_append (m : Mode) (cs ds : List Char) : scan m (cs ++ ds) = scan (scan m cs) ds :=
  List.foldl_append

theorem erase_append (m : Mode) (cs ds : List Char) :
    erase m (cs ++ ds) = erase m cs ++ erase (scan m cs) ds := by
  induction cs generalizing m with
  | nil => rfl
  | cons c cs ih =>
    rw [List.cons_append, erase, erase, ih]
    split
    next => rfl
    next => rfl

/-! ## Brackets -/

/-- Round brackets and braces. -/
def brackets : List Char := ['(', ')', '\x7b', '\x7d']

/-- Texts whose round brackets and braces are nested. -/
inductive Nested : List Char → Prop where
  | nil : Nested []
  | other {c : Char} {cs : List Char} : c ∉ brackets → Nested cs → Nested (c :: cs)
  | round {cs ds : List Char} : Nested cs → Nested ds → Nested ('(' :: (cs ++ ')' :: ds))
  | braces {cs ds : List Char} :
    Nested cs → Nested ds → Nested ('\x7b' :: (cs ++ '\x7d' :: ds))

/-- The closing brackets that are due behind a character, the next of them first. There is no answer
if a bracket closes that is not the next one. -/
def follow (due : List Char) (c : Char) : Option (List Char) :=
  if c = '(' then some (')' :: due)
  else if c = '\x7b' then some ('\x7d' :: due)
  else if c = ')' ∨ c = '\x7d' then if due.head? = some c then some due.tail else none
  else some due

/-- Follows round brackets and braces through a text. -/
def nest (due : List Char) (cs : List Char) : Option (List Char) := cs.foldlM follow due

theorem nest_append (due cs ds : List Char) :
    nest due (cs ++ ds) = (nest due cs).bind fun due' => nest due' ds :=
  List.foldlM_append

theorem nest_cons (due : List Char) (c : Char) (cs : List Char) :
    nest due (c :: cs) = (follow due c).bind fun due' => nest due' cs :=
  List.foldlM_cons

theorem follow_of_not_mem {c : Char} (h : c ∉ brackets) (due : List Char) :
    follow due c = some due := by
  simp only [brackets, List.mem_cons, List.not_mem_nil, or_false, not_or] at h
  unfold follow
  rw [if_neg h.1, if_neg h.2.2.1, if_neg (not_or.mpr ⟨h.2.1, h.2.2.2⟩)]

/-- A bracket opens, or it closes the one that is due; another character changes nothing. -/
theorem follow_cases {due due' : List Char} {c : Char} (h : follow due c = some due') :
    (c = '(' ∧ due' = ')' :: due) ∨ (c = '\x7b' ∧ due' = '\x7d' :: due) ∨
      ((c = ')' ∨ c = '\x7d') ∧ due = c :: due') ∨ (c ∉ brackets ∧ due' = due) := by
  unfold follow at h
  split at h
  next hc => exact .inl ⟨hc, (Option.some.inj h).symm⟩
  next hround =>
    split at h
    next hc => exact .inr (.inl ⟨hc, (Option.some.inj h).symm⟩)
    next hbrace =>
      split at h
      next hclose =>
        split at h
        next hdue =>
          obtain ⟨due, rfl⟩ := List.head?_eq_some_iff.mp hdue
          cases h
          exact .inr (.inr (.inl ⟨hclose, rfl⟩))
        next => cases h
      next hclose =>
        refine .inr (.inr (.inr ⟨?_, (Option.some.inj h).symm⟩))
        simp only [brackets, List.mem_cons, List.not_mem_nil, or_false, not_or]
        exact ⟨hround, (not_or.mp hclose).1, hbrace, (not_or.mp hclose).2⟩

/-- A bracket that is due behind others does not matter. -/
theorem follow_frame {due due' : List Char} {c : Char} (h : follow due c = some due')
    (base : List Char) : follow (due ++ base) c = some (due' ++ base) := by
  rcases follow_cases h with ⟨rfl, rfl⟩ | ⟨rfl, rfl⟩ | ⟨rfl | rfl, rfl⟩ | ⟨hc, rfl⟩
  · rfl
  · rfl
  · rfl
  · rfl
  · exact follow_of_not_mem hc _

theorem nest_frame {due due' cs : List Char} (h : nest due cs = some due') (base : List Char) :
    nest (due ++ base) cs = some (due' ++ base) := by
  induction cs generalizing due with
  | nil =>
    cases h
    rfl
  | cons c cs ih =>
    rw [nest_cons] at h ⊢
    obtain ⟨due₁, hfollow, hrest⟩ := Option.bind_eq_some_iff.mp h
    rw [follow_frame hfollow base]
    exact ih hrest

/-- A text behind which brackets that are due close nested texts one after the other. -/
def Closes : List Char → List Char → Prop
  | [], cs => Nested cs
  | d :: due, cs => ∃ as bs, cs = as ++ d :: bs ∧ Nested as ∧ Closes due bs

/-- What stands in front of a text stands in front of the first bracket that closes. -/
theorem Closes.of_nested {f : List Char → List Char} (hf : ∀ as, Nested as → Nested (f as))
    (happend : ∀ as bs, f (as ++ bs) = f as ++ bs) {due cs : List Char} (h : Closes due cs) :
    Closes due (f cs) := by
  cases due with
  | nil => exact hf cs h
  | cons d due =>
    obtain ⟨as, bs, rfl, has, hbs⟩ := h
    exact ⟨f as, bs, happend as (d :: bs), hf as has, hbs⟩

theorem closes_of_nest : ∀ {cs due : List Char}, nest due cs = some [] → Closes due cs
  | [], due, h => by
    cases h
    exact .nil
  | c :: cs, due, h => by
    rw [nest_cons] at h
    obtain ⟨due', hfollow, hrest⟩ := Option.bind_eq_some_iff.mp h
    have ih := closes_of_nest hrest
    rcases follow_cases hfollow with ⟨rfl, rfl⟩ | ⟨rfl, rfl⟩ | ⟨-, rfl⟩ | ⟨hc, rfl⟩
    · obtain ⟨as, bs, rfl, has, hbs⟩ := ih
      exact hbs.of_nested (f := fun cs => '(' :: (as ++ ')' :: cs)) (fun _ => .round has) (by simp)
    · obtain ⟨as, bs, rfl, has, hbs⟩ := ih
      exact hbs.of_nested (f := fun cs => '\x7b' :: (as ++ '\x7d' :: cs)) (fun _ => .braces has)
        (by simp)
    · exact ⟨[], cs, rfl, .nil, ih⟩
    · exact ih.of_nested (f := (c :: ·)) (fun _ => .other hc) fun _ _ => rfl

/-- If all brackets close in order and none is left, the brackets are nested. -/
theorem nested_of_nest {cs : List Char} (h : nest [] cs = some []) : Nested cs :=
  closes_of_nest h

/-! ## Texts that a scan cannot tell apart -/

/-- Two texts take the scan from one place to another and the brackets that are due from some to
others, and they are the same without the bodies of their literals. -/
structure Twins (m : Mode) (due : List Char) (v v' : List Char) (m' : Mode) (due' : List Char) :
    Prop where
  scan_left : scan m v = m'
  scan_right : scan m v' = m'
  erase_eq : erase m v = erase m v'
  nest_eq : nest due (erase m v) = some due'

namespace Twins

variable {m m' m'' : Mode} {due due' due'' v v' w w' : List Char}

theorem refl (h : nest due (erase m v) = some due') : Twins m due v v (scan m v) due' :=
  ⟨rfl, rfl, rfl, h⟩

theorem nil : Twins m due [] [] m due := refl rfl

theorem append (h : Twins m due v v' m' due') (h' : Twins m' due' w w' m'' due'') :
    Twins m due (v ++ w) (v' ++ w') m'' due'' where
  scan_left := by rw [scan_append, h.scan_left, h'.scan_left]
  scan_right := by rw [scan_append, h.scan_right, h'.scan_right]
  erase_eq := by
    rw [erase_append, erase_append, h.scan_left, h.scan_right, h.erase_eq, h'.erase_eq]
  nest_eq := by
    rw [erase_append, nest_append, h.nest_eq, h.scan_left]
    exact h'.nest_eq

theorem frame (h : Twins m due v v' m' due') (base : List Char) :
    Twins m (due ++ base) v v' m' (due' ++ base) :=
  ⟨h.scan_left, h.scan_right, h.erase_eq, nest_frame h.nest_eq base⟩

end Twins

/-- Two texts that stand for code or inside a literal and leave the scan and the brackets where they
were. -/
def Fits (m : Mode) (v v' : String) : Prop := Twins m [] v.toList v'.toList m []

theorem Fits.twins {m : Mode} {v v' : String} (h : Fits m v v') (due : List Char) :
    Twins m due v.toList v'.toList m due :=
  h.frame due

theorem Fits.append {m : Mode} {v v' w w' : String} (h : Fits m v v') (h' : Fits m w w') :
    Fits m (v ++ w) (v' ++ w') := by
  unfold Fits
  rw [String.toList_append, String.toList_append]
  exact Twins.append h h'

/-! ### Plain texts -/

/-- A character that is neither a double quote nor a bracket. -/
def IsPlain (c : Char) : Prop := c ≠ '\x22' ∧ c ∉ brackets

instance (c : Char) : Decidable (IsPlain c) := inferInstanceAs (Decidable (_ ∧ _))

/-- A text without quotes and brackets. -/
def PlainText (v : String) : Prop := ∀ c ∈ v.toList, IsPlain c

-- Goes through the text; there is also a decision that goes through all characters.
instance (v : String) : Decidable (PlainText v) := List.decidableBAll IsPlain v.toList

theorem twins_of_isPlain {c : Char} (h : IsPlain c) : Twins .code [] [c] [c] .code [] := by
  have hnext : Mode.next .code c = .code := if_neg h.1
  refine ⟨hnext, hnext, rfl, ?_⟩
  rw [erase, if_pos (.inl rfl), nest_cons, follow_of_not_mem h.2]
  rfl

/-- A plain text fits wherever there is code. -/
theorem PlainText.fits {v : String} (h : PlainText v) : Fits .code v v := by
  unfold Fits
  unfold PlainText at h
  generalize v.toList = cs at h
  induction cs with
  | nil => exact .nil
  | cons c cs ih =>
    obtain ⟨hc, hcs⟩ := List.forall_mem_cons.mp h
    exact (twins_of_isPlain hc).append (ih hcs)

theorem isPlain_of_isAlphanum {c : Char} (h : c.isAlphanum = true) : IsPlain c := by
  have hne {d : Char} (hd : d.isAlphanum = false) : c ≠ d := by
    rintro rfl
    rw [hd] at h
    cases h
  simp only [IsPlain, brackets, List.mem_cons, List.not_mem_nil, or_false, not_or]
  exact ⟨hne rfl, hne rfl, hne rfl, hne rfl, hne rfl⟩

/-- A numeral is made of digits, and a sign in front of them. -/
theorem isDigit_of_write {n : Int} {v : String} (h : Text.Numeral.write n = .ok v) :
    ∀ c ∈ v.toList, c.isDigit = true ∨ c = '-' := by
  have hdigits : ∀ c ∈ Nat.toDigits 10 n.natAbs, c.isDigit = true ∨ c = '-' := fun c hc =>
    .inl (Nat.isDigit_of_mem_toDigits (by decide) (by decide) hc)
  unfold Text.Numeral.write at h
  simp only at h
  split at h
  next => cases h
  next =>
    cases h
    rw [String.toList_ofList]
    split
    next => exact List.forall_mem_cons.mpr ⟨.inr rfl, hdigits⟩
    next => exact hdigits

theorem plainText_of_write {n : Int} {v : String} (h : Text.Numeral.write n = .ok v) :
    PlainText v := by
  intro c hc
  rcases isDigit_of_write h c hc with hdigit | rfl
  · exact isPlain_of_isAlphanum (by rw [Char.isAlphanum, hdigit, Bool.or_true])
  · decide

/-! ## The content of a literal -/

/-- A text inside a literal, of which the scan leaves nothing when it erases. -/
structure Inside (m : Mode) (cs : List Char) (m' : Mode) : Prop where
  scan_eq : scan m cs = m'
  erase_eq : erase m cs = []

namespace Inside

variable {m m' m'' : Mode} {cs ds : List Char} {c : Char}

theorem append (h : Inside m cs m') (h' : Inside m' ds m'') : Inside m (cs ++ ds) m'' where
  scan_eq := by rw [scan_append, h.scan_eq, h'.scan_eq]
  erase_eq := by rw [erase_append, h.erase_eq, h.scan_eq, h'.erase_eq, List.nil_append]

theorem cons (hm : m ≠ .code) (hnext : m.next c ≠ .code) (h : Inside (m.next c) cs m') :
    Inside m (c :: cs) m' where
  scan_eq := h.scan_eq
  erase_eq := by rw [erase, if_neg (not_or.mpr ⟨hm, hnext⟩), h.erase_eq]

/-- Every second backslash is escaped by the one in front of it. -/
theorem backslashes (n : Nat) :
    Inside .literal (List.replicate (2 * n) '\\') .literal ∧
      Inside .literal (List.replicate (2 * n + 1) '\\') .escaped := by
  induction n with
  | zero => exact ⟨⟨rfl, rfl⟩, ⟨rfl, rfl⟩⟩
  | succ n ih =>
    have heven : Inside .literal (List.replicate (2 * n + 2) '\\') .literal := by
      rw [List.replicate_succ']
      exact ih.2.append ⟨rfl, rfl⟩
    refine ⟨heven, ?_⟩
    rw [List.replicate_succ']
    exact heven.append ⟨rfl, rfl⟩

/-- What is written for a content stays inside the literal. The backslashes that are held back are
even in number or escape a character that is no quote. -/
theorem escapeFrom (cs : List Char) (run : Nat) :
    Inside .literal (Target.escapeFrom run cs) .literal := by
  induction cs generalizing run with
  | nil => exact (backslashes run).1
  | cons c cs ih =>
    rw [Target.escapeFrom]
    split
    next => exact ih (run + 1)
    next hbackslash =>
      split
      next hquote =>
        exact (backslashes run).2.append (cons nofun nofun (ih 0))
      next hquote =>
        have hnext : Mode.next .literal c = .literal := by
          rw [Mode.next, if_neg hquote, if_neg hbackslash]
        have hrest : Inside (Mode.next .literal c) (Target.escapeFrom 0 cs) .literal := by
          rw [hnext]
          exact ih 0
        have heven := (backslashes (run / 2)).1
        have hodd := (backslashes (run / 2)).2
        rcases Nat.mod_two_eq_zero_or_one run with hrun | hrun
        · rw [show 2 * (run / 2) = run by omega] at heven
          exact heven.append (cons nofun (by rw [hnext]; exact nofun) hrest)
        · rw [show 2 * (run / 2) + 1 = run by omega] at hodd
          exact hodd.append (cons nofun nofun (ih 0))

end Inside

/-- Contents of literals cannot be told apart. -/
theorem fits_escapeContent (s s' : String) :
    Fits .literal (Target.escapeContent s) (Target.escapeContent s') := by
  have h := Inside.escapeFrom s.toList 0
  have h' := Inside.escapeFrom s'.toList 0
  unfold Fits Target.escapeContent
  rw [String.toList_ofList, String.toList_ofList]
  exact ⟨h.scan_eq, h'.scan_eq, by rw [h.erase_eq, h'.erase_eq], by rw [h.erase_eq]; rfl⟩

/-! ## Templates -/

/-- Where a template leads the scan and the brackets, if each of its holes stands where the values
for it fit. -/
def leads (hole m : Mode) (due : List Char) : Template → Option (Mode × List Char)
  | [] => some (m, due)
  | .text s :: rest =>
    (nest due (erase m s.toList)).bind fun due' => leads hole (scan m s.toList) due' rest
  | .next :: rest | .named _ :: rest => if m = hole then leads hole m due rest else none

/-- Two results that are texts of which `R` holds, or the same failure. -/
inductive Agree {ε : Type} (R : String → String → Prop) : Except ε String → Except ε String → Prop
  where
  | given {v v' : String} : R v v' → Agree R (.ok v) (.ok v')
  | refused (failure : ε) : Agree R (.error failure) (.error failure)

theorem Agree.map {ε : Type} {R S : String → String → Prop} {r r' : Except ε String}
    {f f' : String → String} (h : Agree R r r') (hf : ∀ v v', R v v' → S (f v) (f' v')) :
    Agree S (f <$> r) (f' <$> r') := by
  cases h with
  | given hv => exact .given (hf _ _ hv)
  | refused failure => exact .refused failure

/-- A value in front of the rest of a template, if there is one. -/
theorem Agree.hole {ε : Type} {hole m' : Mode} {due due' : List Char} {o o' : Option String}
    {fault : ε} {r r' : Except ε String}
    (hr : Agree (fun v v' => Twins hole due v.toList v'.toList m' due') r r') :
    Option.Rel (Fits hole) o o' → Agree (fun v v' => Twins hole due v.toList v'.toList m' due')
      (match o with | none => .error fault | some v => (v ++ ·) <$> r)
      (match o' with | none => .error fault | some v => (v ++ ·) <$> r') := by
  intro ho
  cases ho with
  | none => exact .refused fault
  | some hvalue =>
    refine hr.map fun v v' hv => ?_
    rw [String.toList_append, String.toList_append]
    exact (hvalue.twins due).append hv

/-- Values in order, and under names, that fit the holes pairwise. -/
structure Pairs (hole : Mode) (values values' : List String)
    (names names' : Dictionary String String) : Prop where
  next : ∀ i : Nat, Option.Rel (Fits hole) values[i]? values'[i]?
  named : ∀ name, Option.Rel (Fits hole) (names.get? name) (names'.get? name)

/-- The values in the holes of a template make no difference to where it leads. -/
theorem fillFrom_agree {hole : Mode} {values values' : List String}
    {names names' : Dictionary String String} (h : Pairs hole values values' names names') :
    ∀ {template : Template} (index : Nat) {m m' : Mode} {due due' : List Char},
      leads hole m due template = some (m', due') →
      Agree (fun v v' => Twins m due v.toList v'.toList m' due')
        (Template.fillFrom values names index template)
        (Template.fillFrom values' names' index template)
  | [], _, _, _, _, _, hleads => by
    cases hleads
    exact .given .nil
  | .text s :: rest, index, m, m', due, due', hleads => by
    obtain ⟨due₁, hnest, hrest⟩ := Option.bind_eq_some_iff.mp hleads
    refine (fillFrom_agree h index hrest).map fun v v' hv => ?_
    rw [String.toList_append, String.toList_append]
    exact (Twins.refl hnest).append hv
  | .next :: rest, index, m, m', due, due', hleads => by
    rw [leads] at hleads
    split at hleads
    next hm =>
      subst hm
      exact .hole (fillFrom_agree h (index + 1) hleads) (h.next index)
    next => cases hleads
  | .named name :: rest, index, m, m', due, due', hleads => by
    rw [leads] at hleads
    split at hleads
    next hm =>
      subst hm
      exact .hole (fillFrom_agree h index hleads) (h.named name)
    next => cases hleads

theorem Agree.bind {ε : Type} {R S : String → String → Prop} {r r' : Except ε String}
    {f f' : String → Except ε String} (h : Agree R r r')
    (hf : ∀ v v', R v v' → Agree S (f v) (f' v')) : Agree S (r >>= f) (r' >>= f') := by
  cases h with
  | given hv => exact hf _ _ hv
  | refused failure => exact .refused failure

theorem Agree.mapError {ε ε' : Type} {R : String → String → Prop} {r r' : Except ε String}
    {g : ε → ε'} (h : Agree R r r') : Agree R (r.mapError g) (r'.mapError g) := by
  cases h with
  | given hv => exact .given hv
  | refused failure => exact .refused _

theorem Agree.refl {ε : Type} {R : String → String → Prop} {r : Except ε String}
    (h : ∀ v, r = .ok v → R v v) : Agree R r r := by
  cases r with
  | ok v => exact .given (h v rfl)
  | error failure => exact .refused failure

/-- A template that begins and ends in code, closes what it opens, and has its holes where values
of a sort fit. -/
def Seals (hole : Mode) (template : Template) : Prop :=
  leads hole .code [] template = some (.code, [])

instance (hole : Mode) (template : Template) : Decidable (Seals hole template) :=
  inferInstanceAs (Decidable (_ = _))

theorem fill_agree {hole : Mode} {template : Template} {v v' : String} (h : Seals hole template)
    (hv : Fits hole v v') : Agree (Fits .code) (template.fill v) (template.fill v') := by
  refine fillFrom_agree ⟨fun i => ?_, fun name => .none⟩ 0 h
  cases i with
  | zero => exact .some hv
  | succ i => exact .none

/-- One more name with values that fit. -/
theorem rel_get?_cons {hole : Mode} {names names' : Dictionary String String} {v v' : String}
    (key : String) (hv : Fits hole v v')
    (h : ∀ name, Option.Rel (Fits hole) (names.get? name) (names'.get? name)) (name : String) :
    Option.Rel (Fits hole) (Dictionary.get? name ((key, v) :: names))
      (Dictionary.get? name ((key, v') :: names')) := by
  rw [Dictionary.get?, Dictionary.get?]
  split
  next => exact .some hv
  next => exact h name

theorem fillNamed_agree {template : Template} {names names' : Dictionary String String}
    (h : Seals .code template)
    (hnames : ∀ name, Option.Rel (Fits .code) (names.get? name) (names'.get? name)) :
    Agree (Fits .code) (template.fillNamed names) (template.fillNamed names') :=
  fillFrom_agree ⟨fun _ => .none, hnames⟩ 0 h

end Boli.Literal
