import Boli.Proofs.Cancellation
import Boli.Proofs.Source

/-!
# Surfaces of brace style

A `Surface` says which fixed texts a target of brace style puts around names, literals and
conditions. The kinds of names decide between some of them, in declarations, print calls and sums of
texts; here every choice is allowed, so that nothing depends on what was declared before.

If the fixed texts are apart from each other (`Surface.ValuesApart`), an expression can be read off
the front of a text in which it is written, and so can what stands behind it (`value_cancel`).
-/

set_option autoImplicit false

namespace Boli

open Cancellation
open Boli.Parser (arithmeticOperators comparisonOperators)

/-! ## Fixed texts -/

/-- An operation that is written as a call. -/
structure Surface.Call where
  operator : String
  start : String
  /-- What stands between the operands. -/
  middle : String
  finish : String

/-- The fixed texts of a target. -/
structure Surface where
  /-- What declarations begin with; nothing, if it is the name that is declared. -/
  declarations : List String
  /-- What stands behind the name that is declared. -/
  declarationSign : String := " = "
  /-- What print calls begin with. -/
  prints : List String
  printEnd : String := ")"
  conditionStart : String := "("
  conditionEnd : String := ")"
  loopKeyword : String := "while"
  /-- A text literal up to its quote. -/
  textStart : String := "\x22"
  /-- What stands behind the closing quote of a text literal. -/
  textEnd : String := ""
  call : Option Surface.Call := none
  /-- What stands around a number in a sum of texts, if anything does. -/
  conversion : Option (String × String) := none
  /-- The end of a simple statement, with the end of the line. -/
  stop : String := ";\n"
  /-- What one level of nesting adds in front of a line. -/
  unit : String := "  "

namespace Surface

/-- What a fixed text at the front of an expression stands for. -/
inductive Role where
  | text
  | call
  | conversion
  deriving DecidableEq

variable (S : Surface)

/-- The fixed texts that stand at the front of expressions. -/
def starts : List (Role × String) :=
  (.text, S.textStart) :: (S.call.toList.map (fun c => (.call, c.start)) ++
    (S.conversion.toList.filter (·.1 ≠ "")).map fun c => (.conversion, c.1))

/-- The characters behind the letters and digits of those fixed texts. -/
def marks : List Char := S.starts.filterMap fun e => (e.2.toList.dropWhile Char.isAlphanum).head?

/-- Whether a text ends the name or number in front of it, and is none of the fixed texts that begin
like one. -/
def follows : List Char → Bool
  | [] => false
  | c :: _ => !c.isAlphanum && !S.marks.contains c

/-- Whether a text ends the operand in front of it. A conversion that is written behind its number
begins with a period. -/
def rests (r : List Char) : Bool := S.follows r && r.head? != some '.'

/-- Whether a text begins with a blank and the sign of an operation, or could. -/
def goesOn : List Char → Bool
  | ' ' :: d :: _ => ['+', '-', '*', '/'].contains d
  | [' '] => true
  | _ => false

/-- Whether a text ends the expression in front of it. -/
def stops (r : List Char) : Bool := S.rests r && !goesOn r

/-- Whether a text begins as an expression may. -/
def begins (x : List Char) : Bool := x.head?.any fun c => c.isAlphanum || c == '\x22'

/-- The fixed texts at the front of expressions and behind them are told apart. -/
structure ValuesApart : Prop where
  begins : ∀ e ∈ S.starts, begins e.2.toList = true
  mark_ne_nil : ∀ e ∈ S.starts, e.2.toList.dropWhile Char.isAlphanum ≠ []
  starts : ∀ e ∈ S.starts, ∀ e' ∈ S.starts, e.2.toList <+: e'.2.toList → e = e'
  blank : S.rests [' '] = true
  middle : ∀ c ∈ S.call, S.rests c.middle.toList = true
  finish : ∀ c ∈ S.call, c.finish = "" ∨ S.rests c.finish.toList = true
  conversion : ∀ c ∈ S.conversion, S.follows c.2.toList = true
  suffix : ∀ c ∈ S.conversion, c.1 = "" → c.2.toList.head? = some '.'

/-! ## How expressions are written

No target knows which words are keywords, so that names are those of the table without any. -/

/-- How a literal or a name is written. -/
def primary : Expression → List Char
  | .number n => Nat.toDigits 10 n.natAbs
  | .text s => S.textStart.toList ++ (Target.escapeFrom 0 s.toList ++ '\x22' :: S.textEnd.toList)
  | .identifier name => name.toList
  | .binary _ _ _ | .foreign _ _ => []

/-- How an operand may be written: as it is, or converted to a text. -/
inductive Operand : Expression → List Char → Prop where
  | plain {e : Expression} (he : e.IsPrimary .empty) : Operand e (S.primary e)
  | converted {e : Expression} {c : String × String} (he : e.IsPrimary .empty)
      (hc : c ∈ S.conversion) : Operand e (c.1.toList ++ (S.primary e ++ c.2.toList))

/-- How an operation on two written operands may be written: between them, or as a call. -/
inductive Joined (operator : String) (l r : List Char) : List Char → Prop where
  | between : Joined operator l r (l ++ ' ' :: (operator.toList ++ ' ' :: r))
  | call {c : Call} (hc : c ∈ S.call) (hoperator : c.operator = operator) :
      Joined operator l r (c.start.toList ++ (l ++ (c.middle.toList ++ (r ++ c.finish.toList))))

/-- How an expression may be written. -/
inductive Value : Expression → List Char → Prop where
  | primary {e : Expression} (he : e.IsPrimary .empty) : Value e (S.primary e)
  | binary {operator : String} {left right : Expression} {l r v : List Char}
      (hoperator : operator ∈ arithmeticOperators) (hl : S.Operand left l)
      (hr : S.Operand right r) (hv : S.Joined operator l r v) :
      Value (.binary operator left right) v

/-- How a condition is written. -/
inductive Compared : Condition → List Char → Prop where
  | compare {operator : String} {left right : Expression}
      (hoperator : operator ∈ comparisonOperators) (hleft : left.IsPrimary .empty)
      (hright : right.IsPrimary .empty) :
      Compared (.compare left operator right)
        (S.primary left ++ ' ' :: (operator.toList ++ ' ' :: S.primary right))

/-! ## What stands behind -/

variable {S} {r r' x x' : List Char}

theorem follows_append (h : S.follows r = true) (x : List Char) : S.follows (r ++ x) = true := by
  cases r with
  | nil => cases h
  | cons c r => exact h

theorem rests_append (h : S.rests r = true) (x : List Char) : S.rests (r ++ x) = true := by
  cases r with
  | nil => cases h
  | cons c r => exact h

theorem goesOn_append (h : goesOn r = false) (hr : r ≠ []) (x : List Char) :
    goesOn (r ++ x) = false := by
  match r, hr with
  | [c], _ =>
    have hc : c ≠ ' ' := by
      rintro rfl
      cases h
    cases x with
    | nil => exact h
    | cons d x => simp [goesOn, hc]
  | c :: d :: r, _ =>
    by_cases hc : c = ' '
    · subst hc
      exact h
    · simp [goesOn, hc]

theorem follows_of_rests (h : S.rests r = true) : S.follows r = true :=
  (Bool.and_eq_true_iff.1 h).1

theorem rests_of_stops (h : S.stops r = true) : S.rests r = true :=
  (Bool.and_eq_true_iff.1 h).1

theorem stops_append (h : S.stops r = true) (x : List Char) : S.stops (r ++ x) = true := by
  have hgoes : goesOn r = false := by simpa using (Bool.and_eq_true_iff.1 h).2
  have hr : r ≠ [] := by
    rintro rfl
    cases h
  rw [stops, rests_append (rests_of_stops h) x, goesOn_append hgoes hr]
  rfl

theorem not_isAlphanum_of_follows (h : S.follows r = true) :
    ∀ c ∈ r.head?, c.isAlphanum = false := by
  cases r with
  | nil => cases h
  | cons c r =>
    rintro _ ⟨rfl⟩
    simpa using (Bool.and_eq_true_iff.1 h).1

/-! ## Fixed texts in front -/

theorem start_cancel (hS : S.ValuesApart) {e e' : Role × String} (he : e ∈ S.starts)
    (he' : e' ∈ S.starts) (h : e.2.toList ++ x = e'.2.toList ++ x') : e = e' ∧ x = x' := by
  have heq : e = e' := by
    have hfront : e'.2.toList <+: e.2.toList ++ x := ⟨x', h.symm⟩
    rcases List.prefix_or_prefix_of_prefix (List.prefix_append e.2.toList x) hfront with hp | hp
    · exact hS.starts e he e' he' hp
    · exact (hS.starts e' he' e he hp).symm
  subst heq
  exact ⟨rfl, List.append_cancel_left h⟩

/-- What follows a name or number does not make it the beginning of a fixed text. -/
theorem run_ne_start (hS : S.ValuesApart) {w : List Char} (hw : ∀ c ∈ w, c.isAlphanum = true)
    (hr : S.follows r = true) {e : Role × String} (he : e ∈ S.starts) :
    w ++ r ≠ e.2.toList ++ x := by
  intro h
  obtain ⟨-, rfl⟩ := run_split hw (not_isAlphanum_of_follows hr) (hS.mark_ne_nil e he) h
  obtain ⟨m, ms, hdrop⟩ := List.exists_cons_of_ne_nil (hS.mark_ne_nil e he)
  have hmark : m ∈ S.marks := List.mem_filterMap.2 ⟨e, he, by rw [hdrop]; rfl⟩
  rw [hdrop] at hr
  have hout : S.marks.contains m = false := by simpa using (Bool.and_eq_true_iff.1 hr).2
  rw [List.contains_iff_mem.2 hmark] at hout
  cases hout

/-! ## Literals and names -/

/-- A name is a letter and a run. -/
theorem exists_cons_of_isName {name : String} (h : IsName .empty name) :
    ∃ c cs, name.toList = c :: cs ∧ c.isAlpha = true ∧ ∀ d ∈ name.toList, d.isAlphanum = true := by
  obtain ⟨hword, -⟩ := h
  rw [Keyword.isWord] at hword
  cases hletters : name.toList with
  | nil =>
    rw [hletters] at hword
    cases hword
  | cons c cs =>
    rw [hletters] at hword
    obtain ⟨hc, hcs⟩ := Bool.and_eq_true_iff.1 hword
    refine ⟨c, cs, rfl, hc, List.forall_mem_cons.2 ⟨?_, List.all_eq_true.1 hcs⟩⟩
    rw [Char.isAlphanum, hc, Bool.true_or]

theorem isAlphanum_of_mem_toDigits {n : Nat} : ∀ c ∈ Nat.toDigits 10 n, c.isAlphanum = true :=
  fun c hc => by
    rw [Char.isAlphanum, Nat.isDigit_of_mem_toDigits (by decide) (by decide) hc, Bool.or_true]

theorem toDigits_ne_name {n : Nat} {name : String} (h : IsName .empty name) :
    Nat.toDigits 10 n ≠ name.toList := by
  intro heq
  obtain ⟨c, cs, hname, hc, -⟩ := exists_cons_of_isName h
  have hmem : c ∈ Nat.toDigits 10 n := by
    rw [heq, hname]
    exact List.mem_cons_self
  have hno := Lexeme.isAlpha_of_isDigit (Nat.isDigit_of_mem_toDigits (by decide) (by decide) hmem)
  rw [hc] at hno
  cases hno

theorem begins_append (h : begins r = true) (x : List Char) : begins (r ++ x) = true := by
  cases r with
  | nil => cases h
  | cons c r => exact h

theorem begins_of_run {w : List Char} (hne : w ≠ []) (hw : ∀ c ∈ w, c.isAlphanum = true) :
    begins w = true := by
  obtain ⟨c, cs, rfl⟩ := List.exists_cons_of_ne_nil hne
  simp [begins, hw c List.mem_cons_self]

/-- A text literal begins with a fixed text, all else with a letter or digit. -/
theorem begins_primary (hS : S.ValuesApart) {e : Expression} (he : e.IsPrimary .empty) :
    begins (S.primary e) = true := by
  cases e with
  | number n => exact begins_of_run Nat.toDigits_ne_nil isAlphanum_of_mem_toDigits
  | identifier name =>
    obtain ⟨c, cs, hname, -, hrun⟩ := exists_cons_of_isName he
    exact begins_of_run (w := name.toList) (by simp [hname]) hrun
  | text s => exact begins_append (hS.begins (.text, S.textStart) List.mem_cons_self) _
  | binary operator left right => exact he.elim
  | foreign kind data => exact he.elim

/-- Only text literals begin with a fixed text. -/
theorem primary_ne_start (hS : S.ValuesApart) {e : Expression} (he : e.IsPrimary .empty)
    (hr : S.follows r = true) {f : Role × String} (hf : f ∈ S.starts) (hrole : f.1 ≠ .text) :
    S.primary e ++ r ≠ f.2.toList ++ x := by
  cases e with
  | number n => exact run_ne_start hS isAlphanum_of_mem_toDigits hr hf
  | identifier name =>
    obtain ⟨-, -, -, -, hrun⟩ := exists_cons_of_isName he
    exact run_ne_start hS hrun hr hf
  | text s =>
    intro h
    rw [primary, List.append_assoc] at h
    obtain ⟨rfl, -⟩ := start_cancel hS (e := (.text, S.textStart)) List.mem_cons_self hf h
    exact hrole rfl
  | binary operator left right => exact he.elim
  | foreign kind data => exact he.elim

/-- A text literal is neither a name nor a number. -/
theorem text_ne_run (hS : S.ValuesApart) {s : String} {w : List Char}
    (hw : ∀ c ∈ w, c.isAlphanum = true) (hr' : S.follows r' = true) :
    S.primary (.text s) ++ r ≠ w ++ r' := by
  rw [primary, List.append_assoc]
  exact (run_ne_start hS hw hr' (e := (.text, S.textStart)) List.mem_cons_self).symm

theorem name_cancel {name name' : String} (hname : IsName .empty name)
    (hname' : IsName .empty name') (hr : ∀ c ∈ r.head?, c.isAlphanum = false)
    (hr' : ∀ c ∈ r'.head?, c.isAlphanum = false) (h : name.toList ++ r = name'.toList ++ r') :
    name = name' ∧ r = r' := by
  obtain ⟨-, -, -, -, hrun⟩ := exists_cons_of_isName hname
  obtain ⟨-, -, -, -, hrun'⟩ := exists_cons_of_isName hname'
  obtain ⟨heq, hrest⟩ := run_cancel hrun hrun' hr hr' h
  exact ⟨String.toList_inj.1 heq, hrest⟩

theorem primary_cancel (hS : S.ValuesApart) {e e' : Expression} (he : e.IsPrimary .empty)
    (he' : e'.IsPrimary .empty) (hr : S.follows r = true) (hr' : S.follows r' = true)
    (h : S.primary e ++ r = S.primary e' ++ r') : e = e' ∧ r = r' := by
  have hend := not_isAlphanum_of_follows hr
  have hend' := not_isAlphanum_of_follows hr'
  cases e with
  | number n =>
    cases e' with
    | number n' =>
      obtain ⟨hdigits, hrest⟩ := run_cancel isAlphanum_of_mem_toDigits isAlphanum_of_mem_toDigits
        hend hend' h
      have habs := toDigits_inj hdigits
      have hn : 0 ≤ n := he.1
      have hn' : 0 ≤ n' := he'.1
      exact ⟨by rw [show n = n' by omega], hrest⟩
    | identifier name =>
      obtain ⟨-, -, -, -, hrun⟩ := exists_cons_of_isName he'
      exact absurd (run_cancel isAlphanum_of_mem_toDigits hrun hend hend' h).1 (toDigits_ne_name he')
    | text s => exact absurd h.symm (text_ne_run hS isAlphanum_of_mem_toDigits hr)
    | binary operator left right => exact he'.elim
    | foreign kind data => exact he'.elim
  | identifier name =>
    obtain ⟨-, -, -, -, hrun⟩ := exists_cons_of_isName he
    cases e' with
    | number n' =>
      exact absurd (run_cancel hrun isAlphanum_of_mem_toDigits hend hend' h).1.symm
        (toDigits_ne_name he)
    | identifier name' =>
      obtain ⟨rfl, hrest⟩ := name_cancel he he' hend hend' h
      exact ⟨rfl, hrest⟩
    | text s => exact absurd h.symm (text_ne_run hS hrun hr)
    | binary operator left right => exact he'.elim
    | foreign kind data => exact he'.elim
  | text s =>
    cases e' with
    | number n' => exact absurd h (text_ne_run hS isAlphanum_of_mem_toDigits hr')
    | identifier name' =>
      obtain ⟨-, -, -, -, hrun'⟩ := exists_cons_of_isName he'
      exact absurd h (text_ne_run hS hrun' hr')
    | text s' =>
      simp only [primary, List.append_assoc, List.cons_append, List.append_cancel_left_eq] at h
      obtain ⟨hcontent, hrest⟩ := content_cancel h
      exact ⟨by rw [String.toList_inj.1 hcontent], List.append_cancel_left hrest⟩
    | binary operator left right => exact he'.elim
    | foreign kind data => exact he'.elim
  | binary operator left right => exact he.elim
  | foreign kind data => exact he.elim

/-! ## Operands -/

theorem conversion_mem_starts {c : String × String} (hc : c ∈ S.conversion) (hne : c.1 ≠ "") :
    (Role.conversion, c.1) ∈ S.starts := by
  refine List.mem_cons_of_mem _ (List.mem_append_right _ (List.mem_map.2 ⟨c, ?_, rfl⟩))
  exact List.mem_filter.2 ⟨Option.mem_toList.2 hc, by simpa using hne⟩

theorem call_mem_starts {c : Call} (hc : c ∈ S.call) : (Role.call, c.start) ∈ S.starts :=
  List.mem_cons_of_mem _ (List.mem_append_left _
    (List.mem_map.2 ⟨c, Option.mem_toList.2 hc, rfl⟩))

/-- What stands behind a converted operand inside of its conversion. -/
theorem follows_conversion (hS : S.ValuesApart) {c : String × String} (hc : c ∈ S.conversion)
    (x : List Char) : S.follows (c.2.toList ++ x) = true :=
  follows_append (hS.conversion c hc) x

/-- An operand that is written as it is cannot be taken for a converted one. -/
theorem primary_ne_converted (hS : S.ValuesApart) {e e' : Expression} (he : e.IsPrimary .empty)
    (he' : e'.IsPrimary .empty) (hr : S.rests r = true) {c : String × String}
    (hc : c ∈ S.conversion) :
    S.primary e ++ r ≠ c.1.toList ++ (S.primary e' ++ c.2.toList) ++ r' := by
  intro h
  -- without a fixed text in front, the conversion is told by what stands behind its operand
  by_cases hempty : c.1 = ""
  · rw [hempty, String.toList_empty, List.nil_append, List.append_assoc] at h
    obtain ⟨-, rfl⟩ := primary_cancel hS he he' (follows_of_rests hr)
      (follows_conversion hS hc r') h
    have hdot : (c.2.toList ++ r').head? = some '.' := by
      rw [List.head?_append, hS.suffix c hc hempty]
      rfl
    have hno := (Bool.and_eq_true_iff.1 hr).2
    rw [hdot] at hno
    cases hno
  · rw [List.append_assoc] at h
    exact primary_ne_start hS he (follows_of_rests hr) (conversion_mem_starts hc hempty) nofun h

theorem operand_cancel (hS : S.ValuesApart) {e e' : Expression} {v v' : List Char}
    (hv : S.Operand e v) (hv' : S.Operand e' v') (hr : S.rests r = true) (hr' : S.rests r' = true)
    (h : v ++ r = v' ++ r') : e = e' ∧ r = r' := by
  cases hv with
  | plain he =>
    cases hv' with
    | plain he' => exact primary_cancel hS he he' (follows_of_rests hr) (follows_of_rests hr') h
    | converted he' hc' => exact absurd h (primary_ne_converted hS he he' hr hc')
  | converted he hc =>
    cases hv' with
    | plain he' => exact absurd h.symm (primary_ne_converted hS he' he hr' hc)
    | converted he' hc' =>
      obtain rfl := Option.mem_unique hc hc'
      simp only [List.append_assoc, List.append_cancel_left_eq] at h
      obtain ⟨heq, hrest⟩ := primary_cancel hS he he' (follows_conversion hS hc r)
        (follows_conversion hS hc r') h
      exact ⟨heq, List.append_cancel_left hrest⟩

/-- An operand is no call. -/
theorem operand_ne_call (hS : S.ValuesApart) {e : Expression} {v : List Char} (hv : S.Operand e v)
    (hr : S.rests r = true) {c : Call} (hc : c ∈ S.call) : v ++ r ≠ c.start.toList ++ x := by
  cases hv with
  | plain he => exact primary_ne_start hS he (follows_of_rests hr) (call_mem_starts hc) nofun
  | @converted d he hd =>
    by_cases hempty : d.1 = ""
    · rw [hempty, String.toList_empty, List.nil_append, List.append_assoc]
      exact primary_ne_start hS he (follows_conversion hS hd r) (call_mem_starts hc) nofun
    · intro h
      rw [List.append_assoc] at h
      obtain ⟨heq, -⟩ := start_cancel hS (conversion_mem_starts hd hempty) (call_mem_starts hc) h
      cases congrArg Prod.fst heq

theorem begins_operand (hS : S.ValuesApart) {e : Expression} {v : List Char}
    (hv : S.Operand e v) : begins v = true := by
  cases hv with
  | plain he => exact begins_primary hS he
  | @converted c he hc =>
    by_cases hempty : c.1 = ""
    · rw [hempty, String.toList_empty, List.nil_append]
      exact begins_append (begins_primary hS he) _
    · exact begins_append (hS.begins _ (conversion_mem_starts hc hempty)) _

/-! ## Expressions and conditions -/

theorem rests_blank (hS : S.ValuesApart) (x : List Char) : S.rests (' ' :: x) = true :=
  rests_append hS.blank x

theorem notMem_blank_of_arithmetic {operator : String} (h : operator ∈ arithmeticOperators) :
    ' ' ∉ operator.toList := by
  revert operator
  decide

theorem notMem_blank_of_comparison {operator : String} (h : operator ∈ comparisonOperators) :
    ' ' ∉ operator.toList := by
  revert operator
  decide

theorem goesOn_of_arithmetic {operator : String} (h : operator ∈ arithmeticOperators)
    (x : List Char) : goesOn (' ' :: (operator.toList ++ x)) = true := by
  revert operator
  simp [arithmeticOperators, goesOn]

theorem begins_value (hS : S.ValuesApart) {e : Expression} {v : List Char} (hv : S.Value e v) :
    begins v = true := by
  cases hv with
  | primary he => exact begins_primary hS he
  | binary _ hl _ hv =>
    cases hv with
    | between => exact begins_append (begins_operand hS hl) _
    | call hc => exact begins_append (hS.begins _ (call_mem_starts hc)) _

/-- A single operand cannot be taken for an operation. -/
theorem primary_ne_joined (hS : S.ValuesApart) {e left : Expression} {operator : String}
    {l k v : List Char} (he : e.IsPrimary .empty) (hr : S.stops r = true)
    (hoperator : operator ∈ arithmeticOperators) (hl : S.Operand left l)
    (hv : S.Joined operator l k v) : S.primary e ++ r ≠ v ++ r' := by
  intro h
  cases hv with
  | between =>
    rw [List.append_assoc, List.cons_append, List.append_assoc] at h
    obtain ⟨-, rfl⟩ := operand_cancel hS (.plain he) hl (rests_of_stops hr) (rests_blank hS _) h
    have hno := (Bool.and_eq_true_iff.1 hr).2
    rw [goesOn_of_arithmetic hoperator] at hno
    cases hno
  | call hc =>
    rw [List.append_assoc] at h
    exact primary_ne_start hS he (follows_of_rests (rests_of_stops hr)) (call_mem_starts hc) nofun h

theorem rests_finish (hS : S.ValuesApart) {c : Call} (hc : c ∈ S.call) (hr : S.stops r = true) :
    S.rests (c.finish.toList ++ r) = true := by
  rcases hS.finish c hc with hempty | hrests
  · rw [hempty]
    exact rests_of_stops hr
  · exact rests_append hrests r

/-- An operation is told by its text, and so is what stands behind it. -/
theorem joined_cancel (hS : S.ValuesApart) {operator operator' : String}
    {left left' right right' : Expression} {l l' k k' v v' : List Char}
    (hoperator : operator ∈ arithmeticOperators) (hoperator' : operator' ∈ arithmeticOperators)
    (hl : S.Operand left l) (hl' : S.Operand left' l') (hk : S.Operand right k)
    (hk' : S.Operand right' k') (hv : S.Joined operator l k v) (hv' : S.Joined operator' l' k' v')
    (hr : S.stops r = true) (hr' : S.stops r' = true) (h : v ++ r = v' ++ r') :
    Expression.binary operator left right = .binary operator' left' right' ∧ r = r' := by
  cases hv with
  | between =>
    simp only [List.append_assoc, List.cons_append] at h
    cases hv' with
    | between =>
      simp only [List.append_assoc, List.cons_append] at h
      obtain ⟨rfl, hrest⟩ := operand_cancel hS hl hl' (rests_blank hS _) (rests_blank hS _) h
      obtain ⟨hsame, hrest⟩ := blank_cancel (notMem_blank_of_arithmetic hoperator)
        (notMem_blank_of_arithmetic hoperator') (List.cons.inj hrest).2
      obtain ⟨rfl, hrest⟩ := operand_cancel hS hk hk' (rests_of_stops hr) (rests_of_stops hr') hrest
      exact ⟨by rw [String.toList_inj.1 hsame], hrest⟩
    | call hc =>
      rw [List.append_assoc] at h
      exact absurd h (operand_ne_call hS hl (rests_blank hS _) hc)
  | call hc hsame =>
    simp only [List.append_assoc] at h
    cases hv' with
    | between =>
      rw [List.append_assoc] at h
      exact absurd h.symm (operand_ne_call hS hl' (rests_blank hS _) hc)
    | call hc' hsame' =>
      obtain rfl := Option.mem_unique hc hc'
      simp only [List.append_assoc, List.append_cancel_left_eq] at h
      obtain ⟨rfl, hrest⟩ := operand_cancel hS hl hl' (rests_append (hS.middle _ hc) _)
        (rests_append (hS.middle _ hc) _) h
      obtain ⟨rfl, hrest⟩ := operand_cancel hS hk hk' (rests_finish hS hc hr)
        (rests_finish hS hc hr') (List.append_cancel_left hrest)
      exact ⟨by rw [← hsame, ← hsame'], List.append_cancel_left hrest⟩

/-- An expression is told by its text, and so is what stands behind it. -/
theorem value_cancel (hS : S.ValuesApart) {e e' : Expression} {v v' : List Char}
    (hv : S.Value e v) (hv' : S.Value e' v') (hr : S.stops r = true) (hr' : S.stops r' = true)
    (h : v ++ r = v' ++ r') : e = e' ∧ r = r' := by
  cases hv with
  | primary he =>
    cases hv' with
    | primary he' =>
      exact primary_cancel hS he he' (follows_of_rests (rests_of_stops hr))
        (follows_of_rests (rests_of_stops hr')) h
    | binary hoperator hl _ hv' => exact absurd h (primary_ne_joined hS he hr hoperator hl hv')
  | binary hoperator hl hk hv =>
    cases hv' with
    | primary he' => exact absurd h.symm (primary_ne_joined hS he' hr' hoperator hl hv)
    | binary hoperator' hl' hk' hv' =>
      exact joined_cancel hS hoperator hoperator' hl hl' hk hk' hv hv' hr hr' h

theorem begins_compared (hS : S.ValuesApart) {c : Condition} {v : List Char}
    (hv : S.Compared c v) : begins v = true := by
  cases hv with
  | compare _ hleft _ => exact begins_append (begins_primary hS hleft) _

theorem compared_cancel (hS : S.ValuesApart) {c c' : Condition} {v v' : List Char}
    (hv : S.Compared c v) (hv' : S.Compared c' v') (hr : S.follows r = true)
    (hr' : S.follows r' = true) (h : v ++ r = v' ++ r') : c = c' ∧ r = r' := by
  cases hv with
  | compare hoperator hleft hright =>
    cases hv' with
    | compare hoperator' hleft' hright' =>
      simp only [List.append_assoc, List.cons_append] at h
      have hblank (x : List Char) : S.follows (' ' :: x) = true :=
        follows_of_rests (rests_blank hS x)
      obtain ⟨rfl, hrest⟩ := primary_cancel hS hleft hleft' (hblank _) (hblank _) h
      obtain ⟨hsame, hrest⟩ := blank_cancel (notMem_blank_of_comparison hoperator)
        (notMem_blank_of_comparison hoperator') (List.cons.inj hrest).2
      obtain ⟨rfl, hend⟩ := primary_cancel hS hright hright' hr hr' hrest
      exact ⟨by rw [String.toList_inj.1 hsame], hend⟩

end Surface

end Boli
