import Boli.Text.Numeral

/-!
# Reading and writing numbers

Reading takes much more than the digits 0 to 9: a sign, blanks, digits of other scripts and
underscores. The number tokens of a source text hold none of that, and for them reading is the
plain decimal value (`read_eq_decimal`). Whatever is read can also be written
(`writable_of_read`), and a run of digits without its leading zeros (`write_decimal`).
-/

set_option autoImplicit false

namespace Boli.Text.Numeral

/-- The number that a run of ASCII digits stands for. -/
def decimal (digits : String) : Int := Nat.ofDigitChars 10 digits.toList 0

/-- One to 4300 ASCII digits, as many as a conversion takes. -/
structure IsDigitRun (s : String) : Prop where
  one_le_length : 1 ≤ s.length
  length_le : s.length ≤ 4300
  isDigit : ∀ c ∈ s.toList, c.isDigit = true

instance (s : String) : Decidable (IsDigitRun s) :=
  decidable_of_iff (1 ≤ s.length ∧ s.length ≤ 4300 ∧ s.toList.all Char.isDigit = true)
    ⟨fun ⟨h₁, h₂, h₃⟩ => ⟨h₁, h₂, List.all_eq_true.1 h₃⟩,
      fun h => ⟨h.one_le_length, h.length_le, List.all_eq_true.2 h.isDigit⟩⟩

theorem markOf_of_isDigit {c : Char} (h : c.isDigit = true) :
    Mark.of? c = some (.digit (c.toNat - 48)) := by
  obtain ⟨hl, hu⟩ : 48 ≤ c.toNat ∧ c.toNat ≤ 57 := Char.isDigit_iff_toNat.1 h
  have hunderscore : c ≠ '_' := by
    rintro rfl
    exact absurd hu (by decide)
  have hfind : zeroDigits.find? (fun start => start ≤ c.toNat && c.toNat < start + 10) = some 48 := by
    rw [zeroDigits, List.find?_cons_of_pos]
    simp only [Bool.and_eq_true, decide_eq_true_eq]
    omega
  simp only [Mark.of?, if_neg hunderscore, digitValue?, hfind, Option.map_some]

theorem takeMarks_of_isDigit (cs : List Char) (h : ∀ c ∈ cs, c.isDigit = true) :
    takeMarks cs = (cs.map fun c => .digit (c.toNat - 48), []) := by
  induction cs with
  | nil => rfl
  | cons c cs ih =>
    have hc := markOf_of_isDigit (h c List.mem_cons_self)
    have hcs := ih fun d hd => h d (List.mem_cons_of_mem _ hd)
    simp only [takeMarks, hc, hcs, List.map_cons]

/-- Digits without underscores are separated, if there is one. -/
theorem separated?_map_digit (d : Nat) (ds : List Nat) :
    separated? ((d :: ds).map .digit) = some (d :: ds) := by
  induction ds generalizing d with
  | nil => rfl
  | cons e ds ih =>
    have hrest := ih e
    simp only [List.map_cons] at hrest
    simp only [List.map_cons, separated?, hrest, Option.map_some]

/-- A digit is neither a blank nor a sign, so nothing is cut off a run of digits. -/
theorem takeSign_of_isDigit {c : Char} (cs : List Char) (h : c.isDigit = true) :
    takeSign ((c :: cs).dropWhile isPadding) = (false, c :: cs) := by
  obtain ⟨hl, hu⟩ : 48 ≤ c.toNat ∧ c.toNat ≤ 57 := Char.isDigit_iff_toNat.1 h
  have hpadding : isPadding c = false := by
    have hspace : c ≠ ' ' := by
      rintro rfl
      exact absurd hl (by decide)
    rw [isPadding, if_pos (by omega)]
    simp only [hspace, decide_false, Bool.false_or, Bool.and_eq_false_iff, decide_eq_false_iff_not]
    omega
  rw [List.dropWhile_cons_of_neg (by simp only [hpadding, Bool.false_eq_true, not_false_iff])]
  unfold takeSign
  split
  next heq =>
    obtain ⟨rfl, -⟩ := List.cons.inj heq
    exact absurd hl (by decide)
  next heq =>
    obtain ⟨rfl, -⟩ := List.cons.inj heq
    exact absurd hl (by decide)
  next => rfl

theorem ofDigits_map (cs : List Char) :
    ofDigits (cs.map fun c => c.toNat - 48) = Nat.ofDigitChars 10 cs 0 := by
  rw [ofDigits, List.foldl_map, Nat.ofDigitChars_eq_foldl]
  congr
  funext n c
  rw [Nat.mul_comm]
  rfl

/-- Of a run of digits only the length decides whether it is read. -/
theorem read_of_isDigit {s : String} (hpos : 1 ≤ s.length)
    (hdigits : ∀ c ∈ s.toList, c.isDigit = true) :
    read s =
      if digitLimit < s.length then .error (.tooLongToRead s.length) else .ok (decimal s) := by
  unfold read decimal
  rw [← String.length_toList] at hpos ⊢
  generalize s.toList = cs at hpos hdigits
  cases cs with
  | nil => exact absurd hpos (by decide)
  | cons c cs =>
    have hmarks := takeMarks_of_isDigit (c :: cs) hdigits
    have hseparated := separated?_map_digit (c.toNat - 48) (cs.map fun c => c.toNat - 48)
    rw [← List.map_cons (f := fun c : Char => c.toNat - 48), List.map_map] at hseparated
    simp only [takeSign_of_isDigit cs (hdigits c List.mem_cons_self), hmarks]
    rw [show (fun c : Char => Mark.digit (c.toNat - 48)) = Mark.digit ∘ fun c => c.toNat - 48 from rfl,
      hseparated]
    simp only [List.length_map, List.all_nil, if_true, ofDigits_map, Bool.false_eq_true, if_false]

/-- A run of digits is read as its decimal value. -/
theorem read_eq_decimal {s : String} (h : IsDigitRun s) : read s = .ok (decimal s) := by
  have hlength : ¬digitLimit < s.length := Nat.not_lt.2 h.length_le
  rw [read_of_isDigit h.one_le_length h.isDigit, if_neg hlength]

/-! ## Numbers that can be written -/

/-- A number has no more digits than a conversion takes. -/
def Writable (n : Int) : Prop := (Nat.toDigits 10 n.natAbs).length ≤ 4300

instance (n : Int) : Decidable (Writable n) := inferInstanceAs (Decidable (_ ≤ _))

theorem exists_write {n : Int} (h : Writable n) : ∃ text, write n = .ok text := by
  unfold write
  exact ⟨_, if_neg (Nat.not_lt.mpr h)⟩

theorem lt_ten_of_markOf {c : Char} {d : Nat} (h : Mark.of? c = some (.digit d)) : d < 10 := by
  unfold Mark.of? at h
  split at h
  next => cases h
  next =>
    obtain ⟨value, hvalue, hd⟩ := Option.map_eq_some_iff.mp h
    cases hd
    exact digitValue?_lt hvalue

theorem exists_of_mem_takeMarks {m : Mark} :
    ∀ {cs : List Char}, m ∈ (takeMarks cs).1 → ∃ c, Mark.of? c = some m
  | [], h => by cases h
  | c :: cs, h => by
    unfold takeMarks at h
    cases hc : Mark.of? c with
    | none => rw [hc] at h; cases h
    | some m' =>
      rw [hc] at h
      rcases List.mem_cons.mp h with rfl | hrest
      · exact ⟨c, hc⟩
      · exact exists_of_mem_takeMarks hrest

theorem mem_of_separated? {ms : List Mark} {ds : List Nat} (h : separated? ms = some ds) :
    ∀ d ∈ ds, .digit d ∈ ms := by
  induction ms using separated?.induct generalizing ds with
  | case1 => cases h
  | case2 d => cases h; simp
  | case3 d ms ih =>
    obtain ⟨ds', hrest, rfl⟩ := Option.map_eq_some_iff.mp h
    intro d' hd'
    rcases List.mem_cons.mp hd' with rfl | hd'
    · exact List.mem_cons_self
    · exact List.mem_cons_of_mem _ (List.mem_cons_of_mem _ (ih hrest d' hd'))
  | case4 d ms hne hunderscore ih =>
    rw [separated?.eq_4 d ms hne hunderscore] at h
    obtain ⟨ds', hrest, rfl⟩ := Option.map_eq_some_iff.mp h
    intro d' hd'
    rcases List.mem_cons.mp hd' with rfl | hd'
    · exact List.mem_cons_self
    · exact List.mem_cons_of_mem _ (ih hrest d' hd')
  | case5 => cases h

/-- The number that digits make has no more digits than they are. -/
theorem length_toDigits_ofDigits_le {ds : List Nat} {k : Nat} (h : ∀ d ∈ ds, d < 10) (hk : 0 < k)
    (hlength : ds.length ≤ k) : (Nat.toDigits 10 (ofDigits ds)).length ≤ k := by
  -- The induction needs the number `n` that was read in front of the digits.
  have key (ds : List Nat) : ∀ n, (∀ d ∈ ds, d < 10) →
      ds.foldl (fun n d => n * 10 + d) n < (n + 1) * 10 ^ ds.length := by
    induction ds with
    | nil => intro n _; simp
    | cons d ds ih =>
      intro n hds
      have hd := hds d List.mem_cons_self
      have hrest := ih (n * 10 + d) fun d' hd' => hds d' (List.mem_cons_of_mem _ hd')
      calc _ < (n * 10 + d + 1) * 10 ^ ds.length := hrest
        _ ≤ ((n + 1) * 10) * 10 ^ ds.length := Nat.mul_le_mul_right _ (by omega)
        _ = (n + 1) * 10 ^ (ds.length + 1) := by rw [Nat.pow_succ, Nat.mul_assoc, Nat.mul_comm 10]
  have hlt := key ds 0 h
  rw [Nat.zero_add, Nat.one_mul] at hlt
  rw [Nat.length_toDigits_le_iff (by decide) hk]
  exact Nat.lt_of_lt_of_le hlt (Nat.pow_le_pow_right (by decide) hlength)

/-- What is read has no more digits than a conversion takes, and so can be written again. -/
theorem writable_of_read {s : String} {n : Int} (h : read s = .ok n) : Writable n := by
  unfold read at h
  generalize takeSign (s.toList.dropWhile isPadding) = signed at h
  obtain ⟨negative, cs⟩ := signed
  simp only at h
  cases hds : separated? (takeMarks cs).1 with
  | none => rw [hds] at h; cases h
  | some ds =>
    simp only [hds] at h
    split at h
    next => cases h
    next hlength =>
      split at h
      next =>
        have hdigits : ∀ d ∈ ds, d < 10 := by
          intro d hd
          obtain ⟨c, hc⟩ := exists_of_mem_takeMarks (mem_of_separated? hds d hd)
          exact lt_ten_of_markOf hc
        have habs : n.natAbs = ofDigits ds := by
          cases h
          split
          next => exact Int.natAbs_neg _
          next => rfl
        rw [Writable, habs]
        exact length_toDigits_ofDigits_le hdigits (by decide) (Nat.not_lt.mp hlength)
      next => cases h

/-! ## Numerals without leading zeros -/

/-- A run of digits without the zeros in front, or a single zero if there are no other digits. -/
def canonical (digits : String) : String :=
  match digits.toList.dropWhile (· = '0') with
  | [] => "0"
  | c :: cs => String.ofList (c :: cs)

theorem digitChar_of_isDigit {c : Char} (h : c.isDigit = true) :
    c.toNat - 48 < 10 ∧ (c.toNat - 48).digitChar = c := by
  obtain ⟨hl, hu⟩ : 48 ≤ c.toNat ∧ c.toNat ≤ 57 := Char.isDigit_iff_toNat.1 h
  have hlt : c.toNat - 48 < 10 := by omega
  refine ⟨hlt, Char.toNat_inj.1 ?_⟩
  rw [Nat.toNat_digitChar_of_lt_ten hlt]
  omega

/-- Digits that are read behind a number are those behind its numeral. -/
theorem toDigits_ofDigitChars {cs : List Char} (h : ∀ c ∈ cs, c.isDigit = true) {n : Nat}
    (hn : 0 < n) : Nat.toDigits 10 (Nat.ofDigitChars 10 cs n) = Nat.toDigits 10 n ++ cs := by
  induction cs generalizing n with
  | nil => rw [Nat.ofDigitChars_nil, List.append_nil]
  | cons c cs ih =>
    obtain ⟨hlt, hc⟩ := digitChar_of_isDigit (h c List.mem_cons_self)
    have hdigits : Nat.toDigits 10 (10 * n + (c.toNat - 48)) = Nat.toDigits 10 n ++ [c] := by
      rw [← Nat.toDigits_append_toDigits (by decide) hn hlt, Nat.toDigits_of_lt_base hlt, hc]
    have hrest := ih (fun d hd => h d (List.mem_cons_of_mem _ hd))
      (n := 10 * n + (c.toNat - 48)) (by omega)
    rw [Nat.ofDigitChars_cons]
    exact hrest.trans (by rw [hdigits, List.append_assoc]; rfl)

/-- The numeral of what is read of digits has no zeros in front. -/
theorem ofList_toDigits_decimal {digits : String} (h : ∀ c ∈ digits.toList, c.isDigit = true) :
    String.ofList (Nat.toDigits 10 (Nat.ofDigitChars 10 digits.toList 0)) = canonical digits := by
  unfold canonical
  generalize digits.toList = cs at h
  induction cs with
  | nil => rfl
  | cons c cs ih =>
    obtain ⟨hlt, hc⟩ := digitChar_of_isDigit (h c List.mem_cons_self)
    have hcs : ∀ d ∈ cs, d.isDigit = true := fun d hd => h d (List.mem_cons_of_mem _ hd)
    by_cases hzero : c = '0'
    · subst hzero
      exact ih hcs
    · have hpos : 0 < c.toNat - 48 := by
        refine Nat.pos_of_ne_zero fun hnone => hzero ?_
        rw [← hc, hnone]
        rfl
      have hdigits := toDigits_ofDigitChars hcs hpos
      rw [Nat.toDigits_of_lt_base hlt, hc] at hdigits
      rw [List.dropWhile_cons_of_neg (by simpa using hzero), Nat.ofDigitChars_cons, Nat.mul_zero,
        Nat.zero_add]
      exact congrArg String.ofList hdigits

/-- What is read of a run of digits is written without leading zeros, and that stands for the same
number. -/
theorem write_decimal {digits : String} (h : IsDigitRun digits) :
    write (decimal digits) = .ok (canonical digits) := by
  have hwritable : Writable (decimal digits) := writable_of_read (read_eq_decimal h)
  have hlength : ¬digitLimit < (Nat.toDigits 10 (decimal digits).natAbs).length :=
    Nat.not_lt.2 hwritable
  have hsign : ¬decimal digits < 0 := Int.not_lt.2 (Int.natCast_nonneg _)
  rw [← ofList_toDigits_decimal h.isDigit]
  simp only [write, if_neg hlength, if_neg hsign]
  rfl

theorem decimal_canonical {digits : String} (h : ∀ c ∈ digits.toList, c.isDigit = true) :
    decimal (canonical digits) = decimal digits := by
  rw [decimal, ← ofList_toDigits_decimal h, String.toList_ofList, Nat.ofDigitChars_ten_toDigits]
  rfl

/-- Only zero itself begins with a zero. -/
theorem canonical_eq_zero_of_head? {digits : String} (h : (canonical digits).toList.head? = some '0') :
    canonical digits = "0" := by
  unfold canonical at h ⊢
  cases hrest : digits.toList.dropWhile (· = '0') with
  | nil => rfl
  | cons c cs =>
    have hfirst := List.head?_dropWhile_not (fun c => decide (c = '0')) digits.toList
    rw [hrest] at h hfirst
    rw [String.toList_ofList] at h
    cases h
    exact absurd hfirst Bool.noConfusion

theorem isDigitRun_canonical {digits : String} (h : IsDigitRun digits) :
    IsDigitRun (canonical digits) := by
  unfold canonical
  have hsub := List.dropWhile_sublist (fun c => decide (c = '0')) (l := digits.toList)
  cases hrest : digits.toList.dropWhile (· = '0') with
  | nil => decide
  | cons c cs =>
    rw [hrest] at hsub
    refine ⟨?_, ?_, fun d hd => ?_⟩
    · rw [← String.length_toList, String.toList_ofList]
      exact Nat.succ_pos _
    · rw [← String.length_toList, String.toList_ofList]
      exact Nat.le_trans hsub.length_le h.length_le
    · rw [String.toList_ofList] at hd
      exact h.isDigit d (hsub.subset hd)

end Boli.Text.Numeral
