import Boli.Proofs.Cancellation
import Boli.Proofs.Literals
import Boli.Target.Catalogue

/-!
# Texts between double quotes

A target writes a text literal between double quotes. Its content is the text with some backslashes
added, and each run of backslashes is told by what stands behind it (`escapeFrom_append` and the
lemmas on runs). A scan in which a backslash escapes the next character reaches every double quote
of the content behind a backslash that escapes it, so that the literal ends at its last quote, and
the content can be read back (`quote_seals_content`).
-/

set_option autoImplicit false

namespace Boli.Literal

open Target (escapeContent escapeFrom)

/-! ## Scans that stay inside a literal -/

/-- Where nothing is left of a text that stands inside a literal, the scan has not left it. -/
theorem scan_ne_code {m : Mode} {cs : List Char} (hm : m ≠ .code) (h : erase m cs = []) :
    scan m cs ≠ .code := by
  induction cs generalizing m with
  | nil => exact hm
  | cons c cs ih =>
    rw [erase] at h
    split at h
    next => cases h
    next hnext => exact ih (fun hcode => hnext (.inr hcode)) h

theorem Inside.scan_ne_code {m m' : Mode} {cs ds : List Char} (hm : m ≠ .code)
    (h : Inside m (cs ++ ds) m') : scan m cs ≠ .code := by
  have herase := h.erase_eq
  rw [erase_append] at herase
  exact Literal.scan_ne_code hm (List.append_eq_nil_iff.mp herase).1

/-- A double quote inside a literal that does not close it is escaped. -/
theorem Inside.scan_before_quote {m' : Mode} {cs ds : List Char}
    (h : Inside .literal (cs ++ '\x22' :: ds) m') : scan .literal cs = .escaped := by
  rw [List.append_cons] at h
  have hquote : scan .literal (cs ++ ['\x22']) ≠ .code := h.scan_ne_code nofun
  rw [scan_append] at hquote
  cases hm : scan .literal cs with
  | escaped => rfl
  | literal =>
    rw [hm] at hquote
    exact absurd rfl hquote
  | code =>
    rw [List.append_assoc] at h
    exact absurd hm (h.scan_ne_code nofun)

/-- The quote behind a text that stays inside the literal is the first that closes it. -/
theorem Inside.scan_eq_code_iff {cs p : List Char} (h : Inside .literal cs .literal)
    (hp : p <+: cs ++ ['\x22']) : scan .literal p = .code ↔ p = cs ++ ['\x22'] := by
  rcases List.prefix_concat_iff.mp hp with rfl | ⟨ds, rfl⟩
  · rw [scan_append, h.scan_eq]
    exact iff_of_true rfl rfl
  · refine iff_of_false (h.scan_ne_code nofun) fun he => ?_
    have hlength := congrArg List.length he
    rw [List.length_append, List.length_append, List.length_singleton] at hlength
    omega

/-! ## Runs of backslashes -/

theorem escapeFrom_replicate (run count : Nat) (cs : List Char) :
    escapeFrom run (List.replicate count '\\' ++ cs) = escapeFrom (run + count) cs := by
  induction count generalizing run with
  | zero => rfl
  | succ count ih =>
    rw [List.replicate_succ, List.cons_append, escapeFrom, if_pos rfl, ih, Nat.add_right_comm,
      Nat.add_assoc]

/-- Behind another character than a backslash the escapes start anew. -/
theorem escapeFrom_append {front : List Char} (cs : List Char) {run : Nat}
    (hlast : front.getLast? ≠ some '\\') (hrun : front = [] → run = 0) :
    escapeFrom run (front ++ cs) = escapeFrom run front ++ escapeFrom 0 cs := by
  induction front generalizing run with
  | nil =>
    obtain rfl := hrun rfl
    rfl
  | cons c front ih =>
    have hrest : front.getLast? ≠ some '\\' := by
      cases front with
      | nil => exact nofun
      | cons d front => rwa [List.getLast?_cons_cons] at hlast
    rw [List.cons_append, escapeFrom, escapeFrom]
    split
    next hc =>
      subst hc
      refine ih hrest fun hnil => ?_
      subst hnil
      exact absurd rfl hlast
    next =>
      rw [ih hrest fun _ => rfl]
      split
      next => rw [List.append_assoc, List.cons_append]
      next => rw [List.append_assoc, List.cons_append]

theorem escapeFrom_run {front : List Char} (hlast : front.getLast? ≠ some '\\') (count : Nat)
    (cs : List Char) :
    escapeFrom 0 (front ++ (List.replicate count '\\' ++ cs)) =
      escapeFrom 0 front ++ escapeFrom count cs := by
  rw [escapeFrom_append _ hlast fun _ => rfl, escapeFrom_replicate, Nat.zero_add]

/-! ## Contents -/

/-- The content of a literal is that of one text only. -/
theorem escapeFrom_injective : Function.Injective (escapeFrom 0) := by
  intro cs cs' h
  have hclosed := congrArg (· ++ ['\x22']) h
  exact (Cancellation.content_cancel hclosed).1

theorem toList_escapeContent (raw : String) :
    (escapeContent raw).toList = escapeFrom 0 raw.toList := by
  rw [escapeContent, String.toList_ofList]

theorem escapeContent_injective : Function.Injective escapeContent := by
  intro raw raw' h
  have hlist := congrArg String.toList h
  rw [toList_escapeContent, toList_escapeContent] at hlist
  exact String.toList_inj.mp (escapeFrom_injective hlist)

/-- A run of backslashes. -/
def backslashes (count : Nat) : String := String.ofList (List.replicate count '\\')

theorem escapeContent_run {front : String} (hlast : front.toList.getLast? ≠ some '\\')
    (count : Nat) (rest : String) :
    escapeContent (front ++ backslashes count ++ rest) =
      escapeContent front ++ String.ofList (escapeFrom count rest.toList) := by
  apply String.toList_inj.mp
  simp only [toList_escapeContent, String.toList_append, String.toList_ofList, backslashes,
    List.append_assoc]
  exact escapeFrom_run hlast count rest.toList

/-- Backslashes in front of another character stay as they are. -/
theorem escapeContent_run_other {front : String} (hlast : front.toList.getLast? ≠ some '\\')
    (count : Nat) {c : Char} (hc : c ≠ '\\') (hquote : c ≠ '\x22') (rest : String) :
    escapeContent (front ++ backslashes count ++ (String.singleton c ++ rest)) =
      escapeContent front ++ backslashes count ++ (String.singleton c ++ escapeContent rest) := by
  rw [escapeContent_run hlast, String.append_assoc]
  refine congrArg (escapeContent front ++ ·) ?_
  apply String.toList_inj.mp
  simp only [toList_escapeContent, String.toList_append, String.toList_ofList, backslashes,
    String.toList_singleton, List.singleton_append]
  rw [escapeFrom, if_neg hc, if_neg hquote]

/-- Backslashes in front of a double quote are doubled, and the quote gets one of its own. -/
theorem escapeContent_run_quote {front : String} (hlast : front.toList.getLast? ≠ some '\\')
    (count : Nat) (rest : String) :
    escapeContent (front ++ backslashes count ++ ("\x22" ++ rest)) =
      escapeContent front ++ backslashes (2 * count + 1) ++ ("\x22" ++ escapeContent rest) := by
  rw [escapeContent_run hlast, String.append_assoc]
  refine congrArg (escapeContent front ++ ·) ?_
  apply String.toList_inj.mp
  simp only [toList_escapeContent, String.toList_append, String.toList_ofList, backslashes]
  show escapeFrom count ('\x22' :: rest.toList) = _
  rw [escapeFrom, if_neg (by decide), if_pos rfl]
  rfl

/-- Backslashes at the end are doubled. -/
theorem escapeContent_run_end {front : String} (hlast : front.toList.getLast? ≠ some '\\')
    (count : Nat) :
    escapeContent (front ++ backslashes count) =
      escapeContent front ++ backslashes (2 * count) := by
  have hrun := escapeContent_run hlast count ""
  rwa [String.append_empty] at hrun

theorem inside_escapeContent (raw : String) :
    Inside .literal (escapeContent raw).toList .literal := by
  rw [toList_escapeContent]
  exact Inside.escapeFrom raw.toList 0

/-- A target whose text literals stand between double quotes. -/
structure QuotesBetween (t : Target) (front back : String) : Prop where
  template : t.stringTemplate = [.text (front ++ "\x22"), .next, .text ("\x22" ++ back)]
  front : '\x22' ∉ front.toList
  back : '\x22' ∉ back.toList

theorem QuotesBetween.quote_eq {t : Target} {front back : String} (h : QuotesBetween t front back)
    (raw : String) :
    t.quote raw = .ok (front ++ "\x22" ++ escapeContent raw ++ "\x22" ++ back) := by
  rw [Target.quote, h.template]
  show Except.ok (front ++ "\x22" ++ (escapeContent raw ++ ("\x22" ++ back ++ ""))) = _
  simp only [String.append_empty, String.append_assoc]

theorem exists_quotesBetween {t : Target} (ht : t ∈ Target.catalogue) :
    ∃ front back, QuotesBetween t front back := by
  have hall : ∀ t ∈ Target.catalogue,
      t.stringTemplate = [.text "\x22", .next, .text "\x22"] ∨
        t.stringTemplate = [.text "String::from(\x22", .next, .text "\x22)"] := by
    decide
  rcases hall t ht with h | h
  · exact ⟨"", "", h, by decide, by decide⟩
  · exact ⟨"String::from(", ")", h, by decide, by decide⟩

/-- The targets write texts between double quotes. No double quote of what they write there is
reached unescaped, and it does not end inside an escape, so that the literal ends at its last quote
and at no other. Backslashes are doubled in front of a double quote, which gets one of its own, and
at the end, and nowhere else. Two texts are never written in the same way. -/
theorem quote_seals_content :
    (∀ t ∈ Target.catalogue, ∃ front back, QuotesBetween t front back) ∧
    (∀ t front back, QuotesBetween t front back → ∀ raw,
      t.quote raw = .ok (front ++ "\x22" ++ escapeContent raw ++ "\x22" ++ back)) ∧
    (∀ raw,
      (∀ before behind, (escapeContent raw).toList = before ++ '\x22' :: behind →
        scan .literal before = .escaped) ∧
      scan .literal (escapeContent raw).toList = .literal ∧
      ∀ p, p <+: (escapeContent raw).toList ++ ['\x22'] →
        (scan .literal p = .code ↔ p = (escapeContent raw).toList ++ ['\x22'])) ∧
    (∀ (front : String) (count : Nat), front.toList.getLast? ≠ some '\\' →
      (∀ c rest, c ≠ '\\' → c ≠ '\x22' →
        escapeContent (front ++ backslashes count ++ (String.singleton c ++ rest)) =
          escapeContent front ++ backslashes count ++
            (String.singleton c ++ escapeContent rest)) ∧
      (∀ rest, escapeContent (front ++ backslashes count ++ ("\x22" ++ rest)) =
        escapeContent front ++ backslashes (2 * count + 1) ++ ("\x22" ++ escapeContent rest)) ∧
      escapeContent (front ++ backslashes count) =
        escapeContent front ++ backslashes (2 * count)) ∧
    ∀ raw raw', raw ≠ raw' → escapeContent raw ≠ escapeContent raw' := by
  refine ⟨fun t ht => exists_quotesBetween ht, fun t front back h raw => h.quote_eq raw,
    fun raw => ?_, fun front count hlast => ?_, fun raw raw' => escapeContent_injective.ne⟩
  · have hinside := inside_escapeContent raw
    refine ⟨fun before behind hsplit => ?_, hinside.scan_eq,
      fun p hp => hinside.scan_eq_code_iff hp⟩
    rw [hsplit] at hinside
    exact hinside.scan_before_quote
  · exact ⟨fun c rest hc hquote => escapeContent_run_other hlast count hc hquote rest,
      escapeContent_run_quote hlast count, escapeContent_run_end hlast count⟩

example : Target.rust.quote "a\\\x22b\\c\\" =
    .ok "String::from(\x22a\\\\\\\x22b\\c\\\\\x22)" := by rfl

end Boli.Literal
