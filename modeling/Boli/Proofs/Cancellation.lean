import Boli.Target
import Boli.Proofs.Lexemes

/-!
# Pieces that can be told from what stands behind them

A run of letters and digits ends where another character stands, an operator at the next blank, and
the content of a text literal at its closing quote, since of the backslashes in front of a quote an
even number belongs to the content (`unescape_escapeFrom`). So two texts that begin with such a
piece can only be equal if the pieces are.
-/

set_option autoImplicit false

namespace Boli.Cancellation

variable {r r' : List Char}

/-! ## Runs -/

/-- A run of characters of a class is followed by one outside of it, or by nothing. -/
theorem run_cancel {p : Char → Bool} {w w' : List Char} (hw : ∀ c ∈ w, p c = true)
    (hw' : ∀ c ∈ w', p c = true) (hr : ∀ c ∈ r.head?, p c = false)
    (hr' : ∀ c ∈ r'.head?, p c = false) (h : w ++ r = w' ++ r') : w = w' ∧ r = r' := by
  have hruns : (w ++ r).takeWhile p = (w' ++ r').takeWhile p := by rw [h]
  rw [Lexeme.takeWhile_append hw hr, Lexeme.takeWhile_append hw' hr'] at hruns
  subst hruns
  exact ⟨rfl, List.append_cancel_left h⟩

/-- A run in front of what ends it is the run at the front of a text that goes on behind its own. -/
theorem run_split {p : Char → Bool} {w t x : List Char} (hw : ∀ c ∈ w, p c = true)
    (hr : ∀ c ∈ r.head?, p c = false) (ht : t.dropWhile p ≠ []) (h : w ++ r = t ++ x) :
    w = t.takeWhile p ∧ r = t.dropWhile p ++ x := by
  rw [← List.takeWhile_append_dropWhile (p := p) (l := t), List.append_assoc] at h
  refine run_cancel hw (fun c hc => List.all_eq_true.1 List.all_takeWhile c hc) hr ?_ h
  have hhead := List.head?_dropWhile_not p t
  obtain ⟨d, ds, hdrop⟩ := List.exists_cons_of_ne_nil ht
  rw [hdrop] at hhead ⊢
  rintro _ ⟨rfl⟩
  exact hhead

/-- Texts without a blank, with a blank behind them. -/
theorem blank_cancel {w w' : List Char} (hw : ' ' ∉ w) (hw' : ' ' ∉ w')
    (h : w ++ ' ' :: r = w' ++ ' ' :: r') : w = w' ∧ r = r' := by
  have hfree {v : List Char} (hv : ' ' ∉ v) : ∀ c ∈ v, (c != ' ') = true := fun c hc => by
    rw [bne_iff_ne]
    exact ne_of_mem_of_not_mem hc hv
  obtain ⟨rfl, hrest⟩ := run_cancel (hfree hw) (hfree hw') (by simp) (by simp) h
  exact ⟨rfl, (List.cons.inj hrest).2⟩

/-- A number is told by its digits. -/
theorem toDigits_inj {m n : Nat} (h : Nat.toDigits 10 m = Nat.toDigits 10 n) : m = n := by
  rw [← Nat.ofDigitChars_ten_toDigits (n := m), h, Nat.ofDigitChars_ten_toDigits]

/-! ## Contents of text literals -/

/-- Reads the content of a text literal up to its closing quote, behind `run` backslashes, and gives
it with the text behind that quote. -/
def unescape (run : Nat) : List Char → List Char × List Char
  | [] => (List.replicate run '\\', [])
  | c :: rest =>
    if c = '\\' then unescape (run + 1) rest
    else if c = '\x22' then
      if run % 2 = 0 then (List.replicate (run / 2) '\\', rest)
      else
        let (content, after) := unescape 0 rest
        (List.replicate (run / 2) '\\' ++ '\x22' :: content, after)
    else
      let (content, after) := unescape 0 rest
      (List.replicate run '\\' ++ c :: content, after)

theorem unescape_replicate (run count : Nat) (cs : List Char) :
    unescape run (List.replicate count '\\' ++ cs) = unescape (run + count) cs := by
  induction count generalizing run with
  | zero => rfl
  | succ count ih =>
    rw [List.replicate_succ, List.cons_append, unescape, if_pos rfl, ih, Nat.add_right_comm,
      Nat.add_assoc]

/-- Reading takes back the escapes. -/
theorem unescape_escapeFrom (run : Nat) (cs : List Char) :
    unescape 0 (Target.escapeFrom run cs ++ '\x22' :: r) = (List.replicate run '\\' ++ cs, r) := by
  induction cs generalizing run with
  | nil =>
    rw [Target.escapeFrom, unescape_replicate, Nat.zero_add, unescape, if_neg (by decide), if_pos rfl,
      if_pos (Nat.mul_mod_right 2 run), Nat.mul_div_cancel_left run (by decide), List.append_nil]
  | cons c cs ih =>
    rw [Target.escapeFrom]
    split
    next hc =>
      subst hc
      rw [ih, List.replicate_succ', List.append_assoc]
      rfl
    next hc =>
      split
      next hquote =>
        subst hquote
        have hodd : ¬(2 * run + 1) % 2 = 0 := by omega
        have hhalf : (2 * run + 1) / 2 = run := by omega
        rw [List.append_assoc, unescape_replicate, Nat.zero_add, List.cons_append, unescape,
          if_neg (by decide), if_pos rfl, if_neg hodd, ih, hhalf]
        rfl
      next hquote =>
        rw [List.append_assoc, unescape_replicate, Nat.zero_add, List.cons_append, unescape,
          if_neg hc, if_neg hquote, ih]
        rfl

theorem content_cancel {cs cs' : List Char}
    (h : Target.escapeFrom 0 cs ++ '\x22' :: r = Target.escapeFrom 0 cs' ++ '\x22' :: r') :
    cs = cs' ∧ r = r' := by
  have hread := congrArg (unescape 0) h
  rw [unescape_escapeFrom, unescape_escapeFrom] at hread
  exact Prod.mk.inj hread

end Boli.Cancellation
