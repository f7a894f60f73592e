import Boli.Proofs.Parsing.Completion
import Boli.Proofs.Parsing.Locality
import Boli.Proofs.Parsing.Sentences

/-!
# The first token that does not fit

The strict parser fails at the earliest token with which its input stops being the beginning of a
program (`parse_strict_fails_at_first_misfit`). All that it has read before can be completed to a
program, and no program begins with these tokens and the one that it complains about: every sequence
that does fails in the same way. The token itself is left unread.
-/

set_option autoImplicit false

namespace Boli

open Grammar (next Stmts Sentence)

/-- Tokens with which some sequence begins that the strict parser accepts. -/
def BeginsProgram (tokens : List Token) : Prop := ∃ more p, parse .strict (tokens ++ more) = .ok p

theorem BeginsProgram.of_append {tokens more : List Token} (h : BeginsProgram (tokens ++ more)) :
    BeginsProgram tokens := by
  obtain ⟨rest, p, hp⟩ := h
  exact ⟨more ++ rest, p, List.append_assoc tokens more rest ▸ hp⟩

namespace Parser

theorem parse_eq_error {mode : Strictness} {tokens : List Token} {failure : Failure} {s : State}
    (h : (program mode).run (.start tokens) = .error failure s) :
    parse mode tokens = .error failure := by
  rw [parse, h]

/-- Where the strict parser fails, it has read a text that begins a program, and it stands at the
token that it complains about. -/
theorem exists_read_of_parse {tokens : List Token} {failure : Failure} (hn : Numerals tokens)
    (h : parse .strict tokens = .error failure) :
    ∃ text s expected, (program .strict).run (.start tokens) = .error failure s ∧
      (State.start tokens).Read text s ∧ failure = .unexpected expected (next s.rest) ∧
      BeginsProgram text := by
  unfold parse at h
  split at h
  next => cases h
  next failure' s hrun =>
    cases h
    obtain ⟨text, hread, more, hmore, d, hd⟩ := (completes_program (.start tokens)).error hn _ s hrun
    obtain ⟨_, expected, -, rfl⟩ := (reads_program (.start tokens)).error hn _ s hrun
    have htext : Numerals (text ++ more) := by
      have htokens : Numerals (text ++ s.rest) := hread.rest_eq ▸ hn
      exact (numerals_append _ _).2 ⟨((numerals_append _ _).1 htokens).1, hmore⟩
    obtain ⟨d', hd'⟩ := Grammar.Sentence.exists_derives ⟨d, hd⟩
    exact ⟨text, s, expected, hrun, hread, rfl, more, _, parse_of_derives htext hd'⟩

/-- A failing run on other tokens, which go on as these do up to the token that it fails at. -/
theorem parse_eq_error_of_read {mode : Strictness} {tokens text : List Token} {failure : Failure}
    {s : State} (hrun : (program mode).run (.start tokens) = .error failure s)
    (hread : (State.start tokens).Read text s) {rest : List Token} (hnext : next rest = next s.rest) :
    parse mode (text ++ rest) = .error failure := by
  obtain ⟨text', hrest, -, hbehind⟩ := program_local mode (.start tokens)
  rw [hrun] at hrest hbehind
  obtain rfl : text' = text := List.append_cancel_right (hrest.symm.trans hread.rest_eq)
  exact parse_eq_error (hbehind rest hnext)

end Parser

/-- Tokens that begin as others do up to a token of these, which stands behind a text. -/
theorem exists_eq_append_of_take {text rest tokens : List Token} (hrest : rest ≠ [])
    (h : tokens.take (text.length + 1) = (text ++ rest).take (text.length + 1)) :
    ∃ rest', tokens = text ++ rest' ∧ next rest' = next rest := by
  obtain ⟨t, ts, rfl⟩ := List.exists_cons_of_ne_nil hrest
  refine ⟨t :: tokens.drop (text.length + 1), ?_, rfl⟩
  have htake : tokens.take (text.length + 1) = text ++ [t] := by
    rw [h, List.take_length_add_append, List.take_succ_cons, List.take_zero]
  calc tokens
    _ = tokens.take (text.length + 1) ++ tokens.drop (text.length + 1) :=
      (List.take_append_drop _ _).symm
    _ = text ++ t :: tokens.drop (text.length + 1) := by
      rw [htake, List.append_assoc, List.singleton_append]

/-- Where the strict parser fails, at a token or at the end of the input, its position is the one
of that token. The tokens before it begin a program. If there is a token, every sequence with the
same tokens up to this one fails in the same way. So the tokens before the position are the longest
part of the input that begins a program. -/
theorem parse_strict_fails_at_first_misfit {tokens : List Token} {failure : Parser.Failure}
    (hn : Parser.Numerals tokens) (h : parse .strict tokens = .error failure) :
    ∃ (k : Nat) (expected : Parser.Expectation) (s : Parser.State),
      k ≤ tokens.length ∧
      (Parser.program .strict).run (.start tokens) = .error failure s ∧
      s.position = k ∧ s.rest = tokens.drop k ∧
      failure = .unexpected expected (tokens[k]?.getD Token.endOfInput) ∧
      BeginsProgram (tokens.take k) ∧
      (k < tokens.length → ∀ tokens' : List Token, tokens'.take (k + 1) = tokens.take (k + 1) →
        parse .strict tokens' = .error failure) ∧
      ∀ j ≤ tokens.length, BeginsProgram (tokens.take j) ↔ j ≤ k := by
  obtain ⟨text, s, expected, hrun, hread, hfailure, hbegins⟩ := Parser.exists_read_of_parse hn h
  have htokens : tokens = text ++ s.rest := hread.rest_eq
  have hlength : tokens.length = text.length + s.rest.length := by rw [htokens, List.length_append]
  have htake : tokens.take text.length = text := by rw [htokens, List.take_left]
  have hdrop : tokens.drop text.length = s.rest := by rw [htokens, List.drop_left]
  have hposition : s.position = text.length := hread.position_eq.trans (Nat.zero_add _)
  have hfound : next s.rest = tokens[text.length]?.getD Token.endOfInput := by
    rw [← List.head?_drop, hdrop, next, List.headD_eq_head?_getD]
  have hsame : text.length < tokens.length → ∀ tokens' : List Token,
      tokens'.take (text.length + 1) = tokens.take (text.length + 1) →
      parse .strict tokens' = .error failure := by
    intro hlt tokens' hshare
    have hrest : s.rest ≠ [] := List.length_pos_iff.1 (by omega)
    rw [htokens] at hshare
    obtain ⟨rest', rfl, hnext⟩ := exists_eq_append_of_take hrest hshare
    exact Parser.parse_eq_error_of_read hrun hread hnext
  have hlongest : ∀ j ≤ tokens.length, BeginsProgram (tokens.take j) ↔ j ≤ text.length := by
    intro j hj
    constructor
    · rintro ⟨more, p, hp⟩
      refine Nat.not_lt.1 fun hlt => ?_
      have hshare : (tokens.take j ++ more).take (text.length + 1) =
          tokens.take (text.length + 1) := by
        rw [List.take_append_of_le_length (by rw [List.length_take]; omega), List.take_take,
          Nat.min_eq_left hlt]
      rw [hsame (Nat.lt_of_lt_of_le hlt hj) _ hshare] at hp
      cases hp
    · intro hle
      have hwhole : BeginsProgram (text.take j ++ text.drop j) := by rwa [List.take_append_drop]
      rw [htokens, List.take_append_of_le_length hle]
      exact hwhole.of_append
  refine ⟨text.length, expected, s, hlength ▸ Nat.le_add_right _ _, hrun, hposition, hdrop.symm, ?_,
    ?_, hsame, hlongest⟩
  · rw [hfailure, hfound]
  · rwa [htake]

/-- A branch inside a loop, both without their bodies, before an ELSE. -/
def missingBody : List Token :=
  [{ kind := .keyword .whileStart, value := "jabtak" }, { kind := .number, value := "007" },
    { kind := .operator, value := "<" }, { kind := .identifier, value := "x" },
    { kind := .keyword .ifStart, value := "agar" }, { kind := .identifier, value := "x" },
    { kind := .operator, value := "==" }, { kind := .string, value := "a" },
    { kind := .keyword .elseStart, value := "varna" }, { kind := .number, value := "5" }]

/-- The ELSE is to blame, and not the number behind it. -/
theorem parse_strict_missingBody :
    let failure : Parser.Failure :=
      .unexpected .statement { kind := .keyword .elseStart, value := "varna" }
    Parser.Numerals missingBody ∧ parse .strict missingBody = .error failure ∧
    ∃ (k : Nat) (expected : Parser.Expectation) (s : Parser.State),
      k ≤ missingBody.length ∧
      (Parser.program .strict).run (.start missingBody) = .error failure s ∧
      s.position = k ∧ s.rest = missingBody.drop k ∧
      failure = .unexpected expected (missingBody[k]?.getD Token.endOfInput) ∧
      BeginsProgram (missingBody.take k) ∧
      (k < missingBody.length → ∀ tokens' : List Token,
        tokens'.take (k + 1) = missingBody.take (k + 1) → parse .strict tokens' = .error failure) ∧
      ∀ j ≤ missingBody.length, BeginsProgram (missingBody.take j) ↔ j ≤ k := by
  intro failure
  have hn : Parser.Numerals missingBody := by decide
  have h : parse .strict missingBody = .error failure := by rfl
  exact ⟨hn, h, parse_strict_fails_at_first_misfit hn h⟩

end Boli
