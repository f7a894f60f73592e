import Boli.Json.Reader
import Boli.Proofs.Results

/-!
# Surrogates in JSON

Texts in JSON that differ in nothing but a lone surrogate are different texts, two keys of an object
for example. What is read has characters in the place of surrogates. None of these can come from
anything else in the whole text, so that what a text holds can be told from what is read
(`ofText_of_readText`), and texts that differ are read as texts that differ (`readText_inj`).
-/

set_option autoImplicit false

namespace Boli.Json

open Boli.Text (Block CodePoint Loose)

variable {block : Block} {n : Nat}

/-! ## Characters outside a block -/

theorem bounds_of_mem_privateBlocks :
    ∀ first ∈ Text.privateBlocks, 0xE000 ≤ first ∧ first % 0x400 = 0 := by decide

theorem holds_of_lt (h : n < 0xE000) : block.holds n = false := by
  have hfirst := (bounds_of_mem_privateBlocks _ block.mem).1
  rw [Block.holds, decide_eq_false (by omega), Bool.false_and]

/-- Blocks do not divide the characters that a high surrogate may begin. -/
theorem holds_add {low : Nat} (h : n % 0x400 = 0) (hlow : low < 0x400) :
    block.holds (n + low) = block.holds n := by
  have hfirst := (bounds_of_mem_privateBlocks _ block.mem).2
  have hstart : block.first ≤ n + low ↔ block.first ≤ n := by omega
  have hend : n + low < block.first + 2048 ↔ n < block.first + 2048 := by omega
  rw [Block.holds, Block.holds, decide_eq_decide.mpr hstart, decide_eq_decide.mpr hend]

theorem holds_ofNat (h : block.holds n = false) : block.holds (Char.ofNat n).toNat = false := by
  by_cases hvalid : n.isValidChar
  · rw [Char.ofNat, dif_pos hvalid]
    exact h
  · rw [Char.ofNat, dif_neg hvalid]
    exact holds_of_lt (by decide)

theorem mention_of_not_high (h : isHighSurrogate n = false) : mention n = n := by
  rw [mention, h, if_neg Bool.false_ne_true]

theorem mention_toNat (c : Char) : mention c.toNat = c.toNat := by
  refine mention_of_not_high ?_
  have hvalid : c.toNat < 0xD800 ∨ 0xDFFF < c.toNat ∧ c.toNat < 0x110000 := c.valid
  rw [isHighSurrogate, Bool.and_eq_false_iff, decide_eq_false_iff_not, decide_eq_false_iff_not]
  omega

theorem holds_of_ofNat_eq {c : Char} (h : block.holds (mention n) = false)
    (hc : CodePoint.ofNat n = .char c) : block.holds c.toNat = false := by
  unfold CodePoint.ofNat at hc
  split at hc
  next => cases hc
  next hrange =>
    cases hc
    have hlow : isHighSurrogate n = false := by
      rw [isHighSurrogate, Bool.and_eq_false_iff, decide_eq_false_iff_not, decide_eq_false_iff_not]
      omega
    rw [mention_of_not_high hlow] at h
    exact holds_ofNat h

theorem holds_pair {high low : Nat} (h : block.holds (mention high) = false)
    (hpair : (isHighSurrogate high && isLowSurrogate low) = true) :
    block.holds (Char.ofNat (0x10000 + (high - 0xD800) * 0x400 + (low - 0xDC00))).toNat = false := by
  obtain ⟨hhigh, hlow⟩ := Bool.and_eq_true_iff.mp hpair
  rw [mention, hhigh, if_pos rfl] at h
  have hbound : low ≤ 0xDFFF := of_decide_eq_true (Bool.and_eq_true_iff.mp hlow).2
  refine holds_ofNat ?_
  rwa [holds_add (by omega) (by omega)]

/-- The characters of a text, pairs of surrogates joined, are outside a block that holds nothing its
code points mention. -/
theorem holds_of_mem_joinSurrogates : ∀ {ns : List Nat},
    (∀ n ∈ ns, block.holds (mention n) = false) → ∀ c, .char c ∈ joinSurrogates ns →
      block.holds c.toNat = false := by
  intro ns
  fun_induction joinSurrogates ns with
  | case1 => exact fun _ _ hc => nomatch hc
  | case2 n =>
    intro h c hc
    exact holds_of_ofNat_eq (h n List.mem_cons_self) (List.mem_singleton.mp hc).symm
  | case3 high low rest hpair ih =>
    intro h c hc
    rcases List.mem_cons.mp hc with hc | hc
    · rw [CodePoint.char.inj hc]
      exact holds_pair (h high List.mem_cons_self) hpair
    · exact ih (fun n hn => h n (List.mem_cons_of_mem _ (List.mem_cons_of_mem _ hn))) c hc
  | case4 high low rest hpair ih =>
    intro h c hc
    rcases List.mem_cons.mp hc with hc | hc
    · exact holds_of_ofNat_eq (h high List.mem_cons_self) hc.symm
    · exact ih (fun n hn => h n (List.mem_cons_of_mem _ hn)) c hc

/-! ## What a text mentions -/

theorem mentioned_subset_of_suffix {cs whole : List Char} (h : cs <:+ whole) :
    mentioned cs ⊆ mentioned whole := by
  obtain ⟨before, rfl⟩ := h
  induction before with
  | nil => exact fun _ h => h
  | cons c before ih => exact fun n hn => List.mem_cons_of_mem _ (List.mem_append_right _ (ih hn))

theorem toNat_mem_mentioned {c : Char} {cs : List Char} (h : c ∈ cs) : c.toNat ∈ mentioned cs := by
  obtain ⟨before, after, rfl⟩ := List.append_of_mem h
  exact mentioned_subset_of_suffix (List.suffix_append before (c :: after)) List.mem_cons_self

theorem letterEscape?_cases {e : Char} (h : letterEscape? e = some n) : n < 0x20 ∨ n = e.toNat := by
  unfold letterEscape? at h
  split at h
  · exact .inr (Option.some.inj h).symm
  · left
    repeat' split at h
    all_goals cases h
    all_goals decide

/-- A code point in front of others is mentioned as they are. -/
theorem mention_mem_of_map (front : List Char) {tail rest : List Char} {ns : List Nat}
    (hfirst : n < 0x20 ∨ mention n ∈ mentioned (front ++ tail))
    (ih : ∀ {ns : List Nat} {rest : List Char}, readUnits tail = .ok (ns, rest) →
      ∀ m ∈ ns, m < 0x20 ∨ mention m ∈ mentioned tail)
    (h : (fun (ns, rest) => (n :: ns, rest)) <$> readUnits tail = .ok (ns, rest)) :
    ∀ m ∈ ns, m < 0x20 ∨ mention m ∈ mentioned (front ++ tail) := by
  obtain ⟨⟨later, rest'⟩, hread, heq⟩ := Results.exists_of_map_eq_ok h
  cases heq
  intro m hm
  rcases List.mem_cons.mp hm with rfl | hm
  · exact hfirst
  · exact (ih hread m hm).imp_right fun hmem =>
      mentioned_subset_of_suffix (List.suffix_append front tail) hmem

/-- The code points of a text are mentioned where it stands, but for those of the escapes for control
characters. -/
theorem mention_mem_of_readUnits {cs : List Char} : ∀ {ns : List Nat} {rest : List Char},
    readUnits cs = .ok (ns, rest) → ∀ n ∈ ns, n < 0x20 ∨ mention n ∈ mentioned cs := by
  fun_induction readUnits cs with
  | case1 | case3 | case4 | case6 | case7 | case9 => exact nofun
  | case2 tail =>
    intro ns rest h
    cases h
    exact nofun
  | case5 a b c d tail n hhex _ ih =>
    intro ns rest
    refine mention_mem_of_map ['\\', 'u', a, b, c, d] (.inr ?_) ih
    refine List.mem_cons_of_mem _ (List.mem_append_left _ ?_)
    simp [escapedNumber?, hhex]
  | case8 e tail _ n hletter _ ih =>
    intro ns rest
    refine mention_mem_of_map ['\\', e] ?_ ih
    refine (letterEscape?_cases hletter).imp_right fun hn => ?_
    rw [hn, mention_toNat]
    exact toNat_mem_mentioned (by simp)
  | case10 c tail _ _ _ ih =>
    intro ns rest
    refine mention_mem_of_map [c] (.inr ?_) ih
    rw [mention_toNat]
    exact toNat_mem_mentioned List.mem_cons_self

/-! ## Reading texts -/

section

variable {whole cs cs' rest rest' : List Char} {s s' : String}

/-- A text that stands in a whole one can be told from what is read, surrogates and all, as long as the
whole text leaves characters that can stand for them. -/
theorem ofText_of_readText (hfree : ∃ b : Block, ∀ n ∈ mentioned whole, b.holds n = false)
    (hcs : cs <:+ whole) (h : readText (standIns whole) cs = .ok (s, rest)) :
    ∃ ns, readUnits cs = .ok (ns, rest) ∧ Loose.ofText (standIns whole) s = joinSurrogates ns := by
  obtain ⟨⟨ns, rest'⟩, hunits, heq⟩ := Results.exists_of_map_eq_ok h
  cases heq
  refine ⟨ns, hunits, Loose.ofText_text fun c hc => ?_⟩
  refine holds_of_mem_joinSurrogates (fun n hn => ?_) c (Loose.mem_chars_iff.mp hc)
  rcases mention_mem_of_readUnits hunits n hn with hlow | hmem
  · have hhigh : isHighSurrogate n = false := by
      rw [isHighSurrogate, decide_eq_false (by omega), Bool.false_and]
    rw [mention_of_not_high hhigh]
    exact holds_of_lt (by omega)
  · exact Block.free_holds hfree _ (mentioned_subset_of_suffix hcs hmem)

/-- Two texts in a whole one are read as one text just if they have the same code points. -/
theorem readText_inj (hfree : ∃ b : Block, ∀ n ∈ mentioned whole, b.holds n = false)
    (hcs : cs <:+ whole) (hcs' : cs' <:+ whole)
    (h : readText (standIns whole) cs = .ok (s, rest))
    (h' : readText (standIns whole) cs' = .ok (s', rest')) :
    s = s' ↔ ∃ ns ns', readUnits cs = .ok (ns, rest) ∧ readUnits cs' = .ok (ns', rest') ∧
      joinSurrogates ns = joinSurrogates ns' := by
  obtain ⟨ns, hunits, hpoints⟩ := ofText_of_readText hfree hcs h
  obtain ⟨ns', hunits', hpoints'⟩ := ofText_of_readText hfree hcs' h'
  constructor
  · rintro rfl
    exact ⟨ns, ns', hunits, hunits', hpoints.symm.trans hpoints'⟩
  · rintro ⟨ms, ms', hms, hms', hsame⟩
    unfold readText at h h'
    rw [hms] at h
    rw [hms'] at h'
    cases h
    cases h'
    rw [hsame]

/-- Two surrogates are two texts. -/
example : (read "[\"\\ud800\", \"\\ud801\"]".toList).toOption =
    some (array [text "\uE000", text "\uE001"]) := by decide +kernel

end

end Boli.Json
