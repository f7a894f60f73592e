import Boli.Text.Quoted
import Boli.Text.Utf8

/-!
Texts with lone surrogates.

An argument of the command line or a text in JSON may hold code points from U+D800 to U+DFFF, of
which a pair would stand for a character and a lone one does not. Such a loose text is no sequence of
characters, and it has no UTF-8.

The compiler works on characters. In what it is given, each lone surrogate has a private use
character in its place, out of a block of them that nothing else there is taken from (`Block.free`).
Such a character takes the same way through the compiler as the surrogate would: it is no letter, no
digit, no blank and no mark of the language, and it is not printable. Where a text is encoded it has
to be known which of its characters stand for surrogates (`Loose.ofText`).
-/

set_option autoImplicit false

namespace Boli.Text

/-! ## Code points -/

/-- A surrogate, by its distance from the first one. -/
abbrev Surrogate : Type := Fin 2048

/-- The code point of a surrogate. -/
def Surrogate.codePoint (s : Surrogate) : Nat := 0xD800 + s

/-- Whether a surrogate stands for a byte in the name of a file that is no UTF-8. -/
def Surrogate.isByte (s : Surrogate) : Bool := 0xDC80 ≤ s.codePoint && s.codePoint ≤ 0xDCFF

/-- A part of a loose text. -/
inductive CodePoint where
  | char (c : Char)
  /-- A surrogate that is not half of a pair. -/
  | lone (s : Surrogate)
  deriving DecidableEq

/-- The code point of a number. -/
def CodePoint.ofNat (n : Nat) : CodePoint :=
  if h : 0xD800 ≤ n ∧ n < 0xE000 then .lone ⟨n - 0xD800, by omega⟩ else .char (Char.ofNat n)

/-- Whether a code point is a surrogate. -/
def CodePoint.isLone : CodePoint → Bool
  | char _ => false
  | lone _ => true

/-! ## Blocks of characters that stand for surrogates -/

/-- Where blocks of 2048 private use characters begin. -/
def privateBlocks : List Nat :=
  (List.range 3).map (0xE000 + 2048 * ·) ++ (List.range 31).map (0xF0000 + 2048 * ·) ++
    (List.range 31).map (0x100000 + 2048 * ·)

/-- A block of private use characters, one for each surrogate. -/
structure Block where
  first : Nat
  mem : first ∈ privateBlocks
  deriving DecidableEq

namespace Block

/-- All of a block's numbers are those of characters. -/
theorem isValidChar (b : Block) (s : Surrogate) : (b.first + s).isValidChar := by
  have hbounds : ∀ n ∈ privateBlocks, 0xDFFF < n ∧ n + 2048 ≤ 0x110000 := by decide
  obtain ⟨hlow, hhigh⟩ := hbounds b.first b.mem
  exact .inr ⟨by omega, by omega⟩

/-- The character that stands for a surrogate. -/
def standIn (b : Block) (s : Surrogate) : Char := Char.ofNat (b.first + s)

/-- Whether a number is the one of a character in the block. -/
def holds (b : Block) (n : Nat) : Bool := b.first ≤ n && n < b.first + 2048

/-- The surrogate that a character stands for, if it is in the block. -/
def surrogate? (b : Block) (c : Char) : Option Surrogate :=
  if h : b.first ≤ c.toNat ∧ c.toNat < b.first + 2048 then some ⟨c.toNat - b.first, by omega⟩
  else none

theorem surrogate?_standIn (b : Block) (s : Surrogate) : b.surrogate? (b.standIn s) = some s := by
  have hnat : (b.standIn s).toNat = b.first + s := by
    rw [standIn, Char.ofNat, dif_pos (b.isValidChar s)]
    rfl
  have hlt : b.first + s < b.first + 2048 := Nat.add_lt_add_left s.isLt _
  rw [surrogate?, dif_pos ⟨by omega, by omega⟩, Option.some.injEq, Fin.ext_iff]
  show (b.standIn s).toNat - b.first = s
  omega

theorem surrogate?_of_not_holds {b : Block} {c : Char} (h : b.holds c.toNat = false) :
    b.surrogate? c = none := by
  rw [holds, Bool.and_eq_false_iff, decide_eq_false_iff_not, decide_eq_false_iff_not] at h
  exact dif_neg fun hin => h.elim (· hin.1) (· hin.2)

/-- The first of all blocks. -/
def default : Block := ⟨0xE000, by decide⟩

/-- All blocks. -/
def all : List Block := privateBlocks.attach.map fun n => ⟨n.1, n.2⟩

theorem mem_all (b : Block) : b ∈ all := List.mem_map.mpr ⟨⟨b.first, b.mem⟩, List.mem_attach _ _, rfl⟩

/-- The first block that holds none of the numbers, if there is one. -/
def free (used : List Nat) : Block :=
  (all.find? fun b => used.all fun n => !b.holds n).getD default

/-- A block that is free is found. -/
theorem free_holds {used : List Nat} (h : ∃ b : Block, ∀ n ∈ used, b.holds n = false) :
    ∀ n ∈ used, (free used).holds n = false := by
  unfold free
  cases hfind : all.find? fun b => used.all fun n => !b.holds n with
  | none =>
    obtain ⟨b, hb⟩ := h
    refine absurd (List.all_eq_true.mpr fun n hn => ?_) (List.find?_eq_none.mp hfind b (mem_all b))
    rw [hb n hn]
    rfl
  | some b =>
    intro n hn
    have hfound := List.find?_some hfind
    have hnot := List.all_eq_true.mp hfound n hn
    rwa [Bool.not_eq_true'] at hnot

end Block

/-! ## Loose texts -/

/-- A text that may hold lone surrogates. -/
abbrev Loose : Type := List CodePoint

namespace Loose

/-- A text without surrogates. -/
def ofString (s : String) : Loose := s.toList.map .char

/-- The characters of a loose text. -/
def chars (w : Loose) : List Char :=
  w.filterMap fun
    | .char c => some c
    | .lone _ => none

theorem mem_chars_iff {c : Char} {w : Loose} : c ∈ w.chars ↔ .char c ∈ w := by
  constructor
  · intro h
    obtain ⟨p, hp, hc⟩ := List.mem_filterMap.mp h
    cases p with
    | char c' =>
      cases hc
      exact hp
    | lone s => cases hc
  · intro h
    exact List.mem_filterMap.mpr ⟨.char c, h, rfl⟩

/-- A loose text as a text, with characters of a block in the place of surrogates. -/
def text (b : Block) (w : Loose) : String :=
  String.ofList (w.map fun
    | .char c => c
    | .lone s => b.standIn s)

/-- The loose text that a text stands for. -/
def ofText (b : Block) (s : String) : Loose :=
  s.toList.map fun c =>
    match b.surrogate? c with
    | some s => .lone s
    | none => .char c

/-- Nothing gets lost as long as the characters of the text are not in the block. -/
theorem ofText_text {b : Block} {w : Loose} (h : ∀ c ∈ w.chars, b.holds c.toNat = false) :
    ofText b (w.text b) = w := by
  rw [ofText, text, String.toList_ofList, List.map_map]
  refine (List.map_congr_left fun p hp => ?_).trans (List.map_id w)
  cases p with
  | char c =>
    have hc := Block.surrogate?_of_not_holds (h c (mem_chars_iff.mpr hp))
    simp only [Function.comp_apply, hc, id]
  | lone s => simp only [Function.comp_apply, Block.surrogate?_standIn, id]

theorem text_ofString (b : Block) (s : String) : (ofString s).text b = s := by
  rw [ofString, text, List.map_map]
  exact (congrArg String.ofList (List.map_id _)).trans (String.ofList_toList)

theorem not_isLone_of_mem_ofString {s : String} {p : CodePoint} (h : p ∈ ofString s) :
    p.isLone = false := by
  obtain ⟨c, -, rfl⟩ := List.mem_map.mp h
  rfl

end Loose

/-! ## Encoding -/

/-- Why a loose text has no UTF-8. -/
structure Unencodable where
  /-- The first surrogate at fault. -/
  surrogate : Surrogate
  /-- The index of that surrogate. -/
  start : Nat
  /-- How many surrogates stand there in a row. -/
  span : Nat
  deriving DecidableEq

/-- The message that reports a fault: one surrogate is shown by its number, several by their range. -/
def Unencodable.message (f : Unencodable) : String :=
  if f.span = 1 then
    "'utf-8' codec can't encode character '" ++
      String.ofList (escapeCodePoint f.surrogate.codePoint) ++ "' in position " ++
      toString f.start ++ ": surrogates not allowed"
  else
    "'utf-8' codec can't encode characters in position " ++ toString f.start ++ "-" ++
      toString (f.start + f.span - 1) ++ ": surrogates not allowed"

namespace Loose

/-- The first fault of a loose text from index `start` on. Some surrogates may be allowed. -/
def faultFrom? (allowed : Surrogate → Bool) (start : Nat) : Loose → Option Unencodable
  | [] => none
  | .char _ :: rest => faultFrom? allowed (start + 1) rest
  | .lone s :: rest =>
    if allowed s then faultFrom? allowed (start + 1) rest
    else some ⟨s, start, (rest.takeWhile CodePoint.isLone).length + 1⟩

/-- Why a loose text cannot be encoded, if it cannot. -/
def fault? (allowed : Surrogate → Bool) (w : Loose) : Option Unencodable := w.faultFrom? allowed 0

/-- A text can be encoded unless it holds a lone surrogate that is not allowed. -/
theorem fault?_eq_none_iff {allowed : Surrogate → Bool} {w : Loose} :
    w.fault? allowed = none ↔ ∀ s, .lone s ∈ w → allowed s = true := by
  have key : ∀ (w : Loose) (start : Nat),
      w.faultFrom? allowed start = none ↔ ∀ s, .lone s ∈ w → allowed s = true := by
    intro w
    induction w with
    | nil => simp [faultFrom?]
    | cons p rest ih =>
      intro start
      cases p with
      | char c => simp [faultFrom?, ih]
      | lone s =>
        cases hs : allowed s with
        | true => simp [faultFrom?, ih, hs]
        | false => simp [faultFrom?, hs]
  exact key w 0

end Loose

end Boli.Text
