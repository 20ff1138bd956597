/-!
# Texts

What is common to reading texts.  Tokens are read with the blanks around them
removed, whole numbers are runs of ASCII digits, and a text is split at the
leftmost occurrence of a mark: ranges at their slash, durations at the letter
that opens their time part, and templates at the signs around a variable.
-/

namespace LayerAxes
namespace Text

/-!
# Blanks

A blank is a character with the Unicode property White_Space, which is wider
than the ASCII blanks: the no-break space, the line separators and the
ideographic space belong to it.
-/

/-- The code points with the property White_Space, as closed ranges. -/
def blankRanges : List (Nat × Nat) :=
  [(0x09, 0x0D), (0x20, 0x20), (0x85, 0x85), (0xA0, 0xA0), (0x1680, 0x1680),
    (0x2000, 0x200A), (0x2028, 0x2029), (0x202F, 0x202F), (0x205F, 0x205F),
    (0x3000, 0x3000)]

def isBlank (c : Char) : Bool :=
  blankRanges.any fun range => range.1 ≤ c.toNat && c.toNat ≤ range.2

def skipBlanks (cs : List Char) : List Char :=
  cs.dropWhile isBlank

def trim (cs : List Char) : List Char :=
  (skipBlanks (skipBlanks cs).reverse).reverse

theorem skipBlanks_eq_self_of_head {c : Char} {cs : List Char} (h : isBlank c = false) :
    skipBlanks (c :: cs) = c :: cs := by
  simp [skipBlanks, h]

/-!
# Decimal digits
-/

def digitsValue (cs : List Char) : Nat :=
  Nat.ofDigitChars 10 cs 0

def whole? (cs : List Char) : Option Nat :=
  if !cs.isEmpty && cs.all Char.isDigit then some (digitsValue cs) else none

def spanDigits (cs : List Char) : List Char × List Char :=
  (cs.takeWhile Char.isDigit, cs.dropWhile Char.isDigit)

def digits (n : Nat) : List Char :=
  Nat.toDigits 10 n

def padded (width n : Nat) : List Char :=
  List.replicate (width - (digits n).length) '0' ++ digits n

theorem digitsValue_digits (n : Nat) : digitsValue (digits n) = n :=
  Nat.ofDigitChars_toDigits (by decide) (by decide)

/-!
# Marks
-/

/--
The text before the leftmost occurrence of `mark`, and the text after it.
-/
def cut? (mark : List Char) : List Char -> Option (List Char × List Char)
  | [] => if mark.isEmpty then some ([], []) else none
  | c :: cs =>
      match mark.isPrefixOf? (c :: cs) with
      | some rest => some ([], rest)
      | none => (cut? mark cs).map fun parts => (c :: parts.1, parts.2)

theorem append_of_isPrefixOf? {mark cs rest : List Char} (h : mark.isPrefixOf? cs = some rest) :
    mark ++ rest = cs := by
  induction mark generalizing cs with
  | nil => exact (Option.some.inj h).symm
  | cons c mark ih =>
      cases cs with
      | nil => cases h
      | cons d cs =>
          change (if c == d then mark.isPrefixOf? cs else none) = some rest at h
          rcases Option.ite_none_right_eq_some.mp h with ⟨hSame, hRest⟩
          rw [List.cons_append, ih hRest, eq_of_beq hSame]

theorem append_of_cut?_eq_some {mark cs before after : List Char}
    (h : cut? mark cs = some (before, after)) : before ++ mark ++ after = cs := by
  induction cs generalizing before with
  | nil =>
      unfold cut? at h
      split at h
      · rename_i hEmpty
        cases h
        rw [List.isEmpty_iff.mp hEmpty]
        rfl
      · cases h
  | cons c cs ih =>
      unfold cut? at h
      split at h
      · rename_i rest hPrefix
        cases h
        exact append_of_isPrefixOf? hPrefix
      · rcases Option.map_eq_some_iff.mp h with ⟨⟨inner, rest⟩, hInner, hParts⟩
        cases hParts
        rw [List.cons_append, List.cons_append, ih hInner]

theorem cut?_length {mark cs before after : List Char} (h : cut? mark cs = some (before, after)) :
    cs.length = before.length + mark.length + after.length := by
  rw [← append_of_cut?_eq_some h, List.length_append, List.length_append]

def cutAt? (c : Char) (cs : List Char) : Option (List Char × List Char) :=
  cut? [c] cs

def dropLast? (c : Char) (cs : List Char) : Option (List Char) :=
  if cs.getLast? = some c then some cs.dropLast else none

end Text
end LayerAxes
