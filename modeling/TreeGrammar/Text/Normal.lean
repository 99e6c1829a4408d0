import TreeGrammar.Text.Normal.Classes
import TreeGrammar.Text.Normal.Pairs
import TreeGrammar.Text.Normal.Sequences
import TreeGrammar.Text.Normal.Variants

/-!
The normal form of names, in which spellings that stand for the same letters are equal: first every
character is replaced by what it stands for, then marks are put in order, then letters and their
marks are composed again. The tables hold the characters that names may be made of.
-/
namespace TreeGrammar.Text

/-- The first syllable of Hangul, its first leading consonant and vowel, and what comes before its
first trailing consonant. -/
def hangulBases : Nat × Nat × Nat × Nat := (0xac00, 0x1100, 0x1161, 0x11a7)

/-- The vowels, the trailing consonants with none of them as the first, and the leading ones. -/
def hangulCounts : Nat × Nat × Nat := (21, 28, 19)

/-- The parts of a syllable of Hangul. -/
def hangulParts (c : Nat) : Option (List Nat) :=
  let (syllable, leading, vowel, trailing) := hangulBases
  let (vowels, trailings, leadings) := hangulCounts
  let n := c - syllable
  if syllable ≤ c && n < leadings * vowels * trailings then
    some ([leading + n / (vowels * trailings), vowel + n / trailings % vowels] ++
      if n % trailings = 0 then [] else [trailing + n % trailings])
  else none

/-- The syllable that two parts of Hangul make. -/
def hangulPair (a b : Nat) : Option Nat :=
  let (syllable, leading, vowel, trailing) := hangulBases
  let (vowels, trailings, leadings) := hangulCounts
  if leading ≤ a && a < leading + leadings && vowel ≤ b && b < vowel + vowels then
    some (syllable + ((a - leading) * vowels + (b - vowel)) * trailings)
  else if syllable ≤ a && a < syllable + leadings * vowels * trailings &&
      (a - syllable) % trailings == 0 && trailing < b && b < trailing + trailings then
    some (a + (b - trailing))
  else none

/-- What a variant of a character stands for. -/
def variantOf (c : Nat) : Option Nat :=
  variants.findSome? fun (first, targets) =>
    if first ≤ c then targets[c - first]? else none

/-- What a character stands for. -/
def partsOf (c : Nat) : Option (List Nat) :=
  (hangulParts c).or
    (((composedPairs.find? fun p => p.1 == c).map fun p => [p.2.1, p.2.2]).or
      (((variantOf c).map fun d => [d]).or (sequences.lookup c)))

/-- The greatest number of times that what a character stands for can be replaced again. -/
def partsDepth : Nat := 4

/-- A character with what it stands for put in its place, at most as many times as the first
argument says. -/
def decompose : Nat → Nat → List Nat
  | 0, c => [c]
  | depth + 1, c =>
    if c < 0x80 then [c]
    else
      match partsOf c with
      | some parts => parts.flatMap (decompose depth)
      | none => [c]

/-- Puts a character after others, last one first; a mark goes before those of a higher class. -/
def insertMark (c : Nat) : List Nat → List Nat
  | [] => [c]
  | d :: rest =>
    if combiningClass c ≠ 0 ∧ combiningClass c < combiningClass d then d :: insertMark c rest
    else c :: d :: rest

/-- Characters with their marks in order. -/
def orderMarks (cs : List Nat) : List Nat :=
  (cs.foldl (fun done c => insertMark c done) []).reverse

/-- The character that two others make. -/
def pairOf (a b : Nat) : Option Nat :=
  (hangulPair a b).or ((composedPairs.find? fun p => p.2.1 == a && p.2.2 == b).map Prod.fst)

/-- Composes characters. `base` is the last one that is no mark, `marks` are those after it that are
not composed with it, last one first; a mark is cut off from the base by one whose class is not
lower. -/
def composeFrom (base : Nat) (marks : List Nat) : List Nat → List Nat
  | [] => base :: marks.reverse
  | c :: rest =>
    let cutOff := match marks with
      | [] => false
      | mark :: _ => combiningClass c ≤ combiningClass mark
    match if cutOff then none else pairOf base c with
    | some pair => composeFrom pair marks rest
    | none =>
      if combiningClass c = 0 then base :: marks.reverse ++ composeFrom c [] rest
      else composeFrom base (c :: marks) rest

/-- Letters and their marks as single characters where there are such. -/
def compose : List Nat → List Nat
  | [] => []
  | c :: rest => composeFrom c [] rest

/-- The normal form of a text. A text of ASCII characters is its own. -/
def normalForm (s : String) : String :=
  if s.toList.all fun c => c.toNat < 0x80 then s
  else
    let parts := s.toList.flatMap fun c => decompose partsDepth c.toNat
    String.ofList ((compose (orderMarks parts)).map Char.ofNat)

end TreeGrammar.Text
