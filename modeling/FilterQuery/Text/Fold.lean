import FilterQuery.Text.LowerCase

/-!
# Simple case folding

Two characters are the same letter up to case when they have the same simple folding. It is the
lower case of the character, with three exceptions. Compatibility forms fold to the plain letter.
Cherokee, whose small letters are the younger ones, folds to its capitals. The folding is the one of
edition 16 of the Unicode standard, so the capitals that edition 17 gave a lower case fold to
themselves. A folding is always one character, so the dotted capital I and the dotless small i fold
to themselves as well.
-/

namespace FilterQuery.Text

/-- The characters whose simple folding is not their lower case. -/
def foldRuns : List CaseRun := [
  ⟨0xB5, 0xB5, 1, 0x3BC⟩, ⟨0x17F, 0x17F, 1, 0x73⟩, ⟨0x345, 0x345, 1, 0x3B9⟩,
  ⟨0x3C2, 0x3C2, 1, 0x3C3⟩, ⟨0x3D0, 0x3D0, 1, 0x3B2⟩, ⟨0x3D1, 0x3D1, 1, 0x3B8⟩,
  ⟨0x3D5, 0x3D5, 1, 0x3C6⟩, ⟨0x3D6, 0x3D6, 1, 0x3C0⟩, ⟨0x3F0, 0x3F0, 1, 0x3BA⟩,
  ⟨0x3F1, 0x3F1, 1, 0x3C1⟩, ⟨0x3F5, 0x3F5, 1, 0x3B5⟩, ⟨0x13A0, 0x13F5, 1, 0x13A0⟩,
  ⟨0x13F8, 0x13FD, 1, 0x13F0⟩, ⟨0x1C80, 0x1C80, 1, 0x432⟩, ⟨0x1C81, 0x1C81, 1, 0x434⟩,
  ⟨0x1C82, 0x1C82, 1, 0x43E⟩, ⟨0x1C83, 0x1C84, 1, 0x441⟩, ⟨0x1C85, 0x1C85, 1, 0x442⟩,
  ⟨0x1C86, 0x1C86, 1, 0x44A⟩, ⟨0x1C87, 0x1C87, 1, 0x463⟩, ⟨0x1C88, 0x1C88, 1, 0xA64B⟩,
  ⟨0x1E9B, 0x1E9B, 1, 0x1E61⟩, ⟨0x1FBE, 0x1FBE, 1, 0x3B9⟩, ⟨0x1FD3, 0x1FD3, 1, 0x390⟩,
  ⟨0x1FE3, 0x1FE3, 1, 0x3B0⟩, ⟨0xA7CE, 0xA7CE, 1, 0xA7CE⟩, ⟨0xA7D2, 0xA7D4, 2, 0xA7D2⟩,
  ⟨0xAB70, 0xABBF, 1, 0x13A0⟩, ⟨0xFB05, 0xFB05, 1, 0xFB06⟩, ⟨0x16EA0, 0x16EB8, 1, 0x16EA0⟩]

/-- The simple folding of a character. -/
def foldChar (c : Char) : Char :=
  match CaseRun.lookup? foldRuns c.toNat with
  | some n => Char.ofNat n
  | none => lowerChar c

/-- Whether two characters are equal, or equal up to case when `ignoreCase` is set. -/
def sameChar (ignoreCase : Bool) (a b : Char) : Bool :=
  if ignoreCase then foldChar a == foldChar b else a == b

end FilterQuery.Text
