import Mathlib.Data.List.Induction
import Mathlib.Data.List.TakeWhile
import Mathlib.Data.Nat.Digits.Defs
import FilterQuery.Literal
import FilterQuery.Text.Blank

/-!
# Words that are numbers

What a bare word has to look like to be read as a number, and that the text of an integer is read
back as this integer.
-/

namespace FilterQuery.Literal

/-- Figures are read by their places, ten times as much for each place to the left. -/
theorem readFigures_eq_ofDigits (figures : List Char) :
    readFigures figures = Nat.ofDigits 10 (figures.reverse.map fun c => c.toNat - '0'.toNat) := by
  -- the reader goes from left to right, so the last figure is the one to split off
  induction figures using List.reverseRecOn with
  | nil => rfl
  | append_singleton figures c ih =>
    rw [List.reverse_append, List.reverse_singleton, List.singleton_append, List.map_cons,
      Nat.ofDigits_cons, ← ih, readFigures, List.foldl_append, Nat.add_comm]
    rfl

/-- The figures on the left weigh more by the number of places on the right, as in the two parts of
a decimal. -/
theorem readFigures_append (left right : List Char) :
    readFigures (left ++ right) = readFigures left * 10 ^ right.length + readFigures right := by
  rw [readFigures_eq_ofDigits, readFigures_eq_ofDigits left, readFigures_eq_ofDigits right,
    List.reverse_append, List.map_append, Nat.ofDigits_append, List.length_map, List.length_reverse,
    Nat.mul_comm, Nat.add_comm]

/-- The figures of a number are read back as this number. This holds of every number; the bound of
64 bits comes in only where the integer is made. -/
theorem readFigures_toDigits (n : Nat) : readFigures (Nat.toDigits 10 n) = n := by
  have := Nat.ofDigitChars_ten_toDigits (n := n)
  rwa [Nat.ofDigitChars_eq_foldl] at this

theorem splitSign_cons_of_isDigit {c : Char} (hc : c.isDigit = true) (cs : List Char) :
    splitSign (c :: cs) = (false, c :: cs) := by
  have hplus : c ≠ '+' := by rintro rfl; exact absurd hc (by decide)
  have hminus : c ≠ '-' := by rintro rfl; exact absurd hc (by decide)
  rw [splitSign]
  · exact fun _ h => hplus (List.cons.inj h).1
  · exact fun _ h => hminus (List.cons.inj h).1

/-- Figures only, after an optional minus sign, are an integer that the type can hold. -/
theorem readNumber?_of_figures {figures : List Char} (hne : figures ≠ [])
    (hfigures : ∀ c ∈ figures, c.isDigit = true) {word : List Char} {negative : Bool}
    (hsign : splitSign word = (negative, figures)) {n : Int}
    (hn : n = if negative then -(readFigures figures : Int) else readFigures figures)
    (hmin : leastInteger ≤ n) (hmax : n ≤ greatestInteger) :
    readNumber? word = some (.integer n) := by
  have htake : figures.takeWhile Char.isDigit = figures := List.takeWhile_eq_self_iff.2 hfigures
  have hdrop : figures.dropWhile Char.isDigit = [] := List.dropWhile_eq_nil_iff.2 hfigures
  unfold readNumber?
  simp only [hsign, htake, hdrop, List.isEmpty_iff, hne, if_false, ← hn, hmin, hmax, and_self,
    if_true]

/-- A word that is a number is not one of the truth values. So the order in which the two are tried
does not matter. -/
theorem ofWord_of_readNumber? {word : String} {n : Number}
    (h : readNumber? word.toList = some n) : ofWord word = .number n := by
  -- neither of the two words is read as a number
  have htrue : word ≠ "true" := by
    rintro rfl
    cases h
  have hfalse : word ≠ "false" := by
    rintro rfl
    cases h
  simp only [ofWord, htrue, hfalse, if_false, h]

/-- The text of an integer is read back as this integer, if it has 64 bits. -/
theorem ofWord_writeInt {n : Int} (hmin : leastInteger ≤ n) (hmax : n ≤ greatestInteger) :
    ofWord (Number.writeInt n) = .number (.integer n) := by
  apply ofWord_of_readNumber?
  cases n with
  | ofNat n =>
    have hdigits : ∀ c ∈ Nat.toDigits 10 n, c.isDigit = true :=
      fun c hc => Nat.isDigit_of_mem_toDigits (by decide) (by decide) hc
    have hsign : splitSign (Nat.toDigits 10 n) = (false, Nat.toDigits 10 n) := by
      obtain ⟨c, cs, hcs⟩ := List.exists_cons_of_ne_nil (Nat.toDigits_ne_nil (n := n) (b := 10))
      rw [hcs] at hdigits ⊢
      exact splitSign_cons_of_isDigit (hdigits c List.mem_cons_self) cs
    rw [Number.writeInt, String.toList_ofList]
    refine readNumber?_of_figures Nat.toDigits_ne_nil hdigits hsign ?_ hmin hmax
    rw [readFigures_toDigits]
    rfl
  -- a minus sign comes first and is split off again
  | negSucc n =>
    have hdigits : ∀ c ∈ Nat.toDigits 10 (n + 1), c.isDigit = true :=
      fun c hc => Nat.isDigit_of_mem_toDigits (by decide) (by decide) hc
    have hsign : splitSign ('-' :: Nat.toDigits 10 (n + 1)) = (true, Nat.toDigits 10 (n + 1)) := rfl
    rw [Number.writeInt, String.toList_ofList]
    refine readNumber?_of_figures Nat.toDigits_ne_nil hdigits hsign ?_ hmin hmax
    rw [readFigures_toDigits]
    rfl

/-- Whether a character can stand in a number. -/
def isNumeral (c : Char) : Bool := c.isDigit || c == '+' || c == '-' || c == '.'

/-- A character of a word is a sign in front of it or stands in its body. -/
theorem mem_of_mem_splitSign {word : List Char} {c : Char} (h : c ∈ word) :
    c = '+' ∨ c = '-' ∨ c ∈ (splitSign word).2 := by
  unfold splitSign
  split
  · rcases List.mem_cons.1 h with rfl | h
    · exact .inl rfl
    · exact .inr (.inr h)
  · rcases List.mem_cons.1 h with rfl | h
    · exact .inr (.inl rfl)
    · exact .inr (.inr h)
  · exact .inr (.inr h)

/-- A word that is a number is not empty, and holds figures, signs and points only. So none of its
characters could have ended the word, and a number can be written as one. -/
theorem isNumeral_of_readNumber? {word : List Char} {n : Number} (h : readNumber? word = some n) :
    word ≠ [] ∧ ∀ c ∈ word, isNumeral c = true := by
  have hne : word ≠ [] := by
    rintro rfl
    cases h
  refine ⟨hne, fun c hc => ?_⟩
  -- what follows the sign is figures, or figures with a point between them
  have hbody : ∀ d ∈ (splitSign word).2, isNumeral d = true := by
    intro d hd
    rw [← List.takeWhile_append_dropWhile (p := Char.isDigit) (l := (splitSign word).2)] at hd
    rcases List.mem_append.1 hd with hd | hd
    · have := List.mem_takeWhile_imp hd
      simp [isNumeral, this]
    · unfold readNumber? at h
      simp only at h
      split at h
      · cases h
      · split at h
        · next hdrop => rw [hdrop] at hd; cases hd
        · next fraction hdrop =>
          rw [hdrop] at hd
          split at h
          · next hfraction =>
            simp only [Bool.and_eq_true, List.all_eq_true] at hfraction
            rcases List.mem_cons.1 hd with rfl | hd
            · rfl
            · simp [isNumeral, hfraction.2 d hd]
          · cases h
        · cases h
  rcases mem_of_mem_splitSign hc with rfl | rfl | hc
  · rfl
  · rfl
  · exact hbody c hc

/-- A word that is typed as a number has been read as this number. -/
theorem readNumber?_of_ofWord {word : String} {n : Number} (h : ofWord word = .number n) :
    readNumber? word.toList = some n := by
  unfold ofWord at h
  split at h
  · cases h
  · split at h
    · cases h
    · split at h
      · next hread => cases h; exact hread
      · cases h

end FilterQuery.Literal
