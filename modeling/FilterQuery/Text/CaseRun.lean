/-!
# Case mappings given by runs

Most letters with a case partner stand in runs: a block of capitals followed by its block of small
letters, or capitals and small letters alternating. A mapping is a list of such runs in ascending
order of their first letters.
-/

namespace FilterQuery.Text

/-- A run of code points, `stride` apart from `first` to `last`, whose images start at `target` and
keep the same distances. -/
structure CaseRun where
  first : Nat
  last : Nat
  stride : Nat
  target : Nat

namespace CaseRun

/-- Whether the run maps code point `n`. -/
def covers (r : CaseRun) (n : Nat) : Bool :=
  r.first ≤ n && n ≤ r.last && (n - r.first) % r.stride == 0

/-- The image of a code point that the run covers. -/
def apply (r : CaseRun) (n : Nat) : Nat := r.target + (n - r.first)

/-- The image of `n` under the first of the ascending runs that covers it, if one does. -/
def lookup? : List CaseRun → Nat → Option Nat
  | [], _ => none
  | r :: rest, n =>
    if n < r.first then none
    else if r.covers n then some (r.apply n)
    else lookup? rest n

/-- A code point with an image is covered by a run that gives this image. -/
theorem exists_run_of_lookup? {rs : List CaseRun} {n m : Nat} (h : lookup? rs n = some m) :
    ∃ r ∈ rs, r.covers n = true ∧ m = r.apply n := by
  induction rs with
  | nil => simp [lookup?] at h
  | cons r rest ih =>
    rw [lookup?] at h
    split at h
    · simp at h
    · split at h
      next hc =>
        exact ⟨r, List.mem_cons_self, hc, (Option.some.inj h).symm⟩
      next =>
        obtain ⟨r', hr', hc⟩ := ih h
        exact ⟨r', List.mem_cons_of_mem _ hr', hc⟩

end CaseRun

end FilterQuery.Text
