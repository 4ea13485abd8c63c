/-!
# Selectors

A selector names the field that a constraint is about: a field of the document itself, or a field of
what stands under one association of it. Its path joins the two by a dot, and a path is read back by
splitting it there.
-/

namespace FilterQuery

/-- The field a constraint applies to, with the association it belongs to, if any. -/
structure Selector where
  association : Option String
  field : String
deriving DecidableEq

namespace Selector

/-- The selector as it is written in a query. -/
def path (s : Selector) : String :=
  match s.association with
  | some association => association ++ "." ++ s.field
  | none => s.field

/-- Reads a path: one segment, or two joined by a dot; a segment is not empty and holds no dot. -/
def ofPath? (path : String) : Option Selector :=
  let first := path.toList.takeWhile (· != '.')
  if first.isEmpty then none
  else match path.toList.dropWhile (· != '.') with
    | [] => some ⟨none, String.ofList first⟩
    | _ :: second =>
      if second.isEmpty || second.contains '.' then none
      else some ⟨some (String.ofList first), String.ofList second⟩

/-- The path of a selector that was read from a text is this text. -/
theorem path_of_ofPath? {text : String} {s : Selector} (h : ofPath? text = some s) :
    s.path = text := by
  have split : text.toList.takeWhile (· != '.') ++ text.toList.dropWhile (· != '.') =
      text.toList := List.takeWhile_append_dropWhile
  unfold ofPath? at h
  simp only at h
  split at h
  · simp at h
  · split at h
    next hrest =>
      obtain rfl := Option.some.inj h
      rw [hrest, List.append_nil] at split
      simp [path, split]
    next dot second hrest =>
      have hdot : dot = '.' := by
        have := List.head?_dropWhile_not (fun c : Char => c != '.') text.toList
        rw [hrest] at this
        simpa using this
      split at h
      · simp at h
      · obtain rfl := Option.some.inj h
        apply String.toList_inj.1
        rw [hrest, hdot] at split
        simp [path, split]

end Selector

end FilterQuery
