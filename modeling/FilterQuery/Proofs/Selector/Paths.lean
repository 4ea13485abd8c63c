import FilterQuery.Backend.Refusal
import FilterQuery.Proofs.Query.Origin

/-!
# Paths and selectors

A path is the only form in which a selector is compared with what stands outside of a query: the list
of permitted selectors and the aliases are texts. This is safe as long as a path stands for one
selector only.

* `IsPath` says which texts are paths, without reading them. `ofPath?_eq_some_iff` says that reading
  a path and writing it are inverse to one another, on exactly these texts and on the selectors with
  such parts (`HasParts`).
* Without `HasParts` a path is not enough: a dot inside of a part looks like the dot between the
  parts. A parser makes no selector except by reading a path, so all selectors of its queries have
  such parts, from a text or from any tokens (`Query.IsParsed.hasParts`).
* For them, a text is the key of a selector exactly if it is read as the selector (`eq_path_iff`).
  From this follows what a list of permitted selectors and a table of aliases say about them.
-/

namespace FilterQuery

namespace Selector

/-! ## Which texts are paths -/

/-- A part of a path: not empty, and without a dot. -/
structure IsPart (text : String) : Prop where
  ne_empty : text ≠ ""
  dot_notMem : '.' ∉ text.toList

/-- The selector is made of parts. -/
structure HasParts (s : Selector) : Prop where
  field : IsPart s.field
  association : ∀ a ∈ s.association, IsPart a

/-- One part, or two with a dot between them. -/
inductive IsPath : String → Prop where
  | field {field : String} (hfield : IsPart field) : IsPath field
  | qualified {association field : String} (hassociation : IsPart association)
      (hfield : IsPart field) : IsPath (association ++ "." ++ field)

instance : DecidablePred IsPart := fun text =>
  decidable_of_iff (text ≠ "" ∧ '.' ∉ text.toList)
    ⟨fun ⟨hne, hdot⟩ => ⟨hne, hdot⟩, fun h => ⟨h.ne_empty, h.dot_notMem⟩⟩

instance : DecidablePred HasParts := fun s =>
  decidable_of_iff (IsPart s.field ∧ ∀ a ∈ s.association, IsPart a)
    ⟨fun ⟨hfield, hassociation⟩ => ⟨hfield, hassociation⟩, fun h => ⟨h.field, h.association⟩⟩

theorem isPart_iff {text : String} :
    IsPart text ↔ text.toList ≠ [] ∧ ∀ c ∈ text.toList, c ≠ '.' := by
  have hempty : text ≠ "" ↔ text.toList ≠ [] := not_congr String.toList_eq_nil_iff.symm
  have hdot : '.' ∉ text.toList ↔ ∀ c ∈ text.toList, c ≠ '.' :=
    ⟨fun h c hc hc' => h (hc' ▸ hc), fun h hmem => h _ hmem rfl⟩
  rw [← hempty, ← hdot]
  exact ⟨fun h => ⟨h.ne_empty, h.dot_notMem⟩, fun h => ⟨h.1, h.2⟩⟩

/-- Paths are the texts that selectors with parts are written as. -/
theorem isPath_iff {text : String} : IsPath text ↔ ∃ s : Selector, s.HasParts ∧ s.path = text := by
  constructor
  · intro h
    cases h with
    | field hfield => exact ⟨⟨none, text⟩, ⟨hfield, nofun⟩, rfl⟩
    | @qualified a field ha hfield =>
      refine ⟨⟨some a, field⟩, ⟨hfield, ?_⟩, rfl⟩
      rintro _ ⟨⟩
      exact ha
  · rintro ⟨⟨association, field⟩, hs, rfl⟩
    cases association with
    | none => exact .field hs.field
    | some a => exact .qualified (hs.association a rfl) hs.field

/-! ## Reading and writing are inverse -/

theorem HasParts.ofPath?_path {s : Selector} (h : s.HasParts) : ofPath? s.path = some s := by
  obtain ⟨hne, hdot⟩ := isPart_iff.1 h.field
  exact Selector.ofPath?_path hne hdot fun a ha => isPart_iff.1 (h.association a ha)

/-- What is read from a text has parts, since the text is cut at its only dot. -/
theorem hasParts_of_ofPath? {text : String} {s : Selector} (h : ofPath? text = some s) :
    s.HasParts := by
  obtain ⟨⟨hne, hdot⟩, hassociation⟩ := segments_of_ofPath? h
  refine ⟨⟨hne, fun hmem => hdot _ hmem rfl⟩, fun a ha => ?_⟩
  obtain ⟨hne', hdot'⟩ := hassociation a ha
  exact ⟨hne', fun hmem => hdot' _ hmem rfl⟩

/-- A text is read as a selector exactly if the selector has parts and is written as the text. So
reading is a partial inverse of writing, and where it is defined it is a full one. -/
theorem ofPath?_eq_some_iff {text : String} {s : Selector} :
    ofPath? text = some s ↔ s.HasParts ∧ s.path = text := by
  constructor
  · intro h
    exact ⟨hasParts_of_ofPath? h, path_of_ofPath? h⟩
  · rintro ⟨hs, rfl⟩
    exact hs.ofPath?_path

theorem exists_ofPath?_iff {text : String} : (∃ s, ofPath? text = some s) ↔ IsPath text := by
  rw [isPath_iff]
  exact exists_congr fun s => ofPath?_eq_some_iff

-- no dot at the ends, no two dots, and something on both sides of one
example : ["", ".", "a.", ".a", "a..b", "a.b.c", "a.b."].map ofPath? = List.replicate 7 none := by
  decide

-- a dot inside of a part cannot be told from the one between the parts
example : path ⟨some "a", "b.c"⟩ = path ⟨some "a.b", "c"⟩ := by
  decide

/-! ## Texts as keys of selectors -/

/-- A text is the path of a selector with parts exactly if it is read as this selector. This turns a
comparison of texts into one of selectors, for lists and for aliases. -/
theorem HasParts.eq_path_iff {s : Selector} (h : s.HasParts) {key : String} :
    s.path = key ↔ ofPath? key = some s := by
  rw [ofPath?_eq_some_iff, and_iff_right h]

theorem HasParts.path_inj {s s' : Selector} (h : s.HasParts) (h' : s'.HasParts)
    (hpath : s.path = s'.path) : s = s' := by
  have hread : ofPath? s.path = some s' := h'.eq_path_iff.1 hpath.symm
  exact Option.some.inj (h.ofPath?_path.symm.trans hread)

/-- A list of permitted paths permits the selectors that its paths are read as. Entries that are no
paths permit nothing. -/
theorem HasParts.permit_iff {s : Selector} (h : s.HasParts) (paths : List String) :
    s.permit (some paths) = .ok () ↔ some s ∈ paths.map ofPath? := by
  have hpermit : s.permit (some paths) = .ok () ↔ s.path ∈ paths := by
    simp [permit]
  rw [hpermit, List.mem_map]
  constructor
  · intro hmem
    exact ⟨s.path, hmem, h.ofPath?_path⟩
  · rintro ⟨key, hkey, hread⟩
    -- a path of the list that is read as the selector is its path
    rwa [h.eq_path_iff.2 hread]

/-- An alias is looked up for a selector under the first key that is read as the selector. -/
theorem HasParts.lookup_path {s : Selector} (h : s.HasParts) (aliases : List (String × String)) :
    aliases.lookup s.path =
      (aliases.find? fun entry => ofPath? entry.1 = some s).map Prod.snd := by
  induction aliases with
  | nil => rfl
  | cons entry aliases ih =>
    obtain ⟨key, target⟩ := entry
    -- the first entry counts if its key is the path, that is, if the key is read as the selector
    by_cases hkey : s.path = key
    · have hread : ofPath? key = some s := h.eq_path_iff.1 hkey
      rw [List.find?_cons_of_pos (by simpa using hread), hkey, List.lookup_cons_self]
      rfl
    · have hread : ofPath? key ≠ some s := mt h.eq_path_iff.2 hkey
      rw [List.find?_cons_of_neg (by simpa using hread), List.lookup_cons,
        beq_eq_false_iff_ne.2 hkey, ih]

end Selector

/-! ## Selectors of queries that were read -/

namespace Grammar

/-- Each selector of a phrase was read from a word. The tokens may come from anywhere, as no
condition on the characters of words is used. -/
theorem Derives.hasParts {rank : Rank} {ts : List Token} {q : Query} (h : Derives rank ts q) :
    ∀ s ∈ q.selectors, s.HasParts := by
  induction h with
  | alternative _ ih | factor _ ih | group _ ih => exact ih
  | or _ _ ihl ihr | and _ _ ihl ihr => exact List.forall_mem_append.2 ⟨ihl, ihr⟩
  | constraint hq =>
    cases hq with
    | present hs | equality _ hs _ | comparison _ hs _ =>
      exact List.forall_mem_singleton.2 (Selector.hasParts_of_ofPath? hs)

end Grammar

/-- The query was read, from a text or by a call of a parser, whatever its tokens are and however
often it has been asked before. -/
inductive Query.IsParsed : Query → Prop where
  | ofText {text : String} {limits : Limits} {q : Query} (h : parse text limits = .ok q) :
      IsParsed q
  | ofCall {p : Parser} {q : Query} (h : p.parse.1 = .ok q) : IsParsed q

/-- What a call of a parser finds was derived from tokens, namely those that it has read. -/
theorem Parser.exists_derives_of_parse {p : Parser} {q : Query} (h : p.parse.1 = .ok q) :
    ∃ ts, Grammar.Derives .alternatives ts q := by
  obtain ⟨n, m, hreach, -, hfinish⟩ := exists_reaches_of_run (Nat.zero_le _) h
  exact ⟨_, Machine.derives_of_reaches hreach hfinish⟩

/-- The selectors of a query that was read have parts, whatever its tokens hold: each of them was
read from a word. -/
theorem Query.IsParsed.hasParts {q : Query} (h : q.IsParsed) : ∀ s ∈ q.selectors, s.HasParts := by
  cases h with
  | ofText h =>
    unfold parse at h
    split at h
    · obtain ⟨ts, hts⟩ := Parser.exists_derives_of_parse h
      exact hts.hasParts
    · cases h
  | ofCall h =>
    obtain ⟨ts, hts⟩ := Parser.exists_derives_of_parse h
    exact hts.hasParts

namespace Selector

/-- **A path stands for one selector.** The texts that can be read are one part, or two with a dot
between them, and what is read is written as the text again. A selector is read back from its path
exactly if it has such parts. The selectors of queries that were read have, so two of them have the
same path only if they are equal, also if they come from different queries; a list of permitted paths
permits those of them that it names, and an alias is taken from the first key that names the
selector. -/
theorem ofPath?_path_iff_and_path_inj :
    (∀ text, ((∃ s, ofPath? text = some s) ↔ IsPath text) ∧
        ∀ s, ofPath? text = some s → s.path = text) ∧
      (∀ s, ofPath? s.path = some s ↔ s.HasParts) ∧
      ∀ q : Query, q.IsParsed → ∀ s ∈ q.selectors,
        (∀ q' : Query, q'.IsParsed → ∀ s' ∈ q'.selectors, s.path = s'.path → s = s') ∧
        (∀ paths, s.permit (some paths) = .ok () ↔ some s ∈ paths.map ofPath?) ∧
        ∀ aliases : List (String × String), aliases.lookup s.path =
          (aliases.find? fun entry => ofPath? entry.1 = some s).map Prod.snd := by
  refine ⟨fun text => ⟨exists_ofPath?_iff, fun s => path_of_ofPath?⟩,
    fun s => ⟨hasParts_of_ofPath?, HasParts.ofPath?_path⟩, fun q hq s hs => ?_⟩
  have hparts := hq.hasParts s hs
  exact ⟨fun q' hq' s' hs' => hparts.path_inj (hq'.hasParts s' hs'), hparts.permit_iff,
    hparts.lookup_path⟩

/-- A query from a text and one from handmade tokens, whose words hold blanks and quotes. Keys that
are no paths name no selector, and of two keys for one selector the first one counts. -/
theorem ofPath?_path_iff_and_path_inj_text_and_tokens :
    let s : Selector := ⟨some "a", "b"⟩
    let q : Query := .and (.present s) (.equality ⟨none, "ab"⟩ .equal (.text "b.a"))
    let p := Parser.ofTokens [⟨.word "a b.'", 0⟩, ⟨.comma, 5⟩, ⟨.word "a.b", 6⟩] {}
    let q' : Query := .or (.present ⟨some "a b", "'"⟩) (.present s)
    Query.parse "a.b; ab == 'b.a'" {} = .ok q ∧ p.parse.1 = .ok q' ∧ IsPath "a b.'" ∧
      ofPath? (path ⟨some "a b", "'"⟩) = some ⟨some "a b", "'"⟩ ∧
      (∀ s' ∈ q'.selectors, s.path = s'.path → s = s') ∧
      s.permit (some ["a..b", "ab", "a.b"]) = .ok () ∧ s.permit (some ["a", "b", "ab"]) ≠ .ok () ∧
      [("ab", "c"), ("a.b", "d"), ("a.b", "e")].lookup s.path = some "d" := by
  intro s q p q'
  obtain ⟨hpath, hback, hkeys⟩ := ofPath?_path_iff_and_path_inj
  have hq : Query.parse "a.b; ab == 'b.a'" {} = .ok q := by decide +kernel
  have hq' : p.parse.1 = .ok q' := by decide +kernel
  obtain ⟨hinj, hpermit, hlookup⟩ := hkeys q (.ofText hq) s List.mem_cons_self
  refine ⟨hq, hq', (hpath "a b.'").1.1 ⟨⟨some "a b", "'"⟩, by decide⟩, (hback _).2 (by decide),
    hinj q' (.ofCall hq'), (hpermit _).2 (by decide), mt (hpermit _).1 (by decide), ?_⟩
  rw [hlookup]
  decide

end Selector

end FilterQuery
