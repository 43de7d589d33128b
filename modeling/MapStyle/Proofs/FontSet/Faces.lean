import MapStyle.Proofs.FontSet.Registry
import MapStyle.Proofs.Task.Replay
/-!
The faces of registered sets. A set is registered under the faces of a value, and its own faces are read from that key once
more. Two values have one key just if they have the same faces; but reading takes the quotes off again, so that a face
with a quote left at an end comes out different.
-/
namespace MapStyle
open Text

namespace FontSet

section face
variable {cs face : List Char}

theorem face?_eq_some : face? cs = some face ↔
    stripBoth isBlank (stripBoth isQuote (stripBoth isBlank cs)) = face ∧ face ≠ [] := by
  unfold face?
  split
  · rename_i isNil
    simp [isNil, eq_comm]
  · rename_i nonempty
    simp only [Option.some.injEq]
    refine ⟨?_, And.left⟩
    rintro rfl
    exact ⟨rfl, nonempty⟩

theorem face?_cons_blank : face? (' ' :: cs) = face? cs := by
  rw [face?, stripBoth_cons (by decide), face?]

/-- A face with something to it, nothing blank at its ends, and no comma in it. -/
structure Plain (face : List Char) : Prop where
  nonempty : face ≠ []
  bare : Bare isBlank face
  clean : ∀ c ∈ face, (c == ',') = false

theorem plain_of_face? (clean : ∀ c ∈ cs, (c == ',') = false) (read : face? cs = some face) : Plain face := by
  obtain ⟨rfl, nonempty⟩ := face?_eq_some.mp read
  have inside : (stripBoth isBlank (stripBoth isQuote (stripBoth isBlank cs))).Sublist cs :=
    ((stripBoth_sublist _ _).trans (stripBoth_sublist _ _)).trans (stripBoth_sublist _ _)
  exact ⟨nonempty, bare_stripBoth _ _, fun c member => clean c (inside.subset member)⟩

theorem Plain.face?_eq_self (plain : Plain face) : face? face = some face ↔ Bare isQuote face := by
  rw [face?_eq_some, stripBoth_of_bare plain.bare, ← stripBoth_eq_self]
  constructor
  · rintro ⟨same, -⟩
    -- both strippings only take away, so that neither took anything
    refine (stripBoth_sublist isQuote face).eq_of_length_le ?_
    conv => lhs; rw [← same]
    exact (stripBoth_sublist _ _).length_le
  · intro same
    rw [same]
    exact ⟨stripBoth_of_bare plain.bare, plain.nonempty⟩

end face

def faceChars (cs : List Char) : List (List Char) := (splitBy (· == ',') cs).filterMap face?

theorem faceNames_eq (value : String) : faceNames value = (faceChars value.toList).map String.ofList := rfl

theorem plain_of_mem {cs face : List Char} (member : face ∈ faceChars cs) : Plain face := by
  obtain ⟨part, isPart, read⟩ := List.mem_filterMap.mp member
  exact plain_of_face? (clean_of_mem_splitBy isPart) read

/-- The faces that are read from the texts of faces. -/
def reread (faces : List String) : List String := faces.filterMap fun face => (face? face.toList).map String.ofList

section key
variable {γ : Type} {read : List Char → Option γ}

theorem filterMap_splitBy_blank (blank : ∀ cs, read (' ' :: cs) = read cs) (cs : List Char) :
    (splitBy (· == ',') (' ' :: cs)).filterMap read = (splitBy (· == ',') cs).filterMap read := by
  cases parts : splitBy (· == ',') cs with
  | nil => exact absurd parts (splitBy_ne_nil _ cs)
  | cons part rest =>
    have shifted : splitBy (· == ',') (' ' :: cs) = (' ' :: part) :: rest := by
      rw [splitBy, if_neg (by decide), parts]
    rw [shifted, List.filterMap_cons, List.filterMap_cons, blank]

theorem filterMap_splitBy_intercalate (nothing : read [] = none) (blank : ∀ cs, read (' ' :: cs) = read cs)
    {faces : List (List Char)} (clean : ∀ face ∈ faces, ∀ c ∈ face, (c == ',') = false) :
    (splitBy (· == ',') ([',', ' '].intercalate faces)).filterMap read = faces.filterMap read := by
  induction faces with
  | nil => simp [List.intercalate, splitBy, nothing]
  | cons face rest ih =>
    obtain ⟨cleanFace, cleanRest⟩ := List.forall_mem_cons.mp clean
    cases rest with
    | nil => rw [List.intercalate_singleton, splitBy_of_clean cleanFace]
    | cons next others =>
      rw [List.intercalate_cons_cons, List.append_assoc]
      change (splitBy (· == ',') (face ++ ',' :: (' ' :: [',', ' '].intercalate (next :: others)))).filterMap read = _
      rw [splitBy_append_cons cleanFace rfl, List.filterMap_cons, filterMap_splitBy_blank blank, ih cleanRest,
        ← List.filterMap_cons]

end key

theorem key_toList (value : String) : (key value).toList = [',', ' '].intercalate (faceChars value.toList) := by
  rw [key, String.toList_intercalate, faceNames_eq, List.map_map]
  simp

theorem clean_faceChars {cs : List Char} : ∀ face ∈ faceChars cs, ∀ c ∈ face, (c == ',') = false :=
  fun _ member => (plain_of_mem member).clean

theorem faceNames_key (value : String) : faceNames (key value) = reread (faceNames value) := by
  rw [faceNames_eq, faceChars, key_toList, filterMap_splitBy_intercalate rfl (fun _ => face?_cons_blank) clean_faceChars,
    faceNames_eq, reread, List.filterMap_map, List.map_filterMap]
  simp

theorem key_eq_iff {v w : String} : key v = key w ↔ faceNames v = faceNames w := by
  refine ⟨fun same => ?_, fun same => by rw [key, same, key]⟩
  -- with the blanks taken off, the parts of a key are the faces
  let part? (cs : List Char) : Option (List Char) := if stripBoth isBlank cs = [] then none else some (stripBoth isBlank cs)
  have parts : ∀ value, (splitBy (· == ',') (key value).toList).filterMap part? = faceChars value.toList := by
    intro value
    rw [key_toList, filterMap_splitBy_intercalate rfl _ clean_faceChars]
    · rw [List.filterMap_congr (g := some), List.filterMap_some]
      intro face member
      have plain := plain_of_mem member
      simp only [part?, stripBoth_of_bare plain.bare, if_neg plain.nonempty]
    · intro cs
      simp only [part?, stripBoth_cons (show isBlank ' ' from rfl)]
  rw [faceNames_eq, faceNames_eq, ← parts, ← parts, same]

theorem filterMap_eq_self {α : Type} {f : α → Option α} {items : List α} :
    items.filterMap f = items ↔ ∀ item ∈ items, f item = some item := by
  induction items with
  | nil => simp
  | cons item rest ih =>
    rw [List.forall_mem_cons, List.filterMap_cons]
    cases same : f item with
    | none =>
      -- something is lost, and nothing comes in its place
      have fewer := List.length_filterMap_le f rest
      simp only [reduceCtorEq, false_and, iff_false]
      intro equal
      have lengths := congrArg List.length equal
      rw [List.length_cons] at lengths
      omega
    | some other => simp [ih]

theorem reread_eq_self (value : String) :
    reread (faceNames value) = faceNames value ↔ ∀ face ∈ faceNames value, Bare isQuote face.toList := by
  rw [reread, filterMap_eq_self]
  refine forall₂_congr fun face member => ?_
  obtain ⟨chars, inside, rfl⟩ := List.mem_map.mp (faceNames_eq value ▸ member)
  rw [String.toList_ofList, ← (plain_of_mem inside).face?_eq_self]
  constructor
  · intro same
    obtain ⟨other, read, equal⟩ := Option.map_eq_some_iff.mp same
    rwa [String.ofList_injective equal] at read
  · intro same
    rw [same, Option.map_some]

end FontSet

namespace FontSets

/-- Asks for the sets of values, one after the other. -/
def createAll (sets : FontSets) : List String → List FontSet × FontSets
  | [] => ([], sets)
  | value :: rest =>
    let (set, sets) := sets.getOrCreate value
    let (others, sets) := createAll sets rest
    (set :: others, sets)

variable {sets : FontSets} {values : List String}

theorem createAll_extends (sets : FontSets) (values : List String) : sets.entries <+: (createAll sets values).2.entries := by
  induction values generalizing sets with
  | nil => exact List.prefix_rfl
  | cons value rest ih => exact (getOrCreate_extends sets value).trans (ih (sets.getOrCreate value).2)

theorem createAll_numbered (numbered : sets.Numbered) (values : List String) : (createAll sets values).2.Numbered := by
  induction values generalizing sets with
  | nil => exact numbered
  | cons value rest ih => exact ih (numbered.getOrCreate value)

theorem createAll_length (sets : FontSets) (values : List String) : (createAll sets values).1.length = values.length := by
  induction values generalizing sets with
  | nil => rfl
  | cons value rest ih => exact congrArg (· + 1) (ih (sets.getOrCreate value).2)

theorem createAll_found (sets : FontSets) (values : List String) :
    ∀ call ∈ values.zip (createAll sets values).1, (createAll sets values).2.find? call.1 = some call.2 := by
  induction values generalizing sets with
  | nil => simp
  | cons value rest ih =>
    refine List.forall_mem_cons.mpr ⟨?_, ih (sets.getOrCreate value).2⟩
    exact find?_of_prefix (createAll_extends (sets.getOrCreate value).2 rest) getOrCreate_stores

theorem mem_keys_createAll {key : String} :
    key ∈ (createAll sets values).2.keys ↔ key ∈ sets.keys ∨ ∃ value ∈ values, key = FontSet.key value := by
  induction values generalizing sets with
  | nil => simp [createAll]
  | cons value rest ih =>
    rw [createAll]
    simp only [ih, mem_keys_getOrCreate, List.exists_mem_cons_iff, or_assoc]

/-- The sets for values that are asked for one after the other. Each has the faces of its value, read once more, which are the
faces of the value just if none of them has a quote at an end; and two calls have got sets with one name just if
their values have the same faces. So two sets have the same faces just where faces that differ are read as the same. -/
theorem createAll_faces (values : List String) :
    (createAll empty values).1.length = values.length ∧
    (∀ call ∈ values.zip (createAll empty values).1, call.2.faces = FontSet.reread (FontSet.faceNames call.1) ∧
      (call.2.faces = FontSet.faceNames call.1 ↔ ∀ face ∈ FontSet.faceNames call.1, Bare isQuote face.toList)) ∧
    (∀ a ∈ values.zip (createAll empty values).1, ∀ b ∈ values.zip (createAll empty values).1,
      a.2.name = b.2.name ↔ FontSet.faceNames a.1 = FontSet.faceNames b.1) ∧
    (((createAll empty values).2.list.map FontSet.faces).Nodup ↔ ∀ v ∈ values, ∀ w ∈ values,
      FontSet.reread (FontSet.faceNames v) = FontSet.reread (FontSet.faceNames w) →
        FontSet.faceNames v = FontSet.faceNames w) := by
  have numbered := createAll_numbered empty_numbered values
  have found := createAll_found empty values
  have faces : ∀ call ∈ values.zip (createAll empty values).1,
      call.2.faces = FontSet.reread (FontSet.faceNames call.1) := by
    intro call member
    rw [numbered.faces _ (mem_of_find? (found call member)), FontSet.faceNames_key]
  refine ⟨createAll_length empty values, fun call member => ⟨faces call member, ?_⟩, fun a member b alsoMember => ?_, ?_⟩
  · rw [faces call member, FontSet.reread_eq_self]
  · rw [numbered.name_eq_iff (found a member) (found b alsoMember), FontSet.key_eq_iff]
  · have listed : (createAll empty values).2.list.map FontSet.faces = (createAll empty values).2.keys.map FontSet.faceNames := by
      rw [numbered.list_eq, registered, keys, List.map_map, List.map_map]
      exact List.map_congr_left numbered.faces
    have inserted : ∀ key, key ∈ (createAll empty values).2.keys ↔ ∃ value ∈ values, key = FontSet.key value :=
      fun key => mem_keys_createAll.trans (by simp [keys, empty])
    rw [listed, List.nodup_map_iff_inj_on numbered.keys]
    constructor
    · intro distinct v isValue w alsoValue same
      refine FontSet.key_eq_iff.mp (distinct _ ((inserted _).mpr ⟨v, isValue, rfl⟩) _ ((inserted _).mpr ⟨w, alsoValue, rfl⟩) ?_)
      rw [FontSet.faceNames_key, FontSet.faceNames_key, same]
    · intro apart first isKey second alsoKey same
      obtain ⟨v, isValue, rfl⟩ := (inserted first).mp isKey
      obtain ⟨w, alsoValue, rfl⟩ := (inserted second).mp alsoKey
      rw [FontSet.faceNames_key, FontSet.faceNames_key] at same
      exact FontSet.key_eq_iff.mpr (apart v isValue w alsoValue same)

theorem createAll_faces_quoted :
    let values := ["\" 'a' \"", "'a'"]
    FontSet.faceNames "\" 'a' \"" = ["'a'"] ∧ ("\" 'a' \"", ⟨"fontset-1", ["a"]⟩) ∈ values.zip (createAll empty values).1 ∧
      FontSet.reread ["'a'"] = ["a"] ∧ ¬ Bare isQuote "'a'".toList ∧
      ¬ ((createAll empty values).2.list.map FontSet.faces).Nodup := by
  intro values
  obtain ⟨-, faces, -, distinct⟩ := createAll_faces values
  have call : ("\" 'a' \"", ⟨"fontset-1", ["a"]⟩) ∈ values.zip (createAll empty values).1 := by decide
  have read : FontSet.faceNames "\" 'a' \"" = ["'a'"] := by decide
  have quoted : ¬ Bare isQuote "'a'".toList := by
    intro bare
    have same := (faces _ call).2.mpr (by rw [read]; exact List.forall_mem_singleton.mpr bare)
    exact absurd same (by decide)
  refine ⟨read, call, ?_, quoted, fun nodup => ?_⟩
  · rw [← read, ← (faces _ call).1]
  · exact absurd (distinct.mp nodup _ List.mem_cons_self "'a'" (by decide) (by decide)) (by decide)

end FontSets
end MapStyle
