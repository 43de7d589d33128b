import Mathlib.Data.List.Nodup
import MapStyle.FontSet
import MapStyle.Proofs.Text.Parts
/-!
The registered font sets. Each key is registered once, and the sets are numbered in the order of registration, in which
the numbers in their names bring them back whatever order they are handed out in.
-/
namespace MapStyle
open Text

namespace Decimal

theorem readNatural?_toDigits (n : Nat) : readNatural? (Nat.toDigits 10 n) = some n := by
  have isDigits : (Nat.toDigits 10 n).all Char.isDigit := List.all_eq_true.mpr fun _ inside =>
    Nat.isDigit_of_mem_toDigits (by decide) (Nat.le_refl 10) inside
  have value : digitsValue (Nat.toDigits 10 n) = n := Nat.ofDigitChars_ten_toDigits
  cases same : Nat.toDigits 10 n with
  | nil => exact absurd same Nat.toDigits_ne_nil
  | cons c rest =>
    rw [same] at isDigits value
    have digit : c.isDigit := List.all_eq_true.mp isDigits c List.mem_cons_self
    have unsigned : c ≠ '+' := by
      rintro rfl
      exact absurd digit (by decide)
    unfold readNatural?
    split
    · rename_i other plus
      exact absurd (List.cons.inj plus).1 unsigned
    · simp [isDigits, value]

end Decimal

namespace FontSet

theorem number_nameOf (n : Nat) (faces : List String) : number ⟨nameOf n, faces⟩ = n := by
  have digits : (toString n).toList = Nat.toDigits 10 n := by
    rw [Nat.toString_eq_ofList_toDigits, String.toList_ofList]
  have letters : (nameOf n).toList = "fontset".toList ++ '-' :: Nat.toDigits 10 n := by
    rw [nameOf, String.toList_append, digits]
    rfl
  have clean : ∀ c ∈ Nat.toDigits 10 n, (c == '-') = false := by
    intro c inside
    have digit := Nat.isDigit_of_mem_toDigits (by decide) (Nat.le_refl 10) inside
    refine beq_eq_false_iff_ne.mpr ?_
    rintro rfl
    exact absurd digit (by decide)
  have word : ∀ c ∈ "fontset".toList, (c == '-') = false := by simp
  rw [number, letters, splitBy_append_cons word (beq_self_eq_true '-'), splitBy_of_clean clean, List.getLast?_cons_cons,
    List.getLast?_singleton, Option.bind_some, Decimal.readNatural?_toDigits, Option.getD_some]

theorem nameOf_injective : Function.Injective nameOf := by
  intro m n same
  have numbers := number_nameOf m []
  rwa [same, number_nameOf, eq_comm] at numbers

theorem sort_of_perm {sets held : List FontSet} (ascending : (sets.map number).Pairwise (· < ·)) (perm : held.Perm sets) :
    sort held = sets := by
  have sorted := @List.pairwise_mergeSort _ (fun a b : FontSet => decide (a.number ≤ b.number))
    (by simp only [decide_eq_true_eq]; omega) (by simp only [Bool.or_eq_true, decide_eq_true_eq]; omega) held
  have same := (List.mergeSort_perm held fun a b : FontSet => decide (a.number ≤ b.number)).trans perm
  have distinct : (sets.map number).Nodup := ascending.imp Nat.ne_of_lt
  apply @List.Perm.eq_of_pairwise _ (fun a b : FontSet => a.number ≤ b.number) _ _ _ _ _ same
  · intro a b inHeld inSets le ge
    exact List.inj_on_of_nodup_map distinct (same.mem_iff.mp inHeld) inSets (Nat.le_antisymm le ge)
  · simpa only [decide_eq_true_eq] using sorted
  · exact (List.pairwise_map.mp ascending).imp Nat.le_of_lt

end FontSet

namespace FontSets
variable {sets : FontSets} {value : String}

def registered (sets : FontSets) : List FontSet := sets.entries.map Prod.snd

/-- The keys in the order of registration. -/
def keys (sets : FontSets) : List String := sets.entries.map Prod.fst

/-- A key has one set, which has the faces of the key, and the sets are numbered from one in the order of registration. -/
structure Numbered (sets : FontSets) : Prop where
  keys : sets.keys.Nodup
  names : sets.registered.map FontSet.name = (List.range sets.size).map fun n => FontSet.nameOf (n + 1)
  faces : ∀ entry ∈ sets.entries, entry.2.faces = FontSet.faceNames entry.1

theorem empty_numbered : empty.Numbered := ⟨List.nodup_nil, rfl, by simp [empty]⟩

theorem find?_eq_none : sets.find? value = none ↔ FontSet.key value ∉ sets.keys := by
  rw [find?, List.lookup_eq_none_iff, keys, List.mem_map]
  constructor
  · rintro absent ⟨entry, member, same⟩
    simpa [same] using absent entry member
  · intro absent entry member
    rw [bne_iff_ne]
    rintro same
    exact absent ⟨entry, member, same.symm⟩

theorem mem_of_find? {set : FontSet} (found : sets.find? value = some set) : (FontSet.key value, set) ∈ sets.entries := by
  obtain ⟨front, back, same, -⟩ := List.lookup_eq_some_iff.mp found
  rw [same]
  exact List.mem_append_right _ List.mem_cons_self

theorem getOrCreate_cases (sets : FontSets) (value : String) :
    sets.find? value = some (sets.getOrCreate value).1 ∧ (sets.getOrCreate value).2 = sets ∨
      FontSet.key value ∉ sets.keys ∧
        (sets.getOrCreate value).1 = ⟨sets.nextName, FontSet.faceNames (FontSet.key value)⟩ ∧
        (sets.getOrCreate value).2.entries = sets.entries ++ [(FontSet.key value, (sets.getOrCreate value).1)] := by
  unfold getOrCreate
  cases found : sets.find? value with
  | some set => exact Or.inl ⟨rfl, rfl⟩
  | none => exact Or.inr ⟨find?_eq_none.mp found, rfl, rfl⟩

theorem getOrCreate_extends (sets : FontSets) (value : String) : sets.entries <+: (sets.getOrCreate value).2.entries := by
  rcases getOrCreate_cases sets value with ⟨-, same⟩ | ⟨-, -, added⟩
  · exact ⟨[], by rw [same, List.append_nil]⟩
  · exact ⟨_, added.symm⟩

theorem mem_keys_getOrCreate {key : String} :
    key ∈ (sets.getOrCreate value).2.keys ↔ key ∈ sets.keys ∨ key = FontSet.key value := by
  rcases getOrCreate_cases sets value with ⟨found, same⟩ | ⟨-, -, added⟩
  · rw [same]
    refine ⟨Or.inl, fun known => known.elim id ?_⟩
    rintro rfl
    exact List.mem_map_of_mem (mem_of_find? found)
  · simp [FontSets.keys, added]

theorem find?_of_prefix {later : FontSets} {set : FontSet} (grown : sets.entries <+: later.entries)
    (found : sets.find? value = some set) : later.find? value = some set := by
  obtain ⟨new, same⟩ := grown
  rw [find?] at found ⊢
  rw [← same, List.lookup_append, found, Option.some_or]

theorem Numbered.getOrCreate (numbered : sets.Numbered) (value : String) : (sets.getOrCreate value).2.Numbered := by
  rcases getOrCreate_cases sets value with ⟨-, same⟩ | ⟨absent, set, added⟩
  · rwa [same]
  · constructor
    · rw [FontSets.keys, added, List.map_append, ← FontSets.keys]
      refine List.nodup_append.mpr ⟨numbered.keys, by simp, ?_⟩
      rintro key member _ inNew rfl
      have same : key = FontSet.key value := List.mem_singleton.mp inNew
      exact absent (same ▸ member)
    · have names := numbered.names
      rw [registered, size, added, List.length_append, List.length_singleton, List.range_succ, List.map_append,
        List.map_append, List.map_append, ← registered, names, set]
      rfl
    · rw [added]
      refine List.forall_mem_append.mpr ⟨numbered.faces, ?_⟩
      simp [set]

namespace Numbered
variable (numbered : sets.Numbered)
include numbered

/-- By their numbers the sets come in the order of registration, whatever order the map hands them out in. -/
theorem sort_eq {held : List FontSet} (perm : held.Perm sets.registered) : FontSet.sort held = sets.registered := by
  apply FontSet.sort_of_perm _ perm
  -- a number depends on the name only
  have byName : sets.registered.map FontSet.number =
      (sets.registered.map FontSet.name).map fun name => FontSet.number ⟨name, []⟩ := by
    rw [List.map_map]
    rfl
  rw [byName, numbered.names, List.map_map]
  simp only [Function.comp_def, FontSet.number_nameOf, List.pairwise_map]
  exact List.pairwise_lt_range.imp Nat.succ_lt_succ

theorem list_eq : sets.list = sets.registered := numbered.sort_eq (List.Perm.refl _)

theorem name_eq_iff {other : String} {a b : FontSet} (found : sets.find? value = some a)
    (foundOther : sets.find? other = some b) : a.name = b.name ↔ FontSet.key value = FontSet.key other := by
  constructor
  · intro same
    have distinct : (sets.entries.map fun entry => entry.2.name).Nodup := by
      have names : (sets.registered.map FontSet.name).Nodup := by
        rw [numbered.names]
        exact List.nodup_range.map fun m n same => Nat.succ.inj (FontSet.nameOf_injective same)
      rwa [registered, List.map_map] at names
    exact congrArg Prod.fst (List.inj_on_of_nodup_map distinct (mem_of_find? found) (mem_of_find? foundOther) same)
  · intro same
    rw [find?, same] at found
    rw [find?, found] at foundOther
    rw [Option.some.inj foundOther]

end Numbered
end FontSets
end MapStyle
