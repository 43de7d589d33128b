import MapStyle.Proofs.Selector.Nesting
import MapStyle.StyledMap.Stylesheets
/-!
Identities of values. Stylesheets are numbered on from one to the next, so that two declarations have values with one
identity only if both come from the same declaration in a stylesheet.
-/
namespace MapStyle
namespace Stylesheets

def valuesOf (sheets : List Sheet) : List Expression := sheets.flatMap fun sheet => Ruleset.valuesAll sheet.rulesets

/-- A stylesheet that cannot be read leaves the numbering to the next as it was. -/
theorem readFrom_apart (numbering : Reader.Numbering) (sources : List Source) :
    ∃ stop, Reader.Apart numbering.nextId stop ((valuesOf (readFrom numbering sources)).map Expression.id) := by
  induction sources generalizing numbering with
  | nil => exact ⟨numbering.nextId, .none (Nat.le_refl _)⟩
  | cons source rest ih =>
    rw [readFrom]
    split
    · rename_i sheet after ran
      obtain ⟨stop, apart⟩ := ih after
      refine ⟨stop, ?_⟩
      rw [valuesOf, List.flatMap_cons, List.map_append]
      exact (Sheet.read_apart ran).append apart
    · exact ih numbering

theorem definitionsOf_values {scope : Scope} {sheets : List Sheet} {definition : Definition}
    (member : definition ∈ definitionsOf scope sheets) : ∀ held ∈ definition.declarations, held.value ∈ valuesOf sheets := by
  obtain ⟨sheet, isSheet, inside⟩ := List.mem_flatMap.mp member
  cases flattened : sheet.definitions scope with
  | error error => simp [flattened, Except.toOption] at inside
  | ok definitions =>
    rw [flattened] at inside
    obtain ⟨outer, last, deepest, chain, -, own⟩ := Nesting.flattenAll_source _ flattened inside
    obtain ⟨selector, -, rfl⟩ := List.mem_map.mp own
    -- the levels of a selector restrict a declaration, but not its value
    intro held holds
    obtain ⟨declaration, declares, rfl⟩ := List.mem_map.mp holds
    have isDeclared := chain.mem_valuesAll declares
    exact List.mem_flatMap.mpr ⟨sheet, isSheet, isDeclared⟩

theorem load_values (sources : List Source) :
    ∀ declaration ∈ (load sources).declarations, declaration.value ∈ valuesOf (read sources) := by
  intro declaration member
  obtain ⟨definition, isDefinition, declares⟩ := List.mem_flatMap.mp member
  have flattened := (List.mergeSort_perm _ _).mem_iff.mp isDefinition
  exact definitionsOf_values flattened declaration declares

theorem value_unique {sources : List Source} {a b : Declaration} (isA : a ∈ (load sources).declarations)
    (isB : b ∈ (load sources).declarations) (same : a.value.id = b.value.id) : a.value = b.value := by
  obtain ⟨stop, apart⟩ := readFrom_apart ⟨0, 0⟩ sources
  exact List.inj_on_of_nodup_map apart.nodup (load_values sources a isA) (load_values sources b isB) same

end Stylesheets
end MapStyle
