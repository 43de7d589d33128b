import MapStyle.Proofs.FeatureStyle.Foreseen
import MapStyle.Proofs.StyledMap.Identity
import MapStyle.StyledMap.Compile
/-!
Layers by themselves. What a map asks for is foreseen once its fonts are registered, so that each of its layers is what
it is when it is compiled alone.
-/
namespace MapStyle

theorem FontSets.find?_registered {lists : List String} (sets : FontSets) :
    (∀ faces, (sets.find? faces).isSome → ((lists.foldl (fun sets faces => (sets.getOrCreate faces).2) sets).find? faces).isSome) ∧
      ∀ faces ∈ lists, ((lists.foldl (fun sets faces => (sets.getOrCreate faces).2) sets).find? faces).isSome := by
  induction lists generalizing sets with
  | nil => simp
  | cons first rest ih =>
    obtain ⟨keeps, registers⟩ := ih (sets.getOrCreate first).2
    rw [List.foldl_cons]
    constructor
    · intro faces known
      obtain ⟨set, found⟩ := Option.isSome_iff_exists.mp known
      exact keeps faces (by simp [getOrCreate_keeps found])
    · rw [List.forall_mem_cons]
      exact ⟨keeps first (by simp [getOrCreate_stores]), registers⟩

namespace Stylesheets

def Apart (sheets : Stylesheets) : Prop :=
  ∀ a ∈ sheets.declarations, ∀ b ∈ sheets.declarations, a.value.id = b.value.id → a.value = b.value

theorem load_apart (sources : List Source) : (load sources).Apart := fun _ isA _ isB same => value_unique isA isB same

variable (sheets : Stylesheets) (apart : sheets.Apart)

/-- What can be foreseen of a map: the texts of the values that its stylesheets declare, and the fonts that these name. -/
def foreseen : Foresight where
  scope := sheets.scope
  asked expr := ∃ declaration ∈ sheets.declarations, declaration.value = expr
  fonts := sheets.fontSets
  one := by
    rintro _ _ ⟨a, isA, rfl⟩ ⟨b, isB, rfl⟩ same
    rw [apart a isA b isB same]

def foresight (sources : List Source) : Foresight := foreseen (load sources) (load_apart sources)

theorem foreseen_covers : ∀ declaration ∈ sheets.declarations, (sheets.foreseen apart).Covers declaration := by
  intro declaration member
  constructor
  · exact ⟨declaration, member, rfl⟩
  · intro names faces evaluated
    apply (FontSets.find?_registered FontSets.empty).2
    apply List.mem_filterMap.mpr
    refine ⟨declaration, List.mem_filter.mpr ⟨member, names⟩, ?_⟩
    rw [valueOf?, show sheets.scope.evaluate declaration.value = .ok faces from evaluated]
    rfl

end Stylesheets

namespace StyledMap

/-- A layer compiled by itself, when the fonts are registered and no text is stored. -/
def layerAlone (context : MapContext) (tree : LayerTree) : MapLayer :=
  ((MapLayer.compile context tree).run context.sheets.scope (sharedAtFirst context)).1

end StyledMap

namespace MapContext
open StyledMap

variable (context : MapContext) (apart : context.sheets.Apart)

theorem compile_foreseen (tree : LayerTree) :
    ∃ layer, Task.Foreseen (context.sheets.foreseen apart) (MapLayer.compile context tree) layer := by
  have covers : ∀ definition ∈ MapLayer.definitionsFor context tree,
      ∀ declaration ∈ definition.declarations, (context.sheets.foreseen apart).Covers declaration := by
    intro definition member declaration declares
    apply Stylesheets.foreseen_covers
    apply List.mem_flatMap.mpr
    refine ⟨definition, ?_, declares⟩
    unfold MapLayer.definitionsFor at member
    split at member
    · simp at member
    · exact List.mem_of_mem_filter member
  -- a layer that fails is done all the same, with its error in the place of styles
  obtain ⟨result, ran, -⟩ := FeatureStyle.ofLayer_foreseen context.styling tree.value.name covers
  cases result with
  | ok styles => exact ⟨_, ran.bind (.done _)⟩
  | error error => exact ⟨_, ran.bind (.done _)⟩

theorem sharedAtFirst_settled : (context.sheets.foreseen apart).Settled (sharedAtFirst context) where
  fonts := rfl
  values := by simp [sharedAtFirst, ValueCache.empty, ValueCache.get?]

theorem compile_alone (tree : LayerTree) :
    Task.Foreseen (context.sheets.foreseen apart) (MapLayer.compile context tree) (layerAlone context tree) := by
  obtain ⟨layer, foreseen⟩ := context.compile_foreseen apart tree
  obtain ⟨same, -⟩ := foreseen.run (context.sharedAtFirst_settled apart)
  rwa [← same] at foreseen

/-- Compiled one after the other, layers are what they are alone, and no font is registered. -/
theorem compileLayers_alone {shared : Shared} (settled : (context.sheets.foreseen apart).Settled shared)
    (trees : List LayerTree) :
    (compileLayers context trees shared).1 = trees.map (layerAlone context) ∧
      (context.sheets.foreseen apart).Settled (compileLayers context trees shared).2 := by
  induction trees generalizing shared with
  | nil => exact ⟨rfl, settled⟩
  | cons tree rest ih =>
    obtain ⟨same, still⟩ := (context.compile_alone apart tree).run settled
    obtain ⟨sameRest, stillRest⟩ := ih still
    constructor
    · rw [compileLayers, List.map_cons, ← sameRest, ← same]
      rfl
    · exact stillRest

end MapContext

namespace StyledMap
variable (renderer : Renderer) (project : Project) (sources : List Source)

theorem sharedAtFirst_settled :
    (Stylesheets.foresight sources).Settled (sharedAtFirst (contextOf renderer project sources)) :=
  (contextOf renderer project sources).sharedAtFirst_settled (Stylesheets.load_apart sources)

theorem compile_alone (tree : LayerTree) :
    Task.Foreseen (Stylesheets.foresight sources) (MapLayer.compile (contextOf renderer project sources) tree)
      (layerAlone (contextOf renderer project sources) tree) :=
  (contextOf renderer project sources).compile_alone (Stylesheets.load_apart sources) tree

theorem compileLayers_alone {shared : Shared} (settled : (Stylesheets.foresight sources).Settled shared) (trees : List LayerTree) :
    (compileLayers (contextOf renderer project sources) trees shared).1 =
        trees.map (layerAlone (contextOf renderer project sources)) ∧
      (Stylesheets.foresight sources).Settled (compileLayers (contextOf renderer project sources) trees shared).2 :=
  (contextOf renderer project sources).compileLayers_alone (Stylesheets.load_apart sources) settled trees

end StyledMap
end MapStyle
