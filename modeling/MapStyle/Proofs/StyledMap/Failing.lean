import MapStyle.Proofs.Renumbering.Layer
import MapStyle.Proofs.StyledMap.Schedule
/-!
Failing stylesheets. A stylesheet that is left out may still use numbers, which moves those of the stylesheets behind it.
But a map depends on these only through their order: its layers are the answers to what they ask for, and neither the
texts of values nor the fonts tell how anything is numbered.
-/
namespace MapStyle

namespace Stylesheets
variable (r : Renumbering) (sheets : Stylesheets)

theorem declarations_renumber : (sheets.renumber r).declarations = sheets.declarations.map (Declaration.renumber r) :=
  Style.flatMap_declarations_renumber r sheets.definitions

theorem valueOf?_renumber (declaration : Declaration) :
    (sheets.renumber r).valueOf? (declaration.renumber r) = sheets.valueOf? declaration := by
  simp [valueOf?, renumber]

theorem mapProperties_renumber : (sheets.renumber r).mapProperties = sheets.mapProperties := by
  have named : (sheets.renumber r).definitions.filter (fun definition => definition.isNamed "Map") =
      (sheets.definitions.filter fun definition => definition.isNamed "Map").map (Definition.renumber r) := List.filter_map
  simp only [mapProperties, named, Style.flatMap_declarations_renumber, List.filterMap_map, Function.comp_def,
    valueOf?_renumber, Declaration.renumber_property]

theorem fontSets_renumber : (sheets.renumber r).fontSets = sheets.fontSets := by
  have faceLists : (sheets.renumber r).faceLists = sheets.faceLists := by
    simp only [faceLists, declarations_renumber, List.filter_map, List.filterMap_map, Function.comp_def, valueOf?_renumber,
      Declaration.renumber_property]
  rw [fontSets, fontSets, faceLists]

variable {r sheets}

theorem Apart.renumber (apart : sheets.Apart) (injective : Function.Injective r.id) : (sheets.renumber r).Apart := by
  intro a isA b isB same
  rw [declarations_renumber] at isA isB
  obtain ⟨first, isFirst, rfl⟩ := List.mem_map.mp isA
  obtain ⟨second, isSecond, rfl⟩ := List.mem_map.mp isB
  exact congrArg (Expression.renumber r) (apart first isFirst second isSecond (injective same))

end Stylesheets

namespace StyledMap
variable (renderer : Renderer) (project : Project)

def ofStylesheets (sheets : Stylesheets) : StyledMap :=
  let context : MapContext := ⟨sheets, renderer, project.interactivityLayer?⟩
  let (layers, shared) := compileLayers context (Tree.walkAll project.layers) (sharedAtFirst context)
  assemble context project layers shared

/-- Compiles a project with sheets that are already read. -/
def ofSheets (sheets : List Sheet) : StyledMap := ofStylesheets renderer project (Stylesheets.ofSheets sheets)

theorem ofSources_eq_ofStylesheets (sources : List Source) :
    ofSources renderer project sources = ofStylesheets renderer project (Stylesheets.load sources) := rfl

theorem ofSources_eq_ofSheets (sources : List Source) :
    ofSources renderer project sources = ofSheets renderer project (Stylesheets.read sources) := rfl

section layers
variable {context : MapContext} (apart : context.sheets.Apart)
include apart

/-- A map has the layers that are each compiled alone, and no fonts but those registered at first. -/
theorem assemble_alone (trees : List LayerTree) :
    assemble context project (compileLayers context trees (sharedAtFirst context)).1
        (compileLayers context trees (sharedAtFirst context)).2 =
      assemble context project (trees.map (layerAlone context)) (sharedAtFirst context) := by
  obtain ⟨alone, settled⟩ := context.compileLayers_alone apart (context.sharedAtFirst_settled apart) trees
  have fonts : _ = (sharedAtFirst context).fonts := settled.fonts
  rw [alone, assemble, assemble, fonts]

/-- Where the values of a map are told apart, each of its layers is the answer to what it asks for. -/
theorem layerAlone_answer (tree : LayerTree) :
    layerAlone context tree = (MapLayer.compile context tree).answer context.sheets.scope.evaluate
      fun faces => (context.sheets.fontSets.getOrCreate faces).1 :=
  (context.compile_alone apart tree).eq_answer

variable {r : Renumbering}

theorem layerAlone_renumber (ignores : context.renderer.IgnoresSources) (mono : StrictMono r.index)
    (injective : Function.Injective r.id) (tree : LayerTree) : layerAlone (context.renumber r) tree = layerAlone context tree := by
  have apartLater : (context.renumber r).sheets.Apart := apart.renumber injective
  have scope : (context.renumber r).sheets.scope.evaluate = context.sheets.scope.evaluate :=
    Scope.evaluate_renumber r context.sheets.scope
  have fonts : (context.renumber r).sheets.fontSets = context.sheets.fontSets :=
    Stylesheets.fontSets_renumber r context.sheets
  rw [layerAlone_answer apart, layerAlone_answer apartLater, scope, fonts]
  exact MapLayer.compile_renumber (fun _ => rfl) _ context ignores mono tree

end layers

variable {renderer} {r : Renumbering}

theorem assemble_renumber (context : MapContext) (layers : List MapLayer) :
    assemble (context.renumber r) project layers (sharedAtFirst (context.renumber r)) =
      assemble context project layers (sharedAtFirst context) := by
  have properties : (context.renumber r).sheets.mapProperties = context.sheets.mapProperties :=
    Stylesheets.mapProperties_renumber r context.sheets
  have fonts : (sharedAtFirst (context.renumber r)).fonts = (sharedAtFirst context).fonts :=
    Stylesheets.fontSets_renumber r context.sheets
  rw [assemble, assemble, properties, fonts]
  rfl

theorem ofStylesheets_renumber (ignores : renderer.IgnoresSources) {sheets : Stylesheets} (apart : sheets.Apart)
    (mono : StrictMono r.index) (injective : Function.Injective r.id) :
    ofStylesheets renderer project (sheets.renumber r) = ofStylesheets renderer project sheets := by
  let context : MapContext := ⟨sheets, renderer, project.interactivityLayer?⟩
  have apartLater : (context.renumber r).sheets.Apart := apart.renumber injective
  have layers : (Tree.walkAll project.layers).map (layerAlone (context.renumber r)) =
      (Tree.walkAll project.layers).map (layerAlone context) :=
    List.map_congr_left fun tree _ => layerAlone_renumber apart ignores mono injective tree
  calc ofStylesheets renderer project (sheets.renumber r)
    _ = assemble (context.renumber r) project ((Tree.walkAll project.layers).map (layerAlone (context.renumber r)))
        (sharedAtFirst (context.renumber r)) := assemble_alone project apartLater _
    _ = assemble context project ((Tree.walkAll project.layers).map (layerAlone context)) (sharedAtFirst context) := by
      rw [layers, assemble_renumber]
    _ = ofStylesheets renderer project sheets := (assemble_alone project apart _).symm

/-- A stylesheet that fails is as if it were not there: one that cannot be read, or that defines no variables and cannot be
flattened with those of the others. More generally, of source indexes only the order counts. -/
theorem ofSources_failing (name : String) (project : Project) :
    (∀ front back bad, bad.Unreadable ∨ bad.Unflattened (Stylesheets.load (front ++ bad :: back)).scope →
      ofSources (Renderer.ofName name) project (front ++ bad :: back) =
        ofSources (Renderer.ofName name) project (front ++ back)) ∧
    ∀ r : Renumbering, StrictMono r.index → Function.Injective r.id → ∀ sources,
      ofSheets (Renderer.ofName name) project ((Stylesheets.read sources).map (Sheet.renumber r)) =
        ofSources (Renderer.ofName name) project sources := by
  have ignores := Renderer.ofName_ignoresSources name
  constructor
  · rintro front back bad (unreadable | unflattened)
    · have read : Stylesheets.read (front ++ bad :: back) = Stylesheets.read (front ++ back) :=
        Stylesheets.readFrom_unreadable unreadable _ front back
      rw [ofSources_eq_ofSheets, ofSources_eq_ofSheets, read]
    · obtain ⟨r, mono, injective, loaded⟩ := Stylesheets.load_unflattened unflattened
      rw [ofSources_eq_ofStylesheets, ofSources_eq_ofStylesheets, loaded]
      exact ofStylesheets_renumber project ignores (Stylesheets.load_apart _) mono injective
  · intro r mono injective sources
    rw [ofSources_eq_ofStylesheets, ofSheets, Stylesheets.ofSheets_renumber r mono]
    exact ofStylesheets_renumber project ignores (Stylesheets.load_apart sources) mono injective

def broken : Source := ⟨"broken.mss", ":"⟩

def lost : Source := ⟨"lost.mss", "[b=@c]\x7b\x7d"⟩

def roads : Source := ⟨"roads.mss", "#roads\x7bline-color:red\x7d"⟩

def roadsLayer : LayerTree := .node ⟨"roads", none, "", none, none, none, LayerSettings.unset, []⟩ []

def town : Project := ⟨"town", none, none, none, none, none, none, none, none, none, [], [roadsLayer]⟩

theorem broken_unreadable : broken.Unreadable := by
  have lexed : Lexeme.ofChars (LineComment.strip ":".toList) = [.leaf .colon 1] := by cbv
  refine ⟨⟨0, 0⟩, .flawed .unnamedDeclaration ⟨"broken.mss", 1⟩, ?_⟩
  change Reader.readSheet _ _ _ = _
  unfold Reader.readSheet
  rw [broken, lexed]
  cbv

/-- The source with the undefined variable, read from the start. -/
def lostSheet : Sheet :=
  ⟨"lost.mss", [], [.mk [⟨[.filter "b" .equal ⟨0, .variable "c", ⟨"lost.mss", 1⟩⟩], 0, ⟨"lost.mss", 1⟩⟩] [] [] ⟨"lost.mss", 1⟩]⟩

theorem read_lost : Sheet.read lost.name lost.css ⟨0, 0⟩ = .ok (lostSheet, ⟨1, 1⟩) := by
  have lexed : Lexeme.ofChars (LineComment.strip lost.css.toList) =
      [.group .square [.leaf (.word "b") 1, .leaf (.mark '=') 1, .leaf (.atWord "c") 1] 1, .group .curly [] 1] := by cbv
  change Reader.readSheet _ _ _ = _
  unfold Reader.readSheet
  rw [lexed]
  cbv

def roadsSheet : Sheet :=
  ⟨"roads.mss", [], [.mk [⟨[.element (.id "roads")], 0, ⟨"roads.mss", 1⟩⟩]
    [⟨"line-color", defaultInstance, ⟨0, .keyword "red", ⟨"roads.mss", 1⟩⟩, 1, ⟨"roads.mss", 1⟩, Zoom.all⟩] [] ⟨"roads.mss", 1⟩]⟩

theorem read_roads : Sheet.read roads.name roads.css ⟨0, 0⟩ = .ok (roadsSheet, ⟨2, 1⟩) := by
  have lexed : Lexeme.ofChars (LineComment.strip roads.css.toList) =
      [.leaf (.hash "roads") 1,
        .group .curly [.leaf (.word "line-color") 1, .leaf .colon 1, .leaf (.word "red") 1] 1] := by cbv
  change Reader.readSheet _ _ _ = _
  unfold Reader.readSheet
  rw [lexed]
  cbv

theorem lost_unflattened : lost.Unflattened (Stylesheets.load [lost, roads]).scope := by
  obtain ⟨stop, ran, -⟩ := Sheet.read_renumber _ read_roads (Renumbering.between_moves _ _ ⟨1, 1⟩)
  have read : Stylesheets.read [lost, roads] = [lostSheet, roadsSheet.renumber (.between ⟨0, 0⟩ ⟨1, 1⟩)] := by
    simp only [Stylesheets.read, Stylesheets.readFrom, read_lost, ran]
  have scope : (Stylesheets.load [lost, roads]).scope = Scope.empty := by
    rw [Stylesheets.load_eq_ofSheets, read]
    rfl
  rw [scope]
  exact ⟨⟨0, 0⟩, lostSheet, ⟨1, 1⟩, _, read_lost, rfl, rfl⟩

theorem roads_drawn : ∃ layer, (ofSources (Renderer.ofName "mapnik") town [roads]).layers = [.node layer []] ∧
    layer.error = none ∧ layer.styles.map (fun style => style.rules.length) = [1] := by
  have context : contextOf (Renderer.ofName "mapnik") town [roads] =
      ⟨Stylesheets.ofSheets [roadsSheet], Renderer.ofName "mapnik", none⟩ := by
    rw [contextOf, Stylesheets.load_eq_ofSheets, Stylesheets.read, Stylesheets.readFrom, read_roads]
    rfl
  rw [ofSources_layers, context]
  exact ⟨_, rfl, by decide +kernel, by decide +kernel⟩

theorem ofSources_failing_town :
    ofSources (Renderer.ofName "mapnik") town [lost, broken, roads] = ofSources (Renderer.ofName "mapnik") town [roads] ∧
      ofSheets (Renderer.ofName "mapnik") town ((Stylesheets.read [roads]).map (Sheet.renumber ⟨(2 * ·), (· + 7)⟩)) =
        ofSources (Renderer.ofName "mapnik") town [roads] ∧
      ∃ layer, (ofSources (Renderer.ofName "mapnik") town [lost, broken, roads]).layers = [.node layer []] ∧
        layer.error = none ∧ layer.styles.map (fun style => style.rules.length) = [1] := by
  obtain ⟨absent, order⟩ := ofSources_failing "mapnik" town
  have same : ofSources (Renderer.ofName "mapnik") town [lost, broken, roads] = ofSources (Renderer.ofName "mapnik") town [roads] :=
    (absent [lost] [roads] broken (.inl broken_unreadable)).trans (absent [] [roads] lost (.inr lost_unflattened))
  refine ⟨same, ?_, ?_⟩
  · apply order
    · exact fun m n less => by dsimp only; omega
    · exact fun m n equal => Nat.add_right_cancel equal
  · rw [same]
    exact roads_drawn

end StyledMap
end MapStyle
