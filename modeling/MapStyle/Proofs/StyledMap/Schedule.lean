import MapStyle.Proofs.Project.Forest
import MapStyle.Proofs.StyledMap.Alone
import MapStyle.Proofs.Workers.Finish
import MapStyle.StyledMap.Compile
/-!
Schedules. However many workers there are and in whatever order they have their turns, a map comes out as it does when its
layers are compiled one after the other.
-/
namespace MapStyle

namespace StyledMap
variable (renderer : Renderer) (project : Project) (sources : List Source)

theorem ofSources_layers : (ofSources renderer project sources).layers =
    Tree.mapAll (layerAlone (contextOf renderer project sources)) project.layers := by
  obtain ⟨alone, -⟩ := compileLayers_alone renderer project sources (sharedAtFirst_settled renderer project sources)
    (Tree.walkAll project.layers)
  have assembled := Tree.assemble_walkAll (layerAlone (contextOf renderer project sources)) project.layers []
  rw [List.append_nil, ← alone] at assembled
  exact congrArg Prod.fst assembled

theorem layers_expected : Pool.Expects (Stylesheets.foresight sources) (Tree.walkAll project.layers)
    (fun _ tree => MapLayer.compile (contextOf renderer project sources) tree)
    ((Tree.walkAll project.layers).map (layerAlone (contextOf renderer project sources))) where
  length := by rw [List.length_map]
  foreseen := by
    intro n tree found
    exact ⟨_, by rw [List.getElem?_map, found]; rfl, compile_alone renderer project sources tree⟩

theorem layers_length : ((Tree.walkAll project.layers).map (layerAlone (contextOf renderer project sources))).length =
    project.layerCount := by
  rw [List.length_map, Tree.walkAll_length, Project.layerCount]

section schedule
variable (threads : Nat) (schedule : List Nat)

theorem workersAfter_sound :
    (workersAfter (contextOf renderer project sources) project threads schedule).Sound (Stylesheets.foresight sources)
      ((Tree.walkAll project.layers).map (layerAlone (contextOf renderer project sources))) :=
  Pool.run_sound (layers_expected renderer project sources)
    (Pool.start_sound (sharedAtFirst_settled renderer project sources) _ _) schedule

theorem workersAfter_length :
    (workersAfter (contextOf renderer project sources) project threads schedule).workers.length =
      max (min threads project.layerCount) 1 := by
  rw [workersAfter, Pool.run_length, Pool.start, List.length_replicate, Tree.walkAll_length]
  rfl

theorem workersAfter_reports :
    (workersAfter (contextOf renderer project sources) project threads schedule).reports = (progress project).take
      (workersAfter (contextOf renderer project sources) project threads schedule).done := by
  have sound := workersAfter_sound renderer project sources threads schedule
  have total := layers_length renderer project sources
  have within := sound.done_le
  rw [total] at within
  rw [sound.reports, total, progress, ← List.map_take, List.take_range, Nat.min_eq_left within]

theorem workersAfter_finished
    (finished : (workersAfter (contextOf renderer project sources) project threads schedule).isFinished) :
    (workersAfter (contextOf renderer project sources) project threads schedule).done = project.layerCount ∧
      (workersAfter (contextOf renderer project sources) project threads schedule).results =
        (Tree.walkAll project.layers).map (layerAlone (contextOf renderer project sources)) := by
  have busy : (workersAfter (contextOf renderer project sources) project threads schedule).workers ≠ [] := by
    rw [← List.length_pos_iff, workersAfter_length]
    omega
  rw [← layers_length renderer project sources]
  exact (workersAfter_sound renderer project sources threads schedule).finished busy finished

/-- The workers make the map that compiling one layer after the other makes. -/
theorem ofSchedule?_finished
    (finished : (workersAfter (contextOf renderer project sources) project threads schedule).isFinished) :
    ofSchedule? renderer project sources threads schedule = some (ofSources renderer project sources) := by
  obtain ⟨alone, settled⟩ := compileLayers_alone renderer project sources (sharedAtFirst_settled renderer project sources)
    (Tree.walkAll project.layers)
  obtain ⟨-, results⟩ := workersAfter_finished renderer project sources threads schedule finished
  have fonts := (workersAfter_sound renderer project sources threads schedule).settled.fonts.trans settled.fonts.symm
  rw [ofSchedule?, if_pos finished, results]
  apply congrArg some
  -- of what was shared, the map has only the fonts
  change assemble _ project _ _ = assemble (contextOf renderer project sources) project _ _
  rw [alone, assemble, assemble, fonts]

end schedule

theorem workersAfter_ends (threads : Nat) :
    ∃ enough, ∀ schedule, (∀ worker < max threads 1, enough ≤ schedule.count worker) →
      (workersAfter (contextOf renderer project sources) project threads schedule).isFinished := by
  refine ⟨(workersAfter (contextOf renderer project sources) project threads []).turns (Stylesheets.foresight sources)
    (Tree.walkAll project.layers) fun _ tree => MapLayer.compile (contextOf renderer project sources) tree, ?_⟩
  intro schedule fair
  apply Pool.run_finished (layers_expected renderer project sources) (workersAfter_sound renderer project sources threads [])
  intro worker inside
  rw [workersAfter_length] at inside
  apply fair
  omega

/-- Whatever the number of workers and the order of their turns: no font is registered but those registered beforehand;
what has been reported is the progress up to now; and when the workers have stopped, as they do once each had enough turns,
every layer is what it is alone, all progress was reported, and the map is that of the layers compiled one after the other. -/
theorem schedule_independent (threads : Nat) :
    (∀ schedule,
      (workersAfter (contextOf renderer project sources) project threads schedule).shared.fonts =
          (contextOf renderer project sources).sheets.fontSets ∧
        (workersAfter (contextOf renderer project sources) project threads schedule).reports = (progress project).take
          (workersAfter (contextOf renderer project sources) project threads schedule).done ∧
        ((workersAfter (contextOf renderer project sources) project threads schedule).isFinished →
          (workersAfter (contextOf renderer project sources) project threads schedule).results =
              (Tree.walkAll project.layers).map (layerAlone (contextOf renderer project sources)) ∧
            (workersAfter (contextOf renderer project sources) project threads schedule).reports = progress project ∧
            ofSchedule? renderer project sources threads schedule = some (ofSources renderer project sources))) ∧
    (ofSources renderer project sources).layers =
      Tree.mapAll (layerAlone (contextOf renderer project sources)) project.layers ∧
    ∃ enough, ∀ schedule, (∀ worker < max threads 1, enough ≤ schedule.count worker) →
      (workersAfter (contextOf renderer project sources) project threads schedule).isFinished := by
  constructor
  · intro schedule
    have reports := workersAfter_reports renderer project sources threads schedule
    refine ⟨(workersAfter_sound renderer project sources threads schedule).settled.fonts, reports, fun finished => ?_⟩
    obtain ⟨allDone, results⟩ := workersAfter_finished renderer project sources threads schedule finished
    refine ⟨results, ?_, ofSchedule?_finished renderer project sources threads schedule finished⟩
    rw [reports, allDone]
    apply List.take_of_length_le
    simp [progress]
  constructor
  · exact ofSources_layers renderer project sources
  · exact workersAfter_ends renderer project sources threads

/-- A label, and a line of which the width is not defined. -/
def unevenText : String := "#places \x7b text-name: '[name]'; text-face-name: 'Noto Sans' \x7d #roads \x7b line-width: @width \x7d"

def uneven : List Source := [⟨"roads.mss", unevenText⟩]

def plainLayer (name : String) : LayerTree :=
  .node ⟨name, none, "", none, none, none, LayerSettings.unset, []⟩ []

def twoLayers : Project :=
  ⟨"town", none, none, none, none, none, none, none, none, none, [], [plainLayer "places", plainLayer "roads"]⟩

def twoContext : MapContext := contextOf (Renderer.ofName "mapnik") twoLayers uneven

def twoWorkers (schedule : List Nat) : Pool MapLayer := workersAfter twoContext twoLayers 2 schedule

theorem schedule_independent_two :
    (∀ schedule, (twoWorkers schedule).shared.fonts = twoContext.sheets.fontSets ∧
      (twoWorkers schedule).reports = [(1, 2), (2, 2)].take (twoWorkers schedule).done) ∧
    (ofSources (Renderer.ofName "mapnik") twoLayers uneven).layers =
      Tree.mapAll (layerAlone twoContext) twoLayers.layers ∧
    ∃ turns, ∀ schedule ∈ [List.replicate turns 0 ++ List.replicate turns 1,
        List.replicate turns 1 ++ List.replicate turns 0, (List.replicate turns [0, 1]).flatten],
      (twoWorkers schedule).isFinished ∧
        (twoWorkers schedule).results = (Tree.walkAll twoLayers.layers).map (layerAlone twoContext) ∧
        (twoWorkers schedule).reports = [(1, 2), (2, 2)] ∧
        ofSchedule? (Renderer.ofName "mapnik") twoLayers uneven 2 schedule =
          some (ofSources (Renderer.ofName "mapnik") twoLayers uneven) := by
  obtain ⟨orders, layers, enough, ends⟩ := schedule_independent (Renderer.ofName "mapnik") twoLayers uneven 2
  have inOrder : progress twoLayers = [(1, 2), (2, 2)] := by decide +kernel
  rw [inOrder] at orders
  refine ⟨fun schedule => ⟨(orders schedule).1, (orders schedule).2.1⟩, layers, enough, fun schedule isOne => ?_⟩
  have finished : (twoWorkers schedule).isFinished := by
    apply ends schedule
    intro worker inside
    have isWorker : worker = 0 ∨ worker = 1 := by omega
    simp only [List.mem_cons, List.not_mem_nil, or_false] at isOne
    rcases isOne with rfl | rfl | rfl <;> rcases isWorker with rfl | rfl <;>
      simp [List.count_replicate, List.count_flatten]
  exact ⟨finished, (orders schedule).2.2 finished⟩

end StyledMap
end MapStyle
