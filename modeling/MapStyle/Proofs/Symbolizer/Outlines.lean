import MapStyle.Proofs.Renderer.Arrangement
import MapStyle.Renderer.Named
/-!
Outlines taken off again. A line that becomes the outline of a polygon keeps its stroke, and shares the polygon's common
settings from then on. These are compared beforehand, but for the clipping; so the clipping of a line is all that can be lost.
-/
namespace MapStyle

namespace Symbolizer
variable {symbolizers : List Symbolizer}

/-- Whether it is anything but a polygon with an outline. -/
def isPlain : Symbolizer → Bool
  | polygon p => p.stroke.isNone
  | _ => true

/-- An outlined polygon as the polygon alone, and a line with its outline and its common settings. -/
def separate : Symbolizer → List Symbolizer
  | polygon p =>
    match p.stroke with
    | some stroke => [polygon { p with stroke := none }, line ⟨stroke, p.common⟩]
    | none => [polygon p]
  | symbolizer => [symbolizer]

def separateAll (symbolizers : List Symbolizer) : List Symbolizer := symbolizers.flatMap separate

/-- Each line that can become the outline of the polygon in front of it, clipped as the polygon is. -/
def adoptClip : List Symbolizer → List Symbolizer
  | .polygon p :: .line l :: rest =>
    if canOutline p l then .polygon p :: .line { l with common.clip := p.common.clip } :: adoptClip rest
    else .polygon p :: adoptClip (.line l :: rest)
  | symbolizer :: rest => symbolizer :: adoptClip rest
  | [] => []

theorem canOutline_iff {p : PolygonSymbolizer} {l : LineSymbolizer} : canOutline p l ↔
    p.stroke = none ∧ p.common.compOp = l.common.compOp ∧ l.common.geometry = {} ∧ p.common.geometry = {} := by
  simp [canOutline, and_assoc]

theorem mergeOutlines_line {l : LineSymbolizer} {more : List Symbolizer} (same : mergeOutlines symbolizers = line l :: more) :
    ∃ rest, symbolizers = line l :: rest := by
  revert same
  fun_cases mergeOutlines symbolizers with
  | case1 => simp
  | case2 => simp
  | case3 symbolizer rest apart =>
    intro same
    exact ⟨rest, by rw [(List.cons_eq_cons.mp same).1]⟩
  | case4 => simp

theorem mergeOutlines_cons {symbolizer : Symbolizer}
    (apart : ∀ p l more, symbolizer = polygon p → symbolizers = line l :: more → canOutline p l = false) :
    mergeOutlines (symbolizer :: symbolizers) = symbolizer :: mergeOutlines symbolizers := by
  rw [mergeOutlines.eq_def (symbolizer :: symbolizers)]
  split
  · rename_i p l more same
    obtain ⟨rfl, rfl⟩ := List.cons_eq_cons.mp same
    rw [if_neg (by simp [apart p l more rfl rfl])]
  · rename_i same
    obtain ⟨rfl, rfl⟩ := List.cons_eq_cons.mp same
    rfl
  · rename_i same
    cases same

theorem mergeOutlines_mergeOutlines (symbolizers : List Symbolizer) :
    mergeOutlines (mergeOutlines symbolizers) = mergeOutlines symbolizers := by
  fun_induction mergeOutlines symbolizers with
  | case1 p l rest can ih =>
    rw [mergeOutlines_cons, ih]
    rintro _ _ _ same -
    obtain rfl := polygon.inj same
    simp [canOutline]
  | case2 p l rest cannot ih =>
    rw [mergeOutlines_cons, ih]
    rintro _ l' more same isLine
    obtain rfl := polygon.inj same
    obtain ⟨_, sameLine⟩ := mergeOutlines_line isLine
    obtain rfl := line.inj (List.cons_eq_cons.mp sameLine).1
    simpa using cannot
  | case3 symbolizer rest apart ih =>
    rw [mergeOutlines_cons, ih]
    rintro p l more same isLine
    obtain ⟨behind, sameRest⟩ := mergeOutlines_line isLine
    exact absurd sameRest (apart p l behind same)
  | case4 => rfl

theorem mergeOutlines_enabled (enabled : ∀ symbolizer ∈ symbolizers, symbolizer.isEnabled) :
    ∀ symbolizer ∈ mergeOutlines symbolizers, symbolizer.isEnabled := by
  fun_induction mergeOutlines symbolizers with
  | case1 polygon line rest outlined ih =>
    obtain ⟨-, enabledRest⟩ := List.forall_mem_cons.mp enabled
    rw [List.forall_mem_cons]
    constructor
    · simp [isEnabled]
    · exact ih (List.forall_mem_cons.mp enabledRest).2
  | case2 polygon line rest apart ih =>
    obtain ⟨enabledHere, enabledRest⟩ := List.forall_mem_cons.mp enabled
    exact List.forall_mem_cons.mpr ⟨enabledHere, ih enabledRest⟩
  | case3 symbolizer rest _ ih =>
    obtain ⟨enabledHere, enabledRest⟩ := List.forall_mem_cons.mp enabled
    exact List.forall_mem_cons.mpr ⟨enabledHere, ih enabledRest⟩
  | case4 => exact enabled

theorem separateAll_cons (symbolizer : Symbolizer) :
    separateAll (symbolizer :: symbolizers) = symbolizer.separate ++ separateAll symbolizers := List.flatMap_cons

theorem separate_of_isPlain {symbolizer : Symbolizer} (plain : symbolizer.isPlain) : symbolizer.separate = [symbolizer] := by
  cases symbolizer with
  | polygon p => simp [separate, Option.isNone_iff_eq_none.mp plain]
  | _ => rfl

theorem separateAll_mergeOutlines (plain : ∀ symbolizer ∈ symbolizers, symbolizer.isPlain) :
    separateAll (mergeOutlines symbolizers) = adoptClip symbolizers := by
  fun_induction mergeOutlines symbolizers with
  | case1 p l rest can ih =>
    obtain ⟨-, plainRest⟩ := List.forall_mem_cons.mp plain
    obtain ⟨noStroke, compOp, lineGeometry, geometry⟩ := canOutline_iff.mp can
    have alike : p.common = ⟨p.common.clip, l.common.compOp, l.common.geometry⟩ := by
      rw [← compOp, lineGeometry, ← geometry]
    have alone : { p with stroke := none } = p := by rw [← noStroke]
    rw [adoptClip, if_pos can, separateAll_cons, ih (List.forall_mem_cons.mp plainRest).2]
    simp only [separate, alone, List.cons_append, List.nil_append, ← alike]
  | case2 p l rest cannot ih =>
    obtain ⟨plainHere, plainRest⟩ := List.forall_mem_cons.mp plain
    rw [adoptClip, if_neg cannot, separateAll_cons, ih plainRest, separate_of_isPlain plainHere]
    rfl
  | case3 symbolizer rest apart ih =>
    obtain ⟨plainHere, plainRest⟩ := List.forall_mem_cons.mp plain
    rw [adoptClip, separateAll_cons, ih plainRest, separate_of_isPlain plainHere]
    · rfl
    · exact apart
  | case4 => rfl

theorem pair_infix_cons {p : PolygonSymbolizer} {l : LineSymbolizer} {symbolizer : Symbolizer} :
    [polygon p, line l] <:+: symbolizer :: symbolizers ↔
      (polygon p = symbolizer ∧ [line l] <+: symbolizers) ∨ [polygon p, line l] <:+: symbolizers := by
  rw [List.infix_cons_iff, List.cons_prefix_cons]

theorem adoptClip_eq_self_iff : adoptClip symbolizers = symbolizers ↔
    ∀ p l, [polygon p, line l] <:+: symbolizers → canOutline p l → l.common.clip = p.common.clip := by
  fun_induction adoptClip symbolizers with
  | case1 p l rest can ih =>
    have line_eq : { l with common.clip := p.common.clip } = l ↔ l.common.clip = p.common.clip := by
      constructor
      · intro same
        rw [← same]
      · intro same
        rw [← same]
    simp only [List.cons.injEq, true_and, line.injEq, line_eq, ih, pair_infix_cons, polygon.injEq]
    constructor
    · rintro ⟨here, later⟩ q m (⟨rfl, front⟩ | ⟨isLine, -⟩ | inRest)
      · obtain rfl := line.inj (List.cons_prefix_cons.mp front).1
        exact fun _ => here
      · cases isLine
      · exact later q m inRest
    · intro all
      exact ⟨all p l (Or.inl ⟨rfl, by simp⟩) can, fun q m inRest => all q m (Or.inr (Or.inr inRest))⟩
  | case2 p l rest cannot ih =>
    rw [List.cons.injEq, ih]
    constructor
    · rintro ⟨-, later⟩ q m isPair can
      rcases pair_infix_cons.mp isPair with ⟨isFirst, front⟩ | inRest
      · obtain rfl := polygon.inj isFirst
        obtain rfl := line.inj (List.cons_prefix_cons.mp front).1
        exact absurd can cannot
      · exact later q m inRest can
    · exact fun all => ⟨rfl, fun q m inRest => all q m (pair_infix_cons.mpr (Or.inr inRest))⟩
  | case3 symbolizer rest apart ih =>
    rw [List.cons.injEq, ih]
    constructor
    · rintro ⟨-, later⟩ q m isPair
      rcases pair_infix_cons.mp isPair with ⟨isFirst, more, front⟩ | inRest
      · exact absurd front.symm (apart q m more isFirst.symm)
      · exact later q m inRest
    · exact fun all => ⟨rfl, fun q m inRest => all q m (pair_infix_cons.mpr (Or.inr inRest))⟩
  | case4 => simp

end Symbolizer

namespace Mapnik
open Symbolizer
variable {σ : Type} {settings : Settings σ}

theorem build_keeps {α : Type} {f : σ → α} (keeps : ∀ entry ∈ settings, ∀ p g, entry.2 p = .ok g → ∀ s, f (g s) = f s)
    {start s : σ} {ps : List Property} (built : build settings start ps = .ok s) : f s = f start := by
  have effect_keeps : ∀ p s, f (effect settings p s) = f s := by
    intro p s
    rcases effect_cases settings p with same | ⟨setter, g, member, made, same⟩
    · rw [same, id]
    · rw [same]
      exact keeps (p.name, setter) member p g made s
  obtain ⟨-, rfl⟩ := build_ok_iff.mp built
  clear built
  induction ps generalizing start with
  | nil => rfl
  | cons p ps ih => rw [List.foldl_cons, ih, effect_keeps]

theorem map_keeps {α β : Type} {f : σ → β} {read : Property → Except RenderError α} {put : α → σ → σ}
    (keeps : ∀ v s, f (put v s) = f s) : ∀ p g, (fun p => (read p).map put) p = .ok g → ∀ s, f (g s) = f s := by
  intro p g made s
  obtain ⟨v, -, rfl⟩ := map_ok made
  exact keeps v s

theorem build_polygon_plain {p : PolygonSymbolizer} {ps : List Property} (built : build polygonSettings {} ps = .ok p) :
    p.stroke = none := by
  refine build_keeps (f := PolygonSymbolizer.stroke) ?_ built
  unfold polygonSettings
  simp only [List.forall_mem_append, List.forall_mem_cons]
  refine ⟨?_, map_keeps fun _ _ => rfl, map_keeps fun _ _ => rfl, map_keeps fun _ _ => rfl, by simp⟩
  intro entry member
  obtain ⟨name, part, -, rfl⟩ := mem_within member
  exact map_keeps fun _ _ => rfl

theorem symbolizer_isPlain {kind : Kind} {ps : List Property} {s : Symbolizer} (built : symbolizer kind ps = .ok s) :
    s.isPlain := by
  cases kind with
  | polygon =>
    obtain ⟨p, builtPolygon, rfl⟩ := map_ok built
    exact Option.isNone_iff_eq_none.mpr (build_polygon_plain builtPolygon)
  | _ =>
    obtain ⟨_, -, rfl⟩ := map_ok built
    rfl

end Mapnik

theorem Renderer.ofName_symbolizer_isPlain {name : String} {kind : Kind} {ps : List Property} {s : Symbolizer}
    (built : (ofName name).symbolizer kind ps = .ok s) : s.isPlain := by
  unfold ofName at built
  split at built
  · cases built
  · exact Mapnik.symbolizer_isPlain built

namespace Symbolizer

/-- Symbolizers without outlines, as every renderer builds them. When they have been merged, taking the outlines off again
gives them back, but that each line that was an outline is clipped as its polygon. So all of them come back just if every line
that can become an outline is clipped as the polygon in front of it. To merge twice changes nothing. -/
theorem mergeOutlines_lossless_iff {symbolizers : List Symbolizer} (plain : ∀ symbolizer ∈ symbolizers, symbolizer.isPlain) :
    separateAll (mergeOutlines symbolizers) = adoptClip symbolizers ∧
      (separateAll (mergeOutlines symbolizers) = symbolizers ↔
        ∀ p l, [polygon p, line l] <:+: symbolizers → canOutline p l → l.common.clip = p.common.clip) ∧
      mergeOutlines (mergeOutlines symbolizers) = mergeOutlines symbolizers ∧
      ∀ name kind ps s, (Renderer.ofName name).symbolizer kind ps = .ok s → s.isPlain := by
  refine ⟨separateAll_mergeOutlines plain, ?_, mergeOutlines_mergeOutlines symbolizers, ?_⟩
  · rw [separateAll_mergeOutlines plain, adoptClip_eq_self_iff]
  · exact fun name kind ps s built => Renderer.ofName_symbolizer_isPlain built

def unclipped : List Symbolizer := [polygon {}, line { common.clip := false }]

theorem mergeOutlines_lossless_iff_unclipped :
    (∀ symbolizer ∈ unclipped, symbolizer.isPlain) ∧ separateAll (mergeOutlines unclipped) = [polygon {}, line {}] ∧
      separateAll (mergeOutlines unclipped) ≠ unclipped ∧ mergeOutlines (mergeOutlines unclipped) = mergeOutlines unclipped := by
  have plain : ∀ symbolizer ∈ unclipped, symbolizer.isPlain := by decide
  obtain ⟨comesBack, lossless, again, -⟩ := mergeOutlines_lossless_iff plain
  refine ⟨plain, comesBack.trans rfl, fun same => ?_, again⟩
  have alike := lossless.mp same _ _ (List.infix_refl _) (by decide)
  exact absurd alike (by decide)

end Symbolizer
end MapStyle
