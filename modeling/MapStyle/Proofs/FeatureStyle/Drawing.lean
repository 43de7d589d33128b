import MapStyle.FeatureStyle.Basic
import MapStyle.Proofs.FeatureStyle.Slices
import MapStyle.Proofs.Task.Replay
import MapStyle.Proofs.Zoom.Spans
/-!
What the rules of a definition draw. Each level that earlier definitions left is drawn by one rule, or by none where
nothing is visible or nothing can draw.
-/
namespace MapStyle

namespace Group
variable (context : Context)

theorem properties_replays (kind : Kind) (declarations : List Declaration) :
    Job.Replays context.scope (properties context kind declarations) := by
  induction declarations with
  | nil => exact .pure []
  | cons declaration rest ih =>
    unfold properties
    split
    · exact .bind (.value _) fun _ => .bind ih fun _ => .pure _
    · exact .throw _

theorem registerFonts_replays (properties : List Property) (symbolizer : Symbolizer) :
    Job.Replays context.scope (registerFonts context properties symbolizer) := by
  unfold registerFonts
  split
  · split
    · exact .bind (.fontSet _) fun _ => .pure _
    · exact .pure _
  · exact .pure _

theorem symbolizer?_replays (group : Group) : Job.Replays context.scope (symbolizer? context group) := by
  unfold symbolizer?
  split
  · exact .pure _
  · refine .bind (properties_replays context _ _) fun properties => ?_
    split
    · exact .throw _
    · exact .bind (.ofExcept _) fun _ => .bind (registerFonts_replays context _ _) fun _ => .pure _

theorem inOrder_replays (groups : List Group) : Job.Replays context.scope (inOrder context groups) := by
  induction groups with
  | nil => exact .pure []
  | cons group rest ih => exact .bind (symbolizer?_replays context group) fun _ => .bind ih fun _ => .pure _

theorem sort_pair {a b : Group} (before : b.index < a.index) : sort [a, b] = [b, a] := by
  have later : ¬ a.index ≤ b.index := Nat.not_le.mpr before
  simp [sort, List.mergeSort, later]

theorem symbolizers_nil (shared : Shared) : (symbolizers context []).run context.scope shared = (.ok [], shared) := by
  have sorted : sort [] = [] := by simp [sort]
  rw [symbolizers, sorted]
  rfl

theorem symbolizers_replays (groups : List Group) : Job.Replays context.scope (symbolizers context groups) :=
  .bind (inOrder_replays context _) fun _ => .pure _

end Group

namespace Rule
open Declaration

/-- What rules draw at a level: name, filter and symbolizers of each that covers it. -/
def drawnAt (level : Nat) (rules : List Rule) : List (String × Option String × List Symbolizer) :=
  (rules.filter fun rule => rule.span.covers level).map fun rule => (rule.name, rule.filter, rule.symbolizers)

/-- Whether rules draw at a level what a slice has for it: in one rule the symbolizers as they are built in `shared`,
unless none of them can draw; and nothing where there is no slice. -/
def Draw (context : Context) (shared : Shared) (filter : Option String) (level : Nat) (rules : List Rule) :
    Option (Declaration × List Group) → Prop
  | none => drawnAt level rules = []
  | some (lead, groups) => ∃ symbolizers,
      (Group.symbolizers context groups).run context.scope shared = (.ok symbolizers, shared) ∧
      drawnAt level rules =
        if symbolizers.any Symbolizer.isEnabled then [(lead.instanceName, filter, symbolizers)] else []

variable {context : Context} {filter : Option String} {level : Nat} {before after : Shared}

theorem drawnAt_append (front back : List Rule) : drawnAt level (front ++ back) = drawnAt level front ++ drawnAt level back := by
  simp [drawnAt]

namespace Draw
variable {rules others : List Rule} {held : Option (Declaration × List Group)}

theorem later {late : Shared} (draw : Draw context after filter level rules held) (grown : after.Extends late) :
    Draw context late filter level rules held := by
  cases held with
  | none => exact draw
  | some slice =>
    obtain ⟨symbolizers, built, drawn⟩ := draw
    exact ⟨symbolizers, Group.symbolizers_replays context _ _ _ _ built late grown, drawn⟩

theorem append (draw : Draw context after filter level rules held) (nothing : drawnAt level others = []) :
    Draw context after filter level (rules ++ others) held := by
  cases held with
  | none => exact (drawnAt_append rules others).trans (by rw [show drawnAt level rules = [] from draw, nothing]; rfl)
  | some slice =>
    obtain ⟨symbolizers, built, drawn⟩ := draw
    exact ⟨symbolizers, built, by rw [drawnAt_append, nothing, List.append_nil, drawn]⟩

theorem prepend (draw : Draw context after filter level rules held) (nothing : drawnAt level others = []) :
    Draw context after filter level (others ++ rules) held := by
  cases held with
  | none => exact (drawnAt_append others rules).trans (by rw [show drawnAt level rules = [] from draw, nothing]; rfl)
  | some slice =>
    obtain ⟨symbolizers, built, drawn⟩ := draw
    exact ⟨symbolizers, built, by rw [drawnAt_append, nothing, List.nil_append, drawn]⟩

end Draw

theorem ofSlice_drawnAt (filter : Option String) (slice : Slice) (visible : Zoom) (symbolizers : List Symbolizer) (isLevel : level < Zoom.levels) :
    drawnAt level (ofSlice slice filter visible symbolizers) =
      if visible.contains level ∧ symbolizers.any Symbolizer.isEnabled then
        [(slice.lead.instanceName, filter, symbolizers)] else [] := by
  by_cases enabled : symbolizers.any Symbolizer.isEnabled
  · have count := Zoom.spans_countP visible isLevel
    rw [List.countP_eq_length_filter] at count
    -- there is a rule for each span, and a visible level is in one span
    have drawn : drawnAt level (ofSlice slice filter visible symbolizers) =
        (visible.spans.filter (·.covers level)).map fun _ => (slice.lead.instanceName, filter, symbolizers) := by
      simp only [drawnAt, ofSlice, if_pos enabled, List.filter_map, List.map_map]
      rfl
    rw [drawn, List.map_const', count]
    by_cases seen : visible.contains level <;> simp [seen, enabled]
  · simp [drawnAt, ofSlice, enabled]

theorem ofSlices_cons_ok {remaining left : Zoom} {slice : Slice} {rest : List Slice} {rules : List Rule}
    (ran : (ofSlices context filter remaining (slice :: rest)).run context.scope before = ((rules, .ok left), after)) :
    ((remaining.inter slice.levels).isEmpty ∧
      (ofSlices context filter remaining rest).run context.scope before = ((rules, .ok left), after)) ∨
    ∃ symbolizers between others,
      (Group.symbolizers context slice.groups).run context.scope before = (.ok symbolizers, between) ∧
      (ofSlices context filter (remaining.diff slice.levels) rest).run context.scope between =
        ((others, .ok left), after) ∧
      rules = ofSlice slice filter (remaining.inter slice.levels) symbolizers ++ others := by
  rw [ofSlices] at ran
  by_cases empty : (remaining.inter slice.levels).isEmpty
  · exact .inl ⟨empty, by simpa [empty] using ran⟩
  · rw [if_neg empty] at ran
    obtain ⟨result, between, built, ranRest⟩ := Task.bind_ran ran
    cases result with
    | error error =>
      have failed : (([] : List Rule), (Except.error error : Except StyleError Zoom)) = (rules, .ok left) :=
        congrArg Prod.fst ranRest
      simp at failed
    | ok symbolizers =>
      obtain ⟨⟨others, result⟩, late, ranOthers, finished⟩ := Task.bind_ran ranRest
      obtain ⟨same, rfl⟩ := Prod.mk.inj (finished :
        ((ofSlice slice filter (remaining.inter slice.levels) symbolizers ++ others, result), late) = _)
      obtain ⟨rfl, rfl⟩ := Prod.mk.inj same
      exact .inr ⟨symbolizers, between, others, built, ranOthers, rfl⟩

/-- What slices draw at the levels that remain: the first of them that holds a level draws it. Afterwards the levels
that no slice holds remain. -/
theorem ofSlices_draw (isLevel : level < Zoom.levels) {remaining left : Zoom} {slices : List Slice} {rules : List Rule}
    (ran : (ofSlices context filter remaining slices).run context.scope before = ((rules, .ok left), after)) :
    Draw context after filter level rules (if remaining.contains level then (Slice.heldAt level slices).head? else none) ∧
      left.contains level = (remaining.contains level && (Slice.heldAt level slices).isEmpty) := by
  induction slices generalizing remaining before rules with
  | nil =>
    obtain ⟨same, rfl⟩ := Prod.mk.inj (ran : (([], Except.ok remaining), before) = ((rules, Except.ok left), after))
    obtain ⟨rfl, remains⟩ := Prod.mk.inj same
    obtain rfl := Except.ok.inj remains
    simp [Draw, drawnAt]
  | cons slice rest ih =>
    rw [Slice.heldAt_cons]
    rcases ofSlices_cons_ok ran with ⟨empty, ranRest⟩ | ⟨symbolizers, between, others, built, ranRest, rfl⟩
    · -- a slice is passed over where none of its levels remain
      have apart := (Zoom.isEmpty_iff _).mp empty level
      rw [Zoom.contains_inter] at apart
      by_cases remains : remaining.contains level
      · rw [if_neg (by simpa [remains] using apart : ¬ slice.levels.contains level)]
        exact ih ranRest
      · simpa [remains] using ih ranRest
    · obtain ⟨draw, leftOver⟩ := ih ranRest
      rw [Zoom.contains_diff] at draw leftOver
      have drawn := ofSlice_drawnAt filter slice (remaining.inter slice.levels) symbolizers isLevel
      rw [Zoom.contains_inter] at drawn
      by_cases remains : remaining.contains level
      · by_cases inside : slice.levels.contains level
        · -- the level is taken, so that the other slices draw nothing there
          have nothing : drawnAt level others = [] := by simpa [inside, Draw] using draw
          simp only [remains, inside, if_true, List.head?_cons]
          refine ⟨⟨symbolizers, ?_, ?_⟩, by simpa [inside] using leftOver⟩
          · exact Group.symbolizers_replays context _ _ _ _ built after (Task.ran_extends ranRest)
          · rw [drawnAt_append, nothing, List.append_nil, drawn]
            simp [remains, inside]
        · simp only [remains, inside, Bool.not_false, Bool.and_self, if_true, if_false, Bool.false_eq_true] at draw leftOver drawn ⊢
          refine ⟨draw.prepend ?_, leftOver⟩
          rw [drawn, if_neg (by simp)]
      · simp only [remains, Bool.false_and, if_false, Bool.false_eq_true] at draw leftOver drawn ⊢
        refine ⟨draw.prepend ?_, leftOver⟩
        rw [drawn, if_neg (by simp)]

end Rule

namespace Remaining

@[simp] theorem get_set (remaining : Remaining) (filters : String) (zoom : Zoom) : (remaining.set filters zoom).get filters = zoom := by
  simp [get, set]

@[simp] theorem get_empty (filters : String) : empty.get filters = Zoom.all := rfl

end Remaining

namespace Rule
open Declaration

variable {context : Context} {level : Nat} {before after : Shared}

theorem ofDefinition_ok {definition : Definition} {remaining : Remaining} {outcome : Outcome}
    (ran : (ofDefinition context definition remaining).run context.scope before = (outcome, after))
    (succeeded : outcome.error = none) :
    (∀ declaration ∈ definition.declarations, (context.renderer.target? declaration.property).isSome) ∧
    ∃ filter left, filterExpression context.renderer definition = .ok filter ∧
      (ofSlices context filter (remaining.get definition.filters.text)
        (Slice.cut context.renderer.target? (remaining.get definition.filters.text) Zoom.all definition.declarations)).run
          context.scope before = ((outcome.rules, .ok left), after) ∧
      outcome.remaining = remaining.set definition.filters.text left := by
  have ended : ∀ {late : Shared} {result : Outcome}, (result, late) = (outcome, after) → result.error = none := by
    intro late result same
    rw [(Prod.mk.inj same).1, succeeded]
  simp only [ofDefinition] at ran
  cases unknown : definition.declarations.find? fun declaration => (context.renderer.target? declaration.property).isNone with
  | some declaration =>
    simp only [unknown] at ran
    exact absurd (ended ran) (by simp)
  | none =>
    simp only [unknown] at ran
    cases isFilter : filterExpression context.renderer definition with
    | error error =>
      simp only [isFilter] at ran
      exact absurd (ended ran) (by simp)
    | ok filter =>
      simp only [isFilter] at ran
      obtain ⟨⟨rules, result⟩, between, ranSlices, finished⟩ := Task.bind_ran ran
      cases result with
      | error error => exact absurd (ended finished) (by simp)
      | ok left =>
        obtain ⟨rfl, rfl⟩ := Prod.mk.inj (finished : (Outcome.mk _ _ _, between) = _)
        refine ⟨fun declaration member => ?_, filter, left, rfl, ranSlices, rfl⟩
        exact Option.isSome_iff_ne_none.mpr (by simpa using List.find?_eq_none.mp unknown declaration member)

/-- At a level that earlier definitions with its filters left, a definition draws what it has to, and leaves the level
only if that is nothing. -/
theorem ofDefinition_draw (isLevel : level < Zoom.levels) {definition : Definition} {remaining : Remaining} {outcome : Outcome}
    (ran : (ofDefinition context definition remaining).run context.scope before = (outcome, after))
    (succeeded : outcome.error = none) :
    ∃ filter, filterExpression context.renderer definition = .ok filter ∧
      Draw context after filter level outcome.rules
        (if (remaining.get definition.filters.text).contains level then
          Slice.due? context.renderer.target? level definition.declarations else none) ∧
      (outcome.remaining.get definition.filters.text).contains level =
        ((remaining.get definition.filters.text).contains level &&
          (Slice.due? context.renderer.target? level definition.declarations).isNone) := by
  obtain ⟨known, filter, left, isFilter, ranSlices, isRemaining⟩ := ofDefinition_ok ran succeeded
  obtain ⟨draw, isLeft⟩ := ofSlices_draw isLevel ranSlices
  refine ⟨filter, isFilter, ?_⟩
  rw [isRemaining, Remaining.get_set, isLeft]
  by_cases remains : (remaining.get definition.filters.text).contains level
  · rw [Slice.cut_heldAt known remains (by simpa using isLevel)] at draw ⊢
    cases due : Slice.due? context.renderer.target? level definition.declarations <;> simp_all
  · simp_all

end Rule

namespace FeatureStyle
open Declaration Rule

variable {context : Context} {level : Nat} {before after : Shared} {remaining : Remaining} {rules : List Rule}

theorem rulesOf_cons_ok {definition : Definition} {rest : List Definition}
    (ran : (rulesOf context remaining (definition :: rest)).run context.scope before = (.ok rules, after)) :
    (definition.declarations.all (isStyleProperty context) ∧
      (rulesOf context remaining rest).run context.scope before = (.ok rules, after)) ∨
    ∃ outcome between others,
      (ofDefinition context definition remaining).run context.scope before = (outcome, between) ∧ outcome.error = none ∧
      (rulesOf context outcome.remaining rest).run context.scope between = (.ok others, after) ∧
      rules = outcome.rules ++ others := by
  rw [rulesOf] at ran
  by_cases onlyStyle : definition.declarations.all (isStyleProperty context)
  · exact .inl ⟨onlyStyle, by simpa [onlyStyle] using ran⟩
  · rw [if_neg onlyStyle] at ran
    obtain ⟨outcome, between, ranHere, ran⟩ := Job.bind_ok ran
    cases failed : outcome.error with
    | some error =>
      simp only [failed] at ran
      exact absurd ran Job.throw_ok
    | none =>
      simp only [failed] at ran
      obtain ⟨others, late, ranOthers, finished⟩ := Job.bind_ok ran
      obtain ⟨rfl, rfl⟩ := Job.pure_ok finished
      exact .inr ⟨outcome, between, others, Job.lift_ok ranHere, failed, ranOthers, rfl⟩

theorem isStyleProperty_iff {declaration : Declaration} :
    isStyleProperty context declaration ↔ context.renderer.target? declaration.property = some .style := by
  simp [isStyleProperty]

theorem rulesOf_known {definitions : List Definition}
    (ran : (rulesOf context remaining definitions).run context.scope before = (.ok rules, after)) :
    ∀ definition ∈ definitions, ∀ declaration ∈ definition.declarations,
      (context.renderer.target? declaration.property).isSome := by
  induction definitions generalizing remaining before rules with
  | nil => simp
  | cons definition rest ih =>
    rcases rulesOf_cons_ok ran with ⟨onlyStyle, ranRest⟩ | ⟨outcome, between, others, ranHere, succeeded, ranRest, -⟩
    · refine List.forall_mem_cons.mpr ⟨fun declaration member => ?_, ih ranRest⟩
      simp [isStyleProperty_iff.mp (List.all_eq_true.mp onlyStyle declaration member)]
    · exact List.forall_mem_cons.mpr ⟨(ofDefinition_ok ranHere succeeded).1, ih ranRest⟩

theorem rulesOf_draw (isLevel : level < Zoom.levels) {definitions : List Definition}
    (unfiltered : ∀ definition ∈ definitions, definition.filters = FilterSet.empty)
    (ran : (rulesOf context remaining definitions).run context.scope before = (.ok rules, after)) :
    Draw context after none level rules
      (if (remaining.get FilterSet.empty.text).contains level then
        definitions.findSome? fun definition => Slice.due? context.renderer.target? level definition.declarations
      else none) := by
  induction definitions generalizing remaining before rules with
  | nil =>
    obtain ⟨rfl, -⟩ := Job.pure_ok ran
    simp [Draw, drawnAt]
  | cons definition rest ih =>
    obtain ⟨noFilters, unfilteredRest⟩ := List.forall_mem_cons.mp unfiltered
    rw [List.findSome?_cons]
    rcases rulesOf_cons_ok ran with ⟨onlyStyle, ranRest⟩ | ⟨outcome, between, others, ranHere, succeeded, ranRest, rfl⟩
    · -- properties of the style are not for symbolizers, so that nothing is to be drawn
      have nothing : Slice.due? context.renderer.target? level definition.declarations = none := by
        refine Option.map_eq_none_iff.mpr (List.find?_eq_none.mpr fun declaration member draws => ?_)
        have isStyle := isStyleProperty_iff.mp (List.all_eq_true.mp onlyStyle declaration member)
        simp [drawsAt, owner?, isStyle] at draws
      rw [nothing]
      exact ih unfilteredRest ranRest
    · obtain ⟨filter, isFilter, draw, leftOver⟩ := ofDefinition_draw isLevel ranHere succeeded
      obtain rfl : none = filter := by simpa [filterExpression, noFilters, FilterSet.isEmpty, FilterSet.empty] using isFilter
      have drawRest := ih unfilteredRest ranRest
      rw [noFilters] at draw leftOver
      rw [leftOver] at drawRest
      have drawHere := draw.later (Job.run_extends ranRest)
      -- the rest gets the level only where this definition has nothing to draw there
      cases remains : (remaining.get FilterSet.empty.text).contains level with
      | false =>
        simp only [remains, Bool.false_and, Bool.false_eq_true, if_false] at drawHere drawRest ⊢
        exact drawHere.append drawRest
      | true =>
        cases due : Slice.due? context.renderer.target? level definition.declarations with
        | none =>
          simp only [remains, due, Option.isNone_none, Bool.and_self, if_true] at drawHere drawRest ⊢
          exact drawRest.prepend drawHere
        | some slice =>
          simp only [remains, due, Option.isNone_some, Bool.and_false, Bool.false_eq_true, if_false, if_true] at drawHere drawRest ⊢
          exact drawHere.append drawRest

end FeatureStyle
end MapStyle
