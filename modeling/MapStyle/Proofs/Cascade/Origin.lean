import MapStyle.Proofs.Cascade.Run
/-!
Where declarations come from. Every member of the arena starts as one of the original definitions and takes declarations
only from originals that see all its features, however they reach it.
-/
namespace MapStyle
namespace Inheritance
variable {values : Set String} {originals : List Definition}

/-- The definition starts as one of the originals, and each of its declarations was written for all its features. -/
structure Founded (originals : List Definition) (definition : Definition) : Prop where
  origin : ∃ own ∈ originals, Belongs own definition
  sources : ∀ declaration ∈ definition.declarations, ∃ source ∈ originals, source.attachment = definition.attachment ∧
    declaration ∈ source.declarations ∧
    ∀ feature, definition.filters.accepts feature → source.filters.accepts feature

theorem Founded.refl {own : Definition} (isOriginal : own ∈ originals) : Founded originals own :=
  ⟨⟨own, isOriginal, Belongs.refl own⟩, fun _ member => ⟨own, isOriginal, rfl, member, fun _ => id⟩⟩

theorem Founded.take {incoming parent definition : Definition} (founded : Founded originals parent)
    (isOriginal : incoming ∈ originals) (sameAttachment : incoming.attachment = parent.attachment)
    (descends : Descends incoming parent definition) : Founded originals definition where
  origin := by
    obtain ⟨own, ownOriginal, belongs⟩ := founded.origin
    exact ⟨own, ownOriginal, belongs.descends descends⟩
  sources := by
    intro declaration member
    rw [descends.declarations] at member
    rcases Declaration.mem_joined member with inParent | inIncoming
    · obtain ⟨source, sourceOriginal, attachment, declares, accepts⟩ := founded.sources declaration inParent
      exact ⟨source, sourceOriginal, attachment.trans descends.attachment.symm, declares,
        fun feature accepted => accepts feature (descends.accepts feature accepted).1⟩
    · exact ⟨incoming, isOriginal, sameAttachment.trans descends.attachment.symm, inIncoming,
        fun feature accepted => (descends.accepts feature accepted).2⟩

/-- A founded arena, with a sound index and style entries that lead to members with their attachment. -/
structure FoundedWork (values : Set String) (originals : List Definition) (work : Work) : Prop where
  sound : Sound values work
  founded : ∀ {member : Nat} {definition : Definition}, work.arena[member]? = some definition →
    Founded originals definition
  placed : work.Placed

variable (one : OneText values)
include one

theorem FoundedWork.effect {incoming : Definition} {visited : Definition → Prop} {before after : Work}
    (work : FoundedWork values originals before) (isOriginal : incoming ∈ originals)
    (compares : incoming.filters.Compares values) (effect : Effect values incoming visited before after)
    (visitedHere : ∀ parent, visited parent → parent.attachment = incoming.attachment ∧ Founded originals parent) :
    FoundedWork values originals after where
  sound := effect.sound
  founded := by
    intro member definition found
    -- a member is a copy made in between, or it was there and may have been touched
    cases there : before.arena[member]? with
    | none =>
      obtain ⟨parent, isVisited, descends⟩ := effect.fresh found there
      obtain ⟨sameAttachment, founded⟩ := visitedHere parent isVisited
      exact founded.take isOriginal sameAttachment.symm descends
    | some old =>
      obtain ⟨later, foundLater, touched⟩ := effect.kept there
      obtain rfl := Option.some.inj (foundLater.symm.trans found)
      rcases touched with rfl | ⟨rfl, sameAttachment, seen⟩
      · exact work.founded there
      · refine (work.founded there).take isOriginal sameAttachment.symm ⟨by simp, by simp, fun feature accepted => ?_⟩
        rw [Definition.addDeclarations_filters] at accepted
        exact ⟨accepted, FilterSet.merge_unchanged one (work.sound.compares there) compares (seen feature accepted).2 accepted⟩
  placed := by
    intro entry isPlaced
    rw [effect.placed] at isPlaced
    obtain ⟨definition, found, sameAttachment⟩ := work.placed entry isPlaced
    obtain ⟨later, foundLater, touched⟩ := effect.kept found
    exact ⟨later, foundLater, touched.attachment.trans sameAttachment⟩

variable (plain : ∀ original ∈ originals, Plain values original)
include plain

theorem FoundedWork.step {work : Work} (founded : FoundedWork values originals work) {definition : Definition}
    {later : List Definition} (isOriginal : definition ∈ originals) (laterOriginal : ∀ other ∈ later, other ∈ originals) :
    FoundedWork values originals (step work definition later) := by
  have own := (plain definition isOriginal).compares
  have start : FoundedWork values originals (work.push definition) := by
    refine ⟨sound_push founded.sound own, fun found => ?_, fun entry isPlaced => ?_⟩
    · rcases arena_push_cases found with ⟨-, rfl⟩ | foundOld
      · exact Founded.refl isOriginal
      · exact founded.founded foundOld
    · obtain ⟨old, foundOld, sameAttachment⟩ := founded.placed entry isPlaced
      exact ⟨old, arena_push_old foundOld, sameAttachment⟩
  -- along the pass the arena stays founded, and its members belong to the definition
  have passing : FoundedWork values originals (passed work definition later).1 ∧
      Members definition (passed work definition later).1 (passed work definition later).2 := by
    refine pass_induction (fun work members => FoundedWork values originals work ∧ Members definition work members)
      ?_ ⟨start, members_push definition⟩
    rintro incoming follows work members ⟨founded, belong⟩
    obtain ⟨isLater, sameAttachment⟩ := mem_followers.mp follows
    have incomingOriginal := laterOriginal incoming isLater
    have incomingPlain := plain incoming incomingOriginal
    have effect := visitAll_effect one incomingPlain.compares incomingPlain.coherent founded.sound
      (sameAttachment ▸ belong.standing)
    refine ⟨founded.effect one incomingOriginal incomingPlain.compares effect ?_,
      visitAll_members one incomingPlain.compares incomingPlain.coherent founded.sound belong sameAttachment⟩
    intro parent among
    have sameAsOwn := (belong.belongs among).attachment
    obtain ⟨member, -, found⟩ := among
    exact ⟨sameAsOwn.trans sameAttachment.symm, founded.founded found⟩
  obtain ⟨passedFounded, belong⟩ := passing
  obtain ⟨sound, sameArena, placed⟩ := placeAll_spec passedFounded.sound belong.standing
  rw [step_eq]
  refine ⟨sound, fun found => passedFounded.founded (sameArena ▸ found), fun entry isPlaced => ?_⟩
  rw [placed, List.mem_append, List.mem_reverse, List.mem_map] at isPlaced
  rw [sameArena]
  rcases isPlaced with ⟨member, isMember, rfl⟩ | isOld
  · exact belong.standing member isMember
  · exact passedFounded.placed entry isOld

theorem FoundedWork.resolveFrom {work : Work} (founded : FoundedWork values originals work) {definitions : List Definition}
    (areOriginal : ∀ definition ∈ definitions, definition ∈ originals) :
    FoundedWork values originals (resolveFrom work definitions) := by
  induction definitions generalizing work with
  | nil => exact founded
  | cons definition later ih =>
    have laterOriginal : ∀ other ∈ later, other ∈ originals :=
      fun other isLater => areOriginal other (List.mem_cons_of_mem _ isLater)
    exact ih (founded.step one plain (areOriginal definition List.mem_cons_self) laterOriginal) laterOriginal

theorem resolve_founded : FoundedWork values originals (resolve originals) := by
  refine FoundedWork.resolveFrom one plain ⟨⟨?_, ?_⟩, ?_, ?_⟩ fun _ isOriginal => isOriginal
  · simp [Work.empty]
  · simp [Work.empty, Work.find?]
  · simp [Work.empty]
  · simp [Work.Placed, Work.empty]

end Inheritance

namespace Style
variable {values : Set String} {scope : Scope} {definitions originals : List Definition}

theorem evaluateFilters_ok {definition original : Definition} (evaluated : evaluateFilters scope definition = .ok original) :
    ∃ filters, definition.filters.reevaluate scope = .ok filters ∧ original = { definition with filters := filters } := by
  unfold evaluateFilters at evaluated
  cases reevaluated : definition.filters.reevaluate scope with
  | error error => rw [reevaluated] at evaluated; cases evaluated
  | ok filters =>
    rw [reevaluated] at evaluated
    exact ⟨filters, rfl, (Except.ok.inj evaluated).symm⟩

theorem evaluateFilters_mem (evaluated : definitions.mapM (evaluateFilters scope) = .ok originals) :
    ∀ original ∈ originals, ∃ definition ∈ definitions, evaluateFilters scope definition = .ok original := by
  induction definitions generalizing originals with
  | nil => cases evaluated; simp
  | cons definition rest ih =>
    rw [List.mapM_cons] at evaluated
    cases first : evaluateFilters scope definition with
    | error error => rw [first] at evaluated; cases evaluated
    | ok head =>
      cases others : rest.mapM (evaluateFilters scope) with
      | error error => rw [first, others] at evaluated; cases evaluated
      | ok tail =>
        rw [first, others] at evaluated
        obtain rfl := Except.ok.inj evaluated
        intro original member
        rcases List.mem_cons.mp member with rfl | inTail
        · exact ⟨definition, List.mem_cons_self, first⟩
        · obtain ⟨origin, inRest, evaluates⟩ := ih others original inTail
          exact ⟨origin, List.mem_cons_of_mem _ inRest, evaluates⟩

theorem plain_originals (one : OneText values)
    (comparesIn : ∀ definition ∈ definitions, definition.filters.ComparesIn scope values)
    (evaluated : definitions.mapM (evaluateFilters scope) = .ok originals) :
    ∀ original ∈ originals, Inheritance.Plain values original := by
  intro original member
  obtain ⟨definition, isDefinition, evaluates⟩ := evaluateFilters_mem evaluated original member
  obtain ⟨filters, reevaluated, rfl⟩ := evaluateFilters_ok evaluates
  obtain ⟨compares, coherent⟩ := FilterSet.reevaluate_coherent one (comparesIn definition isDefinition) reevaluated
  exact ⟨compares, coherent⟩

theorem inherit_ok {styles : List Style} (inherited : inherit scope definitions = .ok styles) :
    ∃ originals, definitions.mapM (evaluateFilters scope) = .ok originals ∧
      styles = ofWork (Inheritance.resolve originals) := by
  unfold inherit at inherited
  cases evaluated : definitions.mapM (evaluateFilters scope) with
  | error error => rw [evaluated] at inherited; cases inherited
  | ok originals =>
    rw [evaluated] at inherited
    exact ⟨originals, rfl, (Except.ok.inj inherited).symm⟩

theorem mem_ofWork {work : Inheritance.Work} {style : Style} (member : style ∈ ofWork work) {definition : Definition}
    (isPart : definition ∈ style.definitions) :
    ∃ entry ∈ work.placed, entry.1 = style.attachment ∧ work.arena[entry.2]? = some definition := by
  obtain ⟨attachment, -, rfl⟩ := List.mem_map.mp member
  obtain ⟨entry, isEntry, found⟩ := List.mem_filterMap.mp isPart
  obtain ⟨isPlaced, sameAttachment⟩ := List.mem_filter.mp isEntry
  exact ⟨entry, List.mem_reverse.mp isPlaced, by simpa using sameAttachment, found⟩

/-- Inheritance gives no declaration to a feature that it was not written for: each declaration of a resulting definition
comes from an original that accepts whatever the definition accepts, and so do those that it starts with, together. -/
theorem inherit_founded (one : OneText values) {styles : List Style}
    (comparesIn : ∀ definition ∈ definitions, definition.filters.ComparesIn scope values)
    (inherited : inherit scope definitions = .ok styles) :
    ∃ originals, definitions.mapM (evaluateFilters scope) = .ok originals ∧
      ∀ style ∈ styles, ∀ definition ∈ style.definitions, definition.attachment = style.attachment ∧
        (∃ own ∈ originals, own.attachment = definition.attachment ∧ own.declarations <+: definition.declarations ∧
          ∀ feature, definition.filters.accepts feature → own.filters.accepts feature) ∧
        ∀ declaration ∈ definition.declarations, ∃ source ∈ originals, source.attachment = definition.attachment ∧
          declaration ∈ source.declarations ∧
          ∀ feature, definition.filters.accepts feature → source.filters.accepts feature := by
  obtain ⟨originals, evaluated, rfl⟩ := inherit_ok inherited
  refine ⟨originals, evaluated, fun style isStyle definition isPart => ?_⟩
  have work := Inheritance.resolve_founded one (plain_originals one comparesIn evaluated)
  obtain ⟨entry, isPlaced, sameAttachment, found⟩ := mem_ofWork isStyle isPart
  obtain ⟨placed, foundPlaced, placedAttachment⟩ := work.placed entry isPlaced
  obtain rfl := Option.some.inj (foundPlaced.symm.trans found)
  obtain ⟨⟨own, isOriginal, belongs⟩, sources⟩ := work.founded found
  exact ⟨placedAttachment.trans sameAttachment,
    ⟨own, isOriginal, belongs.attachment.symm, belongs.declarations, belongs.accepts⟩, sources⟩

def declaring (filters : List Filter) (property : String) (index : Nat) : Definition where
  elements := []
  filters := (FilterSet.ofFilters? filters).getD FilterSet.empty
  zoom := Zoom.all
  attachment := defaultAttachment
  specificity := ⟨1, 0, filters.length, index⟩
  place := ⟨"roads.mss", index⟩
  declarations := [Declaration.ofName property ⟨index, .keyword property, ⟨"roads.mss", index⟩⟩ index ⟨"roads.mss", index⟩]

/-- Definitions of one layer whose filters cross each other, two of them with declarations of one id. -/
def crossing : List Definition :=
  [declaring [] "line-cap" 0, declaring [.ofText "a" .equal "1"] "line-width" 1,
    declaring [.ofText "b" .equal "1"] "line-width" 2,
    declaring [.ofText "a" .equal "1", .ofText "c" .equal "1"] "line-join" 3,
    declaring [.ofText "b" .equal "1"] "line-color" 4]

theorem oneText_one : OneText {"1"} := by
  have reads : Number.read? (Text.trim "1") = some (Number.ofNat 1) := by decide +kernel
  exact OneText.singleton reads (by simp [Number.ofNat])

theorem comparesIn_one {definitions : List Definition} (plain : ∀ definition ∈ definitions,
    ∀ filter ∈ definition.filters.filters, filter.source.isNone ∧ Filter.isPattern filter.op = false ∧
      filter.key.toList.all (fun c => !Filter.isOperatorChar c) ∧ filter.value = "1") :
    ∀ definition ∈ definitions, definition.filters.ComparesIn Scope.empty {"1"} := by
  intro definition member
  refine FilterSet.ComparesIn.of_texts _ (fun filter inside => ?_) fun filter inside => (plain definition member filter inside).1
  obtain ⟨-, notPattern, plainKey, value⟩ := plain definition member filter inside
  exact ⟨notPattern, by simpa using plainKey, value⟩

theorem crossing_comparesIn : ∀ definition ∈ crossing, definition.filters.ComparesIn Scope.empty {"1"} :=
  comparesIn_one (by decide +kernel)

theorem inherit_founded_crossing : ∃ styles, inherit Scope.empty crossing = .ok styles ∧
    (∃ style ∈ styles, ∃ definition ∈ style.definitions, definition.filters.text = "[a]=1 [b]=1 [c]=1" ∧
      definition.declarations.map Declaration.property = ["line-cap", "line-width", "line-join", "line-color"]) ∧
    ∀ style ∈ styles, ∀ definition ∈ style.definitions, definition.attachment = style.attachment ∧
      (∃ own ∈ crossing, own.attachment = definition.attachment ∧ own.declarations <+: definition.declarations ∧
        ∀ feature, definition.filters.accepts feature → own.filters.accepts feature) ∧
      ∀ declaration ∈ definition.declarations, ∃ source ∈ crossing, source.attachment = definition.attachment ∧
        declaration ∈ source.declarations ∧
        ∀ feature, definition.filters.accepts feature → source.filters.accepts feature := by
  have inherited : inherit Scope.empty crossing = .ok (ofWork (Inheritance.resolve crossing)) := rfl
  obtain ⟨originals, evaluated, founded⟩ := inherit_founded oneText_one crossing_comparesIn inherited
  obtain rfl : crossing = originals := Except.ok.inj evaluated
  exact ⟨_, inherited, by decide +kernel, founded⟩

end Style
end MapStyle
