import MapStyle.Proofs.Cascade.Run
/-!
The leading member: the first of the members of a pass that accepts a feature. A turn for a definition that does not
accept the feature leaves it alone. Otherwise it takes the declarations or makes way for a copy that does, unless a copy
with the filters of the split is known already: then the declarations go there.
-/
namespace MapStyle.Inheritance
variable {values : Set String} {incoming : Definition} {visited : Definition → Prop} {feature : Feature}

def Rejecting (work : Work) (feature : Feature) (members : List Nat) : Prop :=
  ∀ member ∈ members, ∃ definition, work.arena[member]? = some definition ∧ ¬ definition.filters.accepts feature

theorem Rejecting.rejects {work : Work} {members : List Nat} (rejecting : Rejecting work feature members)
    {parent : Definition} (among : Among work members parent) : ¬ parent.filters.accepts feature := by
  obtain ⟨member, isMember, found⟩ := among
  obtain ⟨definition, foundAgain, rejects⟩ := rejecting member isMember
  obtain rfl := Option.some.inj (foundAgain.symm.trans found)
  exact rejects

/-- `definition`, at `member`, is the first to accept the feature. -/
structure Leading (work : Work) (feature : Feature) (members : List Nat) (member : Nat) (definition : Definition) : Prop where
  found : work.arena[member]? = some definition
  accepts : definition.filters.accepts feature
  first : ∃ before after, members = before ++ member :: after ∧ Rejecting work feature before

theorem Leading.unique {work : Work} {members : List Nat} {member other : Nat} {definition otherDefinition : Definition}
    (leading : Leading work feature members member definition)
    (again : Leading work feature members other otherDefinition) : member = other ∧ definition = otherDefinition := by
  obtain ⟨before, after, split, rejecting⟩ := leading.first
  obtain ⟨otherBefore, otherAfter, otherSplit, otherRejecting⟩ := again.first
  have apart : member ∉ otherBefore ∧ other ∉ before := by
    constructor
    · exact fun inside => otherRejecting.rejects ⟨member, inside, leading.found⟩ leading.accepts
    · exact fun inside => rejecting.rejects ⟨other, inside, again.found⟩ again.accepts
  -- of two different splits of the members one goes further, with the other's leading member in front of its own
  have same : member = other := by
    rcases List.append_eq_append_iff.mp (split.symm.trans otherSplit) with ⟨more, longer, rest⟩ | ⟨more, longer, rest⟩
    · cases more with
      | nil => exact (List.cons_eq_cons.mp rest).1
      | cons head tail =>
        obtain ⟨rfl, -⟩ := List.cons_eq_cons.mp rest
        exact absurd (by simp [longer]) apart.1
    · cases more with
      | nil => exact (List.cons_eq_cons.mp rest).1.symm
      | cons head tail =>
        obtain ⟨rfl, -⟩ := List.cons_eq_cons.mp rest
        exact absurd (by simp [longer]) apart.2
  subst same
  exact ⟨rfl, Option.some.inj (leading.found.symm.trans again.found)⟩

theorem Effect.rejecting {before after : Work} (effect : Effect values incoming visited before after) {members : List Nat}
    (rejecting : Rejecting before feature members) : Rejecting after feature members := by
  intro member isMember
  obtain ⟨definition, found, rejects⟩ := rejecting member isMember
  obtain ⟨later, foundLater, touched⟩ := effect.kept found
  exact ⟨later, foundLater, touched.filters ▸ rejects⟩

theorem visitAll_append (incoming : Definition) (work : Work) (first second : List Nat) :
    visitAll incoming work (first ++ second) =
      ((visitAll incoming (visitAll incoming work first).1 second).1,
        (visitAll incoming work first).2 ++ (visitAll incoming (visitAll incoming work first).1 second).2) := by
  induction first generalizing work with
  | nil => rfl
  | cons member rest ih =>
    rw [List.cons_append, visitAll, visitAll]
    simp only [ih, List.append_assoc]

/-- In a turn for `incoming`, the declarations that the leading member lacks go to a copy that is known already. -/
def Diverts (feature : Feature) (work : Work) (members : List Nat) (incoming : Definition) : Prop :=
  incoming.filters.accepts feature ∧ ∃ member definition filters, Leading work feature members member definition ∧
    definition.filters.merge incoming.filters = .merged filters ∧
    work.find? incoming.attachment filters.text ≠ none ∧
    ∃ next ∈ incoming.declarations, next.id ∉ definition.declarations.map Declaration.id

inductive Advances (feature : Feature) (work : Work) (members : List Nat) (incoming before : Definition) : Definition → Prop where
  | rejected (rejects : ¬ incoming.filters.accepts feature) : Advances feature work members incoming before before
  | diverted (diverts : Diverts feature work members incoming)
      (merges : before.filters.merge incoming.filters ≠ .unchanged) : Advances feature work members incoming before before
  | taken (after : Definition) (accepts : incoming.filters.accepts feature)
      (straight : ¬ Diverts feature work members incoming)
      (declarations : after.declarations = Declaration.joined before.declarations incoming.declarations)
      (narrowed : after.filters = before.filters ∨ after.declarations ≠ before.declarations) :
      Advances feature work members incoming before after

variable (one : OneText values) (compares : incoming.filters.Compares values) (coherent : incoming.filters.Coherent)
include one compares coherent

theorem visitAll_rejecting {work : Work} (sound : Sound values work) {members : List Nat}
    (standing : Standing work incoming.attachment members) (rejecting : Rejecting work feature members) :
    Rejecting (visitAll incoming work members).1 feature (visitAll incoming work members).2 := by
  have effect := visitAll_effect one compares coherent sound standing
  intro other answered
  rcases visitAll_answer one compares coherent sound standing other answered with isMember | ⟨missing, later, foundLater⟩
  · exact effect.rejecting rejecting other isMember
  · obtain ⟨parent, among, descends⟩ := effect.fresh foundLater missing
    exact ⟨later, foundLater, fun accepted => rejecting.rejects among (descends.accepts feature accepted).1⟩

omit one compares coherent in
theorem Effect.untouched {before after : Work} (effect : Effect values incoming visited before after) {member : Nat}
    {definition : Definition} (found : before.arena[member]? = some definition)
    (accepts : definition.filters.accepts feature) (unseen : ∀ parent, visited parent → ¬ parent.filters.accepts feature) :
    after.arena[member]? = some definition := by
  obtain ⟨later, foundLater, touched⟩ := effect.kept found
  rcases touched with rfl | ⟨-, -, seen⟩
  · exact foundLater
  · obtain ⟨parent, isVisited, onParent⟩ := (seen feature accepts).1
    exact absurd onParent (unseen parent isVisited)

omit compares coherent in
theorem Effect.unregistered {before after : Work} (effect : Effect values incoming visited before after)
    (unseen : ∀ parent, visited parent → ¬ parent.filters.accepts feature) {filters : FilterSet}
    (compares : filters.Compares values) (accepts : filters.accepts feature) (attachment : String) :
    after.find? attachment filters.text = before.find? attachment filters.text := by
  rcases effect.index attachment filters.text with same | ⟨-, fresh, known, missing⟩
  · exact same
  · obtain ⟨copy, foundCopy, -, sameText⟩ := effect.sound.index known
    obtain ⟨parent, isVisited, descends⟩ := effect.fresh foundCopy missing
    have onCopy := FilterSet.accepts_of_text one (effect.sound.compares foundCopy) compares sameText accepts
    exact absurd (descends.accepts feature onCopy).1 (unseen parent isVisited)

omit one compares coherent in
theorem Effect.unmerged {before after : Work} (effect : Effect values incoming visited before after) {member : Nat}
    {definition : Definition} (found : before.arena[member]? = some definition)
    (accepts : definition.filters.accepts feature) (gains : definition.filters.merge incoming.filters ≠ .unchanged) :
    after.arena[member]? = some definition := by
  obtain ⟨later, foundLater, touched⟩ := effect.kept found
  rcases touched with rfl | ⟨-, -, seen⟩
  · exact foundLater
  · exact absurd (seen feature accepts).2 gains

omit one compares coherent in
theorem Effect.complete {before after : Work} (effect : Effect values incoming visited before after) {member : Nat}
    {definition : Definition} (found : before.arena[member]? = some definition)
    (present : ∀ next ∈ incoming.declarations, next.id ∈ definition.declarations.map Declaration.id) :
    after.arena[member]? = some definition := by
  obtain ⟨later, foundLater, touched⟩ := effect.kept found
  rcases touched with rfl | ⟨rfl, -⟩
  · exact foundLater
  · rwa [Definition.addDeclarations_of_present present] at foundLater

/-- What a visit makes of a member that accepts the feature. -/
inductive Answered (feature : Feature) (incoming : Definition) (work : Work) (before : Definition) : Definition → Prop where
  | rejected (rejects : ¬ incoming.filters.accepts feature) : Answered feature incoming work before before
  | redirected (accepts : incoming.filters.accepts feature) (filters : FilterSet)
      (merged : before.filters.merge incoming.filters = .merged filters)
      (known : work.find? incoming.attachment filters.text ≠ none) : Answered feature incoming work before before
  | taken (after : Definition) (accepts : incoming.filters.accepts feature)
      (straight : ∀ filters, before.filters.merge incoming.filters = .merged filters →
        work.find? incoming.attachment filters.text ≠ none →
        ∀ next ∈ incoming.declarations, next.id ∈ before.declarations.map Declaration.id)
      (declarations : after.declarations = Declaration.joined before.declarations incoming.declarations)
      (narrowed : after.filters = before.filters ∨ after.declarations ≠ before.declarations) :
      Answered feature incoming work before after

theorem visit_leading {work : Work} (sound : Sound values work) {member : Nat} {definition : Definition}
    (found : work.arena[member]? = some definition) (sameAttachment : definition.attachment = incoming.attachment)
    (accepts : definition.filters.accepts feature) :
    ∃ other later, Leading (visit incoming work member).1 feature (visit incoming work member).2 other later ∧
      Answered feature incoming work definition later := by
  have own := sound.compares found
  have effect := visit_effect one compares coherent sound found sameAttachment
  have cases := visit_visited incoming found
  generalize visit incoming work member = outcome at cases effect
  have alone : ∀ {work : Work} {member : Nat} {definition : Definition}, work.arena[member]? = some definition →
      definition.filters.accepts feature → Leading work feature [member] member definition :=
    fun found accepts => ⟨found, accepts, [], [], rfl, by simp [Rejecting]⟩
  cases cases with
  | apart conflict =>
    have rejects := FilterSet.merge_conflict one own compares conflict accepts
    exact ⟨member, definition, alone found accepts, .rejected rejects⟩
  | known filters merged other known =>
    have kept := effect.unmerged found accepts (by simp [merged])
    refine ⟨member, definition, alone kept accepts, ?_⟩
    by_cases onIncoming : incoming.filters.accepts feature
    · exact .redirected onIncoming filters merged (by simp [known])
    · exact .rejected onIncoming
  | idle filters merged unknown present =>
    refine ⟨member, definition, alone found accepts, ?_⟩
    by_cases onIncoming : incoming.filters.accepts feature
    · refine .taken definition onIncoming (fun _ _ _ => present) ?_ (Or.inl rfl)
      exact (Declaration.joined_eq_self present).symm
    · exact .rejected onIncoming
  | split filters merged unknown adds =>
    have meaning := (FilterSet.merge_merged one own compares coherent merged).2 feature
    have kept := effect.unmerged found accepts (by simp [merged])
    have fresh : (work.arena.push ({ definition with filters }.addDeclarations incoming.declarations))[work.arena.size]? =
        some ({ definition with filters }.addDeclarations incoming.declarations) := Array.getElem?_push_size
    -- the answer has the copy in front of the member; the copy leads exactly where `incoming` accepts the feature
    by_cases onIncoming : incoming.filters.accepts feature
    · have onCopy : filters.accepts feature := meaning.mpr ⟨accepts, onIncoming⟩
      refine ⟨work.arena.size, _, ⟨fresh, by simpa using onCopy, [], [member], rfl, by simp [Rejecting]⟩, ?_⟩
      refine .taken _ onIncoming (fun again mergedAgain known => ?_) (by simp) (Or.inr ?_)
      · obtain rfl := FilterSet.Merge.merged.inj (merged.symm.trans mergedAgain)
        exact absurd unknown known
      · obtain ⟨first, rest, joined, -⟩ := Declaration.joined_of_new adds
        simp [joined]
    · refine ⟨member, definition, ⟨kept, accepts, [work.arena.size], [], rfl, ?_⟩, .rejected onIncoming⟩
      intro other isCopy
      rw [List.mem_singleton.mp isCopy]
      exact ⟨_, fresh, fun onCopy => onIncoming (meaning.mp (by simpa using onCopy)).2⟩
  | copied unchanged registered =>
    have onIncoming := FilterSet.merge_unchanged one own compares unchanged accepts
    have fresh : (work.push (definition.addDeclarations incoming.declarations)).arena[work.arena.size]? =
        some (definition.addDeclarations incoming.declarations) := Array.getElem?_push_size
    refine ⟨work.arena.size, _, alone fresh (by simpa using accepts), ?_⟩
    exact .taken _ onIncoming (fun _ merged => by simp [unchanged] at merged) (by simp) (Or.inl (by simp))
  | extended unchanged unregistered =>
    have onIncoming := FilterSet.merge_unchanged one own compares unchanged accepts
    have extended : (work.extend member incoming.declarations).arena[member]? =
        some (definition.addDeclarations incoming.declarations) := by
      rw [Work.arena_extend, found, Option.map_some, if_pos rfl]
    refine ⟨member, _, alone extended (by simpa using accepts), ?_⟩
    exact .taken _ onIncoming (fun _ merged => by simp [unchanged] at merged) (by simp) (Or.inl (by simp))

omit coherent in
theorem Answered.settled {work before after : Work} {member : Nat} {definition later : Definition}
    (answered : Answered feature incoming work definition later) (own : definition.filters.Compares values)
    (accepts : definition.filters.accepts feature) (found : before.arena[member]? = some later)
    (effect : Effect values incoming visited before after) : after.arena[member]? = some later := by
  cases answered with
  | rejected rejects =>
    obtain ⟨still, foundStill, touched⟩ := effect.kept found
    rcases touched with rfl | ⟨-, -, seen⟩
    · exact foundStill
    · exact absurd (FilterSet.merge_unchanged one own compares (seen feature accepts).2 accepts) rejects
  | redirected onIncoming filters merged known => exact effect.unmerged found accepts (by simp [merged])
  | taken _ onIncoming straight declarations narrowed =>
    exact effect.complete found fun next member => declarations ▸ Declaration.ids_joined member

omit one compares coherent in
theorem Answered.advances {work visiting : Work} {members : List Nat} {member : Nat} {definition later : Definition}
    (answered : Answered feature incoming visiting definition later)
    (leading : Leading work feature members member definition)
    (sameIndex : ∀ filters, definition.filters.merge incoming.filters = .merged filters →
      incoming.filters.accepts feature →
      visiting.find? incoming.attachment filters.text = work.find? incoming.attachment filters.text) :
    Advances feature work members incoming definition later := by
  cases answered with
  | rejected rejects => exact .rejected rejects
  | redirected onIncoming filters merged known =>
    by_cases missing : ∃ next ∈ incoming.declarations, next.id ∉ definition.declarations.map Declaration.id
    · refine .diverted ⟨onIncoming, member, definition, filters, leading, merged, ?_, missing⟩ (by simp [merged])
      rwa [← sameIndex filters merged onIncoming]
    · push Not at missing
      refine .taken definition onIncoming ?_ (Declaration.joined_eq_self missing).symm (Or.inl rfl)
      rintro ⟨-, again, leader, -, leadingAgain, -, -, next, isNext, absent⟩
      obtain ⟨-, rfl⟩ := leading.unique leadingAgain
      exact absent (missing next isNext)
  | taken _ onIncoming straight declarations narrowed =>
    refine .taken later onIncoming ?_ declarations narrowed
    rintro ⟨-, again, leader, filters, leadingAgain, merged, known, next, isNext, absent⟩
    obtain ⟨-, rfl⟩ := leading.unique leadingAgain
    exact absent (straight filters merged (by rwa [sameIndex filters merged onIncoming]) next isNext)

theorem visitAll_leading {work : Work} (sound : Sound values work) {members : List Nat}
    (standing : Standing work incoming.attachment members) {member : Nat} {definition : Definition}
    (leading : Leading work feature members member definition) :
    ∃ other later, Leading (visitAll incoming work members).1 feature (visitAll incoming work members).2 other later ∧
      Advances feature work members incoming definition later := by
  obtain ⟨before, after, rfl, rejecting⟩ := leading.first
  obtain ⟨standingBefore, standingFrom⟩ := List.forall_mem_append.mp standing
  have sameAttachment := standing.attachment (by simp) leading.found
  have own := sound.compares leading.found
  -- the members before the leading one reject the feature, and so do their copies
  have effectBefore := visitAll_effect one compares coherent sound standingBefore
  have rejectingBefore := visitAll_rejecting one compares coherent sound standingBefore rejecting
  have found := effectBefore.untouched leading.found leading.accepts fun parent => rejecting.rejects
  obtain ⟨other, later, leadingHere, answered⟩ :=
    visit_leading one compares coherent effectBefore.sound found sameAttachment leading.accepts
  have effectHere := visit_effect one compares coherent effectBefore.sound found sameAttachment
  have standingAfter := effectHere.standing (effectBefore.standing
    fun other inside => standingFrom other (List.mem_cons_of_mem member inside))
  have effectAfter := visitAll_effect one compares coherent effectHere.sound standingAfter
  have settled := answered.settled one compares own leading.accepts leadingHere.found effectAfter
  obtain ⟨front, back, answer, rejectingFront⟩ := leadingHere.first
  refine ⟨other, later, ?_, answered.advances leading fun filters merged onIncoming => ?_⟩
  · rw [visitAll_append, visitAll]
    refine ⟨settled, leadingHere.accepts, (visitAll incoming work before).2 ++ front,
      back ++ (visitAll incoming (visit incoming (visitAll incoming work before).1 member).1 after).2, ?_, ?_⟩
    · simp [answer]
    · exact List.forall_mem_append.mpr
        ⟨effectAfter.rejecting (effectHere.rejecting rejectingBefore), effectAfter.rejecting rejectingFront⟩
  · obtain ⟨mergedCompares, meaning⟩ := FilterSet.merge_merged one own compares coherent merged
    exact effectBefore.unregistered one (fun parent => rejecting.rejects) mergedCompares
      ((meaning feature).mpr ⟨leading.accepts, onIncoming⟩) incoming.attachment

end MapStyle.Inheritance
