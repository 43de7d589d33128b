import MapStyle.Proofs.Cascade.Walk
/-!
What a feature gets. Among the members placed in a style, the first that accepts a feature comes from the pass of the
first original that accepts it; later passes extend it only by declarations that it has, unless it is behind.
-/
namespace MapStyle
namespace Inheritance
variable {values : Set String} {feature : Feature} {attachment : String}

/-- No declaration stands in two definitions of one attachment. -/
def Disjoint (definitions : List Definition) : Prop :=
  definitions.Pairwise fun first second => first.attachment = second.attachment →
    ∀ declaration ∈ first.declarations, declaration ∉ second.declarations

/-- The originals of an attachment that accept the feature, in cascade order. -/
noncomputable def seeing (attachment : String) (feature : Feature) (definitions : List Definition) : List Definition :=
  Definition.accepting feature (definitions.filter fun definition => definition.attachment == attachment)

theorem seeing_cons_of_other {definition : Definition} (rest : List Definition)
    (other : ¬ (definition.attachment = attachment ∧ definition.filters.accepts feature)) :
    seeing attachment feature (definition :: rest) = seeing attachment feature rest := by
  unfold seeing
  by_cases same : definition.attachment = attachment
  · rw [List.filter_cons_of_pos (by simpa using same)]
    exact Definition.accepting_cons_of_rejects _ fun accepts => other ⟨same, accepts⟩
  · rw [List.filter_cons_of_neg (by simpa using same)]

theorem seeing_cons_of_own {definition : Definition} (rest : List Definition)
    (own : definition.attachment = attachment ∧ definition.filters.accepts feature) :
    seeing attachment feature (definition :: rest) =
      definition :: Definition.accepting feature (followers definition rest) := by
  obtain ⟨rfl, accepts⟩ := own
  unfold seeing
  rw [List.filter_cons_of_pos (by simp), Definition.accepting_cons_of_accepts _ accepts]
  rfl

theorem Behind.differs {lost definition : Definition} {front back : List Definition} {start : List Declaration}
    (behind : Behind lost back (Definition.gather start (Definition.accepting feature front)) definition)
    (accepts : lost.filters.accepts feature)
    (missing : ∃ next ∈ lost.declarations, next.id ∉
      (Definition.gather start (Definition.accepting feature front)).map Declaration.id)
    (apart : ∀ other ∈ back, ∀ declaration ∈ lost.declarations, declaration ∉ other.declarations) :
    definition.declarations ≠ Definition.gather start (Definition.accepting feature (front ++ lost :: back)) := by
  obtain ⟨first, rest, joined, declares⟩ := Declaration.joined_of_new missing
  rw [Definition.accepting_append, Definition.gather_append, Definition.accepting_cons_of_accepts back accepts,
    Definition.gather_cons]
  obtain ⟨more, gathered⟩ := Definition.prefix_gather
    (Declaration.joined (Definition.gather start (Definition.accepting feature front)) lost.declarations)
    (Definition.accepting feature back)
  intro same
  rw [← gathered, joined] at same
  -- either it has gained nothing, or it goes on with a declaration from behind `lost` where the walk has one of `lost`
  rcases behind with ⟨exactly, -⟩ | ⟨next, others, longer, other, isOther, source⟩
  · rw [exactly] at same
    simp at same
  · rw [longer, List.append_assoc] at same
    obtain ⟨rfl, -⟩ := List.cons_eq_cons.mp (List.append_cancel_left same)
    exact apart other isOther next declares source

variable (one : OneText values)
include one

theorem resolveFrom_placed (attachment : String) {work : Work} (sound : Sound values work) {definitions : List Definition}
    (plain : ∀ definition ∈ definitions, Plain values definition) :
    ∃ more, (resolveFrom work definitions).placedFor attachment = work.placedFor attachment ++ more := by
  induction definitions generalizing work with
  | nil => exact ⟨[], (List.append_nil _).symm⟩
  | cons definition later ih =>
    have plainLater := fun other (isLater : other ∈ later) => plain other (List.mem_cons_of_mem _ isLater)
    obtain ⟨soundAfter, -, placed⟩ := step_placed one sound (plain definition List.mem_cons_self).compares plainLater
    obtain ⟨more, placedAfter⟩ := ih soundAfter plainLater
    exact ⟨_, by rw [resolveFrom, placedAfter, placed, List.append_assoc]⟩

theorem resolveFrom_rejecting {work : Work} (sound : Sound values work) {definitions : List Definition}
    (plain : ∀ definition ∈ definitions, Plain values definition) {members : List Nat}
    (rejecting : Rejecting work feature members) : Rejecting (resolveFrom work definitions) feature members := by
  intro member isMember
  obtain ⟨definition, found, rejects⟩ := rejecting member isMember
  exact resolveFrom_kept one (fun definition => ¬ definition.filters.accepts feature)
    (fun _ _ _ rejects _ _ => by simpa using rejects) plain sound found rejects

theorem step_rejecting {work : Work} (sound : Sound values work) {definition : Definition} {later : List Definition}
    (own : definition.filters.Compares values) (plain : ∀ other ∈ later, Plain values other)
    (other : ¬ (definition.attachment = attachment ∧ definition.filters.accepts feature))
    (rejecting : Rejecting work feature (work.placedFor attachment)) :
    Rejecting (step work definition later) feature ((step work definition later).placedFor attachment) := by
  obtain ⟨-, sameArena, placed⟩ := step_placed one sound own plain
  obtain ⟨-, belong, -⟩ := passed_members one sound own plain
  rw [placed]
  refine List.forall_mem_append.mpr ⟨fun member isMember => ?_, fun member isMember => ?_⟩
  · obtain ⟨before, found, rejects⟩ := rejecting member isMember
    exact step_kept one (fun definition => ¬ definition.filters.accepts feature)
      (fun _ _ _ rejects _ _ => by simpa using rejects) plain sound own found rejects
  · split at isMember
    · next same =>
      obtain ⟨copy, found, belongs⟩ := belong member isMember
      rw [sameArena]
      exact ⟨copy, found, fun accepts => other ⟨same, belongs.accepts feature accepts⟩⟩
    · simp at isMember

/-- The leading member of a pass leads the style once it is placed. What later passes add to it comes from followers that
accept the feature and add nothing to its filters; a property that this keeps holds of it in the end. -/
theorem step_leading {work : Work} (sound : Sound values work) {own : Definition} {later : List Definition}
    (plainOwn : own.filters.Compares values) (plain : ∀ other ∈ later, Plain values other)
    (rejecting : Rejecting work feature (work.placedFor own.attachment)) {member : Nat} {leader : Definition}
    (underway : Underway values own feature (passed work own later).1 (passed work own later).2 member leader)
    (holds : Definition → Prop) (start : holds leader)
    (taking : ∀ incoming ∈ followers own later, incoming.filters.accepts feature → ∀ definition, holds definition →
      definition.filters.merge incoming.filters = .unchanged → holds (definition.addDeclarations incoming.declarations)) :
    ∃ last, Leading (resolveFrom (step work own later) later) feature
      ((resolveFrom (step work own later) later).placedFor own.attachment) member last ∧ holds last := by
  obtain ⟨soundAfter, sameArena, placed⟩ := step_placed one sound plainOwn plain
  obtain ⟨before, after, split, rejectingBefore⟩ := underway.leading.first
  obtain ⟨more, placedLater⟩ := resolveFrom_placed one own.attachment soundAfter plain
  have found := underway.leading.found
  have sameAttachment := underway.belong.standing.attachment (by rw [split]; simp) found
  -- later passes extend the leading member only by definitions that add nothing to its filters
  have kept := resolveFrom_kept one (fun definition => definition.filters.accepts feature ∧
    definition.filters.Compares values ∧ definition.attachment = own.attachment ∧ holds definition)
    (fun incoming isLater definition keeps attachment unchanged => by
      obtain ⟨accepts, compares, sameAttachment, holds⟩ := keeps
      have onIncoming := FilterSet.merge_unchanged one compares (plain incoming isLater).compares
        (unchanged feature accepts) accepts
      have follows := mem_followers.mpr ⟨isLater, attachment.symm.trans sameAttachment⟩
      exact ⟨by simpa using accepts, by simpa using compares, by simpa using sameAttachment,
        taking incoming follows onIncoming definition holds (unchanged feature accepts)⟩)
    plain soundAfter (sameArena ▸ found)
    ⟨underway.leading.accepts, underway.sound.compares found, sameAttachment, start⟩
  obtain ⟨last, foundLast, accepts, -, -, holds⟩ := kept
  -- members in front of it keep their filters, so that they still reject the feature
  have rejectingOld : Rejecting (step work own later) feature (work.placedFor own.attachment) := by
    intro member isMember
    obtain ⟨definition, found, rejects⟩ := rejecting member isMember
    exact step_kept one (fun definition => ¬ definition.filters.accepts feature)
      (fun _ _ _ rejects _ _ => by simpa using rejects) plain sound plainOwn found rejects
  have rejectingFront : Rejecting (step work own later) feature before := by
    unfold Rejecting
    rw [sameArena]
    exact rejectingBefore
  refine ⟨last, ⟨foundLast, accepts, work.placedFor own.attachment ++ before, after ++ more, ?_,
    resolveFrom_rejecting one soundAfter plain (List.forall_mem_append.mpr ⟨rejectingOld, rejectingFront⟩)⟩, holds⟩
  rw [placedLater, placed, if_pos rfl, split]
  simp

omit one in
theorem underway_push {work : Work} (sound : Sound values work) {own : Definition} (compares : own.filters.Compares values)
    (accepts : own.filters.accepts feature) :
    Underway values own feature (work.push own) [work.arena.size] work.arena.size own where
  sound := sound_push sound compares
  belong := members_push own
  leading := ⟨by rw [Work.arena_push, Array.getElem?_push_size], accepts, [], [], rfl, by simp [Rejecting]⟩

section own
variable {work : Work} (sound : Sound values work) {own : Definition} {later : List Definition}
  (plainOwn : own.filters.Compares values) (plain : ∀ other ∈ later, Plain values other)
  (rejecting : Rejecting work feature (work.placedFor own.attachment)) (accepts : own.filters.accepts feature)
include sound plainOwn plain rejecting accepts

theorem leading_straight (straight : ¬ PassDiverts feature (work.push own) [work.arena.size] (followers own later)) :
    ∃ member leader, Leading (resolveFrom (step work own later) later) feature
        ((resolveFrom (step work own later) later).placedFor own.attachment) member leader ∧
      leader.declarations =
        Definition.gather own.declarations (Definition.accepting feature (followers own later)) := by
  have plainFollowers := fun other (follows : other ∈ followers own later) => plain other (mem_followers.mp follows).1
  obtain ⟨member, leader, underway, gathered⟩ := pass_straight one plainFollowers
    (fun other follows => (mem_followers.mp follows).2) (underway_push sound plainOwn accepts) straight
  obtain ⟨last, leading, same⟩ := step_leading one sound plainOwn plain rejecting underway
    (fun definition => definition.declarations = leader.declarations) rfl
    fun incoming follows onIncoming definition same _ => by
      rw [Definition.addDeclarations_of_present fun next declares => ?_]
      · exact same
      · rw [same, gathered]
        exact Definition.ids_gather (Definition.mem_accepting.mpr ⟨follows, onIncoming⟩) declares
  exact ⟨member, last, leading, same.trans gathered⟩

theorem leading_diverted (diverts : PassDiverts feature (work.push own) [work.arena.size] (followers own later)) :
    ∃ member leader, Leading (resolveFrom (step work own later) later) feature
        ((resolveFrom (step work own later) later).placedFor own.attachment) member leader ∧
      (Disjoint later → leader.declarations ≠
        Definition.gather own.declarations (Definition.accepting feature (followers own later))) := by
  have plainFollowers := fun other (follows : other ∈ followers own later) => plain other (mem_followers.mp follows).1
  obtain ⟨front, lost, back, split, lostAccepts, missing, member, leader, underway, behind⟩ :=
    pass_diverted one plainFollowers (fun other follows => (mem_followers.mp follows).2)
      (underway_push sound plainOwn accepts) diverts
  obtain ⟨last, leading, stillBehind⟩ := step_leading one sound plainOwn plain rejecting underway
    (Behind lost back (Definition.gather own.declarations (Definition.accepting feature front))) behind
    fun incoming follows onIncoming definition behind unchanged => by
      rw [split] at follows
      rcases List.mem_append.mp follows with isFront | isFrom
      · -- what comes before the diverted turn has been gathered already
        have starts : Definition.gather own.declarations (Definition.accepting feature front) <+:
            definition.declarations := by
          rcases behind with ⟨same, -⟩ | ⟨next, rest, longer, -⟩
          · exact same ▸ List.prefix_rfl
          · exact longer ▸ List.prefix_append _ _
        rwa [Definition.addDeclarations_of_present fun next declares => Declaration.ids_of_prefix starts
          (Definition.ids_gather (Definition.mem_accepting.mpr ⟨isFront, onIncoming⟩) declares)]
      · have joined := Definition.addDeclarations_declarations definition incoming.declarations
        refine behind.join (fun exactly => ?_) joined (Or.inl (Definition.addDeclarations_filters definition _))
        rcases List.mem_cons.mp isFrom with rfl | isBack
        · rcases behind with ⟨-, gains⟩ | ⟨next, rest, longer, -⟩
          · exact absurd unchanged gains
          · simp [exactly] at longer
        · exact isBack
  refine ⟨member, last, leading, fun disjoint => ?_⟩
  rw [split]
  refine stillBehind.differs lostAccepts missing fun other isBack => ?_
  have pairs : (front ++ lost :: back).Pairwise fun first second => first.attachment = second.attachment →
      ∀ declaration ∈ first.declarations, declaration ∉ second.declarations :=
    split ▸ List.Pairwise.sublist List.filter_sublist disjoint
  have attachments : ∀ other ∈ front ++ lost :: back, other.attachment = own.attachment :=
    fun other inside => (mem_followers.mp (split ▸ inside)).2
  exact (List.pairwise_cons.mp (List.pairwise_append.mp pairs).2.1).1 other isBack
    ((attachments lost (by simp)).trans (attachments other (by simp [isBack])).symm)

end own

theorem resolveFrom_leading {work : Work} (sound : Sound values work) {definitions : List Definition}
    (plain : ∀ definition ∈ definitions, Plain values definition)
    (rejecting : Rejecting work feature (work.placedFor attachment))
    (seen : ∃ definition ∈ definitions, definition.attachment = attachment ∧ definition.filters.accepts feature) :
    ∃ member leader, Leading (resolveFrom work definitions) feature
        ((resolveFrom work definitions).placedFor attachment) member leader ∧
      (¬ RunDiverts attachment feature work definitions →
        leader.declarations = Definition.walk (seeing attachment feature definitions)) ∧
      (Disjoint definitions → RunDiverts attachment feature work definitions →
        leader.declarations ≠ Definition.walk (seeing attachment feature definitions)) := by
  induction definitions generalizing work with
  | nil => simp at seen
  | cons definition later ih =>
    have plainLater := fun other (isLater : other ∈ later) => plain other (List.mem_cons_of_mem _ isLater)
    have compares := (plain definition List.mem_cons_self).compares
    -- the first original that accepts the feature decides; those before it place members that reject it
    by_cases own : definition.attachment = attachment ∧ definition.filters.accepts feature
    · obtain ⟨rfl, accepts⟩ := own
      rw [seeing_cons_of_own later ⟨rfl, accepts⟩]
      unfold RunDiverts
      rw [if_pos ⟨rfl, accepts⟩]
      by_cases diverts : PassDiverts feature (work.push definition) [work.arena.size] (followers definition later)
      · obtain ⟨member, leader, leading, differs⟩ :=
          leading_diverted one sound compares plainLater rejecting accepts diverts
        exact ⟨member, leader, leading, fun straight => absurd diverts straight,
          fun disjoint _ => differs (List.pairwise_cons.mp disjoint).2⟩
      · obtain ⟨member, leader, leading, gathered⟩ :=
          leading_straight one sound compares plainLater rejecting accepts diverts
        exact ⟨member, leader, leading, fun _ => gathered, fun _ again => absurd again diverts⟩
    · have seenLater : ∃ other ∈ later, other.attachment = attachment ∧ other.filters.accepts feature := by
        obtain ⟨other, member, sees⟩ := seen
        rcases List.mem_cons.mp member with rfl | inLater
        · exact absurd sees own
        · exact ⟨other, inLater, sees⟩
      obtain ⟨member, leader, leading, gathered, differs⟩ :=
        ih (step_placed one sound compares plainLater).1 plainLater
          (step_rejecting one sound compares plainLater own rejecting) seenLater
      rw [seeing_cons_of_other later own]
      unfold RunDiverts
      rw [if_neg own]
      exact ⟨member, leader, leading, gathered, fun disjoint => differs (List.pairwise_cons.mp disjoint).2⟩

end Inheritance

namespace Style
open Inheritance

theorem definitions_ofWork {work : Work} {style : Style} (member : style ∈ ofWork work) :
    style.definitions = (work.placedFor style.attachment).filterMap fun member => work.arena[member]? := by
  obtain ⟨attachment, -, rfl⟩ := List.mem_map.mp member
  rw [Work.placedFor, List.filterMap_map]
  rfl

theorem ofWork_unique {work : Work} {first second : Style} (isFirst : first ∈ ofWork work) (isSecond : second ∈ ofWork work)
    (same : first.attachment = second.attachment) : first = second := by
  obtain ⟨attachment, -, rfl⟩ := List.mem_map.mp isFirst
  obtain ⟨other, -, rfl⟩ := List.mem_map.mp isSecond
  obtain rfl : attachment = other := same
  rfl

theorem exists_ofWork {work : Work} {attachment : String} {member : Nat} (placed : member ∈ work.placedFor attachment) :
    ∃ style ∈ ofWork work, style.attachment = attachment := by
  obtain ⟨entry, isEntry, -⟩ := List.mem_map.mp placed
  obtain ⟨isPlaced, isHere⟩ := List.mem_filter.mp isEntry
  refine ⟨_, List.mem_map.mpr ⟨attachment, ?_, rfl⟩, rfl⟩
  rw [List.mem_eraseDups]
  exact List.mem_map.mpr ⟨entry, isPlaced, by simpa using isHere⟩

theorem exists_leading {work : Work} {attachment : String} {feature : Feature} {member : Nat} {leader : Definition}
    (leading : Leading work feature (work.placedFor attachment) member leader) :
    ∃ style ∈ ofWork work, style.attachment = attachment ∧
      (∀ other ∈ ofWork work, other.attachment = attachment → other = style) ∧
      ∃ before after, style.definitions = before ++ leader :: after ∧
        ∀ earlier ∈ before, ¬ earlier.filters.accepts feature := by
  obtain ⟨front, back, split, rejecting⟩ := leading.first
  have placed : member ∈ work.placedFor attachment := by rw [split]; simp
  obtain ⟨style, isStyle, rfl⟩ := exists_ofWork placed
  refine ⟨style, isStyle, rfl, fun other isOther same => ofWork_unique isOther isStyle same,
    front.filterMap fun member => work.arena[member]?, back.filterMap fun member => work.arena[member]?, ?_, ?_⟩
  · rw [definitions_ofWork isStyle, split, List.filterMap_append, List.filterMap_cons_some leading.found]
  · intro earlier isEarlier
    obtain ⟨other, isFront, found⟩ := List.mem_filterMap.mp isEarlier
    obtain ⟨definition, foundAgain, rejects⟩ := rejecting other isFront
    obtain rfl := Option.some.inj (foundAgain.symm.trans found)
    exact rejects

/-- Inheritance computes the cascade where the run diverts nothing: the first definition of a style that accepts a feature
has the declarations of the walk through the originals that accept it. Where no declaration stands in two originals, it
has them only there. -/
theorem inherit_walk {values : Set String} (one : OneText values) {scope : Scope} {definitions : List Definition}
    {styles : List Style} (comparesIn : ∀ definition ∈ definitions, definition.filters.ComparesIn scope values)
    (inherited : inherit scope definitions = .ok styles) :
    ∃ originals, definitions.mapM (evaluateFilters scope) = .ok originals ∧ ∀ attachment feature,
      (∃ original ∈ originals, original.attachment = attachment ∧ original.filters.accepts feature) →
      ∃ style ∈ styles, style.attachment = attachment ∧
        (∀ other ∈ styles, other.attachment = attachment → other = style) ∧
        ∃ before definition after, style.definitions = before ++ definition :: after ∧
          (∀ earlier ∈ before, ¬ earlier.filters.accepts feature) ∧ definition.filters.accepts feature ∧
          (¬ RunDiverts attachment feature Work.empty originals →
            definition.declarations = Definition.walk (seeing attachment feature originals)) ∧
          (Disjoint originals → RunDiverts attachment feature Work.empty originals →
            definition.declarations ≠ Definition.walk (seeing attachment feature originals)) := by
  obtain ⟨originals, evaluated, rfl⟩ := inherit_ok inherited
  refine ⟨originals, evaluated, fun attachment feature seen => ?_⟩
  have plain := plain_originals one comparesIn evaluated
  have sound : Sound values Work.empty := ⟨by simp [Work.empty], by simp [Work.empty, Work.find?]⟩
  obtain ⟨member, leader, leading, straight, diverted⟩ := resolveFrom_leading one sound plain
    (by simp [Rejecting, Work.placedFor, Work.empty]) seen
  obtain ⟨style, isStyle, same, unique, before, after, split, rejecting⟩ := exists_leading leading
  exact ⟨style, isStyle, same, unique, before, leader, after, split, rejecting, leading.accepts, straight, diverted⟩

noncomputable def ones : Feature := fun _ => (Number.ofNat 1).position

theorem accepts_ones {set : FilterSet}
    (equalities : ∀ filter ∈ set.filters, filter.op = .equal ∧ filter.numeric = some (Number.ofNat 1)) : set.accepts ones := by
  intro filter member
  obtain ⟨isEqual, reads⟩ := equalities filter member
  exact ⟨Number.ofNat 1, reads, by rw [isEqual]; rfl⟩

theorem crossing_misses : ∀ style ∈ ofWork (resolve crossing), ∃ leader rest, style.definitions = leader :: rest ∧
    leader.filters.accepts ones ∧ ∃ original ∈ crossing, original.attachment = defaultAttachment ∧
      original.filters.accepts ones ∧
      ∃ declaration ∈ original.declarations, declaration.id ∉ leader.declarations.map Declaration.id := by
  have computed : ∀ style ∈ ofWork (resolve crossing), style.definitions.head?.any fun leader =>
      decide (∀ filter ∈ leader.filters.filters, filter.op = .equal ∧ filter.numeric = some (Number.ofNat 1)) &&
        crossing.any fun original => original.attachment == defaultAttachment &&
          decide (∀ filter ∈ original.filters.filters, filter.op = .equal ∧ filter.numeric = some (Number.ofNat 1)) &&
          original.declarations.any fun declaration =>
            decide (declaration.id ∉ leader.declarations.map Declaration.id) := by decide +kernel
  intro style isStyle
  have holds := computed style isStyle
  cases split : style.definitions with
  | nil => rw [split] at holds; cases holds
  | cons leader rest =>
    rw [split] at holds
    simp only [List.head?_cons, Option.any_some, Bool.and_eq_true, List.any_eq_true, decide_eq_true_eq, beq_iff_eq]
      at holds
    obtain ⟨onLeader, original, isOriginal, ⟨attachment, onOriginal⟩, declaration, declares, missing⟩ := holds
    exact ⟨leader, rest, rfl, accepts_ones onLeader, original, isOriginal, attachment, accepts_ones onOriginal,
      declaration, declares, missing⟩

theorem inherit_walk_crossing : ∃ styles, inherit Scope.empty crossing = .ok styles ∧
    RunDiverts defaultAttachment ones Work.empty crossing ∧ ∀ attachment feature,
      (∃ original ∈ crossing, original.attachment = attachment ∧ original.filters.accepts feature) →
      ∃ style ∈ styles, style.attachment = attachment ∧
        (∀ other ∈ styles, other.attachment = attachment → other = style) ∧
        ∃ before definition after, style.definitions = before ++ definition :: after ∧
          (∀ earlier ∈ before, ¬ earlier.filters.accepts feature) ∧ definition.filters.accepts feature ∧
          (¬ RunDiverts attachment feature Work.empty crossing →
            definition.declarations = Definition.walk (seeing attachment feature crossing)) ∧
          (Disjoint crossing → RunDiverts attachment feature Work.empty crossing →
            definition.declarations ≠ Definition.walk (seeing attachment feature crossing)) := by
  have inherited : inherit Scope.empty crossing = .ok (ofWork (resolve crossing)) := rfl
  obtain ⟨originals, evaluated, walks⟩ := inherit_walk oneText_one crossing_comparesIn inherited
  obtain rfl : crossing = originals := Except.ok.inj evaluated
  refine ⟨_, inherited, by_contra fun straight => ?_, walks⟩
  have seen : ∃ original ∈ crossing, original.attachment = defaultAttachment ∧ original.filters.accepts ones :=
    ⟨declaring [] "line-cap" 0, by simp [crossing], rfl, by
      intro filter member
      exact absurd (show filter ∈ [] from member) (by simp)⟩
  obtain ⟨style, isStyle, -, -, before, definition, after, split, rejecting, -, same, -⟩ :=
    walks defaultAttachment ones seen
  obtain ⟨leader, rest, leads, accepts, original, isOriginal, attachment, onOriginal, declaration, declares, missing⟩ :=
    crossing_misses style isStyle
  rw [leads] at split
  cases before with
  | cons head tail =>
    obtain ⟨rfl, -⟩ := List.cons_eq_cons.mp split
    exact rejecting leader List.mem_cons_self accepts
  | nil =>
    obtain ⟨rfl, -⟩ := List.cons_eq_cons.mp split
    rw [same straight] at missing
    have isSeen : original ∈ seeing defaultAttachment ones crossing :=
      Definition.mem_accepting.mpr ⟨List.mem_filter.mpr ⟨isOriginal, by simpa using attachment⟩, onOriginal⟩
    exact missing (Definition.ids_walk isSeen declares)

end Style
end MapStyle
