import MapStyle.Proofs.Cascade.Origin
import MapStyle.Proofs.Cascade.Part
import MapStyle.Proofs.Cascade.Unfiltered
/-!
Attachments are worked on apart. What a step does for its attachment it does in the part of the work for that attachment
alike, and the parts for others it leaves as they are; so each style is what it is without the definitions of others.
-/
namespace MapStyle

theorem eraseDups_replicate {α : Type} [BEq α] [LawfulBEq α] (front back : List α) (item : α) (more : Nat) :
    (front ++ (List.replicate (more + 1) item ++ back)).eraseDups = (front ++ item :: back).eraseDups := by
  rw [List.eraseDups_append, List.eraseDups_append]
  refine congrArg _ ?_
  simp only [List.removeAll, List.filter_append, List.filter_replicate, List.filter_cons]
  split
  · rw [List.replicate_succ, List.cons_append, List.eraseDups_cons, List.eraseDups_cons]
    simp [List.filter_append]
  · rfl

namespace Inheritance
variable {work : Work} {attachment : String} {member : Nat} {incoming definition own : Definition}

theorem visit_attachments (incoming : Definition) (work : Work) (member : Nat) :
    work.attachments <+: (visit incoming work member).1.attachments := by
  cases found : work.arena[member]? with
  | none => simp [visit, found]
  | some definition =>
    have cases := visit_visited incoming found
    generalize visit incoming work member = outcome at cases
    cases cases with
    | apart => exact List.prefix_rfl
    | idle => exact List.prefix_rfl
    | known => simp [attachments_extend]
    | extended => simp [attachments_extend]
    | split filters => exact attachments_push _ ▸ List.prefix_append _ _
    | copied => exact attachments_push _ ▸ List.prefix_append _ _

theorem visit_tidy (tidy : work.Tidy) (found : work.arena[member]? = some definition)
    (same : definition.attachment = incoming.attachment) : (visit incoming work member).1.Tidy := by
  have cases := visit_visited incoming found
  generalize visit incoming work member = outcome at cases
  cases cases with
  | apart => exact tidy
  | idle => exact tidy
  | known => exact tidy.grow (grows_extend _ _) rfl rfl
  | extended => exact tidy.grow (grows_extend _ _) rfl rfl
  | copied => exact tidy.grow (grows_push _) rfl rfl
  | split filters outcome unknown adds =>
    have pushed := tidy.grow (grows_push ({ definition with filters }.addDeclarations incoming.declarations)) rfl rfl
    have registered := pushed.register Array.getElem?_push_size filters.text
    simpa [same] using registered

theorem part_visit (tidy : work.Tidy) (found : work.arena[member]? = some definition)
    (same : definition.attachment = incoming.attachment) :
    visit incoming (work.part incoming.attachment) (work.rank incoming.attachment member) =
      ((visit incoming work member).1.part incoming.attachment,
        (visit incoming work member).2.map ((visit incoming work member).1.rank incoming.attachment)) := by
  have foundPart : (work.part incoming.attachment).arena[work.rank incoming.attachment member]? = some definition :=
    same ▸ part_found found
  -- a copy comes last in the arena and in the part
  have fresh : ∀ copy : Definition, (work.push copy).rank incoming.attachment work.arena.size =
      (work.part incoming.attachment).arena.size := fun copy => (rank_push (Nat.le_refl _) copy).trans part_size.symm
  have pushed : ∀ copy : Definition, copy.attachment = incoming.attachment →
      (work.push copy).part incoming.attachment = (work.part incoming.attachment).push copy :=
    fun copy same => same ▸ part_push tidy copy
  have cases := visit_visited incoming found
  generalize visit incoming work member = outcome at cases
  cases cases with
  | apart outcome => simp [visit, foundPart, outcome]
  | idle filters outcome unknown present =>
    simp [visit, foundPart, outcome, Inheritance.split, part_find?, unknown, Declaration.joined_eq_self present]
  | known filters outcome other known =>
    obtain ⟨there, foundThere, thereAttachment⟩ := tidy.known known
    have extended := part_extend tidy foundThere incoming.declarations
    rw [thereAttachment] at extended
    simp [visit, foundPart, outcome, Inheritance.split, part_find?, known, extended]
  | extended outcome unregistered =>
    have extended := part_extend tidy found incoming.declarations
    rw [same] at extended
    have stillUnregistered : (work.part incoming.attachment).find? incoming.attachment definition.filters.text ≠
        some (work.rank incoming.attachment member) := by
      rw [part_find?]
      intro registered
      obtain ⟨other, known, sameRank⟩ := Option.map_eq_some_iff.mp registered
      obtain ⟨there, foundThere, thereAttachment⟩ := tidy.known known
      exact unregistered (rank_injective foundThere thereAttachment found same sameRank ▸ known)
    simp [visit, foundPart, outcome, absorb, stillUnregistered, extended]
  | split filters outcome unknown adds =>
    obtain ⟨first, rest, joined, -⟩ := Declaration.joined_of_new adds
    have stays : ∀ copy : Definition, (work.push copy).rank incoming.attachment member =
        work.rank incoming.attachment member := rank_push (Nat.le_of_lt (lt_size found))
    simp [visit, foundPart, outcome, Inheritance.split, part_find?, unknown, joined, part_register, pushed, same, fresh, stays]
  | copied outcome registered =>
    simp [visit, foundPart, outcome, absorb, part_find?, registered, pushed, same, fresh]

theorem part_visit_other (tidy : work.Tidy) (found : work.arena[member]? = some definition)
    (same : definition.attachment = incoming.attachment) (other : incoming.attachment ≠ attachment) :
    (visit incoming work member).1.part attachment = work.part attachment := by
  have cases := visit_visited incoming found
  generalize visit incoming work member = outcome at cases
  cases cases with
  | apart => rfl
  | idle => rfl
  | known filters outcome there known =>
    obtain ⟨definition, foundThere, thereAttachment⟩ := tidy.known known
    exact part_extend_other tidy foundThere (thereAttachment ▸ other) _
  | extended => exact part_extend_other tidy found (same ▸ other) _
  | split => rw [part_register_other other, part_push_other tidy (by simpa [same] using other)]
  | copied => exact part_push_other tidy (by simpa [same] using other)

section turn
variable {members : List Nat}

theorem visitAll_attachments (incoming : Definition) (work : Work) (members : List Nat) :
    work.attachments <+: (visitAll incoming work members).1.attachments := by
  induction members generalizing work with
  | nil => exact List.prefix_rfl
  | cons member rest ih => exact (visit_attachments incoming work member).trans (ih _)

theorem map_rank {after : Work} (present : ∀ member ∈ members, Present own work member)
    (more : work.attachments <+: after.attachments) :
    members.map (after.rank attachment) = members.map (work.rank attachment) := by
  refine List.map_congr_left fun member isMember => ?_
  obtain ⟨definition, found, -⟩ := present member isMember
  exact rank_stable more (Nat.le_of_lt (lt_size found))

variable (tidy : work.Tidy) (same : own.attachment = incoming.attachment)
  (present : ∀ member ∈ members, Present own work member)
include tidy same present

theorem visitAll_tidy : (visitAll incoming work members).1.Tidy := by
  induction members generalizing work with
  | nil => exact tidy
  | cons member rest ih =>
    obtain ⟨presentHere, presentRest⟩ := List.forall_mem_cons.mp present
    obtain ⟨grows, -, -⟩ := @visit_grows work incoming own member presentHere
    obtain ⟨definition, found, starts⟩ := presentHere
    exact ih (visit_tidy tidy found (starts.attachment.trans same)) fun other inRest => grows.present (presentRest other inRest)

theorem part_visitAll_other (other : own.attachment ≠ attachment) :
    (visitAll incoming work members).1.part attachment = work.part attachment := by
  induction members generalizing work with
  | nil => rfl
  | cons member rest ih =>
    obtain ⟨presentHere, presentRest⟩ := List.forall_mem_cons.mp present
    obtain ⟨grows, -, -⟩ := @visit_grows work incoming own member presentHere
    obtain ⟨definition, found, starts⟩ := presentHere
    have sameHere := starts.attachment.trans same
    rw [visitAll, ih (visit_tidy tidy found sameHere) fun other inRest => grows.present (presentRest other inRest)]
    exact part_visit_other tidy found sameHere (same ▸ other)

theorem part_visitAll : visitAll incoming (work.part own.attachment) (members.map (work.rank own.attachment)) =
    ((visitAll incoming work members).1.part own.attachment,
      (visitAll incoming work members).2.map ((visitAll incoming work members).1.rank own.attachment)) := by
  induction members generalizing work with
  | nil => rfl
  | cons member rest ih =>
    obtain ⟨presentHere, presentRest⟩ := List.forall_mem_cons.mp present
    obtain ⟨grows, -, answers⟩ := @visit_grows work incoming own member presentHere
    obtain ⟨definition, found, starts⟩ := presentHere
    have sameHere := starts.attachment.trans same
    have here := part_visit tidy found sameHere
    rw [← same] at here
    have after := ih (visit_tidy tidy found sameHere) fun other inRest => grows.present (presentRest other inRest)
    rw [map_rank presentRest (visit_attachments incoming work member)] at after
    simp only [visitAll, List.map_cons, here, after, List.map_append]
    rw [map_rank answers (visitAll_attachments incoming _ rest)]

omit same in
theorem part_pass {later : List Definition} (follow : ∀ incoming ∈ later, own.attachment = incoming.attachment) :
    pass (work.part own.attachment) (members.map (work.rank own.attachment)) later =
      ((pass work members later).1.part own.attachment,
        (pass work members later).2.map ((pass work members later).1.rank own.attachment)) := by
  induction later generalizing work members with
  | nil => rfl
  | cons incoming rest ih =>
    obtain ⟨here, others⟩ := List.forall_mem_cons.mp follow
    obtain ⟨-, -, answers⟩ := @visitAll_grows work incoming own members present
    simp only [pass, part_visitAll tidy here present]
    exact ih (visitAll_tidy tidy here present) answers others

end turn

section step
variable {members : List Nat} {later : List Definition}

theorem follower_attachment {incoming : Definition} (follows : incoming ∈ followers own later) :
    own.attachment = incoming.attachment := (mem_followers.mp follows).2.symm

theorem present_push (own : Definition) (work : Work) : ∀ member ∈ [work.arena.size], Present own (work.push own) member :=
  List.forall_mem_singleton.mpr ⟨own, Array.getElem?_push_size, .refl own⟩

theorem push_tidy (tidy : work.Tidy) (own : Definition) : (work.push own).Tidy := tidy.grow (grows_push own) rfl rfl

theorem passed_tidy (tidy : work.Tidy) : (passed work own later).1.Tidy := by
  refine (pass_induction (fun after members => after.Tidy ∧ ∀ member ∈ members, Present own after member) ?_
    ⟨push_tidy tidy own, present_push own work⟩).1
  rintro incoming follows after members ⟨tidy, present⟩
  obtain ⟨-, -, answers⟩ := @visitAll_grows after incoming own members present
  exact ⟨visitAll_tidy tidy (follower_attachment follows) present, answers⟩

theorem part_passed_other (tidy : work.Tidy) (other : own.attachment ≠ attachment) :
    (passed work own later).1.part attachment = work.part attachment := by
  refine (pass_induction (fun after members => after.Tidy ∧ (∀ member ∈ members, Present own after member) ∧
    after.part attachment = work.part attachment) ?_
    ⟨push_tidy tidy own, present_push own work, part_push_other tidy other⟩).2.2
  rintro incoming follows after members ⟨tidy, present, same⟩
  have sameAttachment := follower_attachment follows
  obtain ⟨-, -, answers⟩ := @visitAll_grows after incoming own members present
  exact ⟨visitAll_tidy tidy sameAttachment present, answers,
    (part_visitAll_other tidy sameAttachment present other).trans same⟩

theorem part_passed (tidy : work.Tidy) : passed (work.part own.attachment) own later =
    ((passed work own later).1.part own.attachment,
      (passed work own later).2.map ((passed work own later).1.rank own.attachment)) := by
  have passes := part_pass (push_tidy tidy own) (present_push own work)
    fun incoming (follows : incoming ∈ followers own later) => follower_attachment follows
  rwa [List.map_singleton, part_push tidy, rank_push (Nat.le_refl _), ← part_size] at passes

/-- Members with the attachment are placed in the part as in the work. -/
theorem part_placeAll (present : ∀ member ∈ members, Present own work member) :
    (members.foldl (fun work member => work.place own.attachment member) work).part own.attachment =
      (members.map (work.rank own.attachment)).foldl (fun work member => work.place own.attachment member)
        (work.part own.attachment) := by
  induction members generalizing work with
  | nil => rfl
  | cons member rest ih =>
    obtain ⟨⟨definition, found, starts⟩, presentRest⟩ := List.forall_mem_cons.mp present
    have sameArena : (work.place own.attachment member).arena = work.arena := by rw [place_eq _ found]; rfl
    have placed := part_place found
    rw [starts.attachment] at placed
    have sameRank : (work.place own.attachment member).rank own.attachment = work.rank own.attachment :=
      funext fun other => by rw [Work.rank, sameArena]; rfl
    rw [List.foldl_cons, ih (by simpa [Present, sameArena] using presentRest), sameRank, placed]
    rfl

theorem part_placeAll_other (present : ∀ member ∈ members, Present own work member) (other : own.attachment ≠ attachment) :
    (members.foldl (fun work member => work.place own.attachment member) work).part attachment = work.part attachment := by
  induction members generalizing work with
  | nil => rfl
  | cons member rest ih =>
    obtain ⟨⟨definition, found, -⟩, presentRest⟩ := List.forall_mem_cons.mp present
    have sameArena : (work.place own.attachment member).arena = work.arena := by rw [place_eq _ found]; rfl
    rw [List.foldl_cons, ih (by simpa [Present, sameArena] using presentRest)]
    exact part_place_other found other

theorem placeAll_tidy (tidy : work.Tidy) (present : ∀ member ∈ members, Present own work member) :
    (members.foldl (fun work member => work.place own.attachment member) work).Tidy := by
  induction members generalizing work with
  | nil => exact tidy
  | cons member rest ih =>
    obtain ⟨⟨definition, found, starts⟩, presentRest⟩ := List.forall_mem_cons.mp present
    have registered := tidy.register found definition.filters.text
    have same := place_eq own.attachment found
    rw [starts.attachment] at registered
    rw [List.foldl_cons, same]
    exact ih ⟨registered.index, List.forall_mem_cons.mpr ⟨⟨definition, found, starts.attachment⟩, tidy.placed⟩⟩ presentRest

theorem step_tidy (tidy : work.Tidy) : (step work own later).Tidy :=
  step_eq work own later ▸ placeAll_tidy (passed_tidy tidy) (passed_grows own later).2.2

theorem part_step (tidy : work.Tidy) :
    (step work own later).part own.attachment = step (work.part own.attachment) own later := by
  obtain ⟨-, -, present⟩ := @passed_grows work own later
  rw [step_eq, step_eq, part_placeAll present, part_passed tidy]

theorem part_step_other (tidy : work.Tidy) (other : own.attachment ≠ attachment) :
    (step work own later).part attachment = work.part attachment := by
  obtain ⟨-, -, present⟩ := @passed_grows work own later
  rw [step_eq, part_placeAll_other present other, part_passed_other tidy other]

end step

/-- What inheritance does for an attachment is what it does with the definitions of that attachment alone. -/
theorem part_resolveFrom (tidy : work.Tidy) (definitions : List Definition) (attachment : String) :
    (resolveFrom work definitions).Tidy ∧ (resolveFrom work definitions).part attachment =
      resolveFrom (work.part attachment) (definitions.filter (isFor attachment)) := by
  induction definitions generalizing work with
  | nil => exact ⟨tidy, rfl⟩
  | cons definition later ih =>
    obtain ⟨tidyAfter, same⟩ := @ih (step work definition later) (step_tidy tidy)
    refine ⟨tidyAfter, same.trans ?_⟩
    by_cases own : definition.attachment = attachment
    · subst own
      have again : followers definition (later.filter (isFor definition.attachment)) = followers definition later := by
        simp [followers, isFor]
      rw [List.filter_cons_of_pos (by simp [isFor]), part_step tidy]
      simp only [resolveFrom, step_eq, passed, again]
    · rw [List.filter_cons_of_neg (by simpa [isFor] using own), part_step_other tidy own]

/-- A step places members of one attachment only, and at least one. -/
theorem step_attachments (own : Definition) (later : List Definition) :
    ∃ more, (step work own later).placed.reverse.map Prod.fst =
      work.placed.reverse.map Prod.fst ++ List.replicate (more + 1) own.attachment := by
  obtain ⟨-, nonempty, present⟩ := @passed_grows work own later
  obtain ⟨-, placed⟩ := @placeAll_eq (passed work own later).1 own.attachment (passed work own later).2
    fun member isMember => (present member isMember).imp fun _ => And.left
  obtain ⟨more, length⟩ := Nat.exists_eq_succ_of_ne_zero (mt List.length_eq_zero_iff.mp nonempty)
  refine ⟨more, ?_⟩
  rw [step_eq, placed, passed_placed, List.reverse_append, List.reverse_reverse, List.map_append, List.map_map]
  exact congrArg _ (List.eq_replicate_iff.mpr ⟨by simp [length], by simp⟩)

/-- Styles come in the order in which their attachments first occur. -/
theorem resolveFrom_attachments_order (definitions : List Definition) :
    ((resolveFrom work definitions).placed.reverse.map Prod.fst).eraseDups =
      (work.placed.reverse.map Prod.fst ++ definitions.map Definition.attachment).eraseDups := by
  induction definitions generalizing work with
  | nil => simp [resolveFrom]
  | cons definition later ih =>
    obtain ⟨more, placed⟩ := @step_attachments work definition later
    rw [resolveFrom, ih, placed, List.append_assoc, List.map_cons]
    exact eraseDups_replicate _ _ _ more

theorem part_placed_fst (work : Work) (attachment : String) : ∀ name ∈ (work.part attachment).placed.reverse.map Prod.fst,
    name = attachment := by
  simp [Work.part]

/-- The style of the attachment holds in its part what it holds in the work. -/
theorem part_definitionsFor (tidy : work.Tidy) (attachment : String) :
    (work.part attachment).definitionsFor attachment = work.definitionsFor attachment := by
  have ranked : (work.part attachment).placedFor attachment = (work.placedFor attachment).map (work.rank attachment) := by
    simp [Work.placedFor, Work.part, ← List.map_reverse, ← List.filter_reverse, List.filter_map, Function.comp_def]
  rw [Work.definitionsFor, Work.definitionsFor, ranked, List.filterMap_map]
  refine List.filterMap_congr fun member isPlaced => ?_
  obtain ⟨entry, isEntry, rfl⟩ := List.mem_map.mp isPlaced
  obtain ⟨isPlaced, isHere⟩ := List.mem_filter.mp isEntry
  obtain ⟨definition, found, same⟩ := tidy.placed entry (List.mem_reverse.mp isPlaced)
  obtain rfl : definition.attachment = attachment := same.trans (by simpa using isHere)
  rw [Function.comp_apply, part_found found, found]

end Inheritance

namespace Style
open Inheritance
variable {scope : Scope} {definitions : List Definition} {attachment : String}

theorem ofWork_part {work : Work} (tidy : work.Tidy) (attachment : String) :
    ofWork (work.part attachment) = (ofWork work).filter fun style => style.attachment == attachment := by
  have all : (ofWork (work.part attachment)).filter (fun style => style.attachment == attachment) =
      ofWork (work.part attachment) := by
    refine List.filter_eq_self.mpr fun style isStyle => ?_
    obtain ⟨name, isName, rfl⟩ := List.mem_map.mp isStyle
    simpa using part_placed_fst work attachment name (List.mem_eraseDups.mp isName)
  have placed : attachment ∈ (work.part attachment).placed.reverse.map Prod.fst ↔ attachment ∈ work.placed.reverse.map Prod.fst := by
    simp [Work.part]
  rw [← all, ofWork_filter, ofWork_filter, part_definitionsFor tidy]
  simp only [placed]

theorem attachments_ofWork (work : Work) : (ofWork work).map Style.attachment = (work.placed.reverse.map Prod.fst).eraseDups := by
  rw [ofWork, List.map_map]
  exact List.map_id _

theorem evaluateFilters_filter (evaluates : ∀ definition ∈ definitions, ∃ filters, definition.filters.reevaluate scope = .ok filters) :
    ∃ originals, definitions.mapM (evaluateFilters scope) = .ok originals ∧
      originals.map Definition.attachment = definitions.map Definition.attachment ∧
      ∀ attachment, (definitions.filter (isFor attachment)).mapM (evaluateFilters scope) =
        .ok (originals.filter (isFor attachment)) := by
  induction definitions with
  | nil => exact ⟨[], rfl, rfl, fun _ => rfl⟩
  | cons definition rest ih =>
    obtain ⟨⟨filters, here⟩, others⟩ := List.forall_mem_cons.mp evaluates
    obtain ⟨originals, evaluated, attachments, filtered⟩ := ih others
    have first : evaluateFilters scope definition = .ok { definition with filters } := by
      rw [evaluateFilters, here]
      rfl
    refine ⟨{ definition with filters } :: originals, ?_, ?_, fun attachment => ?_⟩
    · rw [List.mapM_cons, first, evaluated]
      rfl
    · simp [attachments]
    · by_cases own : definition.attachment = attachment
      · rw [List.filter_cons_of_pos (by simpa [isFor] using own), List.filter_cons_of_pos (by simpa [isFor] using own),
          List.mapM_cons, first, filtered]
        rfl
      · rw [List.filter_cons_of_neg (by simpa [isFor] using own), List.filter_cons_of_neg (by simpa [isFor] using own), filtered]

theorem inherit_separate (evaluates : ∀ definition ∈ definitions, ∃ filters, definition.filters.reevaluate scope = .ok filters) :
    ∃ styles, inherit scope definitions = .ok styles ∧
      styles.map Style.attachment = (definitions.map Definition.attachment).eraseDups ∧
      ∀ attachment ∈ definitions.map Definition.attachment, ∃ style,
        styles.filter (fun style => style.attachment == attachment) = [style] ∧
        inherit scope (definitions.filter fun definition => definition.attachment == attachment) = .ok [style] := by
  obtain ⟨originals, evaluated, attachments, filtered⟩ := evaluateFilters_filter evaluates
  have tidy : Work.empty.Tidy := ⟨by simp [Work.empty], by simp [Work.Placed, Work.empty]⟩
  have order := @resolveFrom_attachments_order Work.empty originals
  refine ⟨ofWork (resolve originals), by rw [inherit, evaluated]; rfl, ?_, fun attachment occurs => ?_⟩
  · rw [attachments_ofWork, resolve, order, attachments]
    rfl
  · obtain ⟨tidyAfter, part⟩ := part_resolveFrom tidy originals attachment
    have empty : Work.empty.part attachment = Work.empty := rfl
    have placed : attachment ∈ (resolve originals).placed.reverse.map Prod.fst := by
      rw [← List.mem_eraseDups, resolve, order, attachments, List.mem_eraseDups]
      exact List.mem_append_right _ occurs
    have alone : ofWork (resolve (originals.filter (isFor attachment))) =
        (ofWork (resolve originals)).filter fun style => style.attachment == attachment := by
      rw [resolve, resolve, ← ofWork_part tidyAfter, part, empty]
    have one := ofWork_filter (resolve originals) attachment
    rw [if_pos placed] at one
    refine ⟨_, one, ?_⟩
    rw [← one, ← alone]
    exact congrArg (fun evaluated => do return ofWork (resolve (← evaluated))) (filtered attachment)

/-- The crossing definitions for two attachments, in turns. -/
def interleaved : List Definition := crossing.flatMap fun definition => [{ definition with attachment := "casing" }, definition]

theorem inherit_separate_interleaved : ∃ styles, inherit Scope.empty interleaved = .ok styles ∧
    styles.map Style.attachment = ["casing", defaultAttachment] ∧
    interleaved.filter (fun definition => definition.attachment == defaultAttachment) = crossing ∧
    ∀ attachment ∈ ["casing", defaultAttachment], ∃ style,
      styles.filter (fun style => style.attachment == attachment) = [style] ∧
      inherit Scope.empty (interleaved.filter fun definition => definition.attachment == attachment) = .ok [style] := by
  have succeed : ∀ definition ∈ interleaved, (definition.filters.reevaluate Scope.empty).isOk := by decide +kernel
  obtain ⟨styles, inherited, order, apart⟩ := @inherit_separate Scope.empty interleaved fun definition inside => by
    have succeeds := succeed definition inside
    cases evaluated : definition.filters.reevaluate Scope.empty with
    | ok filters => exact ⟨filters, rfl⟩
    | error => simp [evaluated, Except.isOk, Except.toBool] at succeeds
  have present : ∀ attachment ∈ ["casing", defaultAttachment], attachment ∈ interleaved.map Definition.attachment := by
    decide +kernel
  exact ⟨styles, inherited, order.trans (by decide +kernel), rfl, fun attachment isOne => apart attachment (present _ isOne)⟩

end Style
end MapStyle
