import MapStyle.Definition
import MapStyle.Number.Decimal
import MapStyle.Renderer.Basic
/-!
Cutting the zoom levels of a definition into slices, such that within one slice the same declaration of each property
holds at every level. A slice is taken for the first declaration that is visible at levels left, and narrowed to the
levels that the declarations after it share.
-/
namespace MapStyle

/-- The declarations for one instance of a kind of symbolizer, each property once. -/
structure Group where
  instanceName : String
  kind : Kind
  declarations : List Declaration

namespace Group

def isFor (declaration : Declaration) (kind : Kind) (group : Group) : Bool :=
  group.instanceName == declaration.instanceName && group.kind == kind

def has (property : String) (group : Group) : Bool :=
  group.declarations.any fun declaration => declaration.property == property

def push (declaration : Declaration) (group : Group) : Group :=
  { group with declarations := group.declarations ++ [declaration] }

def add? (declaration : Declaration) (kind : Kind) : List Group → Option (List Group)
  | [] => some [⟨declaration.instanceName, kind, [declaration]⟩]
  | group :: rest =>
    if group.isFor declaration kind then
      if group.has declaration.property then none else some (group.push declaration :: rest)
    else (add? declaration kind rest).map (group :: ·)

def index (group : Group) : Nat := ((group.declarations.map Declaration.index).min?).getD (twoTo 32 - 1)

def sort (groups : List Group) : List Group := groups.mergeSort fun a b => a.index ≤ b.index

end Group

namespace Zoom

def count (zoom : Zoom) : Nat := (List.range levels).countP zoom.contains

theorem count_diff_lt {available taken : Zoom} (inside : ∀ level, taken.contains level → available.contains level)
    (nonempty : taken.isEmpty = false) : (available.diff taken).count < available.count := by
  obtain ⟨level, visible⟩ := (isEmpty_eq_false_iff taken).mp nonempty
  have member : level ∈ List.range levels := List.mem_range.mpr (contains_lt visible)
  have strict : ∀ l : List Nat, level ∈ l →
      l.countP (available.diff taken).contains < l.countP available.contains := by
    intro l
    induction l with
    | nil => simp
    | cons head rest ih =>
      intro member
      have grows : rest.countP (available.diff taken).contains ≤ rest.countP available.contains :=
        List.countP_mono_left fun n _ => by simp +contextual
      rw [List.countP_cons, List.countP_cons]
      rcases List.mem_cons.mp member with same | inRest
      · subst same
        simp [visible, inside _ visible]
        omega
      · have := ih inRest
        by_cases atHead : available.contains head <;> by_cases takenHead : taken.contains head <;>
          simp [atHead, takenHead] <;> omega
  exact strict _ member

end Zoom

/-- The levels at which the declarations of `groups` hold; `lead` is the declaration that it was taken for. -/
structure Slice where
  lead : Declaration
  levels : Zoom
  groups : List Group

namespace Slice

def collect (target : String → Option Target) (groups : List Group) (levels : Zoom) :
    List Declaration → List Group × Zoom
  | [] => (groups, levels)
  | declaration :: rest =>
    match target declaration.property with
    | some (.symbolizer kind) =>
      if levels.intersects declaration.zoom then
        match Group.add? declaration kind groups with
        | some groups => collect target groups (levels.inter declaration.zoom) rest
        | none => collect target groups levels rest
      else collect target groups levels rest
    | _ => collect target groups levels rest

theorem collect_subset (target : String → Option Target) (groups : List Group) (levels : Zoom)
    (declarations : List Declaration) (level : Nat)
    (inside : (collect target groups levels declarations).2.contains level) : levels.contains level := by
  fun_induction collect target groups levels declarations <;> simp_all

theorem collect_isEmpty (target : String → Option Target) (groups : List Group) (levels : Zoom)
    (declarations : List Declaration) (nonempty : levels.isEmpty = false) :
    (collect target groups levels declarations).2.isEmpty = false := by
  fun_induction collect target groups levels declarations <;> simp_all [Zoom.intersects]

def take (target : String → Option Target) (lead : Declaration) (declarations : List Declaration)
    (wanted available : Zoom) : List Slice × Zoom :=
  if _h : (wanted.inter available).isEmpty then ([], available)
  else
    let found := collect target [] (wanted.inter available) declarations
    if found.1.isEmpty then ([], available)
    else
      let rest := take target lead declarations wanted (available.diff found.2)
      (⟨lead, found.2, found.1⟩ :: rest.1, rest.2)
termination_by available.count
decreasing_by
  refine Zoom.count_diff_lt (fun level inside => ?_) (collect_isEmpty _ _ _ _ (by simpa using _h))
  have := collect_subset _ _ _ _ _ inside
  simp_all

/-- The slices of all declarations. `remaining` are the levels not drawn so far: a declaration that is visible at none
of them is passed over, though it still counts for the slices of the others. -/
def cut (target : String → Option Target) (remaining available : Zoom) : List Declaration → List Slice
  | [] => []
  | lead :: rest =>
    if target lead.property = some .style || !remaining.intersects lead.zoom then cut target remaining available rest
    else
      let taken := take target lead (lead :: rest) lead.zoom available
      taken.1 ++ cut target (taken.1.foldl (fun left slice => left.diff slice.levels) remaining) taken.2 rest

end Slice
end MapStyle
