import MapStyle.Filter.Basic
/-!
Conjunctions of filters. A filter that is to be added narrows a set, is implied by it or contradicts it; adding one
drops what it makes superfluous. A set lists its filters by slot, so equal sets have equal texts.
-/
namespace MapStyle

/-- What a set says about one more filter. -/
inductive Verdict where
  | narrows
  | implied
  | contradicts
deriving DecidableEq

/-- Filters by ascending slot, each slot once. -/
structure FilterSet where
  filters : List Filter
  ordered : filters.Pairwise fun a b => a.slot < b.slot

def Filter.insertInto (filter : Filter) : List Filter → List Filter
  | [] => [filter]
  | head :: rest =>
    if filter.slot < head.slot then filter :: head :: rest
    else if head.slot < filter.slot then head :: filter.insertInto rest
    else filter :: rest

theorem Filter.mem_insertInto {filter other : Filter} {filters : List Filter}
    (member : other ∈ filter.insertInto filters) : other = filter ∨ other ∈ filters := by
  induction filters with
  | nil => simpa [insertInto] using member
  | cons head rest ih =>
    unfold insertInto at member
    split at member
    · simpa using member
    · split at member
      · rcases List.mem_cons.mp member with same | inside
        · exact Or.inr (by simp [same])
        · exact (ih inside).imp_right fun inRest => List.mem_cons_of_mem head inRest
      · rcases List.mem_cons.mp member with same | inside
        · exact Or.inl same
        · exact Or.inr (List.mem_cons_of_mem head inside)

theorem Filter.insertInto_ordered (filter : Filter) {filters : List Filter}
    (ordered : filters.Pairwise fun a b => a.slot < b.slot) :
    (filter.insertInto filters).Pairwise fun a b => a.slot < b.slot := by
  induction filters with
  | nil => simp [insertInto]
  | cons head rest ih =>
    have above := (List.pairwise_cons.mp ordered).1
    unfold insertInto
    split
    · next below =>
      refine List.pairwise_cons.mpr ⟨fun other member => ?_, ordered⟩
      rcases List.mem_cons.mp member with same | inside
      · exact same ▸ below
      · exact String.lt_trans below (above _ inside)
    · next notBelow =>
      split
      · next beyond =>
        refine List.pairwise_cons.mpr ⟨fun other member => ?_, ih ordered.of_cons⟩
        rcases Filter.mem_insertInto member with same | inside
        · exact same ▸ beyond
        · exact above _ inside
      · next notBeyond =>
        have same : filter.slot = head.slot :=
          String.le_antisymm (String.not_lt.mp notBeyond) (String.not_lt.mp notBelow)
        exact List.pairwise_cons.mpr ⟨fun other inside => same ▸ above _ inside, ordered.of_cons⟩

namespace FilterSet

def empty : FilterSet := ⟨[], List.Pairwise.nil⟩

def insert (set : FilterSet) (filter : Filter) : FilterSet :=
  ⟨filter.insertInto set.filters, filter.insertInto_ordered set.ordered⟩

def restrict (set : FilterSet) (keep : Filter → Bool) : FilterSet :=
  ⟨set.filters.filter keep, set.ordered.sublist List.filter_sublist⟩

def get? (set : FilterSet) (slot : String) : Option Filter := set.filters.find? fun filter => filter.slot == slot

def contains (set : FilterSet) (slot : String) : Bool := (set.get? slot).isSome

def erase (set : FilterSet) (slot : String) : FilterSet := set.restrict fun filter => filter.slot != slot

def size (set : FilterSet) : Nat := set.filters.length

def isEmpty (set : FilterSet) : Bool := set.filters.isEmpty

def text (set : FilterSet) : String := String.intercalate " " (set.filters.map Filter.text)

def same (a b : FilterSet) : Bool :=
  a.filters.length == b.filters.length && (a.filters.zip b.filters).all fun (x, y) => x.same y

/-- Whether the comparison `op` on the key of `filter` is there with a value that stands in `order` to its value. -/
def bounds (set : FilterSet) (op : Comparison) (order : Number → Number → Bool) (filter : Filter) : Bool :=
  match set.get? (Filter.keySlot filter.key op) with
  | some bound => bound.related order filter
  | none => false

def atLeast (a b : Number) : Bool := b.le a

def above (a b : Number) : Bool := b.lt a

def excludes (set : FilterSet) (filter : Filter) : Bool :=
  set.contains (Filter.valueSlot filter.key .different filter.value) ||
    set.bounds .greater atLeast filter || set.bounds .less Number.le filter ||
    set.bounds .atLeast above filter || set.bounds .atMost Number.lt filter

def judgeBound (set : FilterSet) (filter : Filter) (fails : Number → Number → Bool) (contradicted implied : Bool) : Verdict :=
  match set.get? (Filter.keySlot filter.key .equal) with
  | some equality => if equality.related fails filter then .contradicts else .implied
  | none => if contradicted then .contradicts else if implied then .implied else .narrows

def judge (set : FilterSet) (filter : Filter) : Verdict :=
  match filter.op with
  | .equal =>
    match set.get? (Filter.keySlot filter.key .equal) with
    | some equality => if equality.value = filter.value then .implied else .contradicts
    | none => if set.excludes filter then .contradicts else .narrows
  | .different =>
    match set.get? (Filter.keySlot filter.key .equal) with
    | some equality => if equality.value = filter.value then .contradicts else .implied
    | none => if set.excludes filter then .implied else .narrows
  | .regex | .modulo => if set.contains filter.slot then .implied else .narrows
  | .greater => set.judgeBound filter Number.le
      (set.bounds .less Number.le filter || set.bounds .atMost Number.le filter)
      (set.bounds .greater atLeast filter || set.bounds .atLeast above filter)
  | .atLeast => set.judgeBound filter Number.lt
      (set.bounds .less Number.le filter || set.bounds .atMost Number.lt filter)
      (set.bounds .greater atLeast filter || set.bounds .atLeast atLeast filter)
  | .less => set.judgeBound filter atLeast
      (set.bounds .greater atLeast filter || set.bounds .atLeast atLeast filter)
      (set.bounds .less Number.le filter || set.bounds .atMost Number.lt filter)
  | .atMost => set.judgeBound filter above
      (set.bounds .greater atLeast filter || set.bounds .atLeast above filter)
      (set.bounds .less Number.le filter || set.bounds .atMost Number.le filter)

/-- Drops the comparisons on the key of `filter` whose value stands in `order` to its value, patterns aside. -/
def prune (set : FilterSet) (filter : Filter) (order : Number → Number → Bool) : FilterSet :=
  set.restrict fun existing =>
    existing.key != filter.key || Filter.isPattern existing.op || !existing.related order filter

def insertBound (set : FilterSet) (filter : Filter) (strict : Comparison) : FilterSet :=
  let excluded := Filter.valueSlot filter.key .different filter.value
  if set.contains excluded then (set.erase excluded).insert { filter with op := strict } else set.insert filter

def add (set : FilterSet) (filter : Filter) : FilterSet :=
  match filter.op with
  | .equal => (set.restrict fun existing => existing.key != filter.key).insert filter
  | .different | .regex | .modulo => set.insert filter
  | .greater => (set.prune filter Number.le).insert filter
  | .less => (set.prune filter atLeast).insert filter
  | .atLeast => (set.prune filter Number.lt).insertBound filter .greater
  | .atMost => (set.prune filter above).insertBound filter .less

def conjoin? (set : FilterSet) (filter : Filter) : Option FilterSet :=
  match set.judge filter with
  | .narrows => some (set.add filter)
  | .implied => some set
  | .contradicts => none

def ofFilters? (filters : List Filter) : Option FilterSet := filters.foldlM conjoin? empty

/-- The outcome of combining two sets. -/
inductive Merge where
  | merged (set : FilterSet)
  | unchanged
  | conflict

def merge (set other : FilterSet) : Merge :=
  if other.filters.any fun filter => set.judge filter = .contradicts then .conflict
  else
    match other.filters.filter fun filter => set.judge filter = .narrows with
    | [] => .unchanged
    | additions => .merged (additions.foldl add set)

def implies (set other : FilterSet) : Bool :=
  match set.merge other with
  | .unchanged => true
  | _ => false

def reevaluateFilter (scope : Scope) (filter : Filter) : Except StyleError Filter :=
  match filter.source with
  | some source => Filter.resolve filter.key filter.op source scope
  | none => .ok filter

/-- The set with its values evaluated anew, its filters added again in order; one that does not narrow is left out. -/
def reevaluate (set : FilterSet) (scope : Scope) : Except StyleError FilterSet :=
  set.filters.foldlM (fun result filter => do
    let filter ← reevaluateFilter scope filter
    return if result.judge filter = .narrows then result.add filter else result) empty

end FilterSet
end MapStyle
