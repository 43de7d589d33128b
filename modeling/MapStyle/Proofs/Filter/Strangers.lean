import MapStyle.Proofs.Filter.Readding
/-!
Filters on other keys. A slot is one text, so that a key that goes on where another ends, with the characters of an
operator, can share slots with it. A set whose filters stand in no such slot judges a filter by those on its key alone,
and keeps the others; two keys that share a slot are enough for the opposite.
-/
namespace MapStyle
namespace Filter

/-- The key `other` begins with the whole of `key` and goes on with what may begin a comparison. -/
def Overruns (key other : String) : Prop :=
  (∃ tail ∈ ["!", ">", "<"], other = key ++ tail) ∨ ∃ start ∈ ["!=", "=~", "%"], ∃ rest, other = key ++ start ++ rest

theorem Overruns.longer {key other : String} (overruns : Overruns key other) : key.toList.length < other.toList.length := by
  rcases overruns with ⟨tail, listed, rfl⟩ | ⟨start, listed, rest, rfl⟩ <;>
    simp only [List.mem_cons, List.not_mem_nil, or_false] at listed <;> rcases listed with rfl | rfl | rfl <;> simp

theorem overruns_short {key : String} {tail : Char} (listed : String.singleton tail ∈ ["!", ">", "<"]) :
    Overruns key (key ++ String.ofList [tail]) :=
  Or.inl ⟨String.singleton tail, listed, by simp⟩

theorem overruns_long {key : String} (start : List Char) {rest : List Char} (listed : String.ofList start ∈ ["!=", "=~", "%"]) :
    Overruns key (key ++ String.ofList (start ++ rest)) :=
  Or.inr ⟨_, listed, String.ofList rest, by rw [String.ofList_append, String.append_assoc]⟩

theorem symbol_begins (op : Comparison) : ∃ first rest, op.symbol.toList = first :: rest ∧ first ≠ '~' := by
  cases op <;> exact ⟨_, _, rfl, by decide⟩

/-- A slot that goes on with `begun`, and then with another operator, leaves only a few texts for what is begun. -/
theorem overruns_of_begun {filter : Filter} {begun more : List Char} {next : Char} (longer : begun ≠ [])
    (isSymbol : next ≠ '~')
    (same : filter.op.symbol.toList ++ filter.slotTail.toList = begun ++ next :: more) :
    Overruns filter.key (filter.key ++ String.ofList begun) := by
  obtain ⟨first, rest, rfl⟩ := List.exists_cons_of_ne_nil longer
  unfold slotTail at same
  cases op : filter.op <;> simp [op, Comparison.symbol, isPerValue] at same
  case modulo =>
    obtain ⟨rfl, -⟩ := same
    exact overruns_long ['%'] (by simp)
  case different =>
    obtain ⟨rfl, left⟩ := same
    cases rest with
    | nil => exact overruns_short (by simp)
    | cons second others =>
      obtain ⟨rfl, -⟩ := List.cons_eq_cons.mp left
      exact overruns_long ['!', '='] (by simp)
  case regex =>
    obtain ⟨rfl, left⟩ := same
    cases rest with
    | nil => exact absurd (List.cons_eq_cons.mp left).1.symm isSymbol
    | cons second others =>
      obtain ⟨rfl, -⟩ := List.cons_eq_cons.mp left
      exact overruns_long ['=', '~'] (by simp)
  case atLeast =>
    obtain ⟨rfl, left⟩ := same
    cases rest with
    | nil => exact overruns_short (by simp)
    | cons second others => simp at left
  case atMost =>
    obtain ⟨rfl, left⟩ := same
    cases rest with
    | nil => exact overruns_short (by simp)
    | cons second others => simp at left

theorem overruns_of_longer {a b : Filter} {begun : List Char} (keys : b.key.toList = a.key.toList ++ begun)
    (tails : a.op.symbol.toList ++ a.slotTail.toList = begun ++ (b.op.symbol.toList ++ b.slotTail.toList)) :
    a.key = b.key ∨ Overruns a.key b.key := by
  have sameKey : b.key = a.key ++ String.ofList begun := by rw [← String.toList_inj]; simpa using keys
  by_cases longer : begun = []
  · exact Or.inl (by simp [sameKey, longer])
  · obtain ⟨first, rest, symbol, isSymbol⟩ := symbol_begins b.op
    rw [symbol] at tails
    rw [sameKey]
    exact Or.inr (overruns_of_begun longer isSymbol tails)

theorem overruns_of_slot {a b : Filter} (same : a.slot = b.slot) :
    a.key = b.key ∨ Overruns a.key b.key ∨ Overruns b.key a.key := by
  rw [slot_eq, slot_eq] at same
  have chars := congrArg String.toList same
  simp only [String.toList_append, List.append_assoc] at chars
  rcases List.append_eq_append_iff.mp chars with ⟨begun, keys, tails⟩ | ⟨begun, keys, tails⟩
  · exact (overruns_of_longer keys tails).imp_right Or.inl
  · exact (overruns_of_longer keys tails).imp Eq.symm Or.inr

theorem slot_injective_of_key {a b : Filter} (sameKey : a.key = b.key) (same : a.slot = b.slot) :
    a.op = b.op ∧ a.slotTail = b.slotTail := by
  rw [slot_eq, slot_eq, sameKey] at same
  have chars := congrArg String.toList same
  simp only [String.toList_append, List.append_assoc] at chars
  exact symbol_slotTail_injective (List.append_cancel_left chars)

def consulted (filter : Filter) : List String :=
  if isPattern filter.op then [filter.slot]
  else valueSlot filter.key .different filter.value ::
    [Comparison.equal, .greater, .atLeast, .less, .atMost].map (keySlot filter.key)

theorem consulted_own {filter : Filter} {slot : String} (listed : slot ∈ filter.consulted) :
    ∃ own : Filter, own.key = filter.key ∧ own.slot = slot := by
  unfold consulted at listed
  split at listed
  · exact ⟨filter, rfl, (List.mem_singleton.mp listed).symm⟩
  · rcases List.mem_cons.mp listed with rfl | inKeys
    · exact ⟨{ filter with op := .different }, rfl, rfl⟩
    · obtain ⟨op, isOp, rfl⟩ := List.mem_map.mp inKeys
      refine ⟨{ filter with op }, rfl, ?_⟩
      simp only [List.mem_cons, List.not_mem_nil, or_false] at isOp
      rcases isOp with rfl | rfl | rfl | rfl | rfl <;> rfl

end Filter

namespace FilterSet
variable {set other : FilterSet} {filter stranger : Filter}

def onKey (set : FilterSet) (key : String) : FilterSet := set.restrict fun filter => filter.key == key

theorem judge_congr (same : ∀ slot ∈ filter.consulted, set.get? slot = other.get? slot) :
    set.judge filter = other.judge filter := by
  have held : ∀ slot ∈ filter.consulted, set.contains slot = other.contains slot := fun slot listed => by
    rw [contains, same slot listed, contains]
  cases op : filter.op <;> simp [Filter.consulted, Filter.isPattern, op] at same held <;>
    simp [judge, op, judgeBound, excludes, bounds, same, held]

theorem get?_onKey {key slot : String} (own : ∀ filter ∈ set.filters, filter.slot = slot → filter.key = key) :
    (set.onKey key).get? slot = set.get? slot := by
  ext filter
  simp only [get?_eq_some_iff, onKey, mem_restrict, beq_iff_eq]
  exact ⟨fun ⟨⟨member, _⟩, atSlot⟩ => ⟨member, atSlot⟩, fun ⟨member, atSlot⟩ =>
    ⟨⟨member, own filter member atSlot⟩, atSlot⟩⟩

/-- A filter on another key in a slot that the verdict on `filter` is read from. -/
def Intrudes (set : FilterSet) (filter stranger : Filter) : Prop :=
  stranger ∈ set.filters ∧ stranger.key ≠ filter.key ∧ stranger.slot ∈ filter.consulted

theorem judge_onKey (free : ∀ stranger, ¬ set.Intrudes filter stranger) :
    set.judge filter = (set.onKey filter.key).judge filter := by
  refine judge_congr fun slot listed => (get?_onKey fun stranger member atSlot => ?_).symm
  by_contra apart
  exact free stranger ⟨member, apart, atSlot ▸ listed⟩

/-- The slots that a set writes or clears when it adds the filter, other than by what the filter sheds on its key. -/
def claimed (set : FilterSet) (filter : Filter) : List String :=
  match filter.op with
  | .atLeast | .atMost => [(set.entry filter).slot, Filter.valueSlot filter.key .different filter.value]
  | _ => [filter.slot]

theorem claimed_consulted {slot : String} (listed : slot ∈ set.claimed filter) : slot ∈ filter.consulted := by
  unfold claimed at listed
  rcases entry_eq set filter with same | ⟨isAtLeast, same⟩ | ⟨isAtMost, same⟩
  · rw [same] at listed
    cases op : filter.op <;> simp_all [Filter.consulted, Filter.isPattern, Filter.slot, Filter.isPerValue]
    all_goals tauto
  · simp_all [Filter.consulted, Filter.isPattern, Filter.slot, Filter.isPerValue]
    tauto
  · simp_all [Filter.consulted, Filter.isPattern, Filter.slot, Filter.isPerValue]
    tauto

theorem value_of_exclusionSlot {other : Filter} (sameKey : other.key = filter.key)
    (atSlot : other.slot = Filter.valueSlot filter.key .different filter.value) : other.value = filter.value := by
  have same : other.slot = Filter.slot { filter with op := .different } := atSlot
  have ownKey : other.key = Filter.key { filter with op := .different } := sameKey
  obtain ⟨isExclusion, sameTail⟩ := Filter.slot_injective_of_key ownKey same
  simpa [Filter.slotTail, isExclusion, Filter.isPerValue] using sameTail

theorem contains_pruned {order : Number → Number → Bool}
    (irreflexive : ∀ other : Filter, other.value = filter.value → ¬ other.related order filter) :
    (set.prune filter order).contains (Filter.valueSlot filter.key .different filter.value) =
      set.contains (Filter.valueSlot filter.key .different filter.value) := by
  rw [Bool.eq_iff_iff, contains_iff, contains_iff]
  constructor
  · rintro ⟨other, member, atSlot⟩
    exact ⟨other, (mem_prune.mp member).1, atSlot⟩
  · rintro ⟨other, member, atSlot⟩
    refine ⟨other, mem_prune.mpr ⟨member, fun sameKey related => ?_⟩, atSlot⟩
    exact irreflexive other (value_of_exclusionSlot sameKey atSlot) related.2

theorem mem_insertBound_stranger {strict : Comparison} (apart : stranger.key ≠ filter.key) :
    stranger ∈ (set.insertBound filter strict).filters ↔ stranger ∈ set.filters ∧
      stranger.slot ≠ (set.sharpen filter strict).slot ∧
      stranger.slot ≠ Filter.valueSlot filter.key .different filter.value := by
  have notEntry : ∀ op, stranger ≠ { filter with op } := fun op same => apart (by rw [same])
  by_cases excluded : set.contains (Filter.valueSlot filter.key .different filter.value)
  · simp only [insertBound, sharpen, excluded, ↓reduceIte, mem_insert, mem_erase, notEntry strict, false_or]
    tauto
  · have elsewhere : ∀ other ∈ set.filters, other.slot ≠ Filter.valueSlot filter.key .different filter.value :=
      fun other member atSlot => excluded (contains_iff.mpr ⟨other, member, atSlot⟩)
    simp only [insertBound, sharpen, excluded, Bool.false_eq_true, ↓reduceIte, mem_insert, notEntry filter.op, false_or]
    exact and_congr_right fun member => (and_iff_left (elsewhere stranger member)).symm

theorem mem_pruned_insertBound_stranger {order : Number → Number → Bool} {strict : Comparison}
    (irreflexive : ∀ other : Filter, other.value = filter.value → ¬ other.related order filter)
    (apart : stranger.key ≠ filter.key) :
    stranger ∈ ((set.prune filter order).insertBound filter strict).filters ↔ stranger ∈ set.filters ∧
      stranger.slot ≠ (set.sharpen filter strict).slot ∧
      stranger.slot ≠ Filter.valueSlot filter.key .different filter.value := by
  rw [mem_insertBound_stranger apart, sharpen, contains_pruned irreflexive, ← sharpen, mem_prune]
  simp [apart]

theorem mem_add_stranger (apart : stranger.key ≠ filter.key) :
    stranger ∈ (set.add filter).filters ↔ stranger ∈ set.filters ∧ stranger.slot ∉ set.claimed filter := by
  have notEntry : stranger ≠ filter := fun same => apart (by rw [same])
  have notBelow : ∀ other : Filter, other.value = filter.value →
      ¬ other.related Number.lt filter ∧ ¬ other.related above filter := by
    intro other sameValue
    rw [Filter.related_lt_iff, Filter.related_above_iff]
    simp [Filter.Under, Filter.bound_congr sameValue]
  cases op : filter.op with
  | equal => simp [add, op, claimed, mem_insert, mem_restrict, notEntry, apart]
  | different => simp [add, op, claimed, mem_insert, notEntry]
  | regex => simp [add, op, claimed, mem_insert, notEntry]
  | modulo => simp [add, op, claimed, mem_insert, notEntry]
  | greater => simp [add, op, claimed, mem_insert, mem_prune, notEntry, apart]
  | less => simp [add, op, claimed, mem_insert, mem_prune, notEntry, apart]
  | atLeast =>
    simp only [add, op, claimed, entry]
    rw [mem_pruned_insertBound_stranger (fun other same => (notBelow other same).1) apart]
    simp
  | atMost =>
    simp only [add, op, claimed, entry]
    rw [mem_pruned_insertBound_stranger (fun other same => (notBelow other same).2) apart]
    simp

theorem add_keeps (free : ∀ stranger, ¬ set.Intrudes filter stranger) (member : stranger ∈ set.filters)
    (apart : stranger.key ≠ filter.key) : stranger ∈ (set.add filter).filters :=
  (mem_add_stranger apart).mpr ⟨member, fun claims => free stranger ⟨member, apart, claimed_consulted claims⟩⟩

/-- Filters on other keys neither count in the verdict on a filter nor are they lost when it is added. -/
def Indifferent (set : FilterSet) (filter : Filter) : Prop :=
  set.judge filter = (set.onKey filter.key).judge filter ∧
    (set.judge filter = .narrows → ∀ stranger ∈ set.filters, stranger.key ≠ filter.key →
      stranger ∈ (set.add filter).filters)

theorem Indifferent.of_free (free : ∀ stranger, ¬ set.Intrudes filter stranger) : set.Indifferent filter :=
  ⟨judge_onKey free, fun _ _ member apart => add_keeps free member apart⟩

theorem Intrudes.overruns (intrudes : set.Intrudes filter stranger) :
    Filter.Overruns stranger.key filter.key ∨ Filter.Overruns filter.key stranger.key := by
  obtain ⟨-, apart, listed⟩ := intrudes
  obtain ⟨own, sameKey, sameSlot⟩ := Filter.consulted_own listed
  rw [← sameKey] at apart ⊢
  exact (Filter.overruns_of_slot sameSlot.symm).resolve_left apart

theorem keys_foldlM {keys : Set String} {filters : List Filter} (given : ∀ filter ∈ filters, filter.key ∈ keys)
    (known : ∀ filter ∈ set.filters, filter.key ∈ keys) {result : FilterSet}
    (conjoined : filters.foldlM conjoin? set = some result) : ∀ filter ∈ result.filters, filter.key ∈ keys := by
  induction filters generalizing set with
  | nil =>
    obtain rfl := Option.some.inj conjoined
    exact known
  | cons head rest ih =>
    obtain ⟨ownKey, restKeys⟩ := List.forall_mem_cons.mp given
    rw [List.foldlM_cons] at conjoined
    obtain ⟨next, first, conjoined⟩ := Option.bind_eq_some_iff.mp conjoined
    refine ih restKeys ?_ conjoined
    unfold conjoin? at first
    split at first
    · obtain rfl := Option.some.inj first
      intro filter member
      by_cases apart : filter.key = head.key
      · exact apart ▸ ownKey
      · exact known filter ((mem_add_stranger apart).mp member).1
    · obtain rfl := Option.some.inj first
      exact known
    · cases first

/-- An equality and a comparison of another kind that share their slot, and their value where the comparison is a bound. -/
structure Stands (stranger filter : Filter) : Prop where
  isEquality : stranger.op = .equal
  sameSlot : stranger.slot = filter.slot
  compares : Filter.isPerValue filter.op ∨
    (filter.op = .atLeast ∨ filter.op = .atMost) ∧ stranger.related Number.le filter ∧ stranger.related atLeast filter

theorem stands_ofText {key tail value : String} {op : Comparison}
    (goesOn : tail ++ "=" = op.symbol ++ (Filter.ofText key op value).slotTail)
    (compares : Filter.isPerValue op ∨ (op = .atLeast ∨ op = .atMost) ∧ value = "0") :
    Stands (Filter.ofText (key ++ tail) .equal "0") (Filter.ofText key op value) where
  isEquality := rfl
  sameSlot := by
    rw [Filter.slot_eq, Filter.slot_eq]
    change key ++ tail ++ "=" ++ "" = key ++ op.symbol ++ _
    rw [String.append_empty, String.append_assoc, goesOn, String.append_assoc]
  compares := by
    rcases compares with perValue | ⟨inclusive, same⟩
    · exact Or.inl perValue
    · have reads : Number.read? (Text.trim "0") = some Number.zero := by decide
      refine Or.inr ⟨inclusive, ?_⟩
      simp [Filter.related, Filter.numeric, Filter.ofText, same, reads, Number.le, atLeast, Number.zero]

theorem exists_stands {key longer : String} (overruns : Filter.Overruns key longer) :
    ∃ stranger filter : Filter, stranger.key = longer ∧ filter.key = key ∧ Stands stranger filter := by
  have stands : ∃ op value, Stands (Filter.ofText longer .equal "0") (Filter.ofText key op value) := by
    rcases overruns with ⟨tail, listed, rfl⟩ | ⟨start, listed, rest, rfl⟩
    · simp only [List.mem_cons, List.not_mem_nil, or_false] at listed
      rcases listed with rfl | rfl | rfl
      · exact ⟨.different, "", stands_ofText rfl (Or.inl rfl)⟩
      · exact ⟨.atLeast, "0", stands_ofText rfl (Or.inr ⟨Or.inl rfl, rfl⟩)⟩
      · exact ⟨.atMost, "0", stands_ofText rfl (Or.inr ⟨Or.inr rfl, rfl⟩)⟩
    · rw [String.append_assoc]
      simp only [List.mem_cons, List.not_mem_nil, or_false] at listed
      rcases listed with rfl | rfl | rfl
      · exact ⟨.different, rest ++ "=", stands_ofText (String.append_assoc ..) (Or.inl rfl)⟩
      · exact ⟨.regex, rest ++ "=", stands_ofText (String.append_assoc ..) (Or.inl rfl)⟩
      · exact ⟨.modulo, rest ++ "=", stands_ofText (String.append_assoc ..) (Or.inl rfl)⟩
  obtain ⟨op, value, stands⟩ := stands
  exact ⟨_, _, rfl, rfl, stands⟩

namespace Stands
variable (stands : Stands stranger filter)
include stands

theorem notEquality : filter.op ≠ .equal := by
  intro isEqual
  rcases stands.compares with perValue | ⟨op | op, -⟩ <;> simp_all [Filter.isPerValue]

theorem apart : stranger.key ≠ filter.key := by
  intro sameKey
  have same := (Filter.slot_injective_of_key sameKey stands.sameSlot).1
  exact stands.notEquality (same ▸ stands.isEquality)

theorem judge (alone : set.filters = [stranger]) : set.judge filter = .implied := by
  have found : set.get? filter.slot = some stranger :=
    get?_eq_some_iff.mpr ⟨by simp [alone], stands.sameSlot⟩
  have held : set.contains filter.slot := by rw [contains, found]; rfl
  -- the slots of other operators on the key are empty
  have elsewhere : ∀ op, Filter.isPerValue op = false → op ≠ filter.op →
      set.get? (Filter.keySlot filter.key op) = none := by
    intro op perKey differs
    rw [Option.eq_none_iff_forall_ne_some]
    intro other there
    obtain ⟨member, atSlot⟩ := get?_eq_some_iff.mp there
    obtain rfl : other = stranger := by simpa [alone] using member
    have sameSlot : Filter.slot { filter with op } = filter.slot := by
      rw [← stands.sameSlot, atSlot]
      simp [Filter.slot, perKey]
    exact differs (Filter.slot_injective_of_key (a := { filter with op }) (b := filter) rfl sameSlot).1
  have noEquality := elsewhere .equal rfl stands.notEquality.symm
  have unbounded : ∀ op order, Filter.isPerValue op = false → op ≠ filter.op → set.bounds op order filter = false :=
    fun op order perKey differs => by rw [bounds, elsewhere op perKey differs]
  have compares := stands.compares
  cases op : filter.op with
  | equal => exact absurd op stands.notEquality
  | regex => simp only [FilterSet.judge, op, held, ↓reduceIte]
  | modulo => simp only [FilterSet.judge, op, held, ↓reduceIte]
  | different =>
    simp only [Filter.slot, op, Filter.isPerValue, ↓reduceIte] at held
    simp [FilterSet.judge, op, noEquality, excludes, held]
  | atLeast =>
    simp only [Filter.slot, op, Filter.isPerValue, Bool.false_eq_true, ↓reduceIte] at found
    simp only [op, Filter.isPerValue, Bool.false_eq_true, false_or] at compares
    have implied : set.bounds .atLeast atLeast filter := by rw [bounds, found]; exact compares.2.2
    simp [FilterSet.judge, op, judgeBound, noEquality, unbounded .less _ rfl (by simp [op]),
      unbounded .atMost _ rfl (by simp [op]), implied]
  | atMost =>
    simp only [Filter.slot, op, Filter.isPerValue, Bool.false_eq_true, ↓reduceIte] at found
    simp only [op, Filter.isPerValue, Bool.false_eq_true, false_or] at compares
    have implied : set.bounds .atMost Number.le filter := by rw [bounds, found]; exact compares.2.1
    simp [FilterSet.judge, op, judgeBound, noEquality, unbounded .greater _ rfl (by simp [op]),
      unbounded .atLeast _ rfl (by simp [op]), implied]
  | greater => simp [op, Filter.isPerValue] at compares
  | less => simp [op, Filter.isPerValue] at compares

theorem not_indifferent : ∃ set, ofFilters? [stranger] = some set ∧ ¬ set.Indifferent filter := by
  have alone : (empty.add stranger).filters = [stranger] := by
    simp only [add, stands.isEquality]
    rfl
  have nothing : ((empty.add stranger).onKey filter.key).filters = [] := by
    simp only [onKey, restrict, alone]
    simp [stands.apart]
  have sameEmpty : (empty.add stranger).onKey filter.key = empty := (FilterSet.mk.injEq ..).mpr nothing
  refine ⟨empty.add stranger, by simp [ofFilters?, conjoin?, judge_empty], fun indifferent => ?_⟩
  have same := indifferent.1
  rw [sameEmpty, stands.judge alone, judge_empty] at same
  cases same

end Stands

/-- A set is not indifferent to a filter only through a filter on another key in a slot that the verdict is read from; of
the filters on other keys, adding loses those in the slots it claims. On given keys every set is indifferent to every
filter just if no key overruns another. -/
theorem indifferent_iff (keys : Set String) (set : FilterSet) (filter : Filter) :
    (¬ Indifferent set filter → ∃ stranger, set.Intrudes filter stranger) ∧
    (∀ stranger, stranger.key ≠ filter.key →
      (stranger ∈ (add set filter).filters ↔ stranger ∈ set.filters ∧ stranger.slot ∉ set.claimed filter)) ∧
    ((∀ filters built, ofFilters? filters = some built → (∀ given ∈ filters, given.key ∈ keys) →
        ∀ next : Filter, next.key ∈ keys → built.Indifferent next) ↔
      ∀ key ∈ keys, ∀ other ∈ keys, ¬ Filter.Overruns key other) := by
  refine ⟨fun differs => ?_, fun stranger apart => mem_add_stranger apart, ⟨?_, ?_⟩⟩
  · by_contra free
    exact differs (.of_free fun stranger intrudes => free ⟨stranger, intrudes⟩)
  · intro indifferent key isKey other isOther overruns
    obtain ⟨stranger, next, rfl, rfl, stands⟩ := exists_stands overruns
    obtain ⟨built, isBuilt, differs⟩ := stands.not_indifferent
    exact differs (indifferent [stranger] built isBuilt (by simpa using isOther) next isKey)
  · intro apart filters built isBuilt given next isKey
    refine .of_free fun stranger intrudes => ?_
    have known := keys_foldlM given (by simp [empty]) isBuilt stranger intrudes.1
    rcases intrudes.overruns with overruns | overruns
    · exact apart _ known _ isKey overruns
    · exact apart _ isKey _ known overruns

theorem indifferent_iff_quoted :
    (∃ stranger, (empty.add (.ofText "a>" .equal "7")).Intrudes (.ofText "a" .atLeast "5") stranger) ∧
      (empty.add (.ofText "b" .equal "7")).Indifferent (.ofText "a" .atLeast "5") := by
  obtain ⟨intruder, -, apart⟩ := indifferent_iff {"a", "b"} (empty.add (.ofText "a>" .equal "7")) (.ofText "a" .atLeast "5")
  refine ⟨intruder fun indifferent => ?_, ?_⟩
  · have taken : (empty.add (.ofText "a>" .equal "7")).judge (.ofText "a" .atLeast "5") = .implied := by decide +kernel
    have free : ((empty.add (.ofText "a>" .equal "7")).onKey "a").judge (.ofText "a" .atLeast "5") = .narrows := by
      decide +kernel
    exact absurd (taken.symm.trans (indifferent.1.trans free)) (by decide)
  · refine apart.mpr ?_ [.ofText "b" .equal "7"] _ ?_ ?_ _ ?_
    · rintro key (rfl | rfl) other (rfl | rfl) overruns <;> exact absurd overruns.longer (by decide)
    · simp [ofFilters?, conjoin?, judge_empty]
    · simp [Filter.ofText]
    · simp [Filter.ofText]

end FilterSet
end MapStyle
