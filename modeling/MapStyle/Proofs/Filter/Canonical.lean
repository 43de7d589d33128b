import Mathlib.Data.List.Sort
import MapStyle.Proofs.Filter.Covering
import MapStyle.Proofs.Filter.Satisfaction
import MapStyle.Proofs.Filter.Text
/-!
The text of a set that is formed of filters in two orders. A formed set covers each of its filters and holds none that
another one covers, so that its text is determined but for one thing: an inclusive bound at an excluded value stays next
to the exclusion when it came first, and absorbs it when it came later.
-/
namespace MapStyle
namespace Filter

def isInclusive (filter : Filter) : Bool :=
  match filter.op with
  | .atLeast | .atMost => true
  | _ => false

def Sharpens (added inclusive : Filter) : Prop :=
  added.bound = inclusive.bound ∧
    ((inclusive.op = .atLeast ∧ added.op = .greater) ∨ (inclusive.op = .atMost ∧ added.op = .less))

theorem Sharpens.strict {added inclusive : Filter} (sharpens : added.Sharpens inclusive) :
    added.op = .greater ∨ added.op = .less :=
  sharpens.2.imp And.right And.right

theorem Sharpens.notExclusion {added inclusive : Filter} (sharpens : added.Sharpens inclusive) : inclusive.op ≠ .different := by
  rcases sharpens.2 with ⟨op, -⟩ | ⟨op, -⟩ <;> simp [op]

theorem Sharpens.inclusive {added inclusive : Filter} (sharpens : added.Sharpens inclusive) : inclusive.isInclusive := by
  rcases sharpens.2 with ⟨op, -⟩ | ⟨op, -⟩ <;> rw [isInclusive, op]

/-- A filter that stems from others is one of them, or one of them sharpened by the exclusion of its value. -/
theorem Stems.listed_or_sharpens {filters : List Filter} {filter : Filter} (stems : Stems filters filter) :
    filter ∈ filters ∨ ∃ inclusive ∈ filters, ∃ excluded ∈ filters, filter.key = inclusive.key ∧ filter.Sharpens inclusive ∧
      excluded.key = inclusive.key ∧ excluded.op = .different ∧ excluded.value = inclusive.value := by
  rcases stems with listed | ⟨inclusive, listed, excluded, excludedListed, ⟨op, rfl⟩ | ⟨op, rfl⟩, excludes⟩
  · exact Or.inl listed
  · exact Or.inr ⟨inclusive, listed, excluded, excludedListed, rfl, ⟨rfl, Or.inl ⟨op, rfl⟩⟩, excludes⟩
  · exact Or.inr ⟨inclusive, listed, excluded, excludedListed, rfl, ⟨rfl, Or.inr ⟨op, rfl⟩⟩, excludes⟩

/-- What entails an inclusive bound and what entails that its value is excluded: one of them entails the strict bound, or
they are the inclusive bound and the exclusion themselves. -/
theorem entails_sharp_or {x y inclusive excluded added : Filter} (first : x.Entails inclusive) (second : y.Entails excluded)
    (isExclusion : excluded.op = .different) (same : excluded.bound = inclusive.bound) (sharpens : added.Sharpens inclusive)
    (notPattern : isPattern y.op = false) (room : x = y ∨ (x.Beside y ∧ ¬ x.Opposes y)) : x.Entails added ∨ y.Entails added ∨
      (x.op = inclusive.op ∧ x.bound = inclusive.bound ∧ y.op = .different ∧ y.bound = inclusive.bound) := by
  obtain ⟨sameBound, op⟩ := sharpens
  rcases room with rfl | ⟨⟨notEqual, otherNotEqual, lower, upper⟩, apart⟩
  · revert first second
    rcases op with ⟨old, new⟩ | ⟨old, new⟩ <;> cases xOp : x.op <;>
      simp [Entails, Comparison.holds, old, new, xOp, isExclusion, same, sameBound] <;> grind
  · revert first second lower upper apart notEqual otherNotEqual notPattern
    rcases op with ⟨old, new⟩ | ⟨old, new⟩ <;> cases xOp : x.op <;>
      simp [Entails, old, new, xOp, isLower, isUpper, sameBound] <;> cases yOp : y.op <;>
      simp [Opposes, Comparison.holds, isPattern, yOp, xOp, isExclusion, same] <;> grind

theorem gone_of_entails {existing filter added : Filter} (notPattern : isPattern existing.op = false)
    (ownNotPattern : isPattern filter.op = false) (entry : added = filter ∨ added.Sharpens filter) (entails : added.Entails existing) :
    filter.Drops existing ∨ (existing.op = added.op ∧ (existing.op = .different → existing.bound = added.bound)) ∨
      existing.Entails filter := by
  revert entails notPattern ownNotPattern
  rcases entry with rfl | ⟨sameBound, ⟨old, new⟩ | ⟨old, new⟩⟩
  · cases op : added.op <;> cases old : existing.op <;> simp [Entails, Drops, isPattern, Comparison.holds, op, old] <;> grind
  · cases op : existing.op <;> simp [Entails, Drops, isPattern, Comparison.holds, op, old, new, sameBound] <;> grind
  · cases op : existing.op <;> simp [Entails, Drops, isPattern, Comparison.holds, op, old, new, sameBound] <;> grind

theorem Compares.slot_congr {values : Set String} {a b : Filter} (compares : a.Compares values) (sameKey : a.key = b.key)
    (sameOp : a.op = b.op) (sameValue : a.op = .different → a.value = b.value) : a.slot = b.slot := by
  have notPattern := compares.notPattern
  rw [slot_eq, slot_eq, slotTail, slotTail, sameKey, ← sameOp]
  clear sameOp
  revert sameValue notPattern
  cases op : a.op <;> simp [isPerValue, isPattern]

theorem Entails.antisymm {a b : Filter} (notPattern : isPattern a.op = false) (forth : a.Entails b) (back : b.Entails a) :
    a.op = b.op ∧ a.bound = b.bound := by
  revert forth back notPattern
  cases aOp : a.op <;> cases bOp : b.op <;> simp [Entails, isPattern, Comparison.holds, aOp, bOp] <;> grind

theorem settles_of_excluded {existing excluded filter : Filter} (entails : existing.Entails excluded)
    (isExclusion : excluded.op = .different) (inclusive : filter.isInclusive) (same : filter.bound = excluded.bound)
    (notPattern : isPattern existing.op = false) :
    (existing.op = .different ∧ existing.bound = filter.bound) ∨ existing.Opposes filter ∨ existing.Entails filter := by
  revert entails inclusive notPattern
  cases op : filter.op <;> cases old : existing.op <;>
    simp [Entails, Opposes, isInclusive, isPattern, Comparison.holds, op, old, isExclusion, same] <;> grind

theorem kept_of_holds {existing filter : Filter} (inclusive : existing.isInclusive) (notEqual : filter.op ≠ .equal)
    (holds : filter.op ≠ .different → filter.op.holds existing.bound filter.bound) (notPattern : isPattern filter.op = false) :
    ¬ filter.Drops existing ∧ (filter.op = existing.op → existing.Entails filter) := by
  revert inclusive notEqual holds notPattern
  cases op : filter.op <;> cases old : existing.op <;>
    simp [Entails, Drops, isInclusive, isPattern, Comparison.holds, op, old]

theorem holds_of_beside {existing inclusive : Filter} (isInclusive : inclusive.isInclusive)
    (room : existing = inclusive ∨ (existing.Beside inclusive ∧ ¬ existing.Opposes inclusive))
    (notPattern : isPattern existing.op = false) (notExclusion : existing.op ≠ .different) :
    existing.op.holds inclusive.bound existing.bound := by
  rcases room with rfl | ⟨⟨notEqual, -, lower, upper⟩, apart⟩
  · revert isInclusive
    cases op : existing.op <;> simp [Filter.isInclusive, Comparison.holds, op]
  · revert isInclusive lower upper apart notEqual notPattern notExclusion
    cases op : existing.op <;> cases old : inclusive.op <;>
      simp [Filter.isInclusive, isLower, isUpper, isPattern, Opposes, Comparison.holds, op, old]

theorem inclusive_of_entails {existing inclusive : Filter} (entails : existing.Entails inclusive)
    (isInclusive : inclusive.isInclusive) (notEqual : existing.op ≠ .equal)
    (holds : existing.op.holds inclusive.bound existing.bound) : existing.isInclusive ∧ existing.bound = inclusive.bound := by
  revert entails isInclusive notEqual holds
  cases op : existing.op <;> cases old : inclusive.op <;>
    simp [Filter.isInclusive, Entails, Comparison.holds, op, old] <;> grind

/-- What entails an inclusive bound and is the strict one of a bound that holds of its value is the strict one of the
same value. -/
theorem Sharpens.meets {added existing inclusive : Filter} (sharpens : added.Sharpens existing)
    (entails : added.Entails inclusive) (isInclusive : inclusive.isInclusive)
    (holds : existing.op.holds inclusive.bound existing.bound) : existing.bound = inclusive.bound := by
  obtain ⟨sameBound, ⟨old, new⟩ | ⟨old, new⟩⟩ := sharpens
  · revert entails isInclusive holds
    cases op : inclusive.op <;> simp [Filter.isInclusive, Entails, Comparison.holds, old, new, op, sameBound]; grind
  · revert entails isInclusive holds
    cases op : inclusive.op <;> simp [Filter.isInclusive, Entails, Comparison.holds, old, new, op, sameBound]; grind

def marks (excluded filter : Filter) : Bool :=
  filter.key == excluded.key && filter.value == excluded.value && (filter.isInclusive || filter.op = .different)

theorem at_of_marks {excluded filter : Filter} (marked : excluded.marks filter) :
    filter.key = excluded.key ∧ filter.value = excluded.value := by
  simp only [marks, Bool.and_eq_true, beq_iff_eq] at marked
  exact marked.1

/-- Whether the first filter that marks the value includes it. -/
def includesFirst (filters : List Filter) (excluded : Filter) : Bool := (filters.find? excluded.marks).any isInclusive

/-- All filters on the key hold of the value, exclusions aside. -/
def Allows (filters : List Filter) (excluded : Filter) : Prop :=
  ∀ filter ∈ filters, filter.key = excluded.key → filter.op ≠ .different →
    filter.op.holds excluded.bound filter.bound

end Filter

namespace FilterSet

theorem entry_sharpens {set : FilterSet} {filter : Filter} :
    set.entry filter = filter ∨ (set.entry filter).Sharpens filter := by
  rcases entry_eq set filter with same | ⟨isAtLeast, same⟩ | ⟨isAtMost, same⟩
  · exact Or.inl same
  · exact Or.inr ⟨entry_bound, Or.inl ⟨isAtLeast, by rw [same]⟩⟩
  · exact Or.inr ⟨entry_bound, Or.inr ⟨isAtMost, by rw [same]⟩⟩

def Irredundant (set : FilterSet) : Prop :=
  ∀ a ∈ set.filters, ∀ b ∈ set.filters, a.key = b.key → a.Covers b → a = b

section
variable {values : Set String} (one : OneText values) {set : FilterSet} (compares : set.Compares values)
  {filter : Filter} (own : filter.Compares values) (verdict : set.judge filter = .narrows)
include one compares own verdict

theorem Irredundant.add (irredundant : Irredundant set) : Irredundant (set.add filter) := by
  have free := judge_free compares.plainKeys own.plainKey verdict
  have byEntry : (set.entry filter).Covers filter := entry_covers (own.definite one).2
  have ownEntry : (set.entry filter).Compares values := entry_compares own
  intro a aMember b bMember sameKey covers
  rcases (mem_add_iff one compares own).mp aMember with rfl | ⟨aInside, -, -⟩ <;>
    rcases (mem_add_iff one compares own).mp bMember with rfl | ⟨bInside, bKept, bSlot⟩
  · rfl
  · exfalso
    have bKey : b.key = filter.key := sameKey.symm.trans entry_key
    have theirs := compares b bInside
    have entails := (ownEntry.covers_iff one theirs).mp covers
    rcases Filter.gone_of_entails theirs.notPattern own.notPattern entry_sharpens entails with drops | ⟨sameOp, sameBound⟩ | back
    · exact bKept bKey drops
    · refine bSlot (theirs.slot_congr sameKey.symm sameOp fun isExclusion => ?_)
      exact (theirs.value_eq_iff one ownEntry).mpr (sameBound isExclusion)
    · exact (free b bInside bKey).2 ((theirs.covers_iff one own).mpr back)
  · exact absurd (covers.trans byEntry) (free a aInside (sameKey.trans entry_key)).2
  · exact irredundant a aInside b bInside sameKey covers

end

section
variable {values : Set String} (one : OneText values) {filters : List Filter} (own : ∀ filter ∈ filters, filter.Compares values)
include one own

/-- What a set covers it covers after the conjunction with more filters, and each of these. -/
theorem foldlM_conjoin_covers {set result : FilterSet} (compares : set.Compares values)
    (conjoined : filters.foldlM conjoin? set = some result) {other : Filter} (theirs : other.Compares values)
    (covered : set.Covers other ∨ other ∈ filters) : result.Covers other := by
  induction filters generalizing set with
  | nil =>
    obtain rfl := Option.some.inj conjoined
    simpa using covered
  | cons head rest ih =>
    have ownHead := own head List.mem_cons_self
    have ownRest := fun filter inRest => own filter (List.mem_cons_of_mem head inRest)
    rw [List.foldlM_cons] at conjoined
    cases verdict : set.judge head with
    | contradicts => simp [conjoin?, verdict] at conjoined
    | narrows =>
      simp only [conjoin?, verdict] at conjoined
      apply ih ownRest (add_compares compares ownHead) conjoined
      rcases covered with covered | member
      · exact Or.inl (covered.add_narrows (compares.measures one) (ownHead.measures one) verdict theirs.notPattern)
      · rcases List.mem_cons.mp member with rfl | inRest
        · have isEntry := (mem_add compares.plainKeys ownHead.plainKey).mpr (Or.inl rfl)
          exact Or.inl ⟨_, isEntry, entry_key, entry_covers (ownHead.definite one).2⟩
        · exact Or.inr inRest
    | implied =>
      simp only [conjoin?, verdict] at conjoined
      apply ih ownRest compares conjoined
      rcases covered with covered | member
      · exact Or.inl covered
      · rcases List.mem_cons.mp member with rfl | inRest
        · have weighed := judge_weighed compares.plainKeys ownHead.plainKey
          rw [verdict] at weighed
          cases weighed with
          | implied existing inside sameKey covers => exact Or.inl ⟨existing, inside, sameKey, covers⟩
        · exact Or.inr inRest

variable {set : FilterSet} (formed : ofFilters? filters = some set)
include formed

theorem formed_covers : ∀ filter ∈ filters, set.Covers filter := fun filter member =>
  foldlM_conjoin_covers one own (by simp [Compares, empty]) formed (own filter member) (Or.inr member)

theorem formed_irredundant : Irredundant set := by
  have both : set.Compares values ∧ Irredundant set := by
    apply foldlM_conjoin_induct _ (by simp [Compares, Irredundant, empty]) formed
    rintro set ⟨compares, irredundant⟩ filter member verdict
    exact ⟨add_compares compares (own filter member), irredundant.add one compares (own filter member) verdict⟩
  exact both.2

end

def Includes (set : FilterSet) (excluded : Filter) : Prop :=
  ∃ bound ∈ set.filters, bound.key = excluded.key ∧ bound.isInclusive ∧ bound.value = excluded.value

def Blunt (set : FilterSet) (excluded : Filter) : Prop :=
  (∃ other ∈ set.filters, other.key = excluded.key ∧ other.op = .different ∧ other.value = excluded.value) ∧
    ∃ bound ∈ set.filters, bound.key = excluded.key ∧ bound.isInclusive ∧ bound.value = excluded.value

theorem text_of_twins {a b : FilterSet}
    (forth : ∀ x ∈ a.filters, ∃ y ∈ b.filters, y.key = x.key ∧ y.op = x.op ∧ y.value = x.value)
    (back : ∀ y ∈ b.filters, ∃ x ∈ a.filters, x.key = y.key ∧ x.op = y.op ∧ x.value = y.value) : a.text = b.text := by
  let bare : Filter → Filter := fun filter => .ofText filter.key filter.op filter.value
  have ordered : ∀ set : FilterSet, (set.filters.map bare).Pairwise fun x y => x.slot < y.slot := fun set =>
    List.pairwise_map.mpr set.ordered
  have bareText : ∀ set : FilterSet, set.text = String.intercalate " " ((set.filters.map bare).map Filter.text) := by
    intro set
    rw [List.map_map]
    rfl
  have transfer : ∀ {s t : FilterSet}, (∀ x ∈ s.filters, ∃ y ∈ t.filters, y.key = x.key ∧ y.op = x.op ∧ y.value = x.value) →
      ∀ filter ∈ s.filters.map bare, filter ∈ t.filters.map bare := by
    intro s t twins filter member
    obtain ⟨x, isThere, rfl⟩ := List.mem_map.mp member
    obtain ⟨y, inside, sameKey, sameOp, sameValue⟩ := twins x isThere
    exact List.mem_map.mpr ⟨y, inside, by simp only [bare, sameKey, sameOp, sameValue]⟩
  have irreflexive : Std.Irrefl fun x y : Filter => x.slot < y.slot := ⟨fun x => String.lt_irrefl _⟩
  have antisymmetric : Std.Antisymm fun x y : Filter => x.slot < y.slot :=
    ⟨fun x y below above => absurd (String.lt_trans below above) (String.lt_irrefl _)⟩
  rw [bareText, bareText, (ordered a).eq_of_mem_iff (ordered b) fun filter => ⟨transfer forth filter, transfer back filter⟩]

section
variable {values : Set String} (one : OneText values) {set other : FilterSet} (coherent : Coherent set)
  (compares : set.Compares values) (otherCoherent : Coherent other) (theirs : other.Compares values)

include coherent in
theorem Coherent.strict_apart {strict inclusive : Filter} (strictMember : strict ∈ set.filters)
    (member : inclusive ∈ set.filters) (sameKey : inclusive.key = strict.key)
    (isStrict : strict.op = .greater ∨ strict.op = .less) (isInclusive : inclusive.isInclusive) :
    inclusive.bound ≠ strict.bound := by
  intro meets
  have lower := coherent.lower strict strictMember
  have upper := coherent.upper strict strictMember
  have above := coherent.room strict strictMember
  have below := coherent.room inclusive member
  revert isInclusive
  rcases isStrict with op | op <;> cases otherOp : inclusive.op <;> simp [Filter.isInclusive, otherOp]
  · have same := lower (by simp [Filter.isLower, op]) inclusive member (by simp [Filter.isLower, otherOp]) sameKey
    simp [← same, otherOp] at op
  · have room := above (by simp [Filter.isLower, op]) inclusive member (by simp [Filter.isUpper, otherOp]) sameKey
    simp [meets, op] at room
  · have room := below (by simp [Filter.isLower, otherOp]) strict strictMember (by simp [Filter.isUpper, op]) sameKey.symm
    simp [meets, op] at room
  · have same := upper (by simp [Filter.isUpper, op]) inclusive member (by simp [Filter.isUpper, otherOp]) sameKey
    simp [← same, otherOp] at op

include coherent in
theorem Coherent.same_or_beside {x y : Filter} (xMember : x ∈ set.filters) (yMember : y ∈ set.filters)
    (sameKey : x.key = y.key) : x = y ∨ (x.Beside y ∧ ¬ x.Opposes y) := by
  by_cases same : x = y
  · exact Or.inl same
  · exact Or.inr ⟨coherent.toSingle.beside xMember yMember same sameKey, coherent.apart x xMember y yMember sameKey⟩

include one coherent compares otherCoherent theirs

/-- What stems from filters that a set covers it covers as well, unless the other set is blunt there. -/
theorem covers_of_stems {filters : List Filter} (own : ∀ filter ∈ filters, filter.Compares values)
    (covers : ∀ filter ∈ filters, other.Covers filter)
    (blunt : ∀ excluded ∈ filters, excluded.op = .different → Blunt other excluded → Blunt set excluded)
    {filter : Filter} (member : filter ∈ set.filters) (stems : Filter.Stems filters filter) : other.Covers filter := by
  rcases stems.listed_or_sharpens with
    listed | ⟨inclusive, listed, excluded, excludedListed, onKey, sharpens, sameKey, isExclusion, sameValue⟩
  · exact covers filter listed
  have ownInclusive := own inclusive listed
  have ownExcluded := own excluded excludedListed
  have sameBound := (ownExcluded.value_eq_iff one ownInclusive).mp sameValue
  have ownFilter := compares filter member
  obtain ⟨x, xMember, xKey, xCovers⟩ := covers inclusive listed
  obtain ⟨y, yMember, yKey, yCovers⟩ := covers excluded excludedListed
  have xOwn := theirs x xMember
  have yOwn := theirs y yMember
  have together : x.key = y.key := xKey.trans (sameKey.symm.trans yKey.symm)
  have room := otherCoherent.same_or_beside xMember yMember together
  rcases Filter.entails_sharp_or ((xOwn.covers_iff one ownInclusive).mp xCovers) ((yOwn.covers_iff one ownExcluded).mp yCovers)
    isExclusion sameBound sharpens yOwn.notPattern room with byX | byY | ⟨xOp, xBound, yOp, yBound⟩
  · exact ⟨x, xMember, xKey.trans onKey.symm, (xOwn.covers_iff one ownFilter).mpr byX⟩
  · exact ⟨y, yMember, yKey.trans (sameKey.trans onKey.symm), (yOwn.covers_iff one ownFilter).mpr byY⟩
  -- here the other set is blunt, and the filter, which is strict, cannot be in a set that is blunt as well
  · exfalso
    have isBlunt : Blunt other excluded := by
      constructor
      · exact ⟨y, yMember, yKey, yOp, (yOwn.value_eq_iff one ownExcluded).mpr (yBound.trans sameBound.symm)⟩
      · refine ⟨x, xMember, xKey.trans sameKey.symm, ?_, (xOwn.value_eq_iff one ownExcluded).mpr (xBound.trans sameBound.symm)⟩
        rw [Filter.isInclusive, xOp]
        exact sharpens.inclusive
    obtain ⟨-, bound, boundMember, boundKey, boundInclusive, boundValue⟩ := blunt excluded excludedListed isExclusion isBlunt
    apply coherent.strict_apart member boundMember (boundKey.trans (sameKey.trans onKey.symm)) sharpens.strict boundInclusive
    rw [sharpens.1, ← sameBound]
    exact ((compares bound boundMember).value_eq_iff one ownExcluded).mp boundValue

end

section
variable {values : Set String} (one : OneText values) {filters others : List Filter}
  (own : ∀ filter ∈ filters, filter.Compares values) (same : ∀ filter, filter ∈ filters ↔ filter ∈ others)
  (free : ¬ Filter.ClampsExcluded filters) {set other : FilterSet} (formed : ofFilters? filters = some set)
  (otherFormed : ofFilters? others = some other)
include one own same free formed otherFormed

theorem exists_twin (blunt : ∀ excluded ∈ filters, excluded.op = .different → (Blunt set excluded ↔ Blunt other excluded)) :
    ∀ filter ∈ set.filters, ∃ twin ∈ other.filters, twin.key = filter.key ∧ twin.op = filter.op ∧
      twin.value = filter.value := by
  have theirOwn : ∀ filter ∈ others, filter.Compares values := fun filter member => own filter ((same filter).mpr member)
  have otherFree : ¬ Filter.ClampsExcluded others := fun clamps => free (clamps.mono fun filter => (same filter).mpr)
  have coherent := formed_coherent one own formed free
  have otherCoherent := formed_coherent one theirOwn otherFormed otherFree
  have compares := (formed_accepts one own formed).1
  have theirs := (formed_accepts one theirOwn otherFormed).1
  intro filter member
  obtain ⟨twin, twinMember, twinKey, forth⟩ : other.Covers filter := by
    apply covers_of_stems one coherent compares otherCoherent theirs own
    · exact fun filter listed => formed_covers one theirOwn otherFormed filter ((same filter).mp listed)
    · exact fun excluded listed isExclusion => (blunt excluded listed isExclusion).mpr
    · exact member
    · exact formed_stems (fun filter listed => (own filter listed).plainKey) formed filter member
  obtain ⟨third, thirdMember, thirdKey, back⟩ : set.Covers twin := by
    apply covers_of_stems one otherCoherent theirs coherent compares theirOwn
    · exact fun filter listed => formed_covers one own formed filter ((same filter).mpr listed)
    · exact fun excluded listed isExclusion => (blunt excluded ((same excluded).mpr listed) isExclusion).mp
    · exact twinMember
    · exact formed_stems (fun filter listed => (theirOwn filter listed).plainKey) otherFormed twin twinMember
  -- the filter is covered by one of its own set, and so covers its twin
  have isFilter := formed_irredundant one own formed third thirdMember filter member (thirdKey.trans twinKey) (back.trans forth)
  rw [isFilter] at back
  have ownTwin := theirs twin twinMember
  have ownFilter := compares filter member
  obtain ⟨sameOp, sameBound⟩ := Filter.Entails.antisymm ownTwin.notPattern ((ownTwin.covers_iff one ownFilter).mp forth)
    ((ownFilter.covers_iff one ownTwin).mp back)
  exact ⟨twin, twinMember, twinKey, sameOp, (ownTwin.value_eq_iff one ownFilter).mpr sameBound⟩

end

theorem Blunt.of_text {values : Set String} (one : OneText values) {set other : FilterSet} (compares : set.Compares values)
    (theirs : other.Compares values) (sameText : set.text = other.text) {excluded : Filter} (blunt : Blunt other excluded) :
    Blunt set excluded := by
  obtain ⟨⟨x, xMember, xKey, xOp, xValue⟩, ⟨y, yMember, yKey, yInclusive, yValue⟩⟩ := blunt
  obtain ⟨a, aMember, aKey, aOp, aValue⟩ := exists_of_text one compares theirs sameText xMember
  obtain ⟨b, bMember, bKey, bOp, bValue⟩ := exists_of_text one compares theirs sameText yMember
  constructor
  · exact ⟨a, aMember, aKey.trans xKey, aOp.trans xOp, aValue.trans xValue⟩
  · refine ⟨b, bMember, bKey.trans yKey, ?_, bValue.trans yValue⟩
    rwa [Filter.isInclusive, bOp]

def Sharp (set : FilterSet) (excluded : Filter) : Prop :=
  set.Covers excluded ∧ ∀ bound ∈ set.filters, bound.key = excluded.key → bound.isInclusive → bound.value ≠ excluded.value

section
variable {values : Set String} (one : OneText values) {set : FilterSet} (compares : set.Compares values)
  {excluded : Filter} (ownExcluded : excluded.Compares values) (isExclusion : excluded.op = .different)
  {filter : Filter} (own : filter.Compares values) (verdict : set.judge filter = .narrows)
include one compares ownExcluded own verdict

include isExclusion in
theorem Sharp.add (sharp : Sharp set excluded) : Sharp (set.add filter) excluded := by
  refine ⟨sharp.1.add_narrows (compares.measures one) (own.measures one) verdict ownExcluded.notPattern, fun bound member onKey isInclusive sameValue => ?_⟩
  rcases (mem_add compares.plainKeys own.plainKey).mp member with rfl | ⟨inside, -⟩
  · rw [entry_key] at onKey
    rw [entry_value] at sameValue
    rcases entry_cases compares.plainKeys own.plainKey with ⟨same, unmarked⟩ | ⟨op, same, ⟨-, rfl⟩ | ⟨-, rfl⟩, -⟩
    · rw [same] at isInclusive
      have inclusive : filter.op = .atLeast ∨ filter.op = .atMost := by
        revert isInclusive
        cases op : filter.op <;> simp [Filter.isInclusive, op]
      obtain ⟨existing, existingMember, existingKey, covers⟩ := sharp.1
      have theirs := compares existing existingMember
      have sameKey : existing.key = filter.key := existingKey.trans onKey.symm
      have free := judge_narrows one compares own verdict existing existingMember sameKey
      have sameBound := (own.value_eq_iff one ownExcluded).mp sameValue
      rcases Filter.settles_of_excluded ((theirs.covers_iff one ownExcluded).mp covers) isExclusion isInclusive sameBound
        theirs.notPattern with ⟨excludes, atBound⟩ | opposes | entails
      · exact unmarked inclusive existing existingMember sameKey excludes ((theirs.value_eq_iff one own).mpr atBound)
      · exact free.1 opposes
      · exact free.2 entails
    · rw [same] at isInclusive
      simp [Filter.isInclusive] at isInclusive
    · rw [same] at isInclusive
      simp [Filter.isInclusive] at isInclusive
  · exact sharp.2 bound inside onKey isInclusive sameValue

omit ownExcluded in
theorem mem_add_of_inclusive {bound : Filter} (member : bound ∈ set.filters) (isInclusive : bound.isInclusive)
    (holds : filter.key = bound.key → filter.op ≠ .equal ∧
      (filter.op ≠ .different → filter.op.holds bound.bound filter.bound)) : bound ∈ (set.add filter).filters := by
  have kept := fun sameKey : filter.key = bound.key =>
    Filter.kept_of_holds isInclusive (holds sameKey).1 (holds sameKey).2 own.notPattern
  refine (mem_add_iff one compares own).mpr (Or.inr ⟨member, fun sameKey => (kept sameKey.symm).1, fun sameSlot => ?_⟩)
  obtain ⟨sameKey, sameOp, -⟩ := (compares bound member).slot_injective (entry_compares own) sameSlot
  rw [entry_key] at sameKey
  -- an entry that is inclusive is the filter itself, which the bound entails then
  have ownOp : filter.op = bound.op := by
    rcases entry_eq set filter with same | ⟨-, same⟩ | ⟨-, same⟩ <;> rw [same] at sameOp
    · exact sameOp.symm
    · simp [Filter.isInclusive, sameOp] at isInclusive
    · simp [Filter.isInclusive, sameOp] at isInclusive
  exact (judge_narrows one compares own verdict bound member sameKey).2 ((kept sameKey.symm).2 ownOp)

theorem Includes.add (includes : Includes set excluded) (notEqual : filter.key = excluded.key → filter.op ≠ .equal)
    (holds : filter.key = excluded.key → filter.op ≠ .different → filter.op.holds excluded.bound filter.bound) :
    Includes (set.add filter) excluded := by
  obtain ⟨bound, member, onKey, isInclusive, sameValue⟩ := includes
  refine ⟨bound, ?_, onKey, isInclusive, sameValue⟩
  apply mem_add_of_inclusive one compares own verdict member isInclusive
  intro sameKey
  have filterKey := sameKey.trans onKey
  rw [((compares bound member).value_eq_iff one ownExcluded).mp sameValue]
  exact ⟨notEqual filterKey, holds filterKey⟩

end

theorem exists_formed_prefix {before after : List Filter} {set : FilterSet}
    (formed : ofFilters? (before ++ after) = some set) :
    ∃ early, ofFilters? before = some early ∧ after.foldlM conjoin? early = some set := by
  rw [ofFilters?, List.foldlM_append] at formed
  exact Option.bind_eq_some_iff.mp formed

section
variable {values : Set String} (one : OneText values) {filters : List Filter}
  (own : ∀ filter ∈ filters, filter.Compares values) {set : FilterSet} (formed : ofFilters? filters = some set)
  {excluded : Filter} (listed : excluded ∈ filters) (isExclusion : excluded.op = .different)
include one own formed listed isExclusion

theorem not_equal_of_allows (allows : Filter.Allows filters excluded) :
    ∀ filter ∈ filters, filter.key = excluded.key → filter.op ≠ .equal := by
  intro filter member sameKey isEqual
  have compares := (formed_accepts one own formed).1
  have single := (formed_accepts one own formed).2.1
  obtain ⟨x, xMember, xKey, xCovers⟩ := formed_covers one own formed filter member
  obtain ⟨y, yMember, yKey, yCovers⟩ := formed_covers one own formed excluded listed
  have xOwn := compares x xMember
  have entails := (xOwn.covers_iff one (own filter member)).mp xCovers
  have excludes := ((compares y yMember).covers_iff one (own excluded listed)).mp yCovers
  have holds := allows filter member sameKey (by simp [isEqual])
  -- only an equality entails one, and it stands alone
  have xEqual : x.op = .equal ∧ x.bound = filter.bound := by
    revert entails
    cases op : x.op <;> simp [Filter.Entails, Comparison.holds, isEqual, op]
  have same := single.alone x xMember xEqual.1 y yMember (yKey.trans (sameKey.symm.trans xKey.symm))
  rw [same] at excludes
  simp only [Filter.Entails, isExclusion, xEqual.1, Comparison.holds, xEqual.2] at excludes
  rw [isEqual] at holds
  exact excludes holds.symm

variable (free : ¬ Filter.ClampsExcluded filters)
include free

omit isExclusion in
theorem allows_of_blunt (blunt : Blunt set excluded) : Filter.Allows filters excluded := by
  have compares := (formed_accepts one own formed).1
  have coherent := formed_coherent one own formed free
  obtain ⟨-, bound, boundMember, boundKey, isInclusive, sameValue⟩ := blunt
  have sameBound := ((compares bound boundMember).value_eq_iff one (own excluded listed)).mp sameValue
  intro filter member sameKey notExclusion
  obtain ⟨x, xMember, xKey, xCovers⟩ := formed_covers one own formed filter member
  have entails := ((compares x xMember).covers_iff one (own filter member)).mp xCovers
  have notExcluding : x.op ≠ .different := by
    intro op
    revert entails
    cases target : filter.op <;> simp [Filter.Entails, op, target]
    exact absurd target notExclusion
  have together : x.key = bound.key := xKey.trans (sameKey.trans boundKey.symm)
  have room := coherent.same_or_beside xMember boundMember together
  rw [← sameBound]
  exact entails.sound (Filter.holds_of_beside isInclusive room (compares x xMember).notPattern notExcluding)

theorem blunt_of_inclusive {bound : Filter} (boundMember : bound ∈ set.filters) (boundKey : bound.key = excluded.key)
    (isInclusive : bound.isInclusive) (sameValue : bound.value = excluded.value) : Blunt set excluded := by
  have compares := (formed_accepts one own formed).1
  have coherent := formed_coherent one own formed free
  have ownBound := compares bound boundMember
  have sameBound := (ownBound.value_eq_iff one (own excluded listed)).mp sameValue
  obtain ⟨x, xMember, xKey, xCovers⟩ := formed_covers one own formed excluded listed
  have xOwn := compares x xMember
  have entails := (xOwn.covers_iff one (own excluded listed)).mp xCovers
  have together : x.key = bound.key := xKey.trans boundKey.symm
  refine ⟨?_, bound, boundMember, boundKey, isInclusive, sameValue⟩
  rcases Filter.settles_of_excluded entails isExclusion isInclusive sameBound xOwn.notPattern with
    ⟨excludes, atBound⟩ | opposes | byX
  · exact ⟨x, xMember, xKey, excludes, (xOwn.value_eq_iff one (own excluded listed)).mpr (atBound.trans sameBound)⟩
  · exact absurd opposes (coherent.apart x xMember bound boundMember together)
  · have same := formed_irredundant one own formed x xMember bound boundMember together ((xOwn.covers_iff one ownBound).mpr byX)
    rw [same] at entails
    exfalso
    revert entails isInclusive
    cases op : bound.op <;> simp [Filter.isInclusive, Filter.Entails, Comparison.holds, isExclusion, op, sameBound]

end

section
variable {values : Set String} (one : OneText values) {before after : List Filter} {first : Filter}
  (own : ∀ filter ∈ before ++ [first] ++ after, filter.Compares values) {set : FilterSet}
  (formed : ofFilters? (before ++ [first] ++ after) = some set) {excluded : Filter}
  (isExclusion : excluded.op = .different) (unmarked : ∀ filter ∈ before, excluded.marks filter = false)
  (isMarked : excluded.marks first)
include one own formed isExclusion unmarked isMarked

theorem sharp_of_first (ownExcluded : excluded.Compares values) (excludes : first.isInclusive = false) : Sharp set excluded := by
  obtain ⟨ownEarly, ownAfter⟩ := List.forall_mem_append.mp own
  obtain ⟨early, earlyFormed, conjoined⟩ := exists_formed_prefix formed
  have earlyCompares := (formed_accepts one ownEarly earlyFormed).1
  have mark : first.key = excluded.key ∧ first.value = excluded.value ∧ first.op = .different := by
    simpa [Filter.marks, excludes, and_assoc] using isMarked
  obtain ⟨sameKey, sameValue, op⟩ := mark
  have start : Sharp early excluded := by
    constructor
    · obtain ⟨x, member, onKey, covers⟩ := formed_covers one ownEarly earlyFormed first (by simp)
      have twin : first.Covers excluded := by
        simp only [Filter.Covers, Filter.Excludes, isExclusion, op]
        exact sameValue
      exact ⟨x, member, onKey.trans sameKey, covers.trans twin⟩
    · intro bound member onKey isInclusive same
      have stems := formed_stems (fun filter listed => (ownEarly filter listed).plainKey) earlyFormed bound member
      have listed := stems.mem (by
        revert isInclusive
        cases boundOp : bound.op <;> simp [Filter.isInclusive, boundOp])
      rcases List.mem_append.mp listed with isBefore | isFirst
      · have free := unmarked bound isBefore
        simp [Filter.marks, onKey, same, isInclusive] at free
      · rw [List.mem_singleton.mp isFirst, excludes] at isInclusive
        simp at isInclusive
  have both : set.Compares values ∧ Sharp set excluded := by
    apply foldlM_conjoin_induct _ ⟨earlyCompares, start⟩ conjoined
    rintro set ⟨compares, sharp⟩ filter member verdict
    have ownFilter := ownAfter filter member
    exact ⟨add_compares compares ownFilter, sharp.add one compares ownExcluded isExclusion ownFilter verdict⟩
  exact both.2

end

section
variable {values : Set String} (one : OneText values) {before after : List Filter} {first excluded : Filter}
  (isMarked : excluded.marks first) (includes : first.isInclusive)
include one isMarked includes

theorem includes_up_to (own : ∀ filter ∈ before ++ [first], filter.Compares values) {early : FilterSet}
    (formed : ofFilters? (before ++ [first]) = some early) (unmarked : ∀ filter ∈ before, excluded.marks filter = false)
    (ownExcluded : excluded.Compares values)
    (notEqual : ∀ filter ∈ before ++ [first], filter.key = excluded.key → filter.op ≠ .equal)
    (allows : Filter.Allows (before ++ [first]) excluded) : Includes early excluded := by
  obtain ⟨firstKey, firstValue⟩ := Filter.at_of_marks isMarked
  have ownFirst := own first (by simp)
  have firstBound := (ownFirst.value_eq_iff one ownExcluded).mp firstValue
  obtain ⟨x, member, xKey, covers⟩ := formed_covers one own formed first (by simp)
  have xOwn := (formed_accepts one own formed).1 x member
  have entails := (xOwn.covers_iff one ownFirst).mp covers
  have onKey : x.key = excluded.key := xKey.trans firstKey
  have notExclusion : x.op ≠ .different := by
    intro op
    revert entails includes
    cases target : first.op <;> simp [Filter.Entails, Filter.isInclusive, op, target]
  unfold Filter.Allows at allows
  rw [← firstBound] at allows
  have stems := formed_stems (fun filter listed => (own filter listed).plainKey) formed x member
  rcases stems.listed_or_sharpens with
    listed | ⟨inclusive, listed, other, otherListed, sameKey, sharpens, otherKey, otherOp, otherValue⟩
  · obtain ⟨isInclusive, sameBound⟩ := Filter.inclusive_of_entails entails includes (notEqual x listed onKey)
      (allows x listed onKey notExclusion)
    exact ⟨x, member, onKey, isInclusive, (xOwn.value_eq_iff one ownExcluded).mpr (sameBound.trans firstBound)⟩
  -- a bound that is strict already would have met an exclusion before the first mark
  · exfalso
    have inclusiveKey := sameKey.symm.trans onKey
    have meets := sharpens.meets entails includes (allows inclusive listed inclusiveKey sharpens.notExclusion)
    have atValue := ((own inclusive listed).value_eq_iff one ownExcluded).mpr (meets.trans firstBound)
    rcases List.mem_append.mp otherListed with isBefore | isFirst
    · have unmarkedOther := unmarked other isBefore
      simp [Filter.marks, otherKey, inclusiveKey, otherValue, atValue, otherOp] at unmarkedOther
    · rw [List.mem_singleton.mp isFirst] at otherOp
      simp [Filter.isInclusive, otherOp] at includes

theorem blunt_of_first (own : ∀ filter ∈ before ++ [first] ++ after, filter.Compares values) {set : FilterSet}
    (formed : ofFilters? (before ++ [first] ++ after) = some set) (isExclusion : excluded.op = .different)
    (unmarked : ∀ filter ∈ before, excluded.marks filter = false)
    (free : ¬ Filter.ClampsExcluded (before ++ [first] ++ after)) (listed : excluded ∈ before ++ [first] ++ after)
    (allows : Filter.Allows (before ++ [first] ++ after) excluded) : Blunt set excluded := by
  obtain ⟨ownEarly, ownAfter⟩ := List.forall_mem_append.mp own
  obtain ⟨early, earlyFormed, conjoined⟩ := exists_formed_prefix formed
  have ownExcluded := own excluded listed
  have notEqual := not_equal_of_allows one own formed listed isExclusion allows
  obtain ⟨notEqualEarly, notEqualAfter⟩ := List.forall_mem_append.mp notEqual
  obtain ⟨allowsEarly, allowsAfter⟩ := List.forall_mem_append.mp allows
  have start := includes_up_to one isMarked includes ownEarly earlyFormed unmarked ownExcluded notEqualEarly allowsEarly
  have both : set.Compares values ∧ Includes set excluded := by
    apply foldlM_conjoin_induct _ ⟨(formed_accepts one ownEarly earlyFormed).1, start⟩ conjoined
    rintro set ⟨compares, stays⟩ filter member verdict
    have ownFilter := ownAfter filter member
    exact ⟨add_compares compares ownFilter,
      stays.add one compares ownExcluded ownFilter verdict (notEqualAfter filter member) (allowsAfter filter member)⟩
  obtain ⟨bound, member, onKey, isInclusive, sameValue⟩ := both.2
  exact blunt_of_inclusive one own formed listed isExclusion free member onKey isInclusive sameValue

end

section
variable {values : Set String} (one : OneText values) {filters : List Filter}
  (own : ∀ filter ∈ filters, filter.Compares values) {set : FilterSet} (formed : ofFilters? filters = some set)
  (free : ¬ Filter.ClampsExcluded filters)
include one own formed free

theorem blunt_iff {excluded : Filter} (listed : excluded ∈ filters) (isExclusion : excluded.op = .different) :
    Blunt set excluded ↔ Filter.Allows filters excluded ∧ Filter.includesFirst filters excluded := by
  have itself : excluded.marks excluded := by simp [Filter.marks, isExclusion]
  obtain ⟨first, found⟩ : ∃ first, filters.find? excluded.marks = some first :=
    Option.isSome_iff_exists.mp (List.find?_isSome.mpr ⟨excluded, listed, itself⟩)
  obtain ⟨isMarked, before, after, split, unmarked⟩ := List.find?_eq_some_iff_append.mp found
  have decides : Filter.includesFirst filters excluded = first.isInclusive := by rw [Filter.includesFirst, found]; rfl
  have notMarked : ∀ filter ∈ before, excluded.marks filter = false := fun filter member => by simpa using unmarked filter member
  have parts : filters = before ++ [first] ++ after := by simp [split]
  rw [decides]
  constructor
  · intro blunt
    refine ⟨allows_of_blunt one own formed listed free blunt, ?_⟩
    by_contra excludes
    have ownExcluded := own excluded listed
    subst parts
    have sharp := sharp_of_first one own formed isExclusion notMarked isMarked ownExcluded (by simpa using excludes)
    obtain ⟨-, bound, member, onKey, isInclusive, sameValue⟩ := blunt
    exact sharp.2 bound member onKey isInclusive sameValue
  · rintro ⟨allows, includes⟩
    subst parts
    exact blunt_of_first one isMarked includes own formed isExclusion notMarked free listed allows

end

/-- Without filters that clamp an excluded value, the order of filters decides neither whether they form a set nor,
excluded values that a bound includes aside, its text: the texts are the same just if in both orders the bound comes
first at the same values, of those that all other filters on the key allow. -/
theorem text_canonical {values : Set String} (finite : FiniteText values) {filters others : List Filter}
    (own : ∀ filter ∈ filters, filter.Compares values) (permuted : filters.Perm others)
    (free : ¬ Filter.ClampsExcluded filters) :
    (ofFilters? filters = none ↔ ofFilters? others = none) ∧
    ∀ set other, ofFilters? filters = some set → ofFilters? others = some other →
      (set.text = other.text ↔ ∀ excluded ∈ filters, excluded.op = .different → Filter.Allows filters excluded →
        Filter.includesFirst filters excluded = Filter.includesFirst others excluded) := by
  have one := finite.toOneText
  have same : ∀ filter, filter ∈ filters ↔ filter ∈ others := fun filter => permuted.mem_iff
  have theirOwn : ∀ filter ∈ others, filter.Compares values := fun filter member => own filter ((same filter).mpr member)
  have otherFree : ¬ Filter.ClampsExcluded others := fun clamps => free (clamps.mono fun filter => (same filter).mpr)
  constructor
  · rw [formed_none_iff finite own free, formed_none_iff finite theirOwn otherFree]
    have sameSolutions : Filter.Satisfiable filters ↔ Filter.Satisfiable others := by
      simp only [Filter.Satisfiable, same]
    rw [sameSolutions]
  · intro set other formed otherFormed
    have compares := (formed_accepts one own formed).1
    have theirs := (formed_accepts one theirOwn otherFormed).1
    have sameAllows : ∀ excluded, Filter.Allows others excluded ↔ Filter.Allows filters excluded := by
      simp only [Filter.Allows, same, implies_true]
    have blunt : ∀ excluded ∈ filters, excluded.op = .different → ((Blunt set excluded ↔ Blunt other excluded) ↔
        (Filter.Allows filters excluded → Filter.includesFirst filters excluded = Filter.includesFirst others excluded)) := by
      intro excluded listed isExclusion
      rw [blunt_iff one own formed free listed isExclusion,
        blunt_iff one theirOwn otherFormed otherFree ((same excluded).mp listed) isExclusion, sameAllows, and_congr_right_iff]
      exact forall_congr' fun _ => Bool.eq_iff_iff.symm
    constructor
    · intro sameText excluded listed isExclusion
      apply (blunt excluded listed isExclusion).mp
      exact ⟨Blunt.of_text one theirs compares sameText.symm, Blunt.of_text one compares theirs sameText⟩
    · intro agree
      have sameBlunt := fun excluded listed isExclusion =>
        (blunt excluded listed isExclusion).mpr (agree excluded listed isExclusion)
      apply text_of_twins
      · exact exists_twin one own same free formed otherFormed sameBlunt
      · apply exists_twin one theirOwn (fun filter => (same filter).symm) otherFree otherFormed formed
        exact fun excluded listed isExclusion => (sameBlunt excluded ((same excluded).mpr listed) isExclusion).symm

theorem text_canonical_lanes : ∃ set other, ofFilters? moreThanTwo = some set ∧
    ofFilters? moreThanTwo.reverse = some other ∧ set.text ≠ other.text := by
  have own : ∀ filter ∈ moreThanTwo, filter.Compares {"2", "6"} := (List.forall_mem_append.mp compares_lanes).1
  have free : ¬ Filter.ClampsExcluded moreThanTwo := by
    rintro ⟨-, -, high, member, -, -, -, isAtMost, -⟩
    simp only [moreThanTwo, List.mem_cons, List.not_mem_nil, or_false] at member
    rcases member with rfl | rfl <;> simp [Filter.ofText] at isAtMost
  have allows : Filter.Allows moreThanTwo (.ofText "lanes" .different "2") := by
    intro filter member _ notExclusion
    simp only [moreThanTwo, List.mem_cons, List.not_mem_nil, or_false] at member
    rcases member with rfl | rfl
    · simp [Filter.ofText] at notExclusion
    · exact le_refl (Filter.bound (.ofText "lanes" .atLeast "2"))
  obtain ⟨set, formed⟩ := Option.isSome_iff_exists.mp (by decide +kernel : (ofFilters? moreThanTwo).isSome)
  obtain ⟨other, otherFormed⟩ := Option.isSome_iff_exists.mp (by decide +kernel : (ofFilters? moreThanTwo.reverse).isSome)
  have texts := (text_canonical finiteText_lanes own (List.reverse_perm _).symm free).2 set other formed otherFormed
  refine ⟨set, other, formed, otherFormed, fun sameText => ?_⟩
  have agree := texts.mp sameText _ List.mem_cons_self rfl allows
  exact absurd agree (by decide +kernel)

end FilterSet
end MapStyle
