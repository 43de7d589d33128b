import MapStyle.StyleError
/-!
Sets of zoom levels. A mask has one bit for each of the levels 0 to 22; `mem` is its view as a set, and each
operation has one lemma on that view. Scale denominators bound the levels when a mask is written out.
-/
namespace MapStyle

/-- A set of zoom levels. -/
structure Zoom where
  mask : BitVec 23
deriving DecidableEq

namespace Zoom

def levels : Nat := 23

def maxLevel : Nat := 22

def all : Zoom := ⟨BitVec.allOnes 23⟩

def none : Zoom := ⟨0⟩

def ofBits (bits : Nat) : Zoom := ⟨BitVec.ofNat 23 bits⟩

def bits (zoom : Zoom) : Nat := zoom.mask.toNat

def text (zoom : Zoom) : String := toString zoom.bits

def contains (zoom : Zoom) (level : Nat) : Bool := zoom.mask.getLsbD level

def isEmpty (zoom : Zoom) : Bool := zoom.mask == 0

def isAll (zoom : Zoom) : Bool := zoom.mask == BitVec.allOnes 23

def inter (a b : Zoom) : Zoom := ⟨a.mask &&& b.mask⟩

def diff (a b : Zoom) : Zoom := ⟨a.mask &&& ~~~b.mask⟩

def intersects (a b : Zoom) : Bool := !(a.inter b).isEmpty

def insert (zoom : Zoom) (level : Nat) : Zoom := ⟨zoom.mask ||| BitVec.twoPow 23 level⟩

def ofPred (p : Nat → Bool) : Zoom :=
  ((List.range levels).filter p).foldl insert none

def range (first last : Nat) : Zoom := ofPred fun level => first ≤ level && level ≤ last

/-- What a predicate `[zoom op level]` leaves visible. -/
def ofComparison (op : Comparison) (level : Int) (place : Place) : Except StyleError Zoom :=
  if level < 0 || (maxLevel : Int) < level then .error (.zoomOutOfRange level place)
  else
    let n := level.toNat
    match op with
    | .equal => .ok (ofPred (· == n))
    | .greater => .ok (ofPred (n < ·))
    | .atLeast => .ok (ofPred (n ≤ ·))
    | .less => .ok (ofPred (· < n))
    | .atMost => .ok (ofPred (· ≤ n))
    | op => .error (.flawed (.zoomComparison op) place)

def first? (zoom : Zoom) : Option Nat := (List.range levels).find? zoom.contains

def last? (zoom : Zoom) : Option Nat := (List.range levels).reverse.find? zoom.contains

theorem contains_lt {zoom : Zoom} {level : Nat} (inside : zoom.contains level) : level < levels :=
  BitVec.lt_of_getLsbD inside

@[simp] theorem contains_inter (a b : Zoom) (level : Nat) :
    (a.inter b).contains level = (a.contains level && b.contains level) := by
  simp [contains, inter]

@[simp] theorem contains_diff (a b : Zoom) (level : Nat) :
    (a.diff b).contains level = (a.contains level && !b.contains level) := by
  simp only [contains, diff, BitVec.getLsbD_and, BitVec.getLsbD_not]
  by_cases h : level < 23
  · simp [h]
  · simp [BitVec.getLsbD_of_ge a.mask level (by omega)]

@[simp] theorem contains_insert (zoom : Zoom) (added level : Nat) :
    (zoom.insert added).contains level = (zoom.contains level || (decide (added < levels) && decide (added = level))) := by
  simp only [contains, insert, levels, BitVec.getLsbD_or, BitVec.getLsbD_twoPow]
  rfl

@[simp] theorem contains_none (level : Nat) : none.contains level = false := by
  simp [contains, none]

@[simp] theorem contains_all (level : Nat) : all.contains level = decide (level < levels) := by
  simp only [contains, all, levels, BitVec.getLsbD_allOnes]
  rfl

theorem contains_foldl_insert (added : List Nat) (zoom : Zoom) (level : Nat) :
    (added.foldl insert zoom).contains level = (zoom.contains level || (decide (level < levels) && added.contains level)) := by
  induction added generalizing zoom with
  | nil => simp
  | cons n rest ih =>
    rw [List.foldl_cons, ih, contains_insert]
    by_cases h : n = level
    · subst h; by_cases lt : n < levels <;> simp [lt]
    · simp [h, Ne.symm h]

@[simp] theorem contains_ofPred (p : Nat → Bool) (level : Nat) :
    (ofPred p).contains level = (decide (level < levels) && p level) := by
  rw [ofPred, contains_foldl_insert, contains_none]
  by_cases lt : level < levels <;> by_cases holds : p level <;>
    simp [lt, holds]

theorem ext_contains {a b : Zoom} (same : ∀ level, level < levels → a.contains level = b.contains level) : a = b := by
  obtain ⟨a⟩ := a
  obtain ⟨b⟩ := b
  exact congrArg Zoom.mk (BitVec.eq_of_getLsbD_eq same)

theorem isEmpty_iff (zoom : Zoom) : zoom.isEmpty ↔ ∀ level, zoom.contains level = false := by
  constructor
  · intro h level
    have : zoom.mask = 0 := by simpa [isEmpty] using h
    simp [contains, this]
  · intro h
    have : zoom = none := ext_contains fun level _ => by simp [h level]
    simp [this, isEmpty, none]

theorem isEmpty_eq_false_iff (zoom : Zoom) : zoom.isEmpty = false ↔ ∃ level, zoom.contains level := by
  constructor
  · intro h
    apply Classical.byContradiction
    intro absent
    have : zoom.isEmpty := (isEmpty_iff zoom).mpr fun level => by
      simpa using fun inside => absent ⟨level, inside⟩
    simp [this] at h
  · rintro ⟨level, inside⟩
    cases h : zoom.isEmpty with
    | false => rfl
    | true => simp [(isEmpty_iff zoom).mp h level] at inside

def scaleTable : List Nat :=
  [1000000000, 500000000, 200000000, 100000000, 50000000, 25000000, 12500000, 6500000, 3000000, 1500000, 750000,
   400000, 200000, 100000, 50000, 25000, 12500, 5000, 2500, 1500, 750, 500, 250, 100]

def scaleDenominator (level : Nat) : Nat := scaleTable.getD level 100

/-- The levels from `first` to `last`, both visible. -/
structure Span where
  first : Nat
  last : Nat
deriving DecidableEq

namespace Span

/-- The inclusive upper bound on the scale; none where the span starts at level 0. -/
def maxScale? (span : Span) : Option Nat :=
  if 0 < span.first then some (scaleDenominator span.first) else Option.none

/-- The exclusive lower bound on the scale; none where the span reaches the last level. -/
def minScale? (span : Span) : Option Nat :=
  if span.last < maxLevel then some (scaleDenominator (span.last + 1)) else Option.none

end Span

/-- The runs of levels from `levels` on that satisfy `visible`; `start` is where the current run began. -/
def runs (visible : Nat → Bool) (start : Option Nat) : (levels : List Nat) → List Span
  | [] => start.toList.map fun first => ⟨first, maxLevel⟩
  | level :: rest =>
    match start, visible level with
    | Option.none, true => runs visible (some level) rest
    | some first, false => ⟨first, level - 1⟩ :: runs visible Option.none rest
    | start, _ => runs visible start rest

/-- The maximal runs of visible levels, lowest first. -/
def spans (zoom : Zoom) : List Span := runs zoom.contains Option.none (List.range levels)

end Zoom
end MapStyle
