import Mathlib.Tactic.Order
import MapStyle.Proofs.Filter.Weighing
/-!
Verdicts on comparisons with numbers. Where each number has one text, a pair of filters refutes or covers as its places
on the line tell: `Opposes` and `Entails` are read off the operators and the two places, and are sound for what the
filters accept.
-/
namespace MapStyle
namespace Filter

def Opposes (existing filter : Filter) : Prop :=
  match filter.op, existing.op with
  | .equal, _ => ¬ existing.op.holds filter.bound existing.bound
  | _, .equal => ¬ filter.op.holds existing.bound filter.bound
  | .greater, .less | .greater, .atMost | .atLeast, .less => existing.bound ≤ filter.bound
  | .atLeast, .atMost => existing.bound < filter.bound
  | .less, .greater | .less, .atLeast | .atMost, .greater => filter.bound ≤ existing.bound
  | .atMost, .atLeast => filter.bound < existing.bound
  | _, _ => False

/-- What satisfies `existing` satisfies `filter`, as far as a set looks. -/
def Entails (existing filter : Filter) : Prop :=
  match filter.op, existing.op with
  | _, .equal => filter.op.holds existing.bound filter.bound
  | .different, _ => ¬ existing.op.holds filter.bound existing.bound
  | .greater, .greater | .atLeast, .greater | .atLeast, .atLeast => filter.bound ≤ existing.bound
  | .greater, .atLeast => filter.bound < existing.bound
  | .less, .less | .atMost, .less | .atMost, .atMost => existing.bound ≤ filter.bound
  | .less, .atMost => existing.bound < filter.bound
  | _, _ => False

theorem Opposes.sound {existing filter : Filter} (opposes : existing.Opposes filter) {x : EReal}
    (holds : existing.op.holds x existing.bound) : ¬ filter.op.holds x filter.bound := by
  revert opposes holds
  cases new : filter.op <;> cases old : existing.op <;>
    simp only [Opposes, new, old, Comparison.holds] <;> intros <;> first | order | simp_all

theorem Entails.sound {existing filter : Filter} (entails : existing.Entails filter) {x : EReal}
    (holds : existing.op.holds x existing.bound) : filter.op.holds x filter.bound := by
  revert entails holds
  cases new : filter.op <;> cases old : existing.op <;>
    simp only [Entails, new, old, Comparison.holds] <;> intros <;> first | order | simp_all

variable {values : Set String} (one : OneText values)
include one

theorem Compares.excludes_iff {existing filter : Filter} (theirs : existing.Compares values)
    (own : filter.Compares values) (notEqual : existing.op ≠ .equal) :
    existing.Excludes filter ↔ ¬ existing.op.holds filter.bound existing.bound := by
  have notPattern := theirs.notPattern
  unfold Excludes
  cases old : existing.op <;> simp_all [isPattern, Comparison.holds, theirs.upto_iff one own, own.upto_iff one theirs,
    theirs.under_iff one own, own.under_iff one theirs, theirs.value_eq_iff one own, eq_comm]

theorem Compares.refutes_iff {existing filter : Filter} (theirs : existing.Compares values)
    (own : filter.Compares values) : existing.Refutes filter ↔ existing.Opposes filter := by
  have excludes := theirs.excludes_iff one own
  have notPattern := And.intro theirs.notPattern own.notPattern
  unfold Refutes Opposes
  cases new : filter.op <;> cases old : existing.op <;> simp_all [isPattern, Comparison.holds, theirs.upto_iff one own,
    own.upto_iff one theirs, theirs.under_iff one own, own.under_iff one theirs, theirs.value_eq_iff one own, eq_comm]

theorem Compares.covers_iff {existing filter : Filter} (theirs : existing.Compares values)
    (own : filter.Compares values) : existing.Covers filter ↔ existing.Entails filter := by
  have excludes := theirs.excludes_iff one own
  have notPattern := And.intro theirs.notPattern own.notPattern
  unfold Covers Entails
  cases new : filter.op <;> cases old : existing.op <;> simp_all [isPattern, Comparison.holds, theirs.upto_iff one own,
    own.upto_iff one theirs, theirs.under_iff one own, own.under_iff one theirs, theirs.value_eq_iff one own, eq_comm]

end Filter

namespace FilterSet

/-- What a verdict tells about the filters on the same key. -/
inductive Judged (set : FilterSet) (filter : Filter) : Verdict → Prop where
  | contradicts (other : Filter) (member : other ∈ set.filters) (sameKey : other.key = filter.key)
      (opposes : other.Opposes filter) : Judged set filter .contradicts
  | implied (other : Filter) (member : other ∈ set.filters) (sameKey : other.key = filter.key)
      (entails : other.Entails filter) : Judged set filter .implied
  | narrows (free : ∀ other ∈ set.filters, other.key = filter.key →
      ¬ other.Opposes filter ∧ ¬ other.Entails filter) : Judged set filter .narrows

variable {values : Set String} (one : OneText values) {set : FilterSet} (compares : set.Compares values)
include one compares

theorem judge_judged {filter : Filter} (own : filter.Compares values) : Judged set filter (set.judge filter) := by
  have weighed := judge_weighed compares.plainKeys own.plainKey
  generalize set.judge filter = verdict at weighed ⊢
  cases weighed with
  | narrows free =>
    apply Judged.narrows
    intro other member sameKey
    rw [← (compares other member).refutes_iff one own, ← (compares other member).covers_iff one own]
    exact free other member sameKey
  | implied other member sameKey covers =>
    exact .implied other member sameKey (((compares other member).covers_iff one own).mp covers)
  | contradicts other member sameKey refutes =>
    exact .contradicts other member sameKey (((compares other member).refutes_iff one own).mp refutes)

theorem judge_narrows {filter : Filter} (own : filter.Compares values) (verdict : set.judge filter = .narrows) :
    ∀ other ∈ set.filters, other.key = filter.key → ¬ other.Opposes filter ∧ ¬ other.Entails filter := by
  have judged := judge_judged one compares own
  rw [verdict] at judged
  cases judged with
  | narrows free => exact free

end FilterSet
end MapStyle
