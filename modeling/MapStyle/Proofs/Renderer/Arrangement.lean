import Mathlib.Data.List.Nodup
import Mathlib.Data.List.Pairwise
import Mathlib.Logic.Function.Conjugate
import MapStyle.Renderer.Mapnik.Settings
/-!
Properties in any order. A symbolizer is what its properties make of the default, one after the other; where each of them
changes a field of its own, their order makes no difference.
-/
namespace MapStyle.Mapnik
variable {σ τ α β : Type} {settings more : Settings σ} {start s : σ} {p q : Property} {ps qs : List Property}

def change (settings : Settings σ) (p : Property) : Except RenderError (σ → σ) :=
  match settings.lookup p.name with
  | some setter => setter p
  | none => .ok id

/-- What a property makes of a symbolizer; one that cannot be read leaves it as it is. -/
def effect (settings : Settings σ) (p : Property) : σ → σ := (change settings p).toOption.getD id

theorem apply_eq (settings : Settings σ) (s : σ) (p : Property) :
    apply settings s p = (change settings p).map fun f => f s := by
  rw [apply, change]
  cases settings.lookup p.name <;> rfl

/-- Building succeeds just if each property can be read, and comes to all that they change, in their order. -/
theorem build_ok_iff : build settings start ps = .ok s ↔
    (∀ p ∈ ps, (change settings p).isOk) ∧ ps.foldl (fun s p => effect settings p s) start = s := by
  induction ps generalizing start with
  | nil => simp [build, pure, Except.pure]
  | cons p ps ih =>
    have step : build settings start (p :: ps) = (apply settings start p).bind fun s => build settings s ps := rfl
    rw [step, apply_eq, List.forall_mem_cons, List.foldl_cons, effect]
    cases change settings p with
    | error error => simp [Except.map, Except.bind, Except.isOk, Except.toBool]
    | ok f => simpa [Except.map, Except.bind, Except.isOk, Except.toBool, Except.toOption] using ih

theorem build_perm (perm : ps.Perm qs) (built : build settings start ps = .ok s) :
    ∃ t, build settings start qs = .ok t :=
  ⟨_, build_ok_iff.mpr ⟨fun p member => (build_ok_iff.mp built).1 p (perm.mem_iff.mpr member), rfl⟩⟩

theorem build_perm_eq (perm : ps.Perm qs) (built : build settings start ps = .ok s)
    (commute : ∀ p ∈ ps, ∀ q ∈ ps, Function.Commute (effect settings p) (effect settings q)) :
    build settings start qs = .ok s := by
  obtain ⟨read, result⟩ := build_ok_iff.mp built
  refine build_ok_iff.mpr ⟨fun p member => read p (perm.mem_iff.mpr member), ?_⟩
  rw [← result]
  exact (perm.foldl_eq' (fun p isIn q alsoIn s => (commute q alsoIn p isIn s)) start).symm

/-- Where the names are distinct, it is enough that the effects under different names commute. -/
theorem commute_of_distinct (distinct : (ps.map Property.name).Nodup)
    (commute : ∀ p ∈ ps, ∀ q ∈ ps, p.name ≠ q.name → Function.Commute (effect settings p) (effect settings q)) :
    ∀ p ∈ ps, ∀ q ∈ ps, Function.Commute (effect settings p) (effect settings q) := by
  intro p isIn q alsoIn
  by_cases same : p.name = q.name
  · rw [List.inj_on_of_nodup_map distinct isIn alsoIn same]
  · exact commute p isIn q alsoIn same

def Setter.Independent (a b : Setter σ) : Prop :=
  ∀ p q f g, a p = .ok f → b q = .ok g → Function.Commute f g

theorem Setter.Independent.symm {a b : Setter σ} (independent : a.Independent b) : b.Independent a :=
  fun p q f g left right => (independent q p g f right left).symm

theorem map_ok {attempt : Except RenderError α} {put : α → β} {b : β} (made : attempt.map put = .ok b) :
    ∃ a, attempt = .ok a ∧ put a = b := by
  cases attempt with
  | error error => cases made
  | ok a => exact ⟨a, rfl, Except.ok.inj made⟩

theorem independent_of_map {read : Property → Except RenderError α} {other : Property → Except RenderError β}
    {put : α → σ → σ} {putOther : β → σ → σ} (commute : ∀ v w s, put v (putOther w s) = putOther w (put v s)) :
    Setter.Independent (fun p => (read p).map put) (fun p => (other p).map putOther) := by
  intro p q f g left right
  obtain ⟨v, -, rfl⟩ := map_ok left
  obtain ⟨w, -, rfl⟩ := map_ok right
  exact commute v w

def Setter.Keeps (update : (τ → τ) → σ → σ) (a : Setter σ) : Prop :=
  ∀ p g, a p = .ok g → ∀ f s, update f (g s) = g (update f s)

theorem keeps_of_map {update : (τ → τ) → σ → σ} {read : Property → Except RenderError α} {put : α → σ → σ}
    (keeps : ∀ f v s, update f (put v s) = put v (update f s)) : Setter.Keeps update fun p => (read p).map put := by
  intro p g made f s
  obtain ⟨v, -, rfl⟩ := map_ok made
  exact keeps f v s

/-- No two settings are in each other's way, apart from those under the names in `clashes`. -/
def Apart (clashes : List (String × String)) (settings : Settings σ) : Prop :=
  settings.Pairwise fun a b => Setter.Independent a.2 b.2 ∨ (a.1, b.1) ∈ clashes

theorem apart_cons {clashes : List (String × String)} {a : String × Setter σ} : Apart clashes (a :: settings) ↔
    (∀ b ∈ settings, Setter.Independent a.2 b.2 ∨ (a.1, b.1) ∈ clashes) ∧ Apart clashes settings := List.pairwise_cons

def Beside (settings more : Settings σ) : Prop := ∀ a ∈ settings, ∀ b ∈ more, Setter.Independent a.2 b.2

section within
variable {clashes : List (String × String)} {υ : Type} {start : String} {parts : Settings τ} {others : Settings υ}
  {update : (τ → τ) → σ → σ} {alter : (υ → υ) → σ → σ}

theorem mem_within {entry : String × Setter σ} (member : entry ∈ within start update parts) :
    ∃ name part, (name, part) ∈ parts ∧ entry = (start ++ "-" ++ name, fun p => (part p).map update) := by
  obtain ⟨⟨name, part⟩, isPart, rfl⟩ := List.mem_map.mp member
  exact ⟨name, part, isPart, rfl⟩

theorem within_apart (compose : ∀ f g s, update f (update g s) = update (f ∘ g) s) (apart : Apart clashes parts) :
    Apart (clashes.map fun names => (start ++ "-" ++ names.1, start ++ "-" ++ names.2)) (within start update parts) := by
  refine List.pairwise_map.mpr (apart.imp fun {a b} => Or.imp (fun independent => ?_) fun clash => ?_)
  · intro p q f g left right
    obtain ⟨f, made, rfl⟩ := map_ok left
    obtain ⟨g, alsoMade, rfl⟩ := map_ok right
    intro s
    rw [compose, compose, (independent p q f g made alsoMade).comp_eq]
  · exact List.mem_map.mpr ⟨_, clash, rfl⟩

theorem within_beside (keeps : ∀ b ∈ more, Setter.Keeps update b.2) : Beside (within start update parts) more := by
  rintro a isPart b isMore p q f g left right
  obtain ⟨name, part, -, rfl⟩ := mem_within isPart
  obtain ⟨f, -, rfl⟩ := map_ok left
  exact keeps b isMore q g right f

theorem within_keeps (keeps : ∀ f g s, update f (alter g s) = alter g (update f s)) :
    ∀ b ∈ within start alter others, Setter.Keeps update b.2 := by
  intro b member p g made f s
  obtain ⟨name, part, -, rfl⟩ := mem_within member
  obtain ⟨g, -, rfl⟩ := map_ok made
  exact keeps f g s

end within

section effect
variable {clashes : List (String × String)}

theorem effect_cases (settings : Settings σ) (p : Property) : effect settings p = id ∨
    ∃ setter f, (p.name, setter) ∈ settings ∧ setter p = .ok f ∧ effect settings p = f := by
  unfold effect change
  cases found : settings.lookup p.name with
  | none => exact Or.inl rfl
  | some setter =>
    have member : (p.name, setter) ∈ settings := by
      obtain ⟨before, behind, rfl, -⟩ := List.lookup_eq_some_iff.mp found
      simp
    cases made : setter p with
    | error error => exact Or.inl (by simp [made, Except.toOption])
    | ok f => exact Or.inr ⟨setter, f, member, made, by simp [made, Except.toOption]⟩

theorem commute_of_independent (independent : ∀ a b, (p.name, a) ∈ settings → (q.name, b) ∈ more → Setter.Independent a b) :
    Function.Commute (effect settings p) (effect more q) := by
  rcases effect_cases settings p with same | ⟨a, f, isIn, made, same⟩
  · rw [same]
    exact fun s => rfl
  · rcases effect_cases more q with alsoSame | ⟨b, g, alsoIn, alsoMade, alsoSame⟩
    · rw [alsoSame]
      exact fun s => rfl
    · rw [same, alsoSame]
      exact independent a b isIn alsoIn p q f g made alsoMade

theorem Apart.commute (apart : Apart clashes settings) (different : p.name ≠ q.name) (noClash : (p.name, q.name) ∉ clashes)
    (noConverse : (q.name, p.name) ∉ clashes) : Function.Commute (effect settings p) (effect settings q) := by
  have symm : Std.Symm fun a b : String × Setter σ =>
      Setter.Independent a.2 b.2 ∨ (a.1, b.1) ∈ clashes ∨ (b.1, a.1) ∈ clashes :=
    ⟨fun a b => Or.imp Setter.Independent.symm Or.symm⟩
  refine commute_of_independent fun a b isIn alsoIn => ?_
  have either := (apart.imp fun {a b} => Or.imp_right (Or.inl (b := (b.1, a.1) ∈ clashes))).forall isIn alsoIn
    (fun same => different (congrArg Prod.fst same))
  exact either.resolve_right (not_or.mpr ⟨noClash, noConverse⟩)

theorem effect_append_left (found : (settings.lookup p.name).isSome) : effect (settings ++ more) p = effect settings p := by
  obtain ⟨setter, found⟩ := Option.isSome_iff_exists.mp found
  simp [effect, change, List.lookup_append, found]

theorem effect_append_right (missing : settings.lookup p.name = none) : effect (settings ++ more) p = effect more p := by
  simp [effect, change, List.lookup_append, missing]

/-- A name in the first list hides the same name in the second, so that only settings under names that the first has not can
be in each other's way. -/
theorem append_commute (front : Apart [] settings) (back : Apart clashes more) (beside : Beside more settings)
    (different : p.name ≠ q.name)
    (noClash : settings.lookup p.name = none → settings.lookup q.name = none →
      (p.name, q.name) ∉ clashes ∧ (q.name, p.name) ∉ clashes) :
    Function.Commute (effect (settings ++ more) p) (effect (settings ++ more) q) := by
  cases left : settings.lookup p.name with
  | some a =>
    rw [effect_append_left (by simp [left])]
    cases right : settings.lookup q.name with
    | some b =>
      rw [effect_append_left (by simp [right])]
      exact front.commute different (by simp) (by simp)
    | none =>
      rw [effect_append_right right]
      exact (commute_of_independent fun b a isIn alsoIn => beside _ isIn _ alsoIn).symm
  | none =>
    rw [effect_append_right left]
    cases right : settings.lookup q.name with
    | some b =>
      rw [effect_append_left (by simp [right])]
      exact commute_of_independent fun a b isIn alsoIn => beside _ isIn _ alsoIn
    | none =>
      rw [effect_append_right right]
      exact back.commute different (noClash left right).1 (noClash left right).2

end effect

theorem independent_faceName {other : Property → Except RenderError β} {put : β → TextStyle → TextStyle}
    (commute : ∀ v w s, { put w s with faceName := v } = put w { s with faceName := v }) :
    Setter.Independent (fun p => .ok fun s => { s with faceName := withoutQuotes p.value }) fun p => (other p).map put :=
  @independent_of_map TextStyle String β (fun p => .ok (withoutQuotes p.value)) other (fun v s => { s with faceName := v })
    put commute

theorem commonSettings_apart : Apart [] commonSettings := by
  simp only [commonSettings, apart_cons, List.forall_mem_cons]
  and_intros <;> first
    | exact Or.inl (independent_of_map fun _ _ _ => rfl)
    | exact List.forall_mem_nil _
    | exact .nil

theorem common_append_apart {start : String} {update : (CommonSettings → CommonSettings) → σ → σ}
    (compose : ∀ f g s, update f (update g s) = update (f ∘ g) s) (keeps : ∀ b ∈ settings, Setter.Keeps update b.2)
    (apart : Apart [] settings) : Apart [] (within start update commonSettings ++ settings) := by
  refine List.pairwise_append.mpr ⟨within_apart compose commonSettings_apart, apart, fun a isIn b alsoIn => ?_⟩
  exact Or.inl (within_beside keeps a isIn b alsoIn)

theorem lineSettings_apart : Apart [] lineSettings := by
  have strokeSettings_apart : Apart [] strokeSettings := by
    simp only [strokeSettings, apart_cons, List.forall_mem_cons]
    and_intros <;> first
      | exact Or.inl (independent_of_map fun _ _ _ => rfl)
      | exact List.forall_mem_nil _
      | exact .nil
  exact common_append_apart (fun _ _ _ => rfl) (within_keeps fun _ _ _ => rfl)
    (within_apart (fun _ _ _ => rfl) strokeSettings_apart)

/-- Each kind without labels has a field for each setting; those of a marker's outline change different fields of the
outline. -/
theorem unlabelled_apart : Apart [] linePatternSettings ∧ Apart [] polygonSettings ∧ Apart [] polygonPatternSettings ∧
    Apart [] pointSettings ∧ Apart [] markerSettings ∧ Apart [] rasterSettings ∧ Apart [] buildingSettings := by
  refine ⟨?_, ?_, ?_, ?_, ?_, ?_, ?building⟩
  case building =>
    simp only [buildingSettings, apart_cons, List.forall_mem_cons]
    and_intros <;> first
      | exact Or.inl (independent_of_map fun _ _ _ => rfl)
      | exact List.forall_mem_nil _
      | exact .nil
  all_goals
    refine common_append_apart (fun _ _ _ => rfl) ?_ ?_ <;> simp only [apart_cons, List.forall_mem_cons]
    all_goals and_intros <;> first
      | exact keeps_of_map fun _ _ _ => rfl
      | exact Or.inl (independent_of_map fun _ _ _ => rfl)
      | exact List.forall_mem_nil _
      | exact .nil

theorem build_perm_apart {make : σ → Symbolizer} {symbolizer : Symbolizer} (apart : Apart [] settings)
    (distinct : (ps.map Property.name).Nodup) (perm : ps.Perm qs)
    (built : (build settings start ps).map make = .ok symbolizer) : (build settings start qs).map make = .ok symbolizer := by
  obtain ⟨s, made, rfl⟩ := map_ok built
  refine congrArg (Except.map make) (build_perm_eq perm made (commute_of_distinct distinct fun p _ q _ different => ?_))
  exact apart.commute different (by simp) (by simp)

def labelClashes : List (String × String) :=
  [("opacity", "text-opacity"), ("dx", "text-dx"), ("dy", "text-dy"), ("transform", "text-transform")]

def clashesOf (start : String) : List (String × String) :=
  labelClashes.map fun names => (start ++ "-" ++ names.1, start ++ "-" ++ names.2)

theorem labelSettings_apart : Apart labelClashes labelSettings := by
  simp only [labelSettings, apart_cons, List.forall_mem_cons]
  and_intros <;> first
    | exact Or.inl (independent_of_map fun _ _ _ => rfl)
    | exact Or.inr (by decide)
    | exact Or.inl (independent_faceName fun _ _ _ => rfl)
    | exact Or.inl (independent_faceName fun _ _ _ => rfl).symm
    | exact List.forall_mem_nil _
    | exact .nil

def shieldFront : Settings ShieldSymbolizer :=
  within "shield" (fun f s => { s with common := f s.common }) commonSettings ++
  [("shield-file", fun p => p.path.map fun v s => { s with file := v }),
   ("shield-opacity", fun p => p.number.map fun v s => { s with opacity := v }),
   ("shield-text-opacity", fun p => p.number.map fun v s => { s with textOpacity := v }),
   ("shield-dx", fun p => p.number.map fun v s => { s with dx := v }),
   ("shield-dy", fun p => p.number.map fun v s => { s with dy := v }),
   ("shield-unlock-image", fun p => p.boolean.map fun v s => { s with unlockImage := v })]

def updateLabel (f : TextStyle → TextStyle) (shield : ShieldSymbolizer) : ShieldSymbolizer :=
  { shield with text := f shield.text }

theorem shieldSettings_split : shieldSettings = shieldFront ++ within "shield" updateLabel labelSettings := rfl

theorem shieldFront_apart : Apart [] shieldFront := by
  refine common_append_apart (fun _ _ _ => rfl) ?_ ?_ <;> simp only [apart_cons, List.forall_mem_cons]
  all_goals and_intros <;> first
    | exact keeps_of_map fun _ _ _ => rfl
    | exact Or.inl (independent_of_map fun _ _ _ => rfl)
    | exact List.forall_mem_nil _
    | exact .nil

theorem shieldFront_keeps : ∀ b ∈ shieldFront, Setter.Keeps updateLabel b.2 := by
  refine List.forall_mem_append.mpr ⟨within_keeps fun _ _ _ => rfl, ?_⟩
  simp only [List.forall_mem_cons]
  and_intros <;> first
    | exact keeps_of_map fun _ _ _ => rfl
    | exact List.forall_mem_nil _

theorem textSettings_commute (valid : vocabulary.isValid .text p.name) (alsoValid : vocabulary.isValid .text q.name)
    (different : p.name ≠ q.name) : Function.Commute (effect textSettings p) (effect textSettings q) := by
  have noSecond : ∀ names ∈ clashesOf "text", vocabulary.isValid .text names.2 = false := by decide
  refine append_commute (within_apart (fun _ _ _ => rfl) commonSettings_apart)
    (within_apart (fun _ _ _ => rfl) labelSettings_apart) (within_beside (within_keeps fun _ _ _ => rfl)) different
    fun _ _ => ⟨fun clash => ?_, fun clash => ?_⟩
  · simp [noSecond _ clash] at alsoValid
  · simp [noSecond _ clash] at valid

theorem symbolizer_perm {kind : Kind} {symbolized : Symbolizer} (valid : ∀ p ∈ ps, vocabulary.isValid kind p.name)
    (distinct : (ps.map Property.name).Nodup) (noShield : kind ≠ .shield) (perm : ps.Perm qs)
    (built : symbolizer kind ps = .ok symbolized) : symbolizer kind qs = .ok symbolized := by
  obtain ⟨linePattern, polygon, polygonPattern, point, marker, raster, building⟩ := unlabelled_apart
  cases kind with
  | line => exact build_perm_apart lineSettings_apart distinct perm built
  | linePattern => exact build_perm_apart linePattern distinct perm built
  | polygon => exact build_perm_apart polygon distinct perm built
  | polygonPattern => exact build_perm_apart polygonPattern distinct perm built
  | point => exact build_perm_apart point distinct perm built
  | marker => exact build_perm_apart marker distinct perm built
  | text =>
    obtain ⟨s, made, rfl⟩ := map_ok built
    refine congrArg (Except.map Symbolizer.text) (build_perm_eq perm made (commute_of_distinct distinct ?_))
    exact fun p isIn q alsoIn different => textSettings_commute (valid p isIn) (valid q alsoIn) different
  | shield => exact absurd rfl noShield
  | raster => exact build_perm_apart raster distinct perm built
  | building => exact build_perm_apart building distinct perm built

def isLettering (p : Property) : Bool := p.name == "shield-transform" || p.name == "shield-text-transform"

theorem shield_clash {first second : String} (clash : (first, second) ∈ clashesOf "shield")
    (missing : shieldFront.lookup first = none) : first = "shield-transform" ∧ second = "shield-text-transform" := by
  have only : ∀ names ∈ clashesOf "shield", (shieldFront.lookup names.1).isNone →
      names = ("shield-transform", "shield-text-transform") := by decide
  exact Prod.mk.inj (only _ clash (by simp only [missing, Option.isNone_none]))

theorem shieldSettings_commute (different : p.name ≠ q.name) (apart : (isLettering p && isLettering q) = false) :
    Function.Commute (effect shieldSettings p) (effect shieldSettings q) := by
  rw [shieldSettings_split]
  refine append_commute shieldFront_apart (within_apart (fun _ _ _ => rfl) labelSettings_apart)
    (within_beside shieldFront_keeps) different fun missing alsoMissing => ⟨fun clash => ?_, fun clash => ?_⟩
  · obtain ⟨first, second⟩ := shield_clash clash missing
    simp [isLettering, first, second] at apart
  · obtain ⟨first, second⟩ := shield_clash clash alsoMissing
    simp [isLettering, first, second] at apart

theorem change_lettering (lettering : isLettering p = true) : change shieldSettings p =
    ((p.choice transforms).map fun v label => { label with transform := v }).map updateLabel := by
  obtain ⟨name, value, place⟩ := p
  simp only [isLettering, Bool.or_eq_true, beq_iff_eq] at lettering
  rcases lettering with rfl | rfl <;> rfl

def untransformedLabel : ShieldSymbolizer → ShieldSymbolizer := updateLabel fun label => { label with transform := .none }

/-- The symbolizer, a shield's label in the letters it is written in. -/
def untransformed : Symbolizer → Symbolizer
  | .shield shield => .shield (untransformedLabel shield)
  | other => other

theorem untransformedLabel_lettering (lettering : isLettering p = true) (s : ShieldSymbolizer) :
    untransformedLabel (effect shieldSettings p s) = untransformedLabel s := by
  rw [effect, change_lettering lettering]
  cases p.choice transforms <;> rfl

theorem untransformedLabel_commute (other : isLettering p = false) :
    Function.Commute untransformedLabel (effect shieldSettings p) := by
  have same : untransformedLabel = effect shieldSettings ⟨"shield-transform", "none", p.place⟩ := by
    have noTransform : (Property.choice transforms ⟨"shield-transform", "none", p.place⟩) = .ok .none := by
      have bare : Text.unquote "none" = "none" := by decide
      simp [Property.choice, bare, transforms, Property.expect]
    rw [effect, change_lettering rfl, noTransform]
    rfl
  rw [same]
  refine shieldSettings_commute (fun equal => ?_) (by simp [other])
  simp [isLettering, ← equal] at other

/-- What undoes some of the changes and commutes with the others leaves the others, made in their order. -/
theorem undo_foldl {undo : σ → σ} {isUndone : Property → Bool} {effect : Property → σ → σ}
    (undone : ∀ p, isUndone p = true → ∀ s, undo (effect p s) = undo s)
    (commute : ∀ p, isUndone p = false → Function.Commute undo (effect p)) :
    undo (ps.foldl (fun s p => effect p s) start) =
      (ps.filter fun p => !isUndone p).foldl (fun s p => effect p s) (undo start) := by
  induction ps generalizing start with
  | nil => rfl
  | cons p ps ih =>
    rw [List.foldl_cons, ih]
    cases kept : isUndone p with
    | true => simp [kept, undone p kept]
    | false => simp [kept, (commute p kept).eq start]

theorem shield_perm_untransformed {shield changed : ShieldSymbolizer} (distinct : (ps.map Property.name).Nodup)
    (perm : ps.Perm qs) (built : build shieldSettings {} ps = .ok shield)
    (alsoBuilt : build shieldSettings {} qs = .ok changed) : untransformedLabel changed = untransformedLabel shield := by
  rw [← (build_ok_iff.mp built).2, ← (build_ok_iff.mp alsoBuilt).2,
    undo_foldl (fun p lettering => untransformedLabel_lettering lettering) fun p => untransformedLabel_commute,
    undo_foldl (fun p lettering => untransformedLabel_lettering lettering) fun p => untransformedLabel_commute]
  -- the two that clash are left out on both sides, and the others commute
  have others : ((ps.filter fun p => !isLettering p).map Property.name).Nodup :=
    distinct.sublist (List.filter_sublist.map _)
  have commute := commute_of_distinct others fun p isIn q alsoIn different =>
    shieldSettings_commute different (by simp at isIn; simp [isIn.2])
  exact ((perm.filter _).foldl_eq' (fun p isIn q alsoIn s => (commute q alsoIn p isIn s)) _).symm

theorem transforms_inj {word other : String} {transform : TextTransform} (found : transforms.lookup word = some transform)
    (alsoFound : transforms.lookup other = some transform) : word = other := by
  have inj : ∀ a ∈ transforms, ∀ b ∈ transforms, a.2 = b.2 → a.1 = b.1 := by decide
  obtain ⟨before, behind, split, -⟩ := List.lookup_eq_some_iff.mp found
  obtain ⟨front, rest, alsoSplit, -⟩ := List.lookup_eq_some_iff.mp alsoFound
  exact inj (word, transform) (by simp [split]) (other, transform) (by simp [alsoSplit]) rfl

theorem lettering_last {shield : ShieldSymbolizer} (lettering : isLettering q = true)
    (built : build shieldSettings {} (ps ++ [p, q]) = .ok shield) :
    transforms.lookup (Text.unquote q.value) = some shield.text.transform := by
  obtain ⟨read, result⟩ := build_ok_iff.mp built
  have legible := read q (by simp)
  rw [List.foldl_append] at result
  simp only [List.foldl_cons, List.foldl_nil] at result
  rw [effect] at result
  rw [change_lettering lettering] at legible result
  unfold Property.choice at legible result
  cases found : transforms.lookup (Text.unquote q.value) with
  | none => simp [found, Property.expect, Property.invalid, Except.map, Except.isOk, Except.toBool] at legible
  | some transform =>
    rw [found] at result
    rw [← result]
    rfl

/-- A shield comes out the same in every order just if no two properties ask for different letters of its label. -/
theorem shield_perm_iff {shield : ShieldSymbolizer} (distinct : (ps.map Property.name).Nodup)
    (built : build shieldSettings {} ps = .ok shield) :
    (∀ qs, ps.Perm qs → build shieldSettings {} qs = .ok shield) ↔
      ∀ p ∈ ps, ∀ q ∈ ps, p.name = "shield-transform" → q.name = "shield-text-transform" →
        Text.unquote p.value = Text.unquote q.value := by
  constructor
  · intro same p isIn q alsoIn first second
    have lettering : isLettering p = true := by simp [isLettering, first]
    have alsoLettering : isLettering q = true := by simp [isLettering, second]
    -- the two are put at the end, once in either order
    obtain ⟨rest, perm⟩ : ∃ rest, ps.Perm (rest ++ [p, q]) := by
      obtain ⟨before, behind, rfl⟩ := List.append_of_mem isIn
      have elsewhere : q ∈ before ++ behind := by
        have different : q ≠ p := fun equal => by simp [← equal, second] at first
        simpa [different] using alsoIn
      obtain ⟨front, rest, split⟩ := List.append_of_mem elsewhere
      refine ⟨front ++ rest, List.perm_middle.trans ?_⟩
      rw [split]
      have ahead : (p :: q :: (front ++ rest)).Perm (front ++ rest ++ [p, q]) := @List.perm_append_comm _ [p, q] _
      exact (List.perm_middle.cons p).trans ahead
    have swapped : ps.Perm (rest ++ [q, p]) := perm.trans ((List.Perm.swap q p []).append_left rest)
    exact transforms_inj (lettering_last lettering (same _ swapped)) (lettering_last alsoLettering (same _ perm))
  · intro agree qs perm
    refine build_perm_eq perm built (commute_of_distinct distinct fun p isIn q alsoIn different => ?_)
    cases both : isLettering p && isLettering q with
    | false => exact shieldSettings_commute different both
    | true =>
      obtain ⟨lettering, alsoLettering⟩ := Bool.and_eq_true_iff.mp both
      have words : Text.unquote p.value = Text.unquote q.value := by
        have names := lettering
        have others := alsoLettering
        simp only [isLettering, Bool.or_eq_true, beq_iff_eq] at names others
        rcases names with name | name <;> rcases others with other | other
        · exact absurd (name.trans other.symm) different
        · exact agree p isIn q alsoIn name other
        · exact (agree q alsoIn p isIn other name).symm
        · exact absurd (name.trans other.symm) different
      have same : effect shieldSettings p = effect shieldSettings q := by
        rw [effect, effect, change_lettering lettering, change_lettering alsoLettering, Property.choice, Property.choice, words]
        cases transforms.lookup (Text.unquote q.value) <;> rfl
      rw [same]

/-- Properties with different names make a symbolizer of a kind in every order if they make one at all, and the same but for
the letters of a shield's label. These also are the same just if the properties do not ask for two kinds of them, under the
name that a shield has for them and under the other name that every label has. -/
theorem symbolizer_perm_iff {kind : Kind} {symbolized : Symbolizer} (valid : ∀ p ∈ ps, vocabulary.isValid kind p.name)
    (distinct : (ps.map Property.name).Nodup) (built : symbolizer kind ps = .ok symbolized) :
    (∀ qs, ps.Perm qs → ∃ changed, symbolizer kind qs = .ok changed ∧ untransformed changed = untransformed symbolized) ∧
    ((∀ qs, ps.Perm qs → symbolizer kind qs = .ok symbolized) ↔
      ∀ p ∈ ps, ∀ q ∈ ps, kind = .shield → p.name = "shield-transform" → q.name = "shield-text-transform" →
        Text.unquote p.value = Text.unquote q.value) := by
  by_cases shield : kind = .shield
  · subst shield
    obtain ⟨s, read, rfl⟩ := map_ok built
    refine ⟨fun qs perm => ?_, ?_⟩
    · obtain ⟨t, alsoRead⟩ := build_perm perm read
      refine ⟨.shield t, by simp [symbolizer, alsoRead, Except.map], ?_⟩
      exact congrArg Symbolizer.shield (shield_perm_untransformed distinct perm read alsoRead)
    · have same : ∀ qs, symbolizer .shield qs = .ok (.shield s) ↔ build shieldSettings {} qs = .ok s := fun qs =>
        ⟨fun made => by obtain ⟨t, alsoBuilt, equal⟩ := map_ok made; rw [alsoBuilt, Symbolizer.shield.inj equal],
          fun made => by simp [symbolizer, made, Except.map]⟩
      simpa [same] using shield_perm_iff distinct read
  · have every : ∀ qs, ps.Perm qs → symbolizer kind qs = .ok symbolized :=
      fun qs perm => symbolizer_perm valid distinct shield perm built
    exact ⟨fun qs perm => ⟨symbolized, every qs perm, rfl⟩, fun _ p _ q _ isShield => absurd isShield shield,
      fun _ => every⟩

theorem symbolizer_perm_iff_letters :
    let ps : List Property := [⟨"shield-transform", "uppercase", ⟨"map.mss", 1⟩⟩,
      ⟨"shield-text-transform", "lowercase", ⟨"map.mss", 2⟩⟩]
    (∀ p ∈ ps, vocabulary.isValid .shield p.name) ∧ (ps.map Property.name).Nodup ∧
      symbolizer .shield ps = .ok (.shield { text := { transform := .lowercase } }) ∧
      symbolizer .shield ps.reverse = .ok (.shield { text := { transform := .uppercase } }) ∧
      ¬ ∀ qs, ps.Perm qs → symbolizer .shield qs = .ok (.shield { text := { transform := .lowercase } }) := by
  intro ps
  have valid : ∀ p ∈ ps, vocabulary.isValid .shield p.name := by decide +kernel
  have distinct : (ps.map Property.name).Nodup := by decide
  have built : symbolizer .shield ps = .ok (.shield { text := { transform := .lowercase } }) := by decide +kernel
  refine ⟨valid, distinct, built, by decide +kernel, fun same => ?_⟩
  have agree := (symbolizer_perm_iff valid distinct built).2.mp same
  have equal := agree (ps[0]) (by simp [ps]) (ps[1]) (by simp [ps]) rfl rfl rfl
  exact absurd equal (by decide +kernel)

end MapStyle.Mapnik
