import MapStyle.Proofs.FontSet.Registry
import MapStyle.Proofs.Workers.Turns
/-!
Callers that ask for font sets in turns. A set is looked up in one turn and registered in another, so that several callers
may miss the same key; still each key has one set, and the sets are numbered in the order of registration.
-/
namespace MapStyle
variable {α β : Type}

def Activity.answer? : Activity β → Option (Nat × β)
  | .busy item (.done result) _ => some (item, result)
  | _ => none

def Worker.answers (worker : Worker β) : List (Nat × β) := worker.results ++ worker.activity.answer?.toList

def Pool.answers (pool : Pool β) : List (Nat × β) := pool.workers.flatMap Worker.answers

theorem Worker.proceed_fonts (scope : Scope) (shared : Shared) (item : Nat) (task : Task β) (missed : Bool) :
    (proceed scope shared item task missed).2.fonts = shared.fonts ∨
      ∃ faces, (proceed scope shared item task missed).2.fonts = (shared.fonts.getOrCreate faces).2 := by
  cases task with
  | done result => exact Or.inl rfl
  | value expr next =>
    cases missed with
    | true => exact Or.inl rfl
    | false =>
      rw [proceed]
      split <;> exact Or.inl rfl
  | fontSet faces next =>
    cases missed with
    | true => exact Or.inr ⟨faces, rfl⟩
    | false =>
      rw [proceed]
      split <;> exact Or.inl rfl

namespace Pool
variable (scope : Scope) (items : List α) (job : Nat → α → Task β) (pool : Pool β)

theorem step_fonts (n : Nat) : (pool.step scope items job n).shared.fonts = pool.shared.fonts ∨
    ∃ faces, (pool.step scope items job n).shared.fonts = (pool.shared.fonts.getOrCreate faces).2 := by
  rcases step_cases scope items job pool n with ⟨same, -⟩ | ⟨worker, -, -, turn⟩
  · rw [same]
    exact Or.inl rfl
  · generalize pool.step scope items job n = later at turn
    cases turn with
    | claimed item isReady isNext => exact Or.inl rfl
    | stopped isReady isNone => exact Or.inl rfl
    | completed item result missed isBusy => exact Or.inl rfl
    | proceeded item task missed isBusy asks proceeds =>
      have fonts := Worker.proceed_fonts scope pool.shared item task missed
      rwa [proceeds] at fonts

theorem step_registers (n : Nat) : ∃ new, new.length ≤ 1 ∧
    (pool.step scope items job n).shared.fonts.entries = pool.shared.fonts.entries ++ new := by
  rcases step_fonts scope items job pool n with same | ⟨faces, asked⟩
  · exact ⟨[], Nat.zero_le 1, by rw [same, List.append_nil]⟩
  · rcases pool.shared.fonts.getOrCreate_cases faces with ⟨-, same⟩ | ⟨-, -, added⟩
    · exact ⟨[], Nat.zero_le 1, by rw [asked, same, List.append_nil]⟩
    · exact ⟨[_], Nat.le_refl 1, by rw [asked, added]⟩

theorem run_registers (schedule : List Nat) :
    pool.shared.fonts.entries <+: (pool.run scope items job schedule).shared.fonts.entries := by
  induction schedule generalizing pool with
  | nil => exact List.prefix_rfl
  | cons n rest ih =>
    obtain ⟨new, -, same⟩ := step_registers scope items job pool n
    exact List.IsPrefix.trans ⟨new, same.symm⟩ (ih (pool.step scope items job n))

variable {pool}

theorem step_numbered (numbered : pool.shared.fonts.Numbered) (n : Nat) :
    (pool.step scope items job n).shared.fonts.Numbered := by
  rcases step_fonts scope items job pool n with same | ⟨faces, asked⟩
  · rwa [same]
  · rw [asked]
    exact numbered.getOrCreate faces

theorem run_numbered (numbered : pool.shared.fonts.Numbered) (schedule : List Nat) :
    (pool.run scope items job schedule).shared.fonts.Numbered := by
  induction schedule generalizing pool with
  | nil => exact numbered
  | cons n rest ih => exact ih (step_numbered scope items job numbered n)

end Pool

namespace FontSets

/-- A call asks for the set of a value, and comes to that set. -/
def call (_ : Nat) (value : String) : Task FontSet := .fontSet value .done

/-- The callers after the turns of a schedule, when nothing was registered before. Each makes the calls that it claims, one
after the other; as many callers as calls are as good as callers that make one call each. -/
def called (scope : Scope) (cache : ValueCache) (threads : Nat) (values : List String) (schedule : List Nat) : Pool FontSet :=
  (Pool.start threads values.length ⟨cache, empty⟩).run scope values call schedule

theorem proceed_call (scope : Scope) (shared : Shared) (item : Nat) (value : String) (missed : Bool) :
    Worker.proceed scope shared item (call item value) missed = (.busy item (call item value) true, shared) ∨
      Worker.proceed scope shared item (call item value) missed =
        (.busy item (.done (shared.fonts.getOrCreate value).1) false,
          { shared with fonts := (shared.fonts.getOrCreate value).2 }) := by
  cases missed with
  | true => exact Or.inr rfl
  | false =>
    cases found : shared.fonts.find? value with
    | none => exact Or.inl (by simp only [call, Worker.proceed, found])
    | some set => exact Or.inr (by simp only [call, Worker.proceed, found, getOrCreate_again found])

def Calls (values : List String) : Activity FontSet → Prop
  | .busy item task _ => (∃ set, task = .done set) ∨ ∃ value, values[item]? = some value ∧ task = call item value
  | _ => True

/-- The answers are registered, each for the value of its call, and nothing else is. -/
structure Answered (values : List String) (pool : Pool FontSet) : Prop where
  calls : ∀ worker ∈ pool.workers, Calls values worker.activity
  found : ∀ answer ∈ pool.answers, ∃ value, values[answer.1]? = some value ∧ pool.shared.fonts.find? value = some answer.2
  keys : ∀ key ∈ pool.shared.fonts.keys, ∃ answer ∈ pool.answers, ∃ value, values[answer.1]? = some value ∧
    FontSet.key value = key

section answered
variable {scope : Scope} {values : List String} {pool later : Pool FontSet} {n : Nat} {worker next : Worker FontSet}

theorem Answered.turn (answered : Answered values pool) (found : pool.workers[n]? = some worker)
    (workers : later.workers = (pool.setWorker n next).workers) (calls : Calls values next.activity)
    (answers : next.answers = worker.answers) (fonts : later.shared.fonts = pool.shared.fonts) : Answered values later := by
  have perm : later.answers.Perm pool.answers := by
    have all := Pool.flatMap_setWorker Worker.answers found (answers.trans (List.append_nil _).symm)
    rw [← workers, List.append_nil] at all
    exact all
  constructor
  · intro other member
    rw [workers] at member
    rcases List.mem_or_eq_of_mem_set member with isOld | rfl
    · exact answered.calls other isOld
    · exact calls
  · intro answer member
    rw [fonts]
    exact answered.found answer (perm.mem_iff.mp member)
  · intro key member
    rw [fonts] at member
    obtain ⟨answer, isAnswer, known⟩ := answered.keys key member
    exact ⟨answer, perm.mem_iff.mpr isAnswer, known⟩

theorem Answered.answer (answered : Answered values pool) (found : pool.workers[n]? = some worker)
    (workers : later.workers = (pool.setWorker n next).workers) {item : Nat} {value : String} (asked : values[item]? = some value)
    (activity : next.activity = .busy item (.done (pool.shared.fonts.getOrCreate value).1) false)
    (results : next.results = worker.results) (unanswered : worker.activity.answer? = none)
    (fonts : later.shared.fonts = (pool.shared.fonts.getOrCreate value).2) : Answered values later := by
  have answers : next.answers = worker.answers ++ [(item, (pool.shared.fonts.getOrCreate value).1)] := by
    rw [Worker.answers, Worker.answers, activity, results, unanswered]
    simp [Activity.answer?]
  have perm : later.answers.Perm (pool.answers ++ [(item, (pool.shared.fonts.getOrCreate value).1)]) := by
    have all := Pool.flatMap_setWorker Worker.answers found answers
    rwa [← workers] at all
  have isNew : (item, (pool.shared.fonts.getOrCreate value).1) ∈ later.answers := perm.mem_iff.mpr (by simp)
  constructor
  · intro other member
    rw [workers] at member
    rcases List.mem_or_eq_of_mem_set member with isOld | rfl
    · exact answered.calls other isOld
    · rw [activity]
      exact Or.inl ⟨_, rfl⟩
  · intro answer member
    rw [fonts]
    rcases List.mem_append.mp (perm.mem_iff.mp member) with isOld | inNew
    · obtain ⟨old, isOld, known⟩ := answered.found answer isOld
      exact ⟨old, isOld, getOrCreate_keeps known⟩
    · obtain rfl := List.mem_singleton.mp inNew
      exact ⟨value, asked, getOrCreate_stores⟩
  · intro key member
    rw [fonts] at member
    rcases mem_keys_getOrCreate.mp member with isOld | rfl
    · obtain ⟨answer, isAnswer, known⟩ := answered.keys key isOld
      exact ⟨answer, perm.mem_iff.mpr (List.mem_append_left _ isAnswer), known⟩
    · exact ⟨_, isNew, value, asked, rfl⟩

theorem step_answered (answered : Answered values pool) (n : Nat) : Answered values (pool.step scope values call n) := by
  rcases Pool.step_cases scope values call pool n with ⟨same, -⟩ | ⟨worker, found, -, turn⟩
  · rwa [same]
  · generalize pool.step scope values call n = later at turn
    have own := answered.calls worker (List.mem_of_getElem? found)
    cases turn with
    | claimed value isReady isNext =>
      apply answered.turn found
      · rfl
      · exact Or.inr ⟨value, isNext, rfl⟩
      · simp [Worker.answers, isReady, Activity.answer?, call]
      · rfl
    | stopped isReady isNone =>
      apply answered.turn found
      · rfl
      · trivial
      · simp [Worker.answers, isReady, Activity.answer?]
      · rfl
    | completed item set missed isBusy =>
      apply answered.turn found
      · rfl
      · trivial
      · simp [Worker.answers, isBusy, Activity.answer?]
      · rfl
    | @proceeded item task missed isBusy asks activity shared proceeds =>
      rw [isBusy] at own
      rcases own with ⟨set, isDone⟩ | ⟨value, asked, rfl⟩
      · exact absurd isDone (asks set)
      · rcases proceed_call scope pool.shared item value missed with misses | gets
        · obtain ⟨rfl, rfl⟩ := Prod.mk.inj (misses.symm.trans proceeds)
          apply answered.turn found
          · rfl
          · exact Or.inr ⟨value, asked, rfl⟩
          · simp [Worker.answers, isBusy, Activity.answer?, call]
          · rfl
        · obtain ⟨rfl, rfl⟩ := Prod.mk.inj (gets.symm.trans proceeds)
          apply answered.answer found
          · rfl
          · exact asked
          · rfl
          · rfl
          · simp [isBusy, Activity.answer?, call]
          · rfl

theorem run_answered (answered : Answered values pool) (schedule : List Nat) :
    Answered values (pool.run scope values call schedule) := by
  induction schedule generalizing pool with
  | nil => exact answered
  | cons n rest ih => exact ih (step_answered answered n)

theorem start_answered (cache : ValueCache) (threads : Nat) :
    Answered values (Pool.start threads values.length ⟨cache, empty⟩) := by
  have idle : ∀ worker ∈ (Pool.start threads values.length ⟨cache, empty⟩ : Pool FontSet).workers, worker = Worker.start :=
    fun worker member => List.eq_of_mem_replicate member
  constructor
  · intro worker member
    rw [idle worker member]
    trivial
  · intro answer member
    obtain ⟨worker, isWorker, inside⟩ := List.mem_flatMap.mp member
    rw [idle worker isWorker] at inside
    simp [Worker.answers, Worker.start, Activity.answer?] at inside
  · simp [Pool.start, FontSets.keys, empty]

end answered

section called
variable (scope : Scope) (cache : ValueCache) (threads : Nat) (values : List String) (schedule : List Nat)

theorem called_fonts : (called scope cache threads values schedule).shared.fonts.Numbered :=
  Pool.run_numbered scope values call empty_numbered schedule

theorem called_answered : Answered values (called scope cache threads values schedule) :=
  run_answered (start_answered cache threads) schedule

theorem called_append (more : List Nat) : called scope cache threads values (schedule ++ more) =
    (called scope cache threads values schedule).run scope values call more := List.foldl_append

theorem called_extends (more : List Nat) : (called scope cache threads values schedule).shared.fonts.entries <+:
    (called scope cache threads values (schedule ++ more)).shared.fonts.entries := by
  rw [called_append]
  exact Pool.run_registers scope values call _ more

theorem called_list (more : List Nat) : ∃ new, new.length ≤ more.length ∧
    (called scope cache threads values (schedule ++ more)).shared.fonts.list =
      (called scope cache threads values schedule).shared.fonts.list ++ new := by
  induction more generalizing schedule with
  | nil => exact ⟨[], Nat.le_refl 0, by simp⟩
  | cons n rest ih =>
    obtain ⟨one, atMost, added⟩ := Pool.step_registers scope values call (called scope cache threads values schedule) n
    obtain ⟨others, fewer, same⟩ := ih (schedule ++ [n])
    have here : (called scope cache threads values (schedule ++ [n])).shared.fonts.entries =
        (called scope cache threads values schedule).shared.fonts.entries ++ one := by
      rw [called_append]
      exact added
    refine ⟨one.map Prod.snd ++ others, ?_, ?_⟩
    · simp only [List.length_append, List.length_map, List.length_cons]
      omega
    · rw [List.append_cons, same, (called_fonts _ _ _ _ _).list_eq, (called_fonts _ _ _ _ _).list_eq, registered, here,
        List.map_append, List.append_assoc, registered]

/-- What holds of the registered sets and of the answers that the callers of `values` have got. -/
structure Served (values : List String) (pool : Pool FontSet) : Prop where
  names : pool.shared.fonts.list.map FontSet.name =
    (List.range pool.shared.fonts.keys.length).map fun n => FontSet.nameOf (n + 1)
  distinct : pool.shared.fonts.keys.Nodup
  /-- The keys that were inserted are those of the answered calls. -/
  inserted : ∀ key, key ∈ pool.shared.fonts.keys ↔
    ∃ answer ∈ pool.answers, ∃ value, values[answer.1]? = some value ∧ FontSet.key value = key
  single : ∀ key ∈ pool.shared.fonts.keys, ∃! set, (key, set) ∈ pool.shared.fonts.entries
  /-- Calls with one key have got one set, and calls that have got sets with one name have one key. -/
  same : ∀ a ∈ pool.answers, ∀ b ∈ pool.answers, ∃ v w, values[a.1]? = some v ∧ values[b.1]? = some w ∧
    (FontSet.key v = FontSet.key w → a.2 = b.2) ∧ (a.2.name = b.2.name → FontSet.key v = FontSet.key w)
  /-- The list is in the order of registration, whatever order the map hands the sets out in. -/
  listed : ∀ held : List FontSet, held.Perm pool.shared.fonts.registered →
    FontSet.sort held = pool.shared.fonts.registered ∧ pool.shared.fonts.list = pool.shared.fonts.registered

theorem Answered.served {pool : Pool FontSet} {values : List String} (answered : Answered values pool)
    (numbered : pool.shared.fonts.Numbered) : Served values pool where
  names := by
    rw [numbered.list_eq, numbered.names, FontSets.keys, List.length_map]
    rfl
  distinct := numbered.keys
  inserted key := by
    refine ⟨answered.keys key, ?_⟩
    rintro ⟨answer, isAnswer, value, asked, rfl⟩
    obtain ⟨_, askedAgain, found⟩ := answered.found answer isAnswer
    obtain rfl := Option.some.inj (asked.symm.trans askedAgain)
    exact List.mem_map_of_mem (mem_of_find? found)
  single key member := by
    obtain ⟨⟨_, set⟩, isEntry, rfl⟩ := List.mem_map.mp member
    refine ⟨set, isEntry, fun other alsoEntry => ?_⟩
    exact congrArg Prod.snd (List.inj_on_of_nodup_map numbered.keys alsoEntry isEntry rfl)
  same a isAnswer b alsoAnswer := by
    obtain ⟨v, askedFirst, foundFirst⟩ := answered.found a isAnswer
    obtain ⟨w, askedSecond, foundSecond⟩ := answered.found b alsoAnswer
    refine ⟨v, w, askedFirst, askedSecond, fun same => ?_, (numbered.name_eq_iff foundFirst foundSecond).mp⟩
    rw [find?, same] at foundFirst
    exact Option.some.inj (foundFirst.symm.trans foundSecond)
  listed held perm := ⟨numbered.sort_eq perm, numbered.list_eq⟩

/-- Whatever the order of turns was, each key that was inserted has one set, which all its calls have got, and the sets are
numbered from one in the order of creation. They stay as they are in all turns that follow, of which each creates one set
at most, at the end of the list. -/
theorem called_numbered : Served values (called scope cache threads values schedule) ∧ ∀ more : List Nat,
    (∀ value set, (called scope cache threads values schedule).shared.fonts.find? value = some set →
      (called scope cache threads values (schedule ++ more)).shared.fonts.find? value = some set) ∧
    ∃ new, new.length ≤ more.length ∧ (called scope cache threads values (schedule ++ more)).shared.fonts.list =
      (called scope cache threads values schedule).shared.fonts.list ++ new := by
  refine ⟨(called_answered _ _ _ _ _).served (called_fonts _ _ _ _ _), fun more => ⟨fun value set found => ?_, ?_⟩⟩
  · exact find?_of_prefix (called_extends scope cache threads values schedule more) found
  · exact called_list scope cache threads values schedule more

end called

def race : Pool FontSet :=
  called Scope.empty ValueCache.empty 2 ["a", "'a'", "b"] ([0, 1, 0, 1, 0, 1] ++ [0, 1, 0, 0, 0, 0])

theorem called_numbered_race : (0, ⟨"fontset-1", ["a"]⟩) ∈ race.answers ∧
    (∃ set, (1, set) ∈ race.answers ∧ set = ⟨"fontset-1", ["a"]⟩) ∧
    race.shared.fonts.find? "a" = some ⟨"fontset-1", ["a"]⟩ ∧
    FontSet.sort [⟨"fontset-2", ["b"]⟩, ⟨"fontset-1", ["a"]⟩] = race.shared.fonts.registered := by
  obtain ⟨served, -⟩ := called_numbered Scope.empty ValueCache.empty 2 ["a", "'a'", "b"]
    ([0, 1, 0, 1, 0, 1] ++ [0, 1, 0, 0, 0, 0])
  obtain ⟨-, stays⟩ := called_numbered Scope.empty ValueCache.empty 2 ["a", "'a'", "b"] [0, 1, 0, 1, 0, 1]
  have first : (0, ⟨"fontset-1", ["a"]⟩) ∈ race.answers := by decide
  have second : (1, ⟨"fontset-1", ["a"]⟩) ∈ race.answers := by decide
  obtain ⟨v, w, askedFirst, askedSecond, equal, -⟩ := served.same _ first _ second
  obtain rfl := Option.some.inj askedFirst
  obtain rfl := Option.some.inj askedSecond
  refine ⟨first, ⟨_, second, (equal (by decide)).symm⟩, (stays [0, 1, 0, 0, 0, 0]).1 "a" _ (by decide), ?_⟩
  exact (served.listed _ (List.Perm.swap _ _ [])).1

end FontSets
end MapStyle
