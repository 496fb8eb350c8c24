import GraphQL.Proofs.Expanding
import GraphQL.Proofs.Synchronous

/-!
Programs that go in parallel. Two programs may ask different things of the application and remember
different fields on their way. If they come to the same decisions, as long as each call is always
answered in the same way, then up to the first point where something has to be waited for they record
the same errors and end in the same way, except that their errors may name different nodes.
-/

namespace GraphQL

/-- The error without the nodes at fault. -/
def ResponseError.unplaced (error : ResponseError) : ResponseError := { error with nodes := [] }

/-- The failure without the nodes at fault. -/
def Failure.unplaced : Failure → Failure
  | response error => response error.unplaced
  | other => other

namespace Failure

theorem kind_unplaced (failure : Failure) : failure.unplaced.kind = failure.kind := by
  cases failure <;> rfl

theorem message_unplaced (failure : Failure) : failure.unplaced.message = failure.message := by
  cases failure <;> rfl

theorem isUrgent_unplaced (failure : Failure) : failure.unplaced.isUrgent = failure.isUrgent := by
  cases failure <;> rfl

theorem unplaced_locate {failure other : Failure} (same : failure.unplaced = other.unplaced)
    (nodes others : List Nat) (path : List PathKey) :
    (failure.locate nodes path).unplaced = (other.locate others path).unplaced := by
  have placed : ∀ (failure : Failure) (nodes : List Nat), (failure.locate nodes path).unplaced
      = (failure.unplaced.locate [] path).unplaced := by
    intro failure nodes
    cases failure with
    | response error =>
        show (if error.path ≠ [] then error else _).unplaced
          = (if error.path ≠ [] then error.unplaced else _).unplaced
        split <;> rfl
    | _ => rfl
  rw [placed failure nodes, placed other others, same]

end Failure

section

variable {α β : Type}

/-- Values that are related, or failures that differ at most in the nodes that they name. -/
inductive Corresponds (related : α → β → Prop) : Except Failure α → Except Failure β → Prop where
  | ok {value : α} {other : β} : related value other → Corresponds related (.ok value) (.ok other)
  | error {failure other : Failure} : failure.unplaced = other.unplaced →
    Corresponds related (.error failure) (.error other)

theorem Corresponds.refl (result : Except Failure α) : Corresponds Eq result result := by
  cases result with
  | ok value => exact .ok rfl
  | error failure => exact .error rfl

theorem Corresponds.swap {related : α → β → Prop} {result : Except Failure α}
    {other : Except Failure β} (corresponds : Corresponds related result other) :
    Corresponds (fun value other => related other value) other result := by
  cases corresponds with
  | ok same => exact .ok same
  | error same => exact .error same.symm

theorem Corresponds.bind {γ δ : Type} {related : α → β → Prop} {after : γ → δ → Prop}
    {result : Except Failure α} {other : Except Failure β} {next : α → Except Failure γ}
    {next' : β → Except Failure δ} (first : Corresponds related result other)
    (each : ∀ value value', related value value' → Corresponds after (next value) (next' value')) :
    Corresponds after (result >>= next) (other >>= next') := by
  cases first with
  | ok same => exact each _ _ same
  | error same => exact .error same

end

/-- How the application answers two programs, and which fields the one and the other remember. -/
structure Pairing where
  answer : Call → Reply
  drain : Nat → List Value × Option Failure
  left : SubfieldKey → Collected → Prop
  right : SubfieldKey → Collected → Prop

/-- The two programs, the other way round. -/
def Pairing.swap (pairing : Pairing) : Pairing :=
  { pairing with left := pairing.right, right := pairing.left }

/-- An effect that records nothing, and remembers nothing but what may be remembered. -/
def Effect.Quiet (remembers : SubfieldKey → Collected → Prop) : Effect → Prop
  | record _ => False
  | remember key fields => remembers key fields
  | _ => True

/-- What may be found under a key. -/
def SubfieldKey.Recalls (remembers : SubfieldKey → Collected → Prop) (key : SubfieldKey)
    (found : Option Collected) : Prop :=
  ∀ fields, found = some fields →
    ∃ other : SubfieldKey, other.equals key = true ∧ remembers other fields

/-- Two programs that record the same errors and end in the same way, but for the nodes at fault, up to
the first point where something has to be waited for. -/
inductive Program.Parallel (pairing : Pairing) : Program → Program → Prop where
  | done {outcome other : Outcome} : Corresponds Eq outcome other →
    Parallel pairing (.done outcome) (.done other)
  | call_left {asked : Call} {next : Reply → Program} {other : Program} :
    Parallel pairing (next (pairing.answer asked)) other → Parallel pairing (.call asked next) other
  | call_right {asked : Call} {next : Reply → Program} {other : Program} :
    Parallel pairing other (next (pairing.answer asked)) → Parallel pairing other (.call asked next)
  | perform_left {effect : Effect} {next other : Program} : effect.Quiet pairing.left →
    Parallel pairing next other → Parallel pairing (.perform effect next) other
  | perform_right {effect : Effect} {next other : Program} : effect.Quiet pairing.right →
    Parallel pairing other next → Parallel pairing other (.perform effect next)
  | record {error error' : ResponseError} {next next' : Program} : error.unplaced = error'.unplaced →
    Parallel pairing next next' →
    Parallel pairing (.perform (.record error) next) (.perform (.record error') next')
  | consult_left {key : SubfieldKey} {next : Option Collected → Program} {other : Program} :
    (∀ found, key.Recalls pairing.left found → Parallel pairing (next found) other) →
    Parallel pairing (.consult key next) other
  | consult_right {key : SubfieldKey} {next : Option Collected → Program} {other : Program} :
    (∀ found, key.Recalls pairing.right found → Parallel pairing other (next found)) →
    Parallel pairing other (.consult key next)
  | drain_left {handle : Nat} {next : List Value → Option Failure → Program} {other : Program} :
    Parallel pairing (next (pairing.drain handle).1 (pairing.drain handle).2) other →
    Parallel pairing (.drain handle next) other
  | drain_right {handle : Nat} {next : List Value → Option Failure → Program} {other : Program} :
    Parallel pairing other (next (pairing.drain handle).1 (pairing.drain handle).2) →
    Parallel pairing other (.drain handle next)
  | wait {ticket ticket' : Nat} {tickets tickets' : List Nat}
    {next next' : Except Failure (List Value) → Program} :
    Parallel pairing (.wait (ticket :: tickets) next) (.wait (ticket' :: tickets') next')
  | join {children others : List Program} {next next' : Except Failure (List Outcome) → Program} :
    children.length = others.length →
    (∀ pair ∈ children.zip others, Parallel pairing pair.1 pair.2) →
    (∀ settled settled', Corresponds (List.Forall₂ (Corresponds Eq)) settled settled' →
      Parallel pairing (next settled) (next' settled')) →
    Parallel pairing (.join children next) (.join others next')

namespace Program

variable {pairing : Pairing}

theorem Parallel.swap {program other : Program} (parallel : program.Parallel pairing other) :
    other.Parallel pairing.swap program := by
  induction parallel with
  | done same =>
      refine .done ?_
      have swapped := same.swap
      simp only [eq_comm] at swapped
      exact swapped
  | call_left _ ih => exact .call_right ih
  | call_right _ ih => exact .call_left ih
  | perform_left quiet _ ih => exact .perform_right quiet ih
  | perform_right quiet _ ih => exact .perform_left quiet ih
  | record same _ ih => exact .record same.symm ih
  | consult_left _ ih => exact .consult_right ih
  | consult_right _ ih => exact .consult_left ih
  | drain_left _ ih => exact .drain_right ih
  | drain_right _ ih => exact .drain_left ih
  | wait => exact .wait
  | join size _ _ each later =>
      refine .join size.symm ?_ ?_
      · rintro ⟨other, child⟩ member
        rw [← List.zip_swap] at member
        obtain ⟨⟨child', other'⟩, inside, same⟩ := List.mem_map.1 member
        cases same
        exact each _ inside
      · intro settled settled' same
        apply later
        cases same with
        | error same => exact .error same.symm
        | ok same =>
            refine .ok (same.flip.imp ?_)
            intro outcome other same
            have swapped := Corresponds.swap same
            simp only [eq_comm] at swapped
            exact swapped

theorem Parallel.andThen {program other : Program} (parallel : program.Parallel pairing other)
    {next next' : Outcome → Program}
    (each : ∀ outcome outcome', Corresponds Eq outcome outcome' →
      (next outcome).Parallel pairing (next' outcome')) :
    (program.andThen next).Parallel pairing (other.andThen next') := by
  induction parallel with
  | done same => exact each _ _ same
  | call_left _ ih => exact .call_left ih
  | call_right _ ih => exact .call_right ih
  | perform_left quiet _ ih => exact .perform_left quiet ih
  | perform_right quiet _ ih => exact .perform_right quiet ih
  | record same _ ih => exact .record same ih
  | consult_left _ ih => exact .consult_left ih
  | consult_right _ ih => exact .consult_right ih
  | drain_left _ ih => exact .drain_left ih
  | drain_right _ ih => exact .drain_right ih
  | wait => exact .wait
  | join size siblings _ _ later => exact .join size siblings later

theorem parallel_succeed (value : Value) : (succeed value).Parallel pairing (succeed value) :=
  .done (.ok rfl)

theorem parallel_fail {failure other : Failure} (same : failure.unplaced = other.unplaced) :
    (fail failure).Parallel pairing (fail other) :=
  .done (.error same)

theorem parallel_act_left {α : Type} (action : Action α) (next : Except Failure α → Program)
    {other : Program} (parallel : (next (action.result pairing.answer)).Parallel pairing other) :
    (act action next).Parallel pairing other := by
  induction action with
  | done result => exact parallel
  | call asked reply ih => exact .call_left (ih _ parallel)

theorem parallel_act {α β : Type} (action : Action α) (action' : Action β)
    (next : Except Failure α → Program) (next' : Except Failure β → Program)
    (parallel : (next (action.result pairing.answer)).Parallel pairing
      (next' (action'.result pairing.answer))) :
    (act action next).Parallel pairing (act action' next') := by
  apply parallel_act_left
  have swapped : (act action' next').Parallel pairing.swap (next (action.result pairing.answer)) :=
    parallel_act_left action' next' parallel.swap
  exact swapped.swap

theorem parallel_act_self {α : Type} (action : Action α) {next next' : Except Failure α → Program}
    (each : ∀ result, (next result).Parallel pairing (next' result)) :
    (act action next).Parallel pairing (act action next') :=
  parallel_act action action next next' (each _)

theorem parallel_await (ticket : Nat) (next next' : Outcome → Program) :
    (await ticket next).Parallel pairing (await ticket next') :=
  .wait

theorem parallel_closing (tickets : List Nat) {program other : Program}
    (parallel : program.Parallel pairing other) :
    (closing tickets program).Parallel pairing (closing tickets other) := by
  unfold closing
  by_cases empty : tickets.isEmpty
  · rw [if_pos empty, if_pos empty]
    exact parallel
  · rw [if_neg empty, if_neg empty]
    exact .perform_left trivial (.perform_right trivial parallel)

theorem parallel_onSuccess {next next' : Value → Program}
    (each : ∀ value, (next value).Parallel pairing (next' value)) {outcome other : Outcome}
    (same : Corresponds Eq outcome other) :
    (onSuccess next outcome).Parallel pairing (onSuccess next' other) := by
  cases same with
  | ok same =>
      subst same
      exact each _
  | error same => exact parallel_fail same

theorem parallel_receive {setting other : Setting} (alike : setting.synchronous = other.synchronous)
    (value : Value) {next next' : Outcome → Program}
    (each : ∀ outcome, (next outcome).Parallel pairing (next' outcome)) :
    (receive setting value next).Parallel pairing (receive other value next') := by
  cases value with
  | deferred ticket =>
      rw [receive, receive, alike]
      by_cases strict : other.synchronous
      · rw [if_pos strict, if_pos strict]
        exact parallel_closing _ (each _)
      · rw [if_neg strict, if_neg strict]
        exact parallel_await ticket next next'
  | _ => exact each _

theorem parallel_bubble {first first' : Failure} (start : first.unplaced = first'.unplaced)
    {failures others : List Failure}
    (same : List.Forall₂ (fun failure other => failure.unplaced = other.unplaced) failures others) :
    (bubble first failures).Parallel pairing (bubble first' others) := by
  induction same with
  | nil => exact parallel_fail start
  | @cons failure other _ _ same _ ih =>
      cases failure with
      | response error =>
          cases other with
          | response error' =>
              rw [Failure.unplaced, Failure.unplaced, Failure.response.injEq] at same
              exact .record same ih
          | _ => cases same
      | _ =>
          cases other with
          | response error' => cases same
          | _ => exact parallel_fail same

theorem parallel_outcomes {outcomes others : List Outcome}
    (same : List.Forall₂ (Corresponds Eq) outcomes others) :
    List.Forall₂ (fun failure other : Failure => failure.unplaced = other.unplaced)
        (outcomes.filterMap Outcome.failure?) (others.filterMap Outcome.failure?)
      ∧ outcomes.filterMap Except.toOption = others.filterMap Except.toOption := by
  induction same with
  | nil => exact ⟨.nil, rfl⟩
  | @cons outcome other _ _ first _ ih =>
      obtain ⟨failures, values⟩ := ih
      cases first with
      | @ok value value' same =>
          subst same
          simp only [List.filterMap_cons, Outcome.failure?, Except.toOption, values]
          refine ⟨?_, trivial⟩
          cases Failure.ofValue? value with
          | none => exact failures
          | some failure => exact .cons rfl failures
      | error same =>
          simp only [List.filterMap_cons, Outcome.failure?, Except.toOption, values]
          exact ⟨.cons same failures, trivial⟩

theorem parallel_gathered (build : List Value → Value) {settled settled' : Except Failure (List Outcome)}
    (same : Corresponds (List.Forall₂ (Corresponds Eq)) settled settled') :
    (gathered build settled).Parallel pairing (gathered build settled') := by
  cases same with
  | error same => exact parallel_fail same
  | ok same =>
      obtain ⟨failures, values⟩ := parallel_outcomes same
      rw [gathered, gathered, values]
      generalize List.filterMap Outcome.failure? _ = left at failures ⊢
      generalize List.filterMap Outcome.failure? _ = right at failures ⊢
      cases failures with
      | nil => exact parallel_succeed _
      | cons first later => exact parallel_bubble first (.cons first later)

theorem parallel_join {children others : List Program} (build : List Value → Value)
    (each : List.Forall₂ (Program.Parallel pairing) children others) :
    (join children (gathered build)).Parallel pairing (join others (gathered build)) := by
  obtain ⟨size, each⟩ := List.forall₂_iff_zip.1 each
  refine .join size ?_ fun settled settled' same => parallel_gathered build same
  rintro ⟨child, other⟩ member
  exact each member

theorem parallel_settle (type : TypeRef) (nodes others : List FieldNode)
    (path : ResponsePath) {outcome other : Outcome} (same : Corresponds Eq outcome other) :
    (settle type nodes path outcome).Parallel pairing (settle type others path other) := by
  cases same with
  | ok same =>
      subst same
      exact parallel_succeed _
  | @error failure failure' same =>
      have kind : failure.kind = failure'.kind := by
        rw [← Failure.kind_unplaced, same, Failure.kind_unplaced]
      have located := Failure.unplaced_locate same (nodes.map (·.start)) (others.map (·.start)) path.toList
      have fatal : failure.isFatal = failure'.isFatal := by
        rw [Failure.isFatal, Failure.isFatal, kind]
      rw [settle, settle, fatal, kind]
      by_cases stops : failure'.isFatal || failure'.kind = .asynchronous
      · rw [if_pos stops, if_pos stops]
        exact parallel_fail same
      · rw [if_neg stops, if_neg stops]
        by_cases needed : type.isNonNull
        · rw [if_pos needed, if_pos needed]
          exact parallel_fail (congrArg Failure.response located)
        · rw [if_neg needed, if_neg needed]
          exact .record located (parallel_succeed _)

end Program

namespace World

variable {σ : Type}

/-- Whether everything in the cache may be remembered. -/
def Recalls (remembers : SubfieldKey → Collected → Prop) (world : World σ) : Prop :=
  ∀ entry ∈ world.cache, remembers entry.1 entry.2

variable {remembers : SubfieldKey → Collected → Prop} {world : World σ}

theorem cache_closeAll (tickets : List Nat) (world : World σ) :
    (tickets.foldl close world).cache = world.cache := by
  induction tickets generalizing world with
  | nil => rfl
  | cons ticket rest ih =>
      rw [List.foldl_cons, ih, close]
      split <;> rfl

theorem cache_record (world : World σ) (error : ResponseError) :
    (world.record error).cache = world.cache := by
  unfold record
  split <;> rfl

theorem recalls_perform {effect : Effect} (quiet : effect.Quiet remembers)
    (recalls : world.Recalls remembers) :
    (world.perform effect).Recalls remembers ∧ (world.perform effect).errors = world.errors := by
  cases effect with
  | resolving path => exact ⟨recalls, rfl⟩
  | resolved path value => exact ⟨recalls, rfl⟩
  | listed path items => exact ⟨recalls, rfl⟩
  | record error => cases quiet
  | close tickets =>
      refine ⟨?_, errors_closeAll tickets world⟩
      intro entry member
      rw [perform, cache_closeAll] at member
      exact recalls entry member
  | remember key fields =>
      refine ⟨?_, rfl⟩
      intro entry member
      rcases List.mem_cons.1 member with rfl | before
      · exact quiet
      · exact recalls entry before

theorem recalls_consult (recalls : world.Recalls remembers) (key : SubfieldKey) :
    key.Recalls remembers (world.consult key) := by
  intro fields found
  obtain ⟨entry, located, rfl⟩ := Option.map_eq_some_iff.1 found
  have equal := List.find?_some located
  exact ⟨entry.1, equal, recalls entry (List.mem_of_find?_eq_some located)⟩

/-- Errors that differ in their nodes only are recorded or left out alike. -/
theorem errors_record_unplaced {world other : World σ} {error error' : ResponseError}
    (errors : world.errors.map (·.unplaced) = other.errors.map (·.unplaced))
    (same : error.unplaced = error'.unplaced) :
    (world.record error).errors.map (·.unplaced) = (other.record error').errors.map (·.unplaced) := by
  have known : ∀ (world : World σ) (error : ResponseError), world.errors.any (·.isSame error)
      = (world.errors.map (·.unplaced)).any (·.isSame error.unplaced) := by
    intro world error
    rw [List.any_map]
    rfl
  unfold record
  rw [known world, known other, errors, same]
  split
  · exact errors
  · simp only [note, List.map_append, List.map_cons, List.map_nil, errors, same]

/-- Two worlds in which the same errors were recorded, but for the nodes at fault. -/
structure Parallel (pairing : Pairing) (world other : World σ) : Prop where
  errors : world.errors.map (·.unplaced) = other.errors.map (·.unplaced)
  left : world.Recalls pairing.left
  right : other.Recalls pairing.right

end World

/-- The application answers as it does in a pairing, whatever its state is. -/
structure Pairing.Answers {σ : Type} (pairing : Pairing) (application : Application σ) : Prop where
  answer : ∀ asked state, (application.answer asked state).1 = pairing.answer asked
  drain : ∀ handle state, (application.drain handle state).1 = pairing.drain handle

namespace Process

variable {σ : Type} {pairing : Pairing} {application : Application σ}

/-- Two processes that are both at their end, or that both have to wait. -/
inductive Parallel : Process → Process → Prop where
  | finished {outcome other : Outcome} : Corresponds Eq outcome other →
    Parallel (finished outcome) (finished other)
  | waiting {slots others : List Pending} {next next' : Except Failure (List Value) → Program} :
    Parallel (waiting slots next) (waiting others next')
  | joining {children others : List Process} {next next' : Except Failure (List Outcome) → Program} :
    Parallel (joining children next) (joining others next')

theorem parallel_outcomes? {processes others : List Process}
    (parallel : List.Forall₂ Parallel processes others) :
    (outcomes? processes = none ∧ outcomes? others = none)
      ∨ ∃ outcomes outcomes', outcomes? processes = some outcomes ∧ outcomes? others = some outcomes'
        ∧ List.Forall₂ (Corresponds Eq) outcomes outcomes' := by
  induction parallel with
  | nil => exact .inr ⟨[], [], rfl, rfl, .nil⟩
  | cons first _ ih =>
      cases first with
      | finished same =>
          obtain ⟨none_, none'⟩ | ⟨outcomes, outcomes', found, found', later⟩ := ih
          · refine .inl ⟨?_, ?_⟩
            · rw [outcomes?, none_]
              rfl
            · rw [outcomes?, none']
              rfl
          · refine .inr ⟨_ :: outcomes, _ :: outcomes', ?_, ?_, .cons same later⟩
            · rw [outcomes?, found]
              rfl
            · rw [outcomes?, found']
              rfl
      | waiting => exact .inl ⟨rfl, rfl⟩
      | joining => exact .inl ⟨rfl, rfl⟩

theorem parallel_urgent? {process other : Process} (parallel : Parallel process other) :
    (process.urgent? = none ∧ other.urgent? = none)
      ∨ ∃ failure failure', process.urgent? = some failure ∧ other.urgent? = some failure'
        ∧ failure.unplaced = failure'.unplaced := by
  cases parallel with
  | finished same =>
      cases same with
      | ok same => exact .inl ⟨rfl, rfl⟩
      | @error failure failure' same =>
          have urgent : failure.isUrgent = failure'.isUrgent := by
            rw [← Failure.isUrgent_unplaced, same, Failure.isUrgent_unplaced]
          rw [urgent?, urgent?, urgent]
          cases failure'.isUrgent with
          | false => exact .inl ⟨rfl, rfl⟩
          | true => exact .inr ⟨failure, failure', rfl, rfl, same⟩
  | waiting => exact .inl ⟨rfl, rfl⟩
  | joining => exact .inl ⟨rfl, rfl⟩

/-- Starting the one program and the other comes to the same. -/
def StartsParallel (pairing : Pairing) (application : Application σ) (program other : Program) :
    Prop :=
  ∀ world world' : World σ, world.Parallel pairing world' →
    Parallel (start application program world).1 (start application other world').1
      ∧ (start application program world).2.Parallel pairing (start application other world').2

theorem parallel_startAll {programs others : List Program}
    (each : List.Forall₂ (StartsParallel pairing application) programs others) (world world' : World σ)
    (worlds : world.Parallel pairing world') :
    Corresponds (List.Forall₂ Parallel) (startAll application programs world).1
        (startAll application others world').1
      ∧ (startAll application programs world).2.Parallel pairing
        (startAll application others world').2 := by
  induction each generalizing world world' with
  | nil => exact ⟨.ok .nil, worlds⟩
  | cons first _ ih =>
      obtain ⟨process, after⟩ := first world world' worlds
      simp only [startAll]
      obtain ⟨calm, calm'⟩ | ⟨failure, failure', urgent, urgent', same⟩ := parallel_urgent? process
      · rw [calm, calm']
        obtain ⟨later, last⟩ := ih _ _ after
        refine ⟨?_, last⟩
        generalize (startAll application _ (start application _ world).2).1 = found at later ⊢
        generalize (startAll application _ (start application _ world').2).1 = found' at later ⊢
        cases later with
        | ok others => exact .ok (.cons process others)
        | error same => exact .error same
      · rw [urgent, urgent']
        exact ⟨.error same, after⟩

/-- Programs in parallel are started in parallel. -/
theorem parallel_start (answers : pairing.Answers application) {program other : Program}
    (parallel : program.Parallel pairing other) : StartsParallel pairing application program other := by
  -- By induction on how the programs are parallel: a step of only one of them records nothing, and
  -- leaves the worlds parallel.
  induction parallel with
  | done same => exact fun world world' worlds => ⟨.finished same, worlds⟩
  | @call_left asked next _ _ ih =>
      intro world world' worlds
      have reply : (world.ask application asked).1 = pairing.answer asked :=
        answers.answer asked world.state
      simp only [start, reply]
      exact ih _ world' ⟨worlds.errors, worlds.left, worlds.right⟩
  | @call_right asked next _ _ ih =>
      intro world world' worlds
      have reply : (world'.ask application asked).1 = pairing.answer asked :=
        answers.answer asked world'.state
      simp only [start, reply]
      exact ih world _ ⟨worlds.errors, worlds.left, worlds.right⟩
  | perform_left quiet _ ih =>
      intro world world' worlds
      obtain ⟨recalls, errors⟩ := World.recalls_perform quiet worlds.left
      simp only [start]
      exact ih _ world' ⟨errors.symm ▸ worlds.errors, recalls, worlds.right⟩
  | perform_right quiet _ ih =>
      intro world world' worlds
      obtain ⟨recalls, errors⟩ := World.recalls_perform quiet worlds.right
      simp only [start]
      exact ih world _ ⟨errors.symm ▸ worlds.errors, worlds.left, recalls⟩
  | record same _ ih =>
      intro world world' worlds
      simp only [start]
      refine ih _ _ ⟨World.errors_record_unplaced worlds.errors same, ?_, ?_⟩
      · intro entry member
        exact worlds.left entry (World.cache_record world _ ▸ member)
      · intro entry member
        exact worlds.right entry (World.cache_record world' _ ▸ member)
  | @consult_left key _ _ _ ih =>
      intro world world' worlds
      simp only [start]
      exact ih _ (World.recalls_consult worlds.left key) world world' worlds
  | @consult_right key _ _ _ ih =>
      intro world world' worlds
      simp only [start]
      exact ih _ (World.recalls_consult worlds.right key) world world' worlds
  | @drain_left handle _ _ _ ih =>
      intro world world' worlds
      have taken : (world.drain application handle).1 = pairing.drain handle :=
        answers.drain handle world.state
      simp only [start, taken]
      exact ih _ world' ⟨worlds.errors, worlds.left, worlds.right⟩
  | @drain_right handle _ _ _ ih =>
      intro world world' worlds
      have taken : (world'.drain application handle).1 = pairing.drain handle :=
        answers.drain handle world'.state
      simp only [start, taken]
      exact ih world _ ⟨worlds.errors, worlds.left, worlds.right⟩
  | wait => exact fun world world' worlds => ⟨.waiting, worlds⟩
  | join size _ _ each later =>
      intro world world' worlds
      have siblings := List.forall₂_iff_zip.2 ⟨size, fun {child other} member => each (child, other) member⟩
      obtain ⟨found, after⟩ := parallel_startAll siblings world world' worlds
      simp only [start]
      generalize startAll application _ world = started at found after ⊢
      generalize startAll application _ world' = started' at found after ⊢
      obtain ⟨started, world⟩ := started
      obtain ⟨started', world'⟩ := started'
      cases found with
      | error same => exact later _ _ (.error same) world world' after
      | ok processes =>
          obtain ⟨open_, open'⟩ | ⟨outcomes, outcomes', closed, closed', same⟩ :=
            parallel_outcomes? processes
          · simp only [open_, open']
            exact ⟨.joining, after⟩
          · simp only [closed, closed']
            exact later _ _ (.ok same) world world' after

end Process

/-- What a response shows but for the places in the source: its data, and the messages and paths of its
errors. -/
def Response.told (response : Response) : Value × List (String × List PathKey) :=
  (response.data, response.errors.map fun error => (error.message, error.path))

/-- What a report shows but for the places in the source: its response, or why there is none. -/
def Report.told {σ : Type} (report : Report σ) : Except String (Value × List (String × List PathKey)) :=
  match report.outcome with
  | .ok response => .ok response.told
  | .error refusal => .error refusal.message

namespace Request

variable {σ : Type} {pairing : Pairing}

theorem told_of_unplaced {errors others : List ResponseError}
    (same : errors.map (·.unplaced) = others.map (·.unplaced)) :
    (errors.map fun error => (error.message, error.path))
      = others.map fun error => (error.message, error.path) := by
  have shown := congrArg (List.map fun error : ResponseError => (error.message, error.path)) same
  rw [List.map_map, List.map_map] at shown
  exact shown

theorem told_respond (synchronous : Bool) {outcome other : Outcome} (same : Corresponds Eq outcome other)
    {world world' : World σ} (worlds : world.Parallel pairing world') :
    (respond synchronous false outcome world).told = (respond synchronous false other world').told := by
  cases same with
  | @ok data data' same =>
      subst same
      have errors := told_of_unplaced worlds.errors
      show Except.ok (data, _) = Except.ok (data, _)
      rw [errors]
  | @error failure failure' same =>
      have message : failure.message = failure'.message := by
        rw [← Failure.message_unplaced, same, Failure.message_unplaced]
      cases failure with
      | asynchronous =>
          cases failure' with
          | asynchronous => rfl
          | _ => cases same
      | _ =>
          cases failure' with
          | asynchronous => cases same
          | _ => exact congrArg Except.error message

/-- Programs in parallel are reported alike, unless they have to be awaited. -/
theorem told_carryOut {application : Application σ} (answers : pairing.Answers application)
    (synchronous : Bool) {program other : Program} (parallel : program.Parallel pairing other)
    {world world' : World σ} (worlds : world.Parallel pairing world') :
    (carryOut application synchronous program world).awaited
        = (carryOut application synchronous other world').awaited
      ∧ ((carryOut application synchronous program world).awaited = false →
        (carryOut application synchronous program world).told
          = (carryOut application synchronous other world').told) := by
  have started := Process.parallel_start answers parallel world world' worlds
  generalize begun : Process.start application program world = found at started
  generalize begun' : Process.start application other world' = found' at started
  obtain ⟨process, after⟩ := found
  obtain ⟨process', after'⟩ := found'
  obtain ⟨processes, ends⟩ := started
  have awaits : ∀ {program : Program} {world after : World σ} {process : Process},
      Process.start application program world = (process, after) →
      (∀ outcome, (Process.launch application process after).1 ≠ .finished outcome) →
      (carryOut application synchronous program world).awaited = true := by
    intro program world after process begun waits
    have unfinished : ∀ outcome, (Process.begin application program world).1 ≠ .finished outcome := by
      intro outcome
      rw [Process.begin, begun]
      exact waits outcome
    rw [carryOut_of_unfinished application synchronous unfinished, awaited_respond]
  dsimp only at processes ends
  cases processes with
  | finished same =>
      rw [carryOut_of_finished application synchronous begun,
        carryOut_of_finished application synchronous begun', awaited_respond, awaited_respond]
      exact ⟨rfl, fun _ => told_respond synchronous same ends⟩
  | waiting =>
      have left := awaits begun (fun outcome same => by cases same)
      have right := awaits begun' (fun outcome same => by cases same)
      rw [left, right]
      exact ⟨rfl, fun prompt => by cases prompt⟩
  | joining =>
      have left := awaits begun (fun outcome same => by cases same)
      have right := awaits begun' (fun outcome same => by cases same)
      rw [left, right]
      exact ⟨rfl, fun prompt => by cases prompt⟩

end Request

end GraphQL
