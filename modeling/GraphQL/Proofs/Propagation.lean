import GraphQL.Proofs.Reported
import Mathlib

/-!
Null propagation. A request that is executed reports the data that is left when nulls spread from the
places that failed, and one error for each of them.
-/

namespace GraphQL

namespace Request

variable {σ : Type}

/-- The data of a response follows from which places failed, and there is one error for each of
them, with its path. Nothing is reported only if something would have to be waited for where nothing
may, or if the fields at the root cannot be collected. -/
theorem nulls_spread_from_failed_places (application : Application σ) (request : Request)
    (schema : Schema) (document : Document) (vars : Variables) (synchronous : Bool)
    (operation : Operation) (root : TypeId) (world : World σ) (report : Report σ)
    (checked : schema.check = .ok ()) (strict : schema.assumeValid = false)
    (chosen : document.choose request.operationName = .ok operation)
    (rooted : rootType schema operation = .ok root) (ready : world.Ready)
    (executed : report
      = request.executeWith application schema document vars synchronous world)
    (plain : schema.WritesPlain report.world.account)
    (ordinary : report.world.account.Ordinary request.root) :
    let setting : Setting := ⟨request.environment schema document operation vars, synchronous⟩
    (∃ place response, Reference.executed setting report.world.account root (.ok place)
        ∧ report.outcome = .ok response
        ∧ place.data? = some response.data
        ∧ response.errors.Perm (place.errors [])
        ∧ (∀ failure ∈ place.failures [], failure.2.path = failure.1)
        ∧ ((place.failures []).map (·.1)).Nodup)
      ∨ (synchronous = true
        ∧ Reference.executed setting report.world.account root (.error .asynchronous)
        ∧ ∃ refusal, report.outcome = .error refusal)
      ∨ ∃ failure, (setting.scope.collect root operation.selections).Yields report.world.account
          (.error failure)
        ∧ failure.isUrgent = true ∧ report.outcome = .error (.failed failure) := by
  intro setting
  rw [executeWith_eq application request vars synchronous world checked chosen rooted] at executed
  have sound : Sound setting.schema setting.schema.Knows := Schema.sound_of_check checked strict
  have knownRoot : setting.schema.Knows root := Schema.knows_root checked strict rooted
  -- The report agrees with the place at the root, or with the failure that is raised there.
  rcases agrees_of_carryOut application operation.kind.rootOrder root sound
    knownRoot world ready report executed plain with
    ⟨place, data, placed, shown, outcome, alike⟩ | ⟨failure, awaited, raised, outcome⟩
  · rcases Reference.apart_of_executed sound knownRoot ordinary place placed with
      ⟨paths, distinct, apart⟩
    exact .inl ⟨place, _, placed, outcome, shown, alike apart, paths, distinct⟩
  · rcases Reference.raised_of_executed sound knownRoot ordinary failure raised with
      ⟨nowhere, rfl⟩ | ⟨collected, urgent, waits⟩
    · exact .inr (.inl ⟨nowhere, raised, _, outcome⟩)
    · refine .inr (.inr ⟨failure, collected, urgent, ?_⟩)
      rw [outcome]
      cases failure with
      | asynchronous => exact absurd rfl waits
      | _ => rfl

end Request

/-- A field without arguments that a function resolves. -/
def Field.plain (name : String) (type : TypeRef) : Field where
  name := .str name
  type := .ok type
  arguments := .ok .empty
  resolve := .function 0
  complexity := .absent
  deprecated := none

/-- A schema with one object type, whose fields lead back to it, one of them in any case. -/
def Schema.guarded : Schema := .ofLayout
  { types := #[⟨.str "Query", .object
      (.ok (.ofList [(.str "a", .plain "a" (.named (.declared 0))),
        (.str "b", .plain "b" (.nonNull (.named (.declared 0))))])) (.ok []) .absent⟩]
    query := some (.named (.declared 0))
    mutation := none
    subscription := none
    extra := []
    directives := Directive.specified
    overrides := []
    assumeValid := false }

set_option maxRecDepth 10000 in
theorem Schema.check_guarded : guarded.check = .ok () := by
  have reached : guarded.reached = .ok [(.str "Query", .declared 0),
      (.str "Boolean", .standard .boolean), (.str "String", .standard .string)] := by
    cbv
  unfold check
  rw [reached]
  decide +kernel

/-- A query for a field that is never null inside one that may be. -/
def Operation.nested : Operation where
  start := 0
  kind := .query
  name := none
  variableNodes := []
  directives := []
  selections := [.field 2 none "a" [] [] [.field 6 none "b" [] [] [.field 10 none "a" [] [] []]]]

/-- Resolvers that find an object a number of times, and fail from then on. -/
def Application.faltering : Application Nat where
  answer _ left :=
    (if left = 0 then .error (.thrown ⟨.key, some "lost", none, [], 0⟩) else .ok (.map []),
      left - 1)
  drain _ left := (([], none), left)
  delay _ _ := 0
  finish _ left := (.ok .null, left)

/-- What an application does that finds objects or fails, all of it at once. -/
def Event.isPlain : Event → Bool
  | .called asked (.ok (.map [])) => asked.info?.isSome
  | .called _ (.error (.thrown thrown)) => !(Failure.thrown thrown).halts
  | .resolving _ | .resolved .. | .listed .. | .recorded _ => true
  | _ => false

theorem Event.isPlain_called (asked : Call) (reply : Reply)
    (plain : (called asked reply).isPlain = true) :
    (reply = .ok (.map []) ∧ asked.info?.isSome = true)
      ∨ ∃ thrown : Thrown, reply = .error (.thrown thrown)
        ∧ (Failure.thrown thrown).halts = false := by
  unfold isPlain at plain
  split at plain
  · next same =>
      cases same
      exact .inl ⟨rfl, plain⟩
  · next thrown same =>
      cases same
      exact .inr ⟨thrown, rfl, by simpa using plain⟩
  · next same => cases same
  · next same => cases same
  · next same => cases same
  · next same => cases same
  · cases plain

theorem World.ordinary_of_isPlain {σ : Type} (world : World σ)
    (plain : ∀ event, world.Saw event → event.isPlain = true) : world.account.Ordinary .null := by
  refine ⟨Value.Bare.null.harmless, fun asked value saw => ?_, fun asked failure saw => ?_,
    fun handle items fault saw => ?_, fun handle items failure saw => ?_,
    fun ticket value came => ?_, fun ticket failure came => ?_⟩
  · rcases Event.isPlain_called asked _ (plain _ saw) with ⟨same, _⟩ | ⟨thrown, same, _⟩
    · cases same
      exact Value.Bare.map.harmless
    · cases same
  · rcases Event.isPlain_called asked _ (plain _ saw) with ⟨same, _⟩ | ⟨thrown, same, handled⟩
    · cases same
    · cases same
      exact Failure.ordinary_of_kind _ handled fun _ same => by cases same
  · cases plain _ saw
  · cases plain _ saw
  · rcases came with ⟨waiter, launched, _⟩
    cases plain _ launched
  · rcases came with ⟨waiter, launched, _⟩
    cases plain _ launched

theorem World.writesPlain_of_isPlain {σ : Type} {schema : Schema} (world : World σ)
    (plain : ∀ event, world.Saw event → event.isPlain = true)
    (unlisted : ∀ leaf values, (schema.definition leaf).body ≠ .enum (.ok values)) :
    schema.WritesPlain world.account := by
  refine schema.writesPlain _ (fun id value form saw => ?_) fun leaf values body =>
    absurd body (unlisted leaf values)
  rcases Event.isPlain_called _ _ (plain _ saw) with ⟨_, some_⟩ | ⟨thrown, same, _⟩
  · cases some_
  · cases same

namespace Request

/-- The nested query, where an object is found for the outer field only. -/
def nested : Report Nat :=
  ({} : Request).executeWith Application.faltering Schema.guarded ⟨[], [.operation .nested]⟩ [] false
    { state := 1 }

theorem nested_eq : nested = carryOut Application.faltering false
    (Execution.operationIn
      ⟨({} : Request).environment Schema.guarded ⟨[], [.operation .nested]⟩ .nested [], false⟩
      .sideBySide (.declared 0)) { state := 1 } :=
  executeWith_eq _ _ _ _ _ Schema.check_guarded rfl rfl

set_option maxRecDepth 10000 in
theorem isPlain_nested (event : Event) (saw : nested.world.Saw event) : event.isPlain = true := by
  rcases saw with ⟨time, member⟩
  have all : nested.world.past.all (fun entry => entry.2.isPlain) = true := by
    rw [nested_eq]
    cbv
  exact List.all_eq_true.1 all _ member

theorem writesPlain_nested : Schema.guarded.WritesPlain nested.world.account := by
  refine World.writesPlain_of_isPlain nested.world isPlain_nested fun leaf values body => ?_
  rcases leaf with _ | _ | _ <;> cases body

set_option maxRecDepth 10000 in
theorem nulls_spread_to_outer_field :
    nested.world.account.Ordinary .null
      ∧ Schema.guarded.WritesPlain nested.world.account
      ∧ ∃ place response,
        Reference.executed
            ⟨({} : Request).environment Schema.guarded ⟨[], [.operation .nested]⟩ .nested [], false⟩
            nested.world.account (.declared 0) (.ok place)
          ∧ nested.outcome = .ok response
          ∧ place.data? = some response.data
          ∧ response.errors.Perm (place.errors [])
          ∧ (∀ failure ∈ place.failures [], failure.2.path = failure.1)
          ∧ ((place.failures []).map (·.1)).Nodup := by
  have ordinary := World.ordinary_of_isPlain nested.world isPlain_nested
  refine ⟨ordinary, writesPlain_nested, ?_⟩
  have answered : nested.outcome.toOption.isSome = true := by
    rw [nested_eq]
    cbv
  rcases nulls_spread_from_failed_places Application.faltering {} Schema.guarded
    ⟨[], [.operation .nested]⟩ [] false .nested (.declared 0) { state := 1 } nested
    Schema.check_guarded rfl rfl rfl (.new 1) rfl writesPlain_nested ordinary with
    found | ⟨waits, _⟩ | ⟨failure, _, _, refused⟩
  · exact found
  · cases waits
  · rw [refused] at answered
    cases answered

end Request

/-- A schema whose booleans are read by a function of the application. -/
def Schema.overridden : Schema := .ofLayout
  { types := #[⟨.str "Query", .object
      (.ok (.ofList [(.str "a", .plain "a" (.named (.standard .string)))])) (.ok []) .absent⟩,
      ⟨.str "Boolean", .scalar (.custom (.function 0) (.function 1) (.function 2))⟩]
    query := some (.named (.declared 0))
    mutation := none
    subscription := none
    extra := []
    directives := Directive.specified
    overrides := [(.boolean, .declared 1)]
    assumeValid := false }

set_option maxRecDepth 10000 in
theorem Schema.check_overridden : overridden.check = .ok () := by
  have reached : overridden.reached = .ok [(.str "Query", .declared 0),
      (.str "String", .standard .string), (.str "Boolean", .declared 1)] := by
    cbv
  unfold check
  rw [reached]
  decide +kernel

def Operation.conditional : Operation where
  start := 0
  kind := .query
  name := none
  variableNodes := []
  directives := []
  selections := [.field 2 none "a" [] [⟨4, "include", [⟨13, "if", .boolean 17 true⟩]⟩] []]

namespace Request

/-- A query whose only field is included on a condition that cannot be read. -/
def conditional : Report Nat :=
  ({} : Request).executeWith Application.faltering Schema.overridden
    ⟨[], [.operation .conditional]⟩ [] false { state := 0 }

theorem conditional_eq : conditional = carryOut Application.faltering false
    (Execution.operationIn
      ⟨({} : Request).environment Schema.overridden ⟨[], [.operation .conditional]⟩ .conditional [],
        false⟩
      .sideBySide (.declared 0)) { state := 0 } :=
  executeWith_eq _ _ _ _ _ Schema.check_overridden rfl rfl

set_option maxRecDepth 10000 in
/-- A condition at the root that fails to be read otherwise than by a response error leaves no
response. -/
theorem failed_root_is_raised :
    Schema.overridden.check = .ok () ∧ Schema.overridden.assumeValid = false
      ∧ conditional.world.account.Ordinary .null
      ∧ Schema.overridden.WritesPlain conditional.world.account
      ∧ ¬ ∃ response, conditional.outcome = .ok response := by
  have plain : ∀ event, conditional.world.Saw event → event.isPlain = true := by
    rintro event ⟨time, member⟩
    have all : conditional.world.past.all (fun entry => entry.2.isPlain) = true := by
      rw [conditional_eq]
      cbv
    exact List.all_eq_true.1 all _ member
  refine ⟨Schema.check_overridden, rfl, World.ordinary_of_isPlain _ plain,
    World.writesPlain_of_isPlain _ plain fun leaf values body => ?_, ?_⟩
  · rcases leaf with _ | _ | _ | _ <;> cases body
  · rintro ⟨response, answered⟩
    have refused : conditional.outcome.toOption.isSome = false := by
      rw [conditional_eq]
      cbv
    rw [answered] at refused
    cases refused

end Request

end GraphQL
