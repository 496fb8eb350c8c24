import GraphQL.Proofs.DepthLimit
import GraphQL.Proofs.Faultless
import GraphQL.Proofs.Moments
import GraphQL.Proofs.Propagation

/-!
What the check of a schema is good for. A request on a schema that was built and checked is never
answered with an error, and never fails with one, that reports the schema as wrong, as long as what
stands for the scalars of every schema is well formed as well.
-/

namespace GraphQL

variable {σ : Type}

namespace Input

theorem blameless_variableError (node : VariableNode) (problem : VariableProblem) :
    (variableError node problem).Blameless := by
  intro kind same
  cases problem <;> cases same
  rfl

theorem blameless_bindVariables {schema : Schema} {account : Account} (raw : List (Value × Value))
    (nodes : List VariableNode) (made : Variables) (errors found : List ResponseError)
    (before : ∀ error ∈ errors, error.Blameless)
    (yields : (bindVariables schema raw nodes made errors).Yields account (.ok (.error found))) :
    ∀ error ∈ found, error.Blameless := by
  induction nodes generalizing made errors with
  | nil =>
      cases errors with
      | nil => cases yields
      | cons first rest =>
          cases yields
          exact before
  | cons node rest ih =>
      obtain ⟨binding, _, later⟩ := Action.yields_bind _ _ _ yields
      cases binding with
      | bound value => exact ih _ _ before later
      | omitted => exact ih _ _ before later
      | refused problem =>
          refine ih _ _ (fun error inside => ?_) later
          obtain earlier | last := List.mem_append.1 inside
          · exact before error earlier
          · rw [List.mem_singleton.1 last]
            exact blameless_variableError node problem

end Input

namespace Cost

theorem blameless_exceeded (measure found : String) (limit : Int) (operation : Operation) :
    (exceeded measure limit found operation).Blameless := by
  rintro kind ⟨⟩
  rfl

theorem blameless_checkComplexity {scope : Scope} {account : Account} {root : Value}
    {types : TypeRef → Prop} {known : TypeId → Prop} (blameless : account.Blameless root)
    (prepares : scope.schema.Prepares (fun _ => True) Failure.Blameless types known)
    (operation : Operation) (limits : Limits) (errors : List ResponseError)
    (yields : (checkComplexity scope operation limits).Yields account (.ok errors)) :
    ∀ error ∈ errors, error.Blameless := by
  unfold checkComplexity at yields
  split at yields
  · obtain ⟨result, cost, later⟩ := Action.yields_andThen _ _ _ yields
    split at later
    · obtain ⟨exceeds, _, later⟩ := Action.yields_bind _ _ _ later
      split at later
      · cases later
        exact List.forall_mem_singleton.2 (blameless_exceeded _ _ _ _)
      · cases later
        exact fun error inside => by cases inside
    · next error =>
        cases later
        have fair := Action.blameless_of_yields blameless _
          (within_complexity prepares operation) _ cost
        exact List.forall_mem_singleton.2 (fair.error error rfl)
    · cases later
  · cases yields
    exact fun error inside => by cases inside

theorem blameless_check {scope : Scope} {account : Account} {root : Value}
    {types : TypeRef → Prop} {known : TypeId → Prop} (blameless : account.Blameless root)
    (prepares : scope.schema.Prepares (fun _ => True) Failure.Blameless types known)
    (operation : Operation) (limits : Limits) (errors : List ResponseError)
    (yields : (check scope operation limits).Yields account (.ok errors)) :
    ∀ error ∈ errors, error.Blameless := by
  obtain ⟨others, complexity, same⟩ := Action.yields_bind _ _ _ yields
  cases same
  refine List.forall_mem_append.2 ⟨fun error inside => ?_,
    blameless_checkComplexity blameless prepares operation limits others complexity⟩
  unfold checkDepth at inside
  split at inside
  · simp only at inside
    split at inside
    · rw [List.mem_singleton.1 inside]
      exact blameless_exceeded _ _ _ _
    · cases inside
  · cases inside

end Cost

/-- A report in which no schema is blamed, neither by what a request fails with nor by an error of
its response. -/
structure Report.Blameless (report : Report σ) : Prop where
  failure : ∀ failure, report.outcome = .error (.failed failure) → failure.Blameless
  errors : ∀ response, report.outcome = .ok response → ∀ error ∈ response.errors, error.Blameless

namespace Report

theorem blameless_rejected {errors : List ResponseError}
    (each : ∀ error ∈ errors, error.Blameless) (world : World σ) :
    (Request.report world false (.ok (.rejected errors))).Blameless :=
  ⟨fun _ same => (by cases same), fun _ same => by cases same; exact each⟩

theorem blameless_failed {failure : Failure} (fair : failure.Blameless) (world : World σ) :
    (Request.report world false (.error (.failed failure))).Blameless :=
  ⟨fun _ same => (by cases same; exact fair), fun _ same => by cases same⟩

theorem blameless_respond (synchronous awaited : Bool) {outcome : Outcome}
    (fair : Outcome.Blameless outcome) {world : World σ} (fits : world.Fits ResponseError.Blameless) :
    (Request.respond synchronous awaited outcome world).Blameless := by
  unfold Request.respond
  split
  · exact ⟨fun _ same => (by cases same), fun _ same => by cases same; exact fits⟩
  · refine ⟨fun failure same => ?_, fun _ same => by cases same⟩
    split at same
    · cases same
    · cases same
      exact Failure.blameless_asynchronous
  · exact ⟨fun _ same => (by cases same; exact fair _ rfl), fun _ same => by cases same⟩

end Report

theorem World.errors_runAction {α : Type} (application : Application σ) (action : Action α)
    (world : World σ) : (action.run (World.ask application) world).2.errors = world.errors := by
  induction action generalizing world with
  | done result => rfl
  | call asked next ih => exact ih _ _

namespace Request

variable {schema : Schema}

theorem blameless_rejected_singleton {error : ResponseError} (none_ : error.origin = none)
    (world : World σ) : (report world false (.ok (.rejected [error]))).Blameless := by
  refine Report.blameless_rejected (List.forall_mem_singleton.2 fun kind same => ?_) world
  rw [none_] at same
  cases same

theorem blameless_executeWith (application : Application σ) (request : Request)
    (trusted : schema.Trusted) (document : Document) (vars : Variables) (synchronous : Bool)
    (world : World σ) (fits : world.Fits ResponseError.Blameless)
    (blameless : (request.executeWith application schema document vars synchronous
      world).world.account.Blameless request.root) :
    (request.executeWith application schema document vars synchronous world).Blameless := by
  cases chosen : document.choose request.operationName with
  | error fault =>
      simp only [executeWith, trusted.checked, chosen]
      exact blameless_rejected_singleton rfl world
  | ok operation =>
      cases rooted : rootType schema operation with
      | error error =>
          simp only [executeWith, trusted.checked, chosen, rooted]
          refine blameless_rejected_singleton ?_ world
          unfold rootType at rooted
          split at rooted
          · cases rooted
          · cases rooted
            rfl
      | ok root =>
          rw [executeWith_eq application request vars synchronous world trusted.checked chosen
            rooted] at blameless ⊢
          have knows := Schema.knows_root trusted.checked trusted.strict rooted
          let setting : Setting := ⟨request.environment schema document operation vars, synchronous⟩
          have trusted : setting.schema.Trusted := trusted
          obtain ⟨awaited, outcome, same, fair, fits⟩ :=
            upholds_of_carryOut application synchronous _ world
              (Execution.blamesNone_operationIn trusted blameless operation.kind.rootOrder root knows)
              fits
          rw [same]
          exact Report.blameless_respond synchronous awaited fair fits

theorem blameless_runDocument (application : Application σ) (request : Request)
    (trusted : schema.Trusted) (document : Document) (world : World σ)
    (fits : world.Fits ResponseError.Blameless)
    (blameless : (request.runDocument application schema document
      world).world.account.Blameless request.root) :
    (request.runDocument application schema document world).Blameless := by
  have prepares := trusted.prepares mild_blameless (fun _ _ => trivial) fun fault =>
    Failure.blameless_of_kind rfl fun _ same => by cases same
  cases chosen : document.choose request.operationName with
  | error fault =>
      simp only [runDocument, chosen]
      exact blameless_rejected_singleton rfl world
  | ok operation =>
      have yields := World.yields_of_runAction application
        (request.prepare schema document operation) world
      have kept := World.errors_runAction application (request.prepare schema document operation) world
      simp only [runDocument, chosen] at blameless ⊢
      generalize (request.prepare schema document operation).run (World.ask application) world
        = prepared at blameless yields kept ⊢
      obtain ⟨result, later⟩ := prepared
      cases result with
      | error failure =>
          exact Report.blameless_failed (Action.blameless_of_yields blameless _
            (within_prepare prepares request document operation) failure (yields _ (.refl _))) _
      | ok found =>
          cases found with
          | error errors =>
              refine Report.blameless_rejected ?_ later
              obtain ⟨coerced, bound, rest⟩ := Action.yields_bind _ _ _ (yields _ (.refl _))
              cases coerced with
              | error refused =>
                  cases rest
                  exact Input.blameless_bindVariables _ _ _ _ _ (fun _ inside => by cases inside)
                    bound
              | ok vars =>
                  obtain ⟨exceeding, cost, rest⟩ := Action.yields_bind _ _ _ rest
                  split at rest
                  · cases rest
                  · cases rest
                    exact Cost.blameless_check blameless prepares _ _ _ cost
          | ok vars =>
              exact blameless_executeWith application request trusted document vars false later
                (fun error inside => fits error (kept ▸ inside)) blameless

/-- A schema that was built and passed its check is never reported as wrong, if what stands for the
scalars of every schema would pass the check as well: no request on it fails with such an error, or is
answered with one. -/
theorem checked_schema_is_never_blamed (application : Application σ) (request : Request)
    (declared : SchemaDeclaration) (schema : Schema) (world : World σ)
    (built : declared.schema = .ok schema) (strict : declared.assumeValid = false)
    (checked : schema.check = .ok ())
    (everywhere : ∀ scalar ∈ Standard.everywhere,
      schema.checkDefinition (schema.definition (schema.leafInEffect (.standard scalar))) = .ok ())
    (fresh : world.errors = []) :
    (∀ document vars synchronous report,
      report = request.executeWith application schema document vars synchronous world →
      report.world.account.Blameless request.root → report.Blameless)
    ∧ ∀ document report, report = request.runDocument application schema document world →
      report.world.account.Blameless request.root → report.Blameless := by
  have made := Schema.built_of_schema built
  have trusted : schema.Trusted :=
    ⟨checked, made.assumeValid.trans strict, made.overridesLeaves, made.namesValues, everywhere⟩
  have fits : world.Fits ResponseError.Blameless := fun error inside => by
    rw [fresh] at inside
    cases inside
  refine ⟨?_, ?_⟩
  · rintro document vars synchronous report rfl blameless
    exact blameless_executeWith application request trusted document vars synchronous world fits
      blameless
  · rintro document report rfl blameless
    exact blameless_runDocument application request trusted document world fits blameless

end Request

/-- An event in which the application hands over nothing but errors that blame no schema. -/
def Event.isFair : Event → Bool
  | .called _ (.error (.thrown thrown)) => !thrown.kind.blames
  | .called .. | .drained .. | .launched .. => false
  | _ => true

theorem World.blameless_of_isFair (world : World σ)
    (fair : ∀ event, world.Saw event → event.isFair = true) {root : Value}
    (harmless : root.Blameless) : world.account.Blameless root where
  root := harmless
  replies asked value saw := by cases fair _ saw
  failures asked failure saw := by
    have kind := fair _ saw
    cases failure with
    | thrown thrown =>
        simp only [Event.isFair, Bool.not_eq_true'] at kind
        exact Failure.blameless_of_kind kind fun _ same => by cases same
    | _ => cases kind
  items handle items fault saw := by cases fair _ saw
  faults handle items failure saw := by cases fair _ saw
  results ticket value came := by
    obtain ⟨waiter, launched, _⟩ := came
    cases fair _ launched
  refusals ticket failure came := by
    obtain ⟨waiter, launched, _⟩ := came
    cases fair _ launched

/-- A schema whose texts are an enum, declared with the given names. -/
def SchemaDeclaration.naming (names : List Value) : SchemaDeclaration where
  types := [
    ⟨.str "Query", .object
      (.listed [(.str "a", .declared
        ⟨.named (.standard .int), .none, .function 0, .absent, none, none⟩)])
      (.listed []) .absent⟩,
    ⟨.str "String", .enum (.names names)⟩]
  query := some (.named (.declared 0))
  directives := []
  overrides := [.named (.declared 1)]

/-- What becomes of it. -/
def Schema.naming (names : List Value) : Schema := .ofLayout
  { types := ((SchemaDeclaration.naming names).types.map
      (Declaration.typeDef (.ofDeclarations (SchemaDeclaration.naming names).types))).toArray
    query := some (.named (.declared 0))
    mutation := none
    subscription := none
    extra := []
    directives := []
    overrides := [(.string, .declared 1)]
    assumeValid := false }

theorem SchemaDeclaration.schema_naming (names : List Value) :
    (naming names).schema = .ok (.naming names) := by
  cbv

set_option maxRecDepth 10000 in
theorem Schema.check_naming (names : List Value) : (naming names).check = .ok () := by
  have reached : (naming names).reached = .ok [(.str "Query", .declared 0),
      (.str "Int", .standard .int)] := by
    cbv
  unfold check
  rw [reached]
  cbv

/-- A query for a field, and for the name of its type. -/
def Operation.self : Operation where
  start := 0
  kind := .query
  name := none
  variableNodes := []
  directives := []
  selections := [.field 2 none "a" [] [] [], .field 4 none "__typename" [] [] []]

namespace Request

def self (names : List Value) : Report Nat :=
  ({} : Request).executeWith Application.faltering (.naming names) ⟨[], [.operation .self]⟩ [] false
    { state := 0 }

theorem self_eq (names : List Value) : self names = carryOut Application.faltering false
    (Execution.operationIn
      ⟨({} : Request).environment (.naming names) ⟨[], [.operation .self]⟩ .self [], false⟩
      .sideBySide (.declared 0)) { state := 0 } :=
  executeWith_eq Application.faltering {} [] false { state := 0 } (Schema.check_naming names) rfl rfl

/-- The kinds of the failures that a response reports. -/
def origins (report : Report σ) : List (Option FailureKind) :=
  (report.outcome.toOption.map fun response => response.errors.map (·.origin)).getD []

theorem blamed_of_origins {report : Report σ} {kind : FailureKind}
    (member : some kind ∈ origins report) (blames : kind.blames = true) : ¬ report.Blameless := by
  intro blameless
  unfold origins at member
  cases answered : report.outcome with
  | error refusal =>
      rw [answered] at member
      cases member
  | ok response =>
      rw [answered] at member
      obtain ⟨error, inside, same⟩ := List.mem_map.1 member
      rw [blameless.errors response answered error inside kind same] at blames
      cases blames

theorem origins_self : origins (self [.str "Query"]) = [some .key] := by
  rw [self_eq]
  exact of_decide_eq_true
    (carryOut_of_within 1 (fun report => decide (origins report = [some .key])) (by decide +kernel))

theorem blameless_self (names : List Value)
    (fair : (self names).world.past.all (fun entry => entry.2.isFair) = true) :
    (self names).world.account.Blameless .null :=
  World.blameless_of_isFair _ (fun _ ⟨_, member⟩ => List.all_eq_true.1 fair _ member)
    Value.Bare.null.blameless

theorem isFair_self :
    (self [.str "Query"]).world.past.all (fun entry => entry.2.isFair) = true := by
  rw [self_eq]
  exact carryOut_of_within 1 (fun report => report.world.past.all fun entry => entry.2.isFair)
    (by decide +kernel)

/-- Texts that are an enum of all the names that are asked for are written by it. -/
theorem named_texts_are_never_blamed :
    (SchemaDeclaration.naming [.str "Query"]).schema = .ok (.naming [.str "Query"])
      ∧ (Schema.naming [.str "Query"]).check = .ok ()
      ∧ (∀ scalar ∈ Standard.everywhere, (Schema.naming [.str "Query"]).checkDefinition
        ((Schema.naming [.str "Query"]).definition
          ((Schema.naming [.str "Query"]).leafInEffect (.standard scalar))) = .ok ())
      ∧ (self [.str "Query"]).world.account.Blameless .null
      ∧ origins (self [.str "Query"]) = [some .key]
      ∧ (self [.str "Query"]).Blameless
      ∧ (({} : Request).runDocument Application.faltering (.naming [.str "Query"])
        ⟨[], [.operation .self]⟩ { state := 0 }).Blameless := by
  have everywhere : ∀ scalar ∈ Standard.everywhere, (Schema.naming [.str "Query"]).checkDefinition
      ((Schema.naming [.str "Query"]).definition
        ((Schema.naming [.str "Query"]).leafInEffect (.standard scalar))) = .ok () := by
    decide +kernel
  have blameless := blameless_self _ isFair_self
  have never := checked_schema_is_never_blamed Application.faltering {}
    (SchemaDeclaration.naming [.str "Query"]) (.naming [.str "Query"]) { state := 0 }
    (SchemaDeclaration.schema_naming _) rfl (Schema.check_naming _) everywhere rfl
  exact ⟨SchemaDeclaration.schema_naming _, Schema.check_naming _, everywhere, blameless,
    origins_self, never.1 _ [] false _ rfl blameless, never.2 _ _ rfl blameless⟩

/-- An enum that takes the place of a scalar is checked only if the schema leads to it. A name that is
no text is found out when the name of a type is asked for. -/
theorem unreached_enum_is_blamed :
    (SchemaDeclaration.naming [.str "Query", .int 5]).schema
        = .ok (.naming [.str "Query", .int 5])
      ∧ (Schema.naming [.str "Query", .int 5]).check = .ok ()
      ∧ (self [.str "Query", .int 5]).world.account.Blameless .null
      ∧ ¬ (self [.str "Query", .int 5]).Blameless := by
  have told : origins (self [.str "Query", .int 5]) = [some .key, some .invariant] := by
    rw [self_eq]
    exact of_decide_eq_true
      (carryOut_of_within 1 (fun report => decide (origins report = [some .key, some .invariant]))
        (by decide +kernel))
  have fair : (self [.str "Query", .int 5]).world.past.all (fun entry => entry.2.isFair) = true := by
    rw [self_eq]
    exact carryOut_of_within 1 (fun report => report.world.past.all fun entry => entry.2.isFair)
      (by decide +kernel)
  have blamed : some .invariant ∈ origins (self [.str "Query", .int 5]) := by
    rw [told]
    exact List.mem_cons_of_mem _ List.mem_cons_self
  exact ⟨SchemaDeclaration.schema_naming _, Schema.check_naming _, blameless_self _ fair,
    blamed_of_origins blamed rfl⟩

end Request

end GraphQL
