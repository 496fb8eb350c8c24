import GraphQL.Proofs.ComplexityBound
import GraphQL.Proofs.Consulting
import GraphQL.Proofs.Turns

/-!
What is remembered makes no difference. Fields are remembered under the name of a type and the nodes
that select them; as names are unique among the types of a schema, and as it is decided alike each
time whether a node takes part, each use of the memory goes on as if the fields were collected afresh.
-/

namespace GraphQL

theorem Scope.looks_decides (scope : Scope) : scope.Looks scope.schema.Decides fun _ => True :=
  ⟨scope.decides_isIncluded, fun _ _ _ _ => trivial⟩

namespace World

variable {σ : Type}

theorem cache_runAction {α : Type} (application : Application σ) (action : Action α)
    (world : World σ) : (action.run (ask application) world).2.cache = world.cache := by
  induction action generalizing world with
  | done result => rfl
  | call asked next ih => exact ih _ _

theorem result_runAction {α : Type} (application : Application σ) (action : Action α)
    (world : World σ) :
    (action.run (ask application) world).1 = (action.run application.answer world.state).1 := by
  induction action generalizing world with
  | done result => rfl
  | call asked next ih => exact ih _ _

/-- What nodes select on a type, when it is collected in a world, whatever is remembered there. -/
def collected (application : Application σ) (setting : Setting) (type : TypeId)
    (nodes : List FieldNode) (world : World σ) : Except Failure Collected :=
  ((setting.scope.collectNodes type nodes).run (ask application) world).1

/-- All that is remembered is what nodes select on a known type, in whatever state. -/
def RemembersSelected (application : Application σ) (setting : Setting) (known : TypeId → Prop)
    (world : World σ) : Prop :=
  ∀ entry ∈ world.cache, ∃ type, known type
    ∧ entry.1.type = (setting.schema.definition type).name
    ∧ ∀ state, ((setting.scope.collectNodes type entry.1.nodes).run application.answer state).1
        = .ok entry.2

variable {application : Application σ} {setting : Setting} {known : TypeId → Prop}
  {world : World σ}

/-- What is remembered for a type is not what the nodes select on another one. -/
theorem collected_of_consult (sound : Sound setting.schema known)
    (remembers : world.RemembersSelected application setting known) {type : TypeId}
    (knownType : known type) {nodes : List FieldNode} {fields : Collected}
    (found : world.consult ⟨(setting.schema.definition type).name, nodes⟩ = some fields) :
    world.collected application setting type nodes = .ok fields := by
  obtain ⟨entry, first, rfl⟩ := Option.map_eq_some_iff.1 found
  have same := List.find?_some first
  obtain ⟨other, knownOther, named, selected⟩ := remembers entry (List.mem_of_find?_eq_some first)
  have nodesSame := SubfieldKey.equals_nodes _ _ same
  rw [SubfieldKey.equals, named, Bool.and_eq_true] at same
  have typeSame := sound.distinct other type knownOther knownType same.1
  rw [nodesSame, typeSame] at selected
  rw [collected, result_runAction]
  exact selected world.state

/-- A use of the memory goes on with what collecting afresh gives, and remembers nothing else. -/
theorem start_subfields (sound : Sound setting.schema known)
    (remembers : world.RemembersSelected application setting known) {type : TypeId}
    (knownType : known type) (nodes : List FieldNode)
    (next : Except Failure Collected → Program) :
    ∃ after, Process.start application (Completion.subfields setting type nodes next) world
        = Process.start application (next (world.collected application setting type nodes)) after
      ∧ ∀ entry ∈ after.cache, entry ∈ world.cache
        ∨ world.collected application setting type nodes = .ok entry.2 := by
  rw [Completion.subfields, Process.start]
  cases found : world.consult ⟨(setting.schema.definition type).name, nodes⟩ with
  | some fields =>
      rw [collected_of_consult sound remembers knownType found]
      exact ⟨world, rfl, fun entry member => .inl member⟩
  | none =>
      have cache := cache_runAction application (setting.scope.collectNodes type nodes) world
      simp only [Process.start_act]
      rw [collected]
      cases result : ((setting.scope.collectNodes type nodes).run (ask application) world).1 with
      | error failure => exact ⟨_, rfl, fun entry member => .inl (cache ▸ member)⟩
      | ok fields =>
          refine ⟨_, by rw [Process.start], fun entry member => ?_⟩
          rcases List.mem_cons.1 member with rfl | before
          · exact .inr rfl
          · exact .inl (cache ▸ before)

/-- What a run remembers is what nodes select, as long as it is decided alike whether they do. -/
theorem remembersSelected_of_keeps {root : TypeId}
    (keeps : world.Keeps (setting.policy world.account root known)) (answered : world.Answered application)
    (alike : AnswersAlike application.answer setting.schema.Decides) :
    world.RemembersSelected application setting known := by
  intro entry member
  obtain ⟨type, knownType, named, yields⟩ := keeps.remembered entry member
  refine ⟨type, knownType, named, fun state => ?_⟩
  exact Action.run_of_yields answered alike _
    (Scope.within_collectNodes setting.scope.looks_decides type entry.1.nodes) yields state

theorem RemembersSelected.of_leads {final : World σ}
    (remembers : final.RemembersSelected application setting known) (leads : world.Leads final) :
    world.RemembersSelected application setting known :=
  fun entry member => remembers entry (leads.cache member)

end World

namespace Request

variable {σ : Type}

/-- Whatever an operation looks up among the remembered fields, it looks up for a type of the schema,
and goes on as if the fields were collected afresh for this type and these nodes; only what was
collected without a failure is remembered. -/
theorem remembered_fields_are_collected_afresh (application : Application σ) (setting : Setting)
    (root : TypeId) (world moment : World σ) (key : SubfieldKey)
    (next : Option Collected → Program)
    (checked : setting.schema.check = .ok ()) (strict : setting.schema.assumeValid = false)
    (rooted : rootType setting.schema setting.environment.operation = .ok root)
    (ready : world.Ready) (answered : world.Answered application)
    (alike : AnswersAlike application.answer setting.schema.Decides)
    (comes : Process.ComesUpon application (Execution.operation setting root) world
      (.consult key next) moment) :
    ∃ type nodes onward, setting.schema.Knows type
      ∧ Program.consult key next = Completion.subfields setting type nodes onward
      ∧ ∃ after, Process.start application (.consult key next) moment
          = Process.start application (onward (moment.collected application setting type nodes))
            after
        ∧ ∀ entry ∈ after.cache, entry ∈ moment.cache
          ∨ moment.collected application setting type nodes = .ok entry.2 := by
  have sound : Sound setting.schema setting.schema.Knows := Schema.sound_of_check checked strict
  have knownRoot : setting.schema.Knows root := Schema.knows_root checked strict rooted
  have keeps := Process.keeps_complete application (Execution.operation setting root) world
    (Execution.obeys_operationIn sound.toClosed _ knownRoot) ready.keeps
  have remembers := (World.remembersSelected_of_keeps keeps
    ((World.invariant_answered application).complete _ answered) alike).of_leads comes.leads
  have consults := comes.consults (Execution.consults_operationIn sound.toClosed _ knownRoot)
  simp only [Program.Consults] at consults
  obtain ⟨type, nodes, onward, knownType, looks⟩ := consults.1
  refine ⟨type, nodes, onward, knownType, looks, ?_⟩
  rw [looks]
  exact World.start_subfields sound remembers knownType nodes onward

end Request

/-- A schema whose only field leads to a list of its own type, with a Boolean of its own. -/
def Schema.listing : Schema := .ofLayout
  { types := #[⟨.str "Query", .object
        (.ok (.ofList [(.str "all", .plain "all" (.list (.named (.declared 0))))])) (.ok []) .absent⟩,
      ⟨.str "Boolean", .scalar (.custom (.function 2) (.function 3) (.function 4))⟩]
    query := some (.named (.declared 0))
    mutation := none
    subscription := none
    extra := []
    directives := Directive.specified
    overrides := [(.boolean, .declared 1)]
    assumeValid := false }

set_option maxRecDepth 10000 in
theorem Schema.check_listing : listing.check = .ok () := by
  have reached : listing.reached = .ok [(.str "Query", .declared 0),
      (.str "Boolean", .declared 1), (.str "String", .standard .string)] := by
    cbv
  unfold check
  rw [reached]
  decide +kernel

/-- A query for the type names of the objects in a list, which are to be skipped. -/
def Operation.skippingNames : Operation where
  start := 0
  kind := .query
  name := none
  variableNodes := []
  directives := []
  selections := [.field 2 none "all" [] []
    [.field 8 none "__typename" [] [⟨19, "skip", [⟨25, "if", .boolean 29 true⟩]⟩] []]]

/-- Lists of two objects, and literals that are read by a rule. -/
def Application.pairs (rule : Bool → Nat → Bool) : Application Nat where
  answer
    | .parseLiteral _ (.boolean _ value) _, left => (.ok (.bool (rule value left)), left - 1)
    | .parseLiteral .., left => (.ok (.bool false), left)
    | _, left => (.ok (.list [.map [], .map []]), left)
  drain _ left := (([], none), left)
  delay _ _ := 0
  finish _ left := (.ok .null, left)

theorem Schema.decided_pairs :
    AnswersAlike (Application.pairs fun value _ => value).answer listing.Decides := by
  rintro _ ⟨_, _, _, literal, _, _, rfl⟩ state other
  cases literal <;> rfl

namespace Request

def settingOfNames : Setting :=
  ⟨({} : Request).environment Schema.listing ⟨[], [.operation .skippingNames]⟩ .skippingNames [],
    false⟩

set_option maxRecDepth 10000 in
/-- The fields of the second object are remembered from the first one. -/
theorem second_item_is_collected_afresh :
    let application := Application.pairs fun value _ => value
    settingOfNames.schema.check = .ok () ∧ settingOfNames.schema.assumeValid = false
      ∧ rootType settingOfNames.schema settingOfNames.environment.operation = .ok (.declared 0)
      ∧ ({ state := 0 } : World Nat).Ready ∧ ({ state := 0 } : World Nat).Answered application
      ∧ AnswersAlike application.answer settingOfNames.schema.Decides
      ∧ ∃ key next moment,
        Process.ComesUpon application (Execution.operation settingOfNames (.declared 0))
            { state := 0 } (.consult key next) moment
          ∧ (moment.consult key).isSome = true
          ∧ ∃ type nodes onward, settingOfNames.schema.Knows type
            ∧ Program.consult key next = Completion.subfields settingOfNames type nodes onward
            ∧ ∃ after, Process.start application (.consult key next) moment
                = Process.start application
                  (onward (moment.collected application settingOfNames type nodes)) after
              ∧ ∀ entry ∈ after.cache, entry ∈ moment.cache
                ∨ moment.collected application settingOfNames type nodes = .ok entry.2 := by
  intro application
  have answered : ({ state := 0 } : World Nat).Answered application := fun _ _ saw => by
    obtain ⟨_, member⟩ := saw
    cases member
  obtain ⟨key, next, moment, comes, found⟩ := Process.comesUpon_of_lookUp? application [0, 1]
    (Execution.operation settingOfNames (.declared 0)) { state := 0 }
    (fun entry => (entry.2.consult entry.1).isSome) (by cbv)
  exact ⟨Schema.check_listing, rfl, rfl, .new 0, answered, Schema.decided_pairs, key, next, moment,
    comes, found, remembered_fields_are_collected_afresh application settingOfNames (.declared 0) _
      moment key next Schema.check_listing rfl rfl (.new 0) answered Schema.decided_pairs comes⟩

set_option maxRecDepth 10000 in
/-- Where a decision is not made again in the same way, remembered fields are not those that would be
collected afresh: the name of the second object is left out since that of the first one was. -/
theorem fickle_decision_is_remembered :
    let application := Application.pairs fun _ left => left = 1
    settingOfNames.schema.check = .ok () ∧ settingOfNames.schema.assumeValid = false
      ∧ rootType settingOfNames.schema settingOfNames.environment.operation = .ok (.declared 0)
      ∧ ∃ key next moment,
        Process.ComesUpon application (Execution.operation settingOfNames (.declared 0))
            { state := 1 } (.consult key next) moment
          ∧ key.type.equals (.str "Query") = true
          ∧ (moment.consult key).any List.isEmpty = true
          ∧ (moment.collected application settingOfNames (.declared 0) key.nodes).map
              (·.map (·.1)) = .ok ["__typename"] := by
  intro application
  obtain ⟨key, next, moment, comes, found⟩ := Process.comesUpon_of_lookUp? application [0, 1]
    (Execution.operation settingOfNames (.declared 0)) { state := 1 }
    (fun entry => entry.1.type.equals (.str "Query")
      && (entry.2.consult entry.1).any List.isEmpty
      && ((entry.2.collected application settingOfNames (.declared 0) entry.1.nodes).map
        (·.map (·.1))).toOption == some ["__typename"]) (by cbv)
  simp only [Bool.and_eq_true, beq_iff_eq] at found
  refine ⟨Schema.check_listing, rfl, rfl, key, next, moment, comes, found.1.1, found.1.2, ?_⟩
  cases fresh : moment.collected application settingOfNames (.declared 0) key.nodes with
  | ok fields =>
      rw [fresh] at found
      exact congrArg Except.ok (Option.some.inj found.2)
  | error failure =>
      rw [fresh] at found
      cases found.2

end Request

end GraphQL
