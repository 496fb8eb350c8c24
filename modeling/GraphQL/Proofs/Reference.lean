import GraphQL.Execution.Operation
import GraphQL.Proofs.Account
import GraphQL.Proofs.Content

/-!
What executing an operation means. Given what the application answers, each place of the response has
a computation of its own, which fails or fills the place; nothing here waits, records an error or
lets a null spread. What the response shows and which errors it lists follows from the places.
-/

namespace GraphQL

/-- The results that a computation can have. -/
abbrev Results (α : Type) := Except Failure α → Prop

namespace Results

variable {α β : Type}

def pure (value : α) : Results α := fun result => result = .ok value

def fail (failure : Failure) : Results α := fun result => result = .error failure

def bind (first : Results α) (next : α → Results β) : Results β := fun result =>
  (∃ failure, first (.error failure) ∧ result = .error failure)
    ∨ ∃ value, first (.ok value) ∧ next value result

/-- The values of several computations, or the failure of one of them. -/
def together (each : List (Results α)) : Results (List α)
  | .ok values => List.Forall₂ (fun results value => results (.ok value)) each values
  | .error failure => ∃ results ∈ each, results (.error failure)

theorem bind_ok {first : Results α} {next : α → Results β} {value : β}
    (found : first.bind next (.ok value)) :
    ∃ middle, first (.ok middle) ∧ next middle (.ok value) := by
  rcases found with ⟨failure, _, failed⟩ | found
  · cases failed
  · exact found

theorem bind_error {first : Results α} {next : α → Results β} {failure : Failure}
    (found : first.bind next (.error failure)) :
    first (.error failure) ∨ ∃ middle, first (.ok middle) ∧ next middle (.error failure) := by
  rcases found with ⟨other, failed, same⟩ | found
  · cases same
    exact .inl failed
  · exact .inr found

theorem bind_assoc {γ : Type} (first : Results α) (next : α → Results β) (last : β → Results γ) :
    (first.bind next).bind last = first.bind fun value => (next value).bind last := by
  funext result
  refine propext ⟨fun found => ?_, fun found => ?_⟩
  · rcases found with ⟨failure, failed, same⟩ | ⟨value, given, later⟩
    · rcases bind_error failed with here | ⟨middle, given, failed⟩
      · exact .inl ⟨failure, here, same⟩
      · exact .inr ⟨middle, given, .inl ⟨failure, failed, same⟩⟩
    · rcases bind_ok given with ⟨middle, given, next⟩
      exact .inr ⟨middle, given, .inr ⟨value, next, later⟩⟩
  · rcases found with ⟨failure, failed, same⟩ | ⟨middle, given, later⟩
    · exact .inl ⟨failure, .inl ⟨failure, failed, rfl⟩, same⟩
    · rcases later with ⟨failure, failed, same⟩ | ⟨value, next, later⟩
      · exact .inl ⟨failure, .inr ⟨middle, given, failed⟩, same⟩
      · exact .inr ⟨value, .inr ⟨middle, given, next⟩, later⟩

end Results

/-- Whether a failure ends the whole execution. -/
def Failure.halts (failure : Failure) : Bool :=
  failure.isFatal || failure.kind = .asynchronous

/-- A place whose content is computed. A failure stays with the place, unless it ends everything. -/
def Results.placed (type : TypeRef) (nodes : List FieldNode) (path : ResponsePath)
    (results : Results Content) : Results Place
  | .error failure => results (.error failure) ∧ failure.halts = true
  | .ok place =>
    (∃ failure, results (.error failure) ∧ failure.halts = false
      ∧ place = .failed type.isNonNull (failure.locate (nodes.map (·.start)) path.toList))
    ∨ ∃ content, results (.ok content) ∧ place = .filled type.isNonNull content

namespace Results

/-- Whatever fails in a computation ends everything. -/
def Halting {α : Type} (results : Results α) : Prop :=
  ∀ failure, results (.error failure) → failure.halts = true

theorem halting_placed (type : TypeRef) (nodes : List FieldNode) (path : ResponsePath)
    (results : Results Content) : (results.placed type nodes path).Halting :=
  fun _ failed => failed.2

end Results

namespace Reference

variable (setting : Setting) (account : Account)

/-- What is handed over comes at once, or it is deferred and comes to its result. -/
def handed (value : Value) : Results Value :=
  match value with
  | .deferred ticket => if setting.synchronous then .fail .asynchronous else account.came ticket
  | value => .pure value

def called (slot : Slot) (asked : Nat → Call) : Results Value :=
  match slot with
  | .function id => account.called (asked id)
  | .other value => .fail (.value (.uncallable value.typeName))
  | .absent => .fail (.value (.uncallable Value.null.typeName))

/-- The type that deferred tests decide for. -/
def decided (deferred : List (TypeId × Nat)) : Results (Option TypeId) :=
  let tickets := (deferred.map (·.2)).eraseDups
  if deferred.isEmpty then .pure none
  else if setting.synchronous then .fail .asynchronous
  else Results.bind (account.Awaited tickets) fun results =>
    .pure (RuntimeType.firstHolding deferred (tickets.zip results))

/-- The possible type that claims a value: the first that does so at once, else the first whose
deferred test holds. -/
def claimant (info : Info) (value : Value) :
    List (TypeId × Slot) → List (TypeId × Nat) → Results (Option TypeId)
  | [], deferred => decided setting account deferred
  | (type, test) :: rest, deferred =>
    (called account test fun id => .isTypeOf id type value info).bind fun
      | .deferred ticket => claimant info value rest (deferred ++ [(type, ticket)])
      | answer =>
        if answer.isTruthy then .pure (some type) else claimant info value rest deferred

def typeByDefault (info : Info) (abstract : TypeId) (value : Value) : Results Value :=
  match value.get? "__typename" with
  | some (.str name) => .pure (.str name)
  | _ =>
    match setting.schema.possibleTypes abstract with
    | .error fault => .fail (.schema fault)
    | .ok possible =>
      (claimant setting account info value (RuntimeType.tested setting.schema possible) []).bind fun
        | some type => .pure (setting.schema.catalog.value (.named type))
        | none => .pure .null

/-- What is found for the type of a value. -/
def typeFound (info : Info) (abstract : TypeId) (value : Value) : Results Value :=
  let own := (setting.schema.definition abstract).resolveType
  if !own.isUnset then
    (called account own fun id => .resolveType id (some abstract) value info).bind
      (handed setting account)
  else
    match setting.environment.typeResolver with
    | some id =>
      Results.bind (account.called (.resolveType id none value info)) (handed setting account)
    | none => typeByDefault setting account info abstract value

def leaf (type : TypeId) (value : Value) : Results Content :=
  let inEffect := setting.schema.leafInEffect type
  Results.bind ((setting.schema.serialize inEffect value).Yields account) fun form =>
    if form.isNull || form.isUndefined then
      .fail (CompletionProblem.failure
        (.notSerialized (setting.schema.label inEffect) value.shown))
    else .pure (.leaf form)

/-- The test of an object type, if it has one, claims the value. -/
def claimed (info : Info) (type : TypeId) (value : Value) : Results Unit :=
  let test := (setting.schema.definition type).isTypeOf
  if test.isAbsent then .pure ()
  else
    (called account test fun id => .isTypeOf id type value info).bind fun answer =>
      (handed setting account answer).bind fun holds =>
        if holds.isTruthy then .pure ()
        else
          .fail (RuntimeType.problem (.wrongType (setting.schema.label type) value.shown) info)

/-- The contents of objects, with their selected fields. -/
abbrev Objects := TypeId → Value → ResponsePath → Collected → Results Content

variable (below : Objects)

def object (info : Info) (type : TypeId) (path : ResponsePath) (value : Value) : Results Content :=
  (claimed setting account info type value).bind fun _ =>
    Results.bind ((setting.scope.collectNodes type info.nodes).Yields account) fun fields =>
      below type value path fields

def abstract (info : Info) (type : TypeId) (path : ResponsePath) (value : Value) :
    Results Content :=
  (typeFound setting account info type value).bind fun found =>
    match RuntimeType.check setting info type value found with
    | .ok id => object setting account below info id path value
    | .error failure => .fail failure

def named (info : Info) (type : TypeId) (path : ResponsePath) (value : Value) : Results Content :=
  match setting.schema.kindOf type with
  | .scalar | .enum => leaf setting account type value
  | .interface | .union => abstract setting account below info type path value
  | .object => object setting account below info type path value
  | .input => .fail (.assertion (.outputType (setting.schema.shown (.named type))))

/-- The items of a resolved value. -/
def listed (info : Info) (value : Value) : Results (List Value) :=
  match value with
  | .iterator handle => fun result =>
    ∃ items fault, account.drained handle items fault ∧ result = match fault with
      | none => .ok items
      | some failure => .error failure
  | value =>
    match Completion.listItems? value with
    | some items => .pure items
    | none => .fail (Completion.problem info setting .notIterable)

/-- Null does not fill a place that forbids it. -/
def required (info : Info) : Content → Results Content
  | .null => .fail (Completion.problem info setting .nullForNonNull)
  | content => .pure content

/-- What a resolved value makes of a type. -/
def completed (info : Info) (type : TypeRef) (path : ResponsePath) (value : Value) :
    Results Content :=
  match Completion.raised? value with
  | some failure => .fail failure
  | none =>
    match type with
    | .nonNull of => (completed info of path value).bind (required setting info)
    | .list of =>
      if value.isNull then .pure .null
      else
        (listed setting account info value).bind fun items =>
          (Results.together (items.zipIdx.map fun (item, index) =>
            let place := path.extend (.index index)
            Results.placed of info.nodes place
              ((handed setting account item).bind (completed info of place)))).bind fun places =>
                .pure (.list places)
    | .named id =>
      if value.isNull then .pure .null else named setting account below info id path value
    | .broken fault => .fail (.schema fault)

/-- What comes of resolving a field without a resolver. -/
def resolvedByName (source arguments : Value) (info : Info) : Results Value :=
  match (source.get? info.fieldName).getD .null with
  | .callable handle => account.called (.invoke handle arguments info)
  | .method receiver name => fun result =>
    result = (receiver.callMethod name arguments info.environment.context).mapError .value
  | value => .pure value

/-- What comes of resolving a field. -/
def resolved (field : Field) (source arguments : Value) (info : Info) : Results Value :=
  if info.fieldName = Field.typenameName then
    .pure (setting.schema.definition info.parentType).name
  else if !field.resolve.isUnset then
    called account field.resolve fun id => .resolve id source arguments info
  else
    match setting.environment.fieldResolver with
    | some id => account.called (.resolve id source arguments info)
    | none => resolvedByName account source arguments info

def fieldValue (field : Field) (type : TypeRef) (source : Value) (info : Info) (node : FieldNode) :
    Results Content :=
  let arguments :=
    Input.arguments setting.schema.toLayout setting.environment.vars node.start
      node.arguments field.arguments
  Results.bind (arguments.Yields account) fun bound =>
    (resolved setting account field source (.map bound) info).bind fun value =>
      (handed setting account value).bind (completed setting account below info type info.path)

/-- The place of a field; there is none if the type does not declare the field. -/
def fieldPlace? (parent : TypeId) (source : Value) (path : ResponsePath) (nodes : List FieldNode) :
    Option (Results Place) :=
  nodes.head?.bind fun node =>
    match setting.schema.field? parent node.name with
    | .ok (some field) =>
      match field.type with
      | .ok type =>
        let info : Info := ⟨setting.environment, node.name, nodes, type, parent, path⟩
        some (.placed type nodes path (fieldValue setting account below field type source info node))
      | .error _ => none
    | _ => none

def fieldPlaces (parent : TypeId) (source : Value) (path : Option ResponsePath)
    (fields : Collected) : List (String × Results Place) :=
  fields.filterMap fun (key, nodes) =>
    (fieldPlace? setting account below parent source (.add path (.name key)) nodes).map fun place =>
      (key, place)

theorem halting_fieldPlaces (parent : TypeId) (source : Value) (path : Option ResponsePath)
    (fields : Collected) (results : Results Place)
    (member : results ∈ (fieldPlaces setting account below parent source path fields).map (·.2)) :
    results.Halting := by
  rcases List.mem_map.1 member with ⟨entry, inside, rfl⟩
  rcases List.mem_filterMap.1 inside with ⟨⟨key, nodes⟩, _, found⟩
  rcases Option.map_eq_some_iff.1 found with ⟨results, placed, rfl⟩
  rcases Option.bind_eq_some_iff.1 placed with ⟨node, _, placed⟩
  split at placed
  · split at placed
    · cases placed
      exact Results.halting_placed _ _ _ _
    · cases placed
  · cases placed

/-- The content of an object with the selected fields, with objects nested up to a number of
levels. -/
def selected : (levels : Nat) → TypeId → Value → Option ResponsePath → Collected → Results Content
  | 0, _, _, _, _ => .fail .tooDeep
  | levels + 1, parent, source, path, fields =>
    let below : Objects := fun type value place inner =>
      selected levels type value (some place) inner
    let places := fieldPlaces setting account below parent source path fields
    (Results.together (places.map (·.2))).bind fun found =>
      .pure (.object (places.map (·.1)) found)

/-- The content of the root: the fields that the operation selects on its type. -/
def rootContent (root : TypeId) : Results Content :=
  let environment := setting.environment
  Results.bind
    ((setting.scope.collect root environment.operation.selections).Yields account) fun fields =>
      selected setting account (environment.levels + 1) root environment.root none fields

/-- The root as a place. A response error fails it; any other failure is raised. -/
def executed (root : TypeId) : Results Place
  | .error failure =>
    rootContent setting account root (.error failure) ∧ failure.isUrgent = true
  | .ok place =>
    (∃ error, rootContent setting account root (.error (.response error))
      ∧ place = .failed false error)
    ∨ ∃ content, rootContent setting account root (.ok content) ∧ place = .filled false content

end Reference

end GraphQL
