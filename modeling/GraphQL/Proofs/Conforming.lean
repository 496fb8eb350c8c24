import GraphQL.Proofs.Propagation

/-!
Data that conforms to an operation. Wherever errors were met, the data of a response has the shape
that the schema and the selections prescribe: nothing is null where a type forbids it, a list has an
entry for each item, and an object has a key for each field that its type declares.
-/

namespace GraphQL

/-- The form that a leaf type in effect gives to what it writes. -/
structure Schema.Forms (schema : Schema) (leaf : TypeId) (form : Value) : Prop where
  standard : ∀ scalar, leaf = .standard scalar → scalar.Form form
  enum : ∀ values, (schema.definition leaf).body = .enum (.ok values) →
    ∃ own ∈ values.items, form = own.name

/-- The resolved values of a field. -/
def Reference.fieldResult (setting : Setting) (account : Account) (field : Field) (source : Value)
    (info : Info) (node : FieldNode) : Results Value :=
  let arguments :=
    Input.arguments setting.schema.toLayout setting.environment.vars node.start
      node.arguments field.arguments
  Results.bind (arguments.Yields account) fun bound =>
    (resolved setting account field source (.map bound) info).bind (handed setting account)

section

variable (setting : Setting) (account : Account)

mutual

/-- Data that a type may show for a resolved value. Any place that may be null may have failed. -/
inductive Conforms : Info → TypeRef → ResponsePath → Value → Value → Prop
  | null {info : Info} {type : TypeRef} {path : ResponsePath} {value : Value} :
    type.isNonNull = false → Conforms info type path value .null
  | nonNull {info : Info} {of : TypeRef} {path : ResponsePath} {value data : Value} :
    Conforms info of path value data → data ≠ .null → Conforms info (.nonNull of) path value data
  | list {info : Info} {of : TypeRef} {path : ResponsePath} {value : Value}
      {items data : List Value} :
    Reference.listed setting account info value (.ok items) → ItemsConform info of path 0 items data →
    Conforms info (.list of) path value (.list data)
  | leaf {info : Info} {id : TypeId} {path : ResponsePath} {value form : Value} :
    setting.schema.kindOf id = .scalar ∨ setting.schema.kindOf id = .enum →
    (setting.schema.serialize (setting.schema.leafInEffect id) value).Yields account (.ok form) →
    setting.schema.Forms (setting.schema.leafInEffect id) form → form ≠ .null →
    Conforms info (.named id) path value form
  | abstract {info : Info} {id type : TypeId} {path : ResponsePath} {value data : Value} :
    setting.schema.kindOf id = .interface ∨ setting.schema.kindOf id = .union →
    setting.schema.isPossible id type = .ok true → setting.schema.kindOf type = .object →
    ObjectConforms info type path value data → Conforms info (.named id) path value data
  | object {info : Info} {id : TypeId} {path : ResponsePath} {value data : Value} :
    setting.schema.kindOf id = .object → ObjectConforms info id path value data →
    Conforms info (.named id) path value data

/-- Data of a place to which a value is handed over, or which failed. -/
inductive PlaceConforms : Info → TypeRef → ResponsePath → Results Value → Value → Prop
  | failed {info : Info} {type : TypeRef} {path : ResponsePath} {offered : Results Value} :
    type.isNonNull = false → PlaceConforms info type path offered .null
  | filled {info : Info} {type : TypeRef} {path : ResponsePath} {offered : Results Value}
      {value data : Value} :
    offered (.ok value) → Conforms info type path value data →
    PlaceConforms info type path offered data

/-- One entry for each item, in their order. -/
inductive ItemsConform : Info → TypeRef → ResponsePath → Nat → List Value → List Value → Prop
  | nil {info : Info} {type : TypeRef} {path : ResponsePath} {index : Nat} :
    ItemsConform info type path index [] []
  | cons {info : Info} {type : TypeRef} {path : ResponsePath} {index : Nat} {item entry : Value}
      {items data : List Value} :
    PlaceConforms info type (path.extend (.index index)) (Reference.handed setting account item)
      entry →
    ItemsConform info type path (index + 1) items data →
    ItemsConform info type path index (item :: items) (entry :: data)

/-- Data of an object: the fields that all nodes of its place together select on its type. -/
inductive ObjectConforms : Info → TypeId → ResponsePath → Value → Value → Prop
  | intro {info : Info} {type : TypeId} {path : ResponsePath} {value : Value} {fields : Collected}
      {entries : List (String × Value)} :
    (setting.scope.collectNodes type info.nodes).Yields account (.ok fields) →
    FieldsConform type value (some path) fields entries →
    ObjectConforms info type path value (.ofFields entries)

/-- One entry for each response key, in their order, unless the type does not declare its field. -/
inductive FieldsConform :
    TypeId → Value → Option ResponsePath → Collected → List (String × Value) → Prop
  | nil {parent : TypeId} {source : Value} {path : Option ResponsePath} :
    FieldsConform parent source path [] []
  | undeclared {parent : TypeId} {source : Value} {path : Option ResponsePath} {key : String}
      {node : FieldNode} {nodes : List FieldNode} {fields : Collected}
      {entries : List (String × Value)} :
    setting.schema.field? parent node.name = .ok none →
    FieldsConform parent source path fields entries →
    FieldsConform parent source path ((key, node :: nodes) :: fields) entries
  | declared {parent : TypeId} {source : Value} {path : Option ResponsePath} {key : String}
      {node : FieldNode} {nodes : List FieldNode} {field : Field} {type : TypeRef} {data : Value}
      {fields : Collected} {entries : List (String × Value)} (info : Info) :
    setting.schema.field? parent node.name = .ok (some field) → field.type = .ok type →
    info = ⟨setting.environment, node.name, node :: nodes, type, parent, .add path (.name key)⟩ →
    PlaceConforms info type info.path
      (Reference.fieldResult setting account field source info node) data →
    FieldsConform parent source path fields entries →
    FieldsConform parent source path ((key, node :: nodes) :: fields) ((key, data) :: entries)

end

/-- Data of an operation: an object with the fields that the operation selects on the root type. -/
def RootConforms (root : TypeId) (data : Value) : Prop :=
  ∃ fields entries,
    (setting.scope.collect root setting.environment.operation.selections).Yields account (.ok fields)
      ∧ FieldsConform setting account root setting.environment.root none fields entries
      ∧ data = .ofFields entries

end

theorem Schema.forms_of_serialize {schema : Schema} {account : Account} (leaf : TypeId)
    (value form : Value) (yields : (schema.serialize leaf value).Yields account (.ok form)) :
    schema.Forms leaf form := by
  refine ⟨fun scalar same => ?_, fun values body => ?_⟩
  · rw [same] at yields
    exact Leaf.gives_serialize scalar value form yields.symm
  · rw [Layout.serialize, body] at yields
    exact EnumValue.name_of_serialize values value form yields.symm

namespace Reference

open Results

variable {setting : Setting} {account : Account} {objects : Objects}

/-- What a content of a type shows: null is no content of a type that forbids it, and all else
conforms to the type. -/
def Fills (setting : Setting) (account : Account) (info : Info) (type : TypeRef)
    (path : ResponsePath) (value : Value) (content : Content) : Prop :=
  (content = .null ∧ type.isNonNull = false)
    ∨ ∀ data, content.data? = some data →
      data ≠ .null ∧ Conforms setting account info type path value data

theorem placeConforms_of_placed {info : Info} {type : TypeRef} {path : ResponsePath}
    {offered : Results Value} {next : Value → Results Content} {place : Place} {data : Value}
    (given : (offered.bind next).placed type info.nodes path (.ok place))
    (shown : place.data? = some data)
    (fills : ∀ value content, offered (.ok value) → next value (.ok content) →
      Fills setting account info type path value content) :
    PlaceConforms setting account info type path offered data := by
  have failed : (if type.isNonNull then none else some Value.null) = some data →
      PlaceConforms setting account info type path offered data := by
    intro shown
    cases nullable : type.isNonNull with
    | true =>
        rw [nullable] at shown
        cases shown
    | false =>
        rw [nullable] at shown
        cases shown
        exact .failed nullable
  rcases given with ⟨failure, _, _, rfl⟩ | ⟨content, given, rfl⟩
  · exact failed shown
  · rw [Place.data?] at shown
    rcases bind_ok given with ⟨value, handed, given⟩
    cases inside : content.data? with
    | none =>
        rw [inside] at shown
        exact failed shown
    | some found =>
        rw [inside] at shown
        cases shown
        rcases fills value content handed given with ⟨rfl, nullable⟩ | conforms
        · cases inside
          exact .failed nullable
        · exact .filled handed (conforms data inside).2

theorem dataOfAll_cons_some {place : Place} {rest : List Place} {data : List Value}
    (shown : Place.dataOfAll (place :: rest) = some data) :
    ∃ entry entries, place.data? = some entry ∧ Place.dataOfAll rest = some entries
      ∧ data = entry :: entries := by
  rw [Place.dataOfAll_cons] at shown
  rcases Option.bind_eq_some_iff.1 shown with ⟨entry, first, shown⟩
  rcases Option.map_eq_some_iff.1 shown with ⟨entries, others, rfl⟩
  exact ⟨entry, entries, first, others, rfl⟩

theorem itemsConform_of_placed {info : Info} {type : TypeRef} {path : ResponsePath}
    {next : ResponsePath → Value → Results Content}
    (fills : ∀ place value content, next place value (.ok content) →
      Fills setting account info type place value content)
    (items : List Value) (start : Nat) (places : List Place) (data : List Value)
    (given : List.Forall₂ (fun (entry : Value × Nat) place =>
      Results.placed type info.nodes (path.extend (.index (entry.2 : Nat)))
        ((handed setting account entry.1).bind (next (path.extend (.index (entry.2 : Nat)))))
        (.ok place)) (items.zipIdx start) places)
    (shown : Place.dataOfAll places = some data) :
    ItemsConform setting account info type path start items data := by
  induction items generalizing start places data with
  | nil =>
      cases given
      cases shown
      exact .nil
  | cons item rest ih =>
      cases given with
      | cons first others =>
          rcases dataOfAll_cons_some shown with ⟨entry, entries, here, later, rfl⟩
          refine .cons (placeConforms_of_placed first here fun value content _ given =>
            fills _ value content given) ?_
          exact ih (start + 1) _ entries others later

theorem fills_required {info : Info} {of : TypeRef} {path : ResponsePath} {value : Value}
    {middle content : Content} (fills : Fills setting account info of path value middle)
    (given : required setting info middle (.ok content)) :
    Fills setting account info (.nonNull of) path value content := by
  cases middle with
  | null => cases given
  | _ =>
      cases given
      rcases fills with ⟨same, _⟩ | conforms
      · cases same
      · refine .inr fun data shown => ?_
        rcases conforms data shown with ⟨present, conforms⟩
        exact ⟨present, .nonNull conforms present⟩

theorem conforms_of_leaf {info : Info} {id : TypeId} {path : ResponsePath} {value : Value}
    {content : Content} {data : Value}
    (kind : setting.schema.kindOf id = .scalar ∨ setting.schema.kindOf id = .enum)
    (given : leaf setting account id value (.ok content)) (shown : content.data? = some data) :
    data ≠ .null ∧ Conforms setting account info (.named id) path value data := by
  rcases bind_ok given with ⟨form, yields, given⟩
  split at given
  · cases given
  · next present =>
      cases given
      cases shown
      have some_ : data ≠ .null := by
        rintro rfl
        exact present rfl
      exact ⟨some_, .leaf kind yields (Schema.forms_of_serialize _ value data yields) some_⟩

section

variable {known : TypeId → Prop}

/-- The data of objects conforms to their types. -/
def BelowConforms (setting : Setting) (account : Account) (known : TypeId → Prop)
    (objects : Objects) : Prop :=
  ∀ type value path fields content data, known type → fields.Grouped →
    objects type value path fields (.ok content) → content.data? = some data →
    ∃ entries, FieldsConform setting account type value (some path) fields entries
      ∧ data = .ofFields entries

theorem objectConforms_of_object (below : BelowConforms setting account known objects)
    {info : Info} {type : TypeId} {path : ResponsePath} {value : Value} {content : Content}
    {data : Value} (knownType : known type)
    (given : object setting account objects info type path value (.ok content))
    (shown : content.data? = some data) :
    data ≠ .null ∧ ObjectConforms setting account info type path value data := by
  rcases bind_ok given with ⟨_, _, given⟩
  rcases bind_ok given with ⟨fields, collected, given⟩
  have grouped := Scope.grouped_collectNodes info.nodes fields collected
  rcases below type value path fields content data knownType grouped given shown with
    ⟨entries, conforms, rfl⟩
  exact ⟨fun same => (nomatch same), .intro collected conforms⟩

theorem conforms_of_abstract (closed : Closed setting.schema known)
    (below : BelowConforms setting account known objects) {info : Info} {id : TypeId}
    {path : ResponsePath} {value : Value} {content : Content} {data : Value}
    (kind : setting.schema.kindOf id = .interface ∨ setting.schema.kindOf id = .union)
    (given : abstract setting account objects info id path value (.ok content))
    (shown : content.data? = some data) :
    data ≠ .null ∧ Conforms setting account info (.named id) path value data := by
  rcases bind_ok given with ⟨found, _, given⟩
  cases checked : RuntimeType.check setting info id value found with
  | error failure =>
      rw [checked] at given
      cases given
  | ok type =>
      rw [checked] at given
      rcases RuntimeType.possible_of_check info id value found type checked with
        ⟨possible, isObject⟩
      have knownType := closed.possible id type possible isObject
      rcases objectConforms_of_object below knownType given shown with ⟨present, conforms⟩
      exact ⟨present, .abstract kind possible isObject conforms⟩

theorem conforms_of_named (closed : Closed setting.schema known)
    (below : BelowConforms setting account known objects) {info : Info} {id : TypeId}
    {path : ResponsePath} {value : Value} {content : Content} {data : Value}
    (knownType : setting.schema.kindOf id = .object → known id)
    (given : named setting account objects info id path value (.ok content))
    (shown : content.data? = some data) :
    data ≠ .null ∧ Conforms setting account info (.named id) path value data := by
  unfold named at given
  cases kind : setting.schema.kindOf id with
  | scalar =>
      rw [kind] at given
      exact conforms_of_leaf (.inl kind) given shown
  | enum =>
      rw [kind] at given
      exact conforms_of_leaf (.inr kind) given shown
  | interface =>
      rw [kind] at given
      exact conforms_of_abstract closed below (.inl kind) given shown
  | union =>
      rw [kind] at given
      exact conforms_of_abstract closed below (.inr kind) given shown
  | object =>
      rw [kind] at given
      rcases objectConforms_of_object below (knownType kind) given shown with ⟨present, conforms⟩
      exact ⟨present, .object kind conforms⟩
  | input =>
      rw [kind] at given
      cases given

theorem fills_of_completed (closed : Closed setting.schema known)
    (below : BelowConforms setting account known objects) (info : Info) (type : TypeRef)
    (id : TypeId) (inner : type.innermost = .ok id)
    (knownType : setting.schema.kindOf id = .object → known id) (path : ResponsePath)
    (value : Value) (content : Content)
    (given : completed setting account objects info type path value (.ok content)) :
    Fills setting account info type path value content := by
  induction type generalizing path value content with
  | broken fault => cases inner
  | nonNull of ih =>
      unfold completed at given
      cases raised : Completion.raised? value with
      | some failure =>
          rw [raised] at given
          cases given
      | none =>
          rw [raised] at given
          rcases bind_ok given with ⟨middle, before, given⟩
          exact fills_required (ih inner path value middle before) given
  | list of ih =>
      unfold completed at given
      cases raised : Completion.raised? value with
      | some failure =>
          rw [raised] at given
          cases given
      | none =>
          rw [raised] at given
          simp only at given
          split at given
          · cases given
            exact .inl ⟨rfl, rfl⟩
          · rcases bind_ok given with ⟨items, listed, given⟩
            rcases bind_ok given with ⟨places, placed, given⟩
            cases given
            refine .inr fun data shown => ?_
            rcases Option.map_eq_some_iff.1 shown with ⟨entries, all, rfl⟩
            refine ⟨by rintro ⟨⟩, .list listed ?_⟩
            simp only [together, List.forall₂_map_left_iff] at placed
            exact itemsConform_of_placed (fun place value content given =>
              ih inner place value content given) items 0 places entries placed all
  | named found =>
      cases inner
      unfold completed at given
      cases raised : Completion.raised? value with
      | some failure =>
          rw [raised] at given
          cases given
      | none =>
          rw [raised] at given
          simp only at given
          split at given
          · cases given
            exact .inl ⟨rfl, rfl⟩
          · exact .inr fun data shown => conforms_of_named closed below knownType given shown

theorem fills_of_fieldValue (closed : Closed setting.schema known)
    (below : BelowConforms setting account known objects) (field : Field) (type : TypeRef)
    (id : TypeId) (inner : type.innermost = .ok id)
    (knownType : setting.schema.kindOf id = .object → known id) (source : Value) (info : Info)
    (node : FieldNode) {place : Place} {data : Value}
    (given : (fieldValue setting account objects field type source info node).placed type info.nodes
      info.path (.ok place))
    (shown : place.data? = some data) :
    PlaceConforms setting account info type info.path
      (fieldResult setting account field source info node) data := by
  have same : fieldValue setting account objects field type source info node
      = (fieldResult setting account field source info node).bind
        (completed setting account objects info type info.path) := by
    simp only [fieldValue, fieldResult, bind_assoc]
  rw [same] at given
  exact placeConforms_of_placed given shown fun value content _ given =>
    fills_of_completed closed below info type id inner knownType info.path value content given

theorem fieldsConform_of_places (sound : Sound setting.schema known)
    (below : BelowConforms setting account known objects) (parent : TypeId) (source : Value)
    (path : Option ResponsePath) (knownParent : known parent) (fields : Collected)
    (grouped : fields.Grouped) (places : List Place) (data : List Value)
    (given : List.Forall₂ (fun entry place => entry.2 (.ok place))
      (fieldPlaces setting account objects parent source path fields) places)
    (shown : Place.dataOfAll places = some data) :
    FieldsConform setting account parent source path fields
      (((fieldPlaces setting account objects parent source path fields).map (·.1)).zip data) := by
  induction fields generalizing places data with
  | nil => exact .nil
  | cons entry rest ih =>
      obtain ⟨key, nodes⟩ := entry
      have parts := List.forall_mem_cons.1 grouped
      obtain ⟨node, nodes, rfl⟩ := List.exists_cons_of_ne_nil parts.1
      rcases sound.declared parent node.name knownParent with ⟨found, looked, declared⟩
      cases found with
      | none =>
          have nowhere : fieldPlace? setting account objects parent source (.add path (.name key))
              (node :: nodes) = none := by
            simp only [fieldPlace?, List.head?_cons, Option.bind_some, looked]
          simp only [fieldPlaces, List.filterMap_cons, nowhere, Option.map_none] at given ⊢
          exact .undeclared looked (ih parts.2 places data given shown)
      | some field =>
          rcases declared field rfl with ⟨type, id, typed, inner⟩
          let info : Info :=
            ⟨setting.environment, node.name, node :: nodes, type, parent, .add path (.name key)⟩
          have here : fieldPlace? setting account objects parent source (.add path (.name key))
              (node :: nodes) = some (.placed type info.nodes info.path
                (fieldValue setting account objects field type source info node)) := by
            simp only [fieldPlace?, List.head?_cons, Option.bind_some, looked, typed, info]
          simp only [fieldPlaces, List.filterMap_cons, here, Option.map_some] at given ⊢
          cases given with
          | cons first others =>
              rcases dataOfAll_cons_some shown with ⟨entry, entries, shownHere, later, rfl⟩
              have knownType := sound.field parent node.name field type id knownParent looked typed
                inner
              refine .declared info looked typed rfl ?_ (ih parts.2 _ entries others later)
              exact fills_of_fieldValue sound.toClosed below field type id inner knownType source
                info node first shownHere

/-- The data of an object conforms to its type, however deep objects nest in it. -/
theorem fieldsConform_of_selected (sound : Sound setting.schema known) (levels : Nat)
    (parent : TypeId) (source : Value) (path : Option ResponsePath) (fields : Collected)
    (content : Content) (data : Value) (knownParent : known parent) (grouped : fields.Grouped)
    (given : selected setting account levels parent source path fields (.ok content))
    (shown : content.data? = some data) :
    ∃ entries, FieldsConform setting account parent source path fields entries
      ∧ data = .ofFields entries := by
  induction levels generalizing parent source path fields content data with
  | zero => cases given
  | succ levels ih =>
      have below : BelowConforms setting account known fun type value place inner =>
          selected setting account levels type value (some place) inner :=
        fun type value place inner content data => ih type value (some place) inner content data
      rw [selected] at given
      rcases bind_ok given with ⟨places, placed, given⟩
      cases given
      rcases Option.map_eq_some_iff.1 shown with ⟨entries, all, rfl⟩
      simp only [together, List.forall₂_map_left_iff] at placed
      exact ⟨_, fieldsConform_of_places sound below parent source path knownParent fields grouped
        places entries placed all, rfl⟩

end

/-- Whatever an executed operation shows conforms to it, unless it shows nothing. -/
theorem rootConforms_of_executed {root : TypeId}
    (sound : Sound setting.schema setting.schema.Knows) (knownRoot : setting.schema.Knows root)
    {place : Place} {data : Value} (executed : executed setting account root (.ok place))
    (shown : place.data? = some data) (present : data ≠ .null) :
    RootConforms setting account root data := by
  rcases executed with ⟨error, _, rfl⟩ | ⟨content, given, rfl⟩
  · cases shown
    exact absurd rfl present
  · rcases bind_ok given with ⟨fields, collected, given⟩
    have grouped := Scope.grouped_collect _ fields collected
    rw [Place.data?] at shown
    cases inside : content.data? with
    | none =>
        rw [inside] at shown
        cases shown
        exact absurd rfl present
    | some found =>
        rw [inside] at shown
        cases shown
        rcases fieldsConform_of_selected sound _ root _ none fields content data knownRoot grouped
          given inside with ⟨entries, conforms, same⟩
        exact ⟨fields, entries, collected, conforms, same⟩

end Reference

namespace Request

variable {σ : Type}

/-- The data of a response is null or conforms to the operation and the schema. -/
theorem data_conforms (application : Application σ) (request : Request) (schema : Schema)
    (document : Document) (vars : Variables) (synchronous : Bool) (world : World σ)
    (report : Report σ) (response : Response) (strict : schema.assumeValid = false)
    (ready : world.Ready)
    (executed : report = request.executeWith application schema document vars synchronous world)
    (plain : schema.WritesPlain report.world.account) (answered : report.outcome = .ok response)
    (present : response.data ≠ .null) :
    ∃ operation root, document.choose request.operationName = .ok operation
      ∧ rootType schema operation = .ok root
      ∧ RootConforms ⟨request.environment schema document operation vars, synchronous⟩
        report.world.account root response.data := by
  cases checked : schema.check with
  | error fault =>
      rw [executed, executeWith, checked] at answered
      cases answered
  | ok _ =>
      cases chosen : document.choose request.operationName with
      | error fault =>
          rw [executed, executeWith, checked, chosen] at answered
          cases answered
          exact absurd rfl present
      | ok operation =>
          cases rooted : rootType schema operation with
          | error error =>
              simp only [executed, executeWith, checked, chosen, rooted] at answered
              cases answered
              exact absurd rfl present
          | ok root =>
              refine ⟨operation, root, rfl, rooted, ?_⟩
              let setting : Setting :=
                ⟨request.environment schema document operation vars, synchronous⟩
              rw [executeWith_eq application request vars synchronous world checked chosen rooted]
                at executed
              have sound : Sound setting.schema setting.schema.Knows :=
                Schema.sound_of_check checked strict
              have knownRoot : setting.schema.Knows root := Schema.knows_root checked strict rooted
              rcases agrees_of_carryOut application operation.kind.rootOrder root sound knownRoot
                world ready report executed plain with
                ⟨place, data, placed, shown, outcome, _⟩ | ⟨failure, awaited, _, refused⟩
              · rw [outcome] at answered
                cases answered
                exact Reference.rootConforms_of_executed sound knownRoot placed shown present
              · rw [refused] at answered
                cases failure <;> cases answered

end Request

/-- A schema with one field, which lists numbers. -/
def Schema.counting : Schema := .ofLayout
  { types := #[⟨.str "Query", .object
      (.ok (.ofList [(.str "a", { Field.plain "a" (.list (.nonNull (.named (.standard .int)))) with
        resolve := .absent })])) (.ok []) .absent⟩]
    query := some (.named (.declared 0))
    mutation := none
    subscription := none
    extra := []
    directives := Directive.specified
    overrides := []
    assumeValid := false }

set_option maxRecDepth 10000 in
theorem Schema.check_counting : counting.check = .ok () := by
  have reached : counting.reached = .ok [(.str "Query", .declared 0),
      (.str "Int", .standard .int), (.str "Boolean", .standard .boolean),
      (.str "String", .standard .string)] := by
    cbv
  unfold check
  rw [reached]
  decide +kernel

/-- A query for one field. -/
def Operation.single : Operation where
  start := 0
  kind := .query
  name := none
  variableNodes := []
  directives := []
  selections := [.field 2 none "a" [] [] []]

namespace Request

/-- The query for numbers, where the root lists a number and a truth value. -/
def counted : Report Nat :=
  ({ root := .ofFields [("a", .list [.int 1, .bool true])] } : Request).executeWith
    Application.faltering Schema.counting ⟨[], [.operation .single]⟩ [] false { state := 0 }

theorem counted_eq : counted = carryOut Application.faltering false
    (Execution.operationIn
      ⟨({ root := .ofFields [("a", .list [.int 1, .bool true])] } : Request).environment
        Schema.counting ⟨[], [.operation .single]⟩ .single [], false⟩
      .sideBySide (.declared 0)) { state := 0 } :=
  executeWith_eq _ _ _ _ _ Schema.check_counting rfl rfl

set_option maxRecDepth 10000 in
theorem outcome_counted :
    counted.outcome = .ok ⟨.ofFields [("a", .list [.int 1, .int 1])], []⟩ := by
  rw [counted_eq]
  cbv

set_option maxRecDepth 10000 in
theorem isPlain_counted (event : Event) (saw : counted.world.Saw event) : event.isPlain = true := by
  rcases saw with ⟨time, member⟩
  have all : counted.world.past.all (fun entry => entry.2.isPlain) = true := by
    rw [counted_eq]
    cbv
  exact List.all_eq_true.1 all _ member

/-- Numbers that are listed conform to a list of numbers. -/
theorem data_conforms_counted :
    counted.outcome = .ok ⟨.ofFields [("a", .list [.int 1, .int 1])], []⟩
      ∧ ∃ operation root,
        (⟨[], [.operation .single]⟩ : Document).choose none = .ok operation
          ∧ rootType Schema.counting operation = .ok root
          ∧ RootConforms
            ⟨({ root := .ofFields [("a", .list [.int 1, .bool true])] } : Request).environment
              Schema.counting ⟨[], [.operation .single]⟩ operation [], false⟩
            counted.world.account root (.ofFields [("a", .list [.int 1, .int 1])]) := by
  have plain : Schema.counting.WritesPlain counted.world.account := by
    refine World.writesPlain_of_isPlain counted.world isPlain_counted fun leaf values body => ?_
    rcases leaf with _ | _ | _ <;> cases body
  exact ⟨outcome_counted, data_conforms Application.faltering
    { root := .ofFields [("a", .list [.int 1, .bool true])] } Schema.counting
    ⟨[], [.operation .single]⟩ [] false { state := 0 } counted _ rfl (.new 0) rfl plain
    outcome_counted (fun same => nomatch same)⟩

end Request

end GraphQL
