import GraphQL.Proofs.Blameless
import GraphQL.Proofs.Contained
import GraphQL.Proofs.Upholding

/-!
Execution on a trusted schema. Whatever an operation records, and whatever it comes to, no schema is
to blame for it, as long as the application blames none.
-/

namespace GraphQL

variable {setting : Setting} {account : Account} {root : Value}

namespace Program

/-- A program that neither records nor comes to anything for which a schema is to blame. -/
def BlamesNone (account : Account) (program : Program) : Prop :=
  program.Upholds account ResponseError.Blameless Outcome.Blameless

theorem blamesNone_fail {failure : Failure} (blameless : failure.Blameless) :
    (fail failure).BlamesNone account :=
  upholds_fail _ (Outcome.blameless_error blameless)

theorem blamesNone_problem (build : String → String → CompletionProblem) (info : Info) :
    (fail (Completion.problem info setting build)).BlamesNone account :=
  blamesNone_fail (Failure.blameless_of_origin rfl)

theorem blamesNone_asked (blameless : account.Blameless root) (asked : Call)
    (next : Reply → Program)
    (each : ∀ value, value.Blameless → (next (.ok value)).BlamesNone account)
    (failed : ∀ failure, failure.Blameless → (next (.error failure)).BlamesNone account) :
    (call asked next).BlamesNone account := by
  refine upholds_call _ _ fun reply called => ?_
  cases reply with
  | ok value => exact each value (blameless.replies asked value called)
  | error failure => exact failed failure (blameless.failures asked failure called)

theorem blamesNone_receive (blameless : account.Blameless root) {value : Value}
    (fair : value.Blameless) (next : Outcome → Program)
    (each : ∀ value, value.Blameless → (next (.ok value)).BlamesNone account)
    (failed : ∀ failure, failure.Blameless → (next (.error failure)).BlamesNone account) :
    (receive setting value next).BlamesNone account := by
  unfold receive
  split
  · split
    · exact upholds_closing _ _ (failed _ Failure.blameless_asynchronous)
    · refine upholds_await _ _ fun reply came => ?_
      cases reply with
      | ok value => exact each value (blameless.results _ value came)
      | error failure => exact failed failure (blameless.refusals _ failure came)
  · exact each value fair

theorem blamesNone_settle (type : TypeRef) (nodes : List FieldNode) (path : ResponsePath)
    {outcome : Outcome} (fair : Outcome.Blameless outcome) :
    (settle type nodes path outcome).BlamesNone account := by
  cases outcome with
  | ok value => exact upholds_done _ fair
  | error failure =>
      have blameless := fair failure rfl
      simp only [settle]
      split
      · exact blamesNone_fail blameless
      · split
        · exact blamesNone_fail (Failure.blameless_response (blameless.locate _ _))
        · exact upholds_record _ _ (blameless.locate _ _)
            (upholds_done _ (Outcome.blameless_none rfl))

theorem blamesNone_bubble (first : Failure) (failures : List Failure) (fair : first.Blameless)
    (each : ∀ failure ∈ failures, failure.Blameless) :
    (bubble first failures).BlamesNone account := by
  induction failures with
  | nil => exact blamesNone_fail fair
  | cons failure rest ih =>
      have here := each failure List.mem_cons_self
      have later := ih fun other inside => each other (List.mem_cons_of_mem _ inside)
      unfold bubble
      split
      · exact blamesNone_fail fair
      · next same =>
          cases same
          exact upholds_record _ _ (here.error _ rfl) later
      · next same =>
          cases same
          exact blamesNone_fail here

theorem blamesNone_gathered (build : List Value → Value)
    (built : ∀ values, Failure.ofValue? (build values) = none)
    (settled : Except Failure (List Outcome)) (fair : SettledAs Outcome.Blameless settled) :
    (gathered build settled).BlamesNone account := by
  cases settled with
  | error failure => exact blamesNone_fail (fair failure rfl)
  | ok outcomes =>
      have each : ∀ failure ∈ outcomes.filterMap Outcome.failure?, failure.Blameless := by
        intro failure inside
        obtain ⟨outcome, member, found⟩ := List.mem_filterMap.1 inside
        exact fair outcome member failure found
      unfold gathered
      simp only
      split
      · exact upholds_done _ (Outcome.blameless_none (built _))
      · next first rest found =>
          rw [found] at each
          exact blamesNone_bubble _ _ (each first List.mem_cons_self) each

end Program

open Program

theorem Slot.blamesNone_call (blameless : account.Blameless root) (slot : Slot)
    (asked : Nat → Call) (next : Reply → Program)
    (each : ∀ value, value.Blameless → (next (.ok value)).BlamesNone account)
    (failed : ∀ failure, failure.Blameless → (next (.error failure)).BlamesNone account) :
    (slot.call asked next).BlamesNone account := by
  cases slot with
  | function id => exact blamesNone_asked blameless _ _ each failed
  | other value => exact failed _ (Failure.blameless_value _)
  | absent => exact failed _ (Failure.blameless_value _)

theorem Action.blameless_of_yields {α : Type} (blameless : account.Blameless root)
    (action : Action α) (within : action.Within (fun _ => True) Failure.Blameless)
    (failure : Failure) (yields : action.Yields account (.error failure)) : failure.Blameless :=
  action.good_of_within within blameless.failures failure yields

namespace RuntimeType

theorem blamesNone_decideDeferred (blameless : account.Blameless root)
    (deferred : List (TypeId × Nat)) (next : Except Failure (Option TypeId) → Program)
    (each : ∀ found, (next (.ok found)).BlamesNone account)
    (failed : ∀ failure, failure.Blameless → (next (.error failure)).BlamesNone account) :
    (decideDeferred setting deferred next).BlamesNone account := by
  unfold decideDeferred
  simp only
  split
  · exact each none
  · split
    · exact upholds_closing _ _ (failed _ Failure.blameless_asynchronous)
    · simp only [BlamesNone, Upholds]
      intro result awaited
      cases result with
      | ok values => exact each _
      | error failure =>
          obtain ⟨ticket, _, came⟩ := awaited
          exact failed failure (blameless.refusals ticket failure came)

theorem blamesNone_askTypes (blameless : account.Blameless root) (info : Info) (value : Value)
    (next : Except Failure (Option TypeId) → Program)
    (each : ∀ found, (next (.ok found)).BlamesNone account)
    (failed : ∀ failure, failure.Blameless → (next (.error failure)).BlamesNone account)
    (tests : List (TypeId × Slot)) (deferred : List (TypeId × Nat)) :
    (askTypes setting info value next tests deferred).BlamesNone account := by
  induction tests generalizing deferred with
  | nil => exact blamesNone_decideDeferred blameless deferred next each failed
  | cons test rest ih =>
      obtain ⟨type, slot⟩ := test
      unfold askTypes
      refine Slot.blamesNone_call blameless slot _ _ (fun answer _ => ?_) failed
      split
      · next same => cases same
      · exact ih _
      · split
        · exact upholds_closing _ _ (each _)
        · exact ih _

theorem blamesNone_find (trusted : setting.schema.Trusted) (blameless : account.Blameless root)
    (info : Info) (abstract : TypeId) (value : Value) (next : Outcome → Program)
    (each : ∀ value, (next (.ok value)).BlamesNone account)
    (failed : ∀ failure, failure.Blameless → (next (.error failure)).BlamesNone account) :
    (find setting info abstract value next).BlamesNone account := by
  have given : ∀ found : Value, found.Blameless → (receive setting found next).BlamesNone account :=
    fun found fair => blamesNone_receive blameless fair next (fun value _ => each value) failed
  unfold find
  simp only
  split
  · exact Slot.blamesNone_call blameless _ _ _ given failed
  · split
    · exact blamesNone_asked blameless _ _ given failed
    · unfold byDefault
      split
      · exact each _
      · obtain ⟨candidates, possible⟩ := trusted.possibleTypes_ok abstract
        rw [possible]
        refine blamesNone_askTypes blameless info value _ (fun found => ?_) failed _ _
        cases found with
        | some type => exact each _
        | none => exact each _

end RuntimeType

/-- The selections on objects of known types blame no schema. -/
def BelowBlamesNone (setting : Setting) (account : Account) (below : Completion.Subfields) : Prop :=
  ∀ type value path fields, setting.schema.Knows type → value.Blameless →
    (below type value path fields).BlamesNone account

namespace Completion

variable {below : Subfields}

theorem blamesNone_leaf (trusted : setting.schema.Trusted) (blameless : account.Blameless root)
    (type : TypeId) (leaf : (setting.schema.kindOf type).isLeaf = true)
    (writes : setting.schema.Writes (setting.schema.leafInEffect type)) (value : Value) :
    (Completion.leaf setting type value).BlamesNone account := by
  have fits : setting.schema.LeafFits Failure.Blameless (setting.schema.leafInEffect type) :=
    Schema.leafFits_of_check (trusted.overrides.leafInEffect leaf) (trusted.check_writes writes)
  unfold Completion.leaf
  refine upholds_act _ _ fun result yields => ?_
  split
  · next failure =>
      exact blamesNone_fail (Action.blameless_of_yields blameless _
        (Layout.within_serialize mild_blameless (fun _ _ => trivial) _ fits value) failure yields)
  · next ticket =>
      refine upholds_await _ _ fun reply came => upholds_done _ ?_
      cases reply with
      | ok form => exact Outcome.blameless_value (blameless.results ticket form came)
      | error failure => exact Outcome.blameless_error (blameless.refusals ticket failure came)
  · split
    · exact blamesNone_fail (Failure.blameless_of_origin rfl)
    · exact upholds_done _ (trusted.written_blameless blameless writes yields)

theorem blamesNone_executeSubfields (trusted : setting.schema.Trusted)
    (blameless : account.Blameless root) (fair : BelowBlamesNone setting account below) (info : Info)
    (type : TypeId) (knows : setting.schema.Knows type) (path : ResponsePath) {value : Value}
    (harmless : value.Blameless) :
    (executeSubfields setting below info type path value).BlamesNone account := by
  simp only [executeSubfields, subfields, BlamesNone, Upholds]
  intro found consulted
  cases found with
  | some fields => exact fair type value path fields knows harmless
  | none =>
      refine upholds_act _ _ fun result yields => ?_
      cases result with
      | ok fields => exact upholds_perform _ _ rfl (fair type value path fields knows harmless)
      | error failure =>
          exact blamesNone_fail (Action.blameless_of_yields blameless _
            (Scope.within_collectNodes (trusted.selects mild_blameless).looks type info.nodes) failure
            yields)

theorem blamesNone_object (trusted : setting.schema.Trusted) (blameless : account.Blameless root)
    (fair : BelowBlamesNone setting account below) (info : Info) (type : TypeId)
    (knows : setting.schema.Knows type) (path : ResponsePath) {value : Value}
    (harmless : value.Blameless) :
    (object setting below info type path value).BlamesNone account := by
  have execute := blamesNone_executeSubfields trusted blameless fair info type knows path harmless
  unfold object
  simp only
  split
  · exact execute
  · refine Slot.blamesNone_call blameless _ _ _ (fun result given => ?_) fun _ => blamesNone_fail
    refine blamesNone_receive blameless given _ (fun holds _ => ?_) fun _ => blamesNone_fail
    simp only [onSuccess]
    split
    · exact execute
    · exact blamesNone_fail (Failure.blameless_of_origin rfl)

theorem blamesNone_abstract (trusted : setting.schema.Trusted) (blameless : account.Blameless root)
    (fair : BelowBlamesNone setting account below) (info : Info) (type : TypeId)
    (path : ResponsePath) {value : Value} (harmless : value.Blameless) :
    (abstract setting below info type path value).BlamesNone account := by
  unfold abstract
  refine RuntimeType.blamesNone_find trusted blameless info type value _ (fun found => ?_)
    fun _ => blamesNone_fail
  simp only [onSuccess]
  cases checked : RuntimeType.check setting info type value found with
  | ok id =>
      have possible := RuntimeType.possible_of_check info type value found id checked
      exact blamesNone_object trusted blameless fair info id
        (trusted.sound.possible type id possible.1 possible.2) path harmless
  | error failure =>
      exact blamesNone_fail
        (RuntimeType.failsWell_check (trusted.selects mild_blameless) info type value found failure
          checked)

theorem blamesNone_named (trusted : setting.schema.Trusted) (blameless : account.Blameless root)
    (fair : BelowBlamesNone setting account below) (info : Info) (type : TypeId)
    (completes : setting.schema.Completes type) (path : ResponsePath) {value : Value}
    (harmless : value.Blameless) :
    (named setting below info type path value).BlamesNone account := by
  obtain ⟨output, writes, known⟩ := completes
  unfold named
  cases kind : setting.schema.kindOf type with
  | scalar =>
      exact blamesNone_leaf trusted blameless type (by rw [kind]; rfl) writes value
  | enum =>
      exact blamesNone_leaf trusted blameless type (by rw [kind]; rfl) writes value
  | interface => exact blamesNone_abstract trusted blameless fair info type path harmless
  | union => exact blamesNone_abstract trusted blameless fair info type path harmless
  | object =>
      exact blamesNone_object trusted blameless fair info type (known (by rw [kind]; rfl)) path
        harmless
  | input =>
      rw [kind] at output
      cases output

theorem blamesNone_items (blameless : account.Blameless root) (info : Info) (type : TypeRef)
    (unbroken : ∀ fault, type ≠ .broken fault) (path : ResponsePath)
    (complete : ResponsePath → Value → Program)
    (each : ∀ place value, value.Blameless → (complete place value).BlamesNone account)
    (values : List Value) (harmless : ∀ value ∈ values, value.Blameless) :
    (items setting info type path complete values).BlamesNone account := by
  unfold items
  simp only
  refine upholds_perform _ _ rfl (upholds_join _ _ (fun child inside => ?_)
    (blamesNone_gathered .list fun values => rfl))
  obtain ⟨⟨item, index⟩, member, rfl⟩ := List.mem_map.1 inside
  have given := harmless item (List.fst_mem_of_mem_zipIdx member)
  refine upholds_andThen _ _ ?_ fun outcome fair => blamesNone_settle type info.nodes _ fair
  exact blamesNone_receive blameless given _ (each _) fun _ => blamesNone_fail

theorem blamesNone_list (blameless : account.Blameless root) (info : Info) (type : TypeRef)
    (unbroken : ∀ fault, type ≠ .broken fault) (path : ResponsePath)
    (complete : ResponsePath → Value → Program)
    (each : ∀ place value, value.Blameless → (complete place value).BlamesNone account)
    {value : Value} (harmless : value.Blameless) :
    (list setting info type path complete value).BlamesNone account := by
  unfold list
  split
  · simp only [BlamesNone, Upholds]
    intro values fault drained
    cases fault with
    | none =>
        exact blamesNone_items blameless info type unbroken path complete each values
          (blameless.items _ values none drained)
    | some failure =>
        have fair := blameless.faults _ values failure drained
        simp only
        split
        · exact blamesNone_fail fair
        · exact upholds_closing _ _ (blamesNone_fail fair)
  · split
    · next values listed =>
        exact blamesNone_items blameless info type unbroken path complete each values
          fun item member => harmless.item listed member
    · exact blamesNone_problem _ info

theorem blamesNone_complete (trusted : setting.schema.Trusted)
    (blameless : account.Blameless root) (fair : BelowBlamesNone setting account below) (info : Info)
    (type : TypeRef) (leads : type.LeadsTo setting.schema.Completes) (path : ResponsePath)
    {value : Value} (harmless : value.Blameless) :
    (complete setting below info type path value).BlamesNone account := by
  have raised : ∀ {value : Value} {failure : Failure}, value.Blameless →
      raised? value = some failure → (fail failure).BlamesNone account :=
    fun harmless raised => blamesNone_fail (harmless.failure (Option.filter_eq_some_iff.1 raised).1)
  induction type generalizing path value with
  | named id =>
      obtain ⟨inner, ⟨⟩, completes⟩ := leads
      unfold complete
      split
      · next found => exact raised harmless found
      · simp only
        split
        · exact upholds_done _ (Outcome.blameless_none rfl)
        · exact blamesNone_named trusted blameless fair info id completes path harmless
  | list of ih =>
      unfold complete
      split
      · next found => exact raised harmless found
      · simp only
        split
        · exact upholds_done _ (Outcome.blameless_none rfl)
        · refine blamesNone_list blameless info of (fun fault same => ?_) path _
            (fun place value => ih leads place) harmless
          obtain ⟨inner, denotes, _⟩ := leads
          rw [same] at denotes
          cases denotes
  | nonNull of ih =>
      unfold complete
      split
      · next found => exact raised harmless found
      · refine upholds_andThen _ _ (ih leads path harmless) fun outcome given => ?_
        cases outcome with
        | error failure => exact blamesNone_fail (given failure rfl)
        | ok completed =>
            simp only [requireValue, onSuccess]
            split
            · exact blamesNone_problem _ info
            · exact upholds_done _ given
  | broken fault =>
      obtain ⟨inner, ⟨⟩, _⟩ := leads

end Completion

namespace Execution

theorem blamesNone_resolve (trusted : setting.schema.Trusted) (blameless : account.Blameless root)
    (field : Field) {source : Value} (harmless : source.Blameless) (arguments : Value) (info : Info)
    (knows : setting.schema.Knows info.parentType) (next : Reply → Program)
    (each : ∀ value, value.Blameless → (next (.ok value)).BlamesNone account)
    (failed : ∀ failure, failure.Blameless → (next (.error failure)).BlamesNone account) :
    (resolve setting field source arguments info next).BlamesNone account := by
  unfold resolve
  split
  · obtain ⟨text, named⟩ := trusted.sound.named info.parentType knows
    rw [named]
    exact each _ (Value.Bare.str text).blameless
  · split
    · exact Slot.blamesNone_call blameless _ _ _ each failed
    · split
      · exact blamesNone_asked blameless _ _ each failed
      · have part : ((source.get? info.fieldName).getD .null).Blameless := by
          cases found : source.get? info.fieldName with
          | none => exact Value.Bare.null.blameless
          | some value => exact harmless.part found
        unfold resolveByName
        split
        · exact blamesNone_asked blameless _ _ each failed
        · next receiver name same =>
            rw [same] at part
            cases called : receiver.callMethod name arguments info.environment.context with
            | ok value => exact each value (part.result called)
            | error fault => exact failed _ (Failure.blameless_value fault)
        · exact each _ part

theorem blamesNone_fieldValue (trusted : setting.schema.Trusted)
    (blameless : account.Blameless root) {below : Completion.Subfields}
    (fair : BelowBlamesNone setting account below) {field : Field} {type : TypeRef}
    {source : Value} (harmless : source.Blameless) {info : Info} {name : String}
    (knows : setting.schema.Knows info.parentType)
    (looked : setting.schema.field? info.parentType name = .ok (some field))
    (typed : field.type = .ok type) (node : FieldNode) :
    (fieldValue setting below field type source info node).BlamesNone account := by
  unfold fieldValue
  refine upholds_act _ _ fun result yields => ?_
  cases result with
  | error failure =>
      exact blamesNone_fail (Action.blameless_of_yields blameless _
        (Input.within_arguments (trusted.reads mild_blameless) _ _ _
          (trusted.arguments_readable knows looked)) failure yields)
  | ok bound =>
      refine upholds_perform _ _ rfl (blamesNone_resolve trusted blameless field harmless _ info
        knows _ (fun value given => ?_) fun _ => blamesNone_fail)
      refine upholds_perform _ _ rfl (blamesNone_receive blameless given _ (fun received given => ?_)
        fun _ => blamesNone_fail)
      exact Completion.blamesNone_complete trusted blameless fair info type
        (trusted.completes knows looked typed) info.path given

theorem blamesNone_fieldPrograms (trusted : setting.schema.Trusted)
    (blameless : account.Blameless root) {below : Completion.Subfields}
    (fair : BelowBlamesNone setting account below) (parent : TypeId)
    (knows : setting.schema.Knows parent) {source : Value} (harmless : source.Blameless)
    (path : Option ResponsePath) (fields : Collected) :
    ∀ entry ∈ fieldPrograms setting below parent source path fields,
      entry.2.BlamesNone account := by
  intro entry member
  obtain ⟨⟨key, nodes⟩, _, made⟩ := List.mem_filterMap.1 member
  obtain ⟨program, found, rfl⟩ := Option.map_eq_some_iff.1 made
  obtain ⟨node, _, ⟨fault, rfl, broken⟩ | ⟨field, type, looked, typed, rfl⟩⟩ := field?_eq_some found
  · obtain ⟨declared, looked, each⟩ := trusted.sound.declared parent node.name knows
    obtain broken | ⟨field, same, broken⟩ := broken
    · rw [looked] at broken
      cases broken
    · cases looked.symm.trans same
      obtain ⟨type, _, typed, _⟩ := each field rfl
      rw [typed] at broken
      cases broken
  · exact upholds_andThen _ _
      (blamesNone_fieldValue trusted blameless fair harmless knows looked typed node)
      fun outcome given => blamesNone_settle type nodes _ given

theorem blamesNone_fields (trusted : setting.schema.Trusted) (blameless : account.Blameless root)
    (levels : Nat) (parent : TypeId) (knows : setting.schema.Knows parent) {source : Value}
    (harmless : source.Blameless) (path : Option ResponsePath) (collected : Collected) :
    (fields setting levels parent source path collected).BlamesNone account := by
  induction levels generalizing parent source path collected with
  | zero =>
      exact blamesNone_fail (Failure.blameless_of_kind rfl fun _ same => by cases same)
  | succ levels ih =>
      refine upholds_join _ _ (fun child inside => ?_)
        (blamesNone_gathered (objectOf _) fun values => rfl)
      obtain ⟨entry, member, rfl⟩ := List.mem_map.1 inside
      exact blamesNone_fieldPrograms trusted blameless
        (fun type value place selected knows harmless => ih type knows harmless (some place) selected)
        parent knows harmless path collected entry member

theorem blamesNone_inTurn (build : List Value → Value)
    (built : ∀ values, Failure.ofValue? (build values) = none) (programs : List Program)
    (each : ∀ program ∈ programs, program.BlamesNone account) (settled : List Outcome)
    (fair : ∀ outcome ∈ settled, Outcome.Blameless outcome) :
    (inTurn (gathered build) programs settled).BlamesNone account := by
  induction programs generalizing settled with
  | nil => exact blamesNone_gathered build built _ fair
  | cons program rest ih =>
      refine upholds_andThen _ _ (each program List.mem_cons_self) fun outcome given => ?_
      have later := ih (fun other inside => each other (List.mem_cons_of_mem _ inside))
        (settled ++ [outcome]) fun other inside => by
          obtain before | last := List.mem_append.1 inside
          · exact fair other before
          · rw [List.mem_singleton.1 last]
            exact given
      split
      · exact later
      · exact blamesNone_gathered build built _ given
      · exact later

theorem blamesNone_collected (trusted : setting.schema.Trusted)
    (blameless : account.Blameless setting.environment.root) (order : RootOrder) (type : TypeId)
    (knows : setting.schema.Knows type) :
    (Program.act (setting.scope.collect type setting.environment.operation.selections) fun
        | .error failure => .fail failure
        | .ok collected => rootFields setting order type collected).BlamesNone account := by
  refine upholds_act _ _ fun result yields => ?_
  cases result with
  | error failure =>
      exact blamesNone_fail (Action.blameless_of_yields blameless _
        (Scope.within_collect (trusted.selects mild_blameless).looks type _) failure yields)
  | ok collected =>
      cases order with
      | sideBySide =>
          exact blamesNone_fields trusted blameless _ type knows blameless.root none collected
      | inTurn =>
          refine blamesNone_inTurn _ (fun values => rfl) _ (fun program inside => ?_) []
            fun _ inside => by cases inside
          obtain ⟨entry, member, rfl⟩ := List.mem_map.1 inside
          exact blamesNone_fieldPrograms trusted blameless
            (fun type value place selected knows harmless =>
              blamesNone_fields trusted blameless _ type knows harmless (some place) selected)
            type knows blameless.root none collected entry member

/-- An operation on a trusted schema blames no schema for anything. -/
theorem blamesNone_operationIn (trusted : setting.schema.Trusted)
    (blameless : account.Blameless setting.environment.root) (order : RootOrder) (type : TypeId)
    (knows : setting.schema.Knows type) : (operationIn setting order type).BlamesNone account := by
  refine upholds_andThen _ _ (blamesNone_collected trusted blameless order type knows)
    fun outcome given => ?_
  unfold settleRoot
  split
  · next error =>
      exact upholds_record _ _ ((given _ rfl).error error rfl)
        (upholds_done _ (Outcome.blameless_none rfl))
  · exact upholds_done _ given

end Execution

end GraphQL
