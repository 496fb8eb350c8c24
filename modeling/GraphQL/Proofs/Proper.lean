import GraphQL.Proofs.Executing
import GraphQL.Proofs.Keys
import GraphQL.Proofs.Ordinary

/-!
Failed places and their errors. Under an ordinary application every computation fails in a tolerated
way or gives what is proper: values that are harmless, and contents in which each failed place has an
error of its own, with the path of the place.
-/

namespace GraphQL

/-- An error of the place that failed. -/
def ResponseError.Fits (failure : List PathKey × ResponseError) : Prop :=
  failure.2.path = failure.1 ∧ failure.2.identity = none

/-- Every failed place has an error with its path, and the keys of every object are distinct. -/
structure Content.Proper (path : List PathKey) (content : Content) : Prop where
  fits : ∀ failure ∈ content.failures path, ResponseError.Fits failure
  keyed : content.Keyed

structure Place.Proper (path : List PathKey) (place : Place) : Prop where
  fits : ∀ failure ∈ place.failures path, ResponseError.Fits failure
  keyed : place.Keyed

theorem Failure.Ordinary.fits {failure : Failure} (ordinary : failure.Ordinary) (nodes : List Nat)
    (path : List PathKey) : ResponseError.Fits (path, failure.locate nodes path) := by
  cases failure with
  | response error =>
      have fresh := ordinary.fresh error rfl
      simp only [Failure.locate, fresh, ne_eq, not_true_eq_false, if_false]
      exact ⟨rfl, rfl⟩
  | _ => exact ⟨rfl, rfl⟩

theorem Content.proper_null (path : List PathKey) : Content.null.Proper path :=
  ⟨fun _ member => (nomatch member), trivial⟩

theorem Content.proper_leaf (path : List PathKey) (value : Value) :
    (Content.leaf value).Proper path :=
  ⟨fun _ member => (nomatch member), trivial⟩

theorem Place.proper_from (path : List PathKey) (values : List Value) (start : Nat)
    (places : List Place)
    (each : List.Forall₂ (fun entry place => Place.Proper (path ++ [.index (entry.2 : Nat)]) place)
      (values.zipIdx start) places) :
    (∀ failure ∈ Place.failuresFrom path start places, ResponseError.Fits failure)
      ∧ Place.AllKeyed places := by
  induction values generalizing start places with
  | nil =>
      cases each
      exact ⟨fun _ member => (nomatch member), trivial⟩
  | cons value rest ih =>
      cases each with
      | cons first others =>
          rcases ih (start + 1) _ others with ⟨fits, keyed⟩
          refine ⟨fun failure member => ?_, first.keyed, keyed⟩
          rw [Place.failuresFrom, List.mem_append] at member
          exact member.elim (first.fits failure) (fits failure)

theorem Place.proper_under {α : Type} (path : List PathKey) (entries : List (String × α))
    (places : List Place)
    (each : List.Forall₂ (fun entry place => Place.Proper (path ++ [.name entry.1]) place)
      entries places) :
    (∀ failure ∈ Place.failuresUnder path (entries.map (·.1)) places, ResponseError.Fits failure)
      ∧ (entries.map (·.1)).length = places.length ∧ Place.AllKeyed places := by
  induction each with
  | nil => exact ⟨fun _ member => (nomatch member), rfl, trivial⟩
  | cons first _ ih =>
      rcases ih with ⟨fits, size, keyed⟩
      refine ⟨fun failure member => ?_, by rw [List.map_cons, List.length_cons, size]; rfl,
        first.keyed, keyed⟩
      rw [List.map_cons, Place.failuresUnder, List.mem_append] at member
      exact member.elim (first.fits failure) (fits failure)

namespace Results

variable {α β : Type} {failing : Failure → Prop} {good : α → Prop} {better : β → Prop}

/-- A computation whose failures and values are as they should be. -/
structure Safe (failing : Failure → Prop) (good : α → Prop) (results : Results α) : Prop where
  fails : ∀ failure, results (.error failure) → failing failure
  gives : ∀ value, results (.ok value) → good value

theorem safe_pure (value : α) (fine : good value) : (pure value).Safe failing good :=
  ⟨fun _ failed => (nomatch failed), fun _ given => by cases given; exact fine⟩

theorem safe_fail (failure : Failure) (tolerated : failing failure) :
    (fail failure : Results α).Safe failing good :=
  ⟨fun _ failed => by cases failed; exact tolerated, fun _ given => (nomatch given)⟩

theorem safe_bind {first : Results α} {next : α → Results β} (before : first.Safe failing good)
    (after : ∀ value, first (.ok value) → good value → (next value).Safe failing better) :
    (first.bind next).Safe failing better := by
  refine ⟨fun failure failed => ?_, fun value given => ?_⟩
  · rcases bind_error failed with here | ⟨middle, given, later⟩
    · exact before.fails failure here
    · exact (after middle given (before.gives middle given)).fails failure later
  · rcases bind_ok given with ⟨middle, given, later⟩
    exact (after middle given (before.gives middle given)).gives value later

theorem safe_together {γ : Type} (entries : List γ) (results : γ → Results α) (fine : γ → α → Prop)
    (each : ∀ entry ∈ entries, (results entry).Safe failing (fine entry)) :
    (together (entries.map results)).Safe failing fun values => List.Forall₂ fine entries values := by
  refine ⟨fun failure failed => ?_, fun values given => ?_⟩
  · rcases failed with ⟨one, inside, here⟩
    rcases List.mem_map.1 inside with ⟨entry, member, rfl⟩
    exact (each entry member).fails failure here
  · simp only [together, List.forall₂_map_left_iff] at given
    refine ((List.forall₂_and_left _ _).2 ⟨fun entry member => member, given⟩).imp ?_
    exact fun entry value here => (each entry here.1).gives value here.2

theorem safe_placed {results : Results Content} {type : TypeRef} {nodes : List FieldNode}
    {path : ResponsePath} {setting : Setting}
    (safe : results.Safe setting.Tolerates (Content.Proper path.toList)) :
    (results.placed type nodes path).Safe setting.Tolerates (Place.Proper path.toList) := by
  refine ⟨fun failure failed => safe.fails failure failed.1, fun place given => ?_⟩
  rcases given with ⟨failure, failed, handled, rfl⟩ | ⟨content, given, rfl⟩
  · rcases safe.fails failure failed with ordinary | ⟨_, rfl⟩
    · refine ⟨fun found member => ?_, trivial⟩
      rw [Place.failures, List.mem_singleton] at member
      rw [member]
      exact ordinary.fits _ _
    · cases handled
  · exact ⟨(safe.gives content given).fits, (safe.gives content given).keyed⟩

theorem safe_act (setting : Setting) {account : Account} {root : Value}
    (ordinary : account.Ordinary root) (action : Action α)
    (within : action.Within (fun _ => True) setting.Tolerates) :
    Results.Safe setting.Tolerates (fun _ => True) (action.Yields account) :=
  ⟨action.good_of_within within fun asked failure called =>
    .inl (ordinary.failures asked failure called), fun _ _ => trivial⟩

end Results

theorem RuntimeType.ordinary_check {setting : Setting} (info : Info) (abstract : TypeId)
    (value found : Value) (failure : Failure)
    (failed : check setting info abstract value found = .error failure) : failure.Ordinary :=
  failsWell_check (Failure.lenient_ordinary.selects setting.schema) info abstract value found failure
    failed

namespace Reference

open Results

variable {setting : Setting} {account : Account} {root : Value}

theorem safe_handed (ordinary : account.Ordinary root) (value : Value) (harmless : value.Harmless) :
    (handed setting account value).Safe setting.Tolerates Value.Harmless := by
  cases value with
  | deferred ticket =>
      simp only [handed]
      split
      · next synchronous => exact safe_fail _ (.inr ⟨synchronous, rfl⟩)
      · exact ⟨fun failure came => .inl (ordinary.refusals ticket failure came),
          ordinary.results ticket⟩
  | _ => exact safe_pure _ harmless

theorem safe_asked (ordinary : account.Ordinary root) (asked : Call) :
    Results.Safe setting.Tolerates Value.Harmless (account.called asked) :=
  ⟨fun failure called => .inl (ordinary.failures asked failure called), ordinary.replies asked⟩

theorem safe_called (ordinary : account.Ordinary root) (slot : Slot) (asked : Nat → Call) :
    (called account slot asked).Safe setting.Tolerates Value.Harmless := by
  cases slot with
  | function id => exact safe_asked ordinary _
  | other value => exact safe_fail _ (.inl (Failure.ordinary_value _))
  | absent => exact safe_fail _ (.inl (Failure.ordinary_value _))

theorem safe_awaited (ordinary : account.Ordinary root) (tickets : List Nat) :
    Results.Safe setting.Tolerates (fun _ => True) (account.Awaited tickets) := by
  refine ⟨fun failure failed => ?_, fun _ _ => trivial⟩
  rcases failed with ⟨ticket, _, came⟩
  exact .inl (ordinary.refusals ticket failure came)

theorem safe_decided (ordinary : account.Ordinary root) (deferred : List (TypeId × Nat)) :
    (decided setting account deferred).Safe setting.Tolerates fun _ => True := by
  simp only [decided]
  split
  · exact safe_pure _ trivial
  · split
    · next synchronous => exact safe_fail _ (.inr ⟨synchronous, rfl⟩)
    · exact safe_bind (safe_awaited ordinary _) fun results _ _ => safe_pure _ trivial

theorem safe_claimant (ordinary : account.Ordinary root) (info : Info) (value : Value)
    (types : List (TypeId × Slot)) (deferred : List (TypeId × Nat)) :
    (claimant setting account info value types deferred).Safe setting.Tolerates fun _ => True := by
  induction types generalizing deferred with
  | nil => exact safe_decided ordinary deferred
  | cons entry rest ih =>
      obtain ⟨type, test⟩ := entry
      rw [claimant]
      refine safe_bind (safe_called ordinary test _) fun answer _ _ => ?_
      cases answer with
      | deferred ticket => exact ih _
      | _ =>
          simp only
          split
          · exact safe_pure _ trivial
          · exact ih _

theorem safe_typeByDefault (ordinary : account.Ordinary root) (info : Info) (abstract : TypeId)
    (value : Value) :
    (typeByDefault setting account info abstract value).Safe setting.Tolerates fun _ => True := by
  unfold typeByDefault
  split
  · exact safe_pure _ trivial
  · split
    · exact safe_fail _ (.inl (Failure.ordinary_schema _))
    · refine safe_bind (safe_claimant ordinary info value _ []) fun found _ _ => ?_
      cases found with
      | some type => exact safe_pure _ trivial
      | none => exact safe_pure _ trivial

theorem safe_typeFound (ordinary : account.Ordinary root) (info : Info) (abstract : TypeId)
    (value : Value) :
    (typeFound setting account info abstract value).Safe setting.Tolerates fun _ => True := by
  have received : ∀ found : Value, found.Harmless →
      (handed setting account found).Safe setting.Tolerates fun _ => True :=
    fun found harmless => ⟨(safe_handed ordinary found harmless).fails, fun _ _ => trivial⟩
  simp only [typeFound]
  split
  · exact safe_bind (safe_called ordinary _ _) fun found _ => received found
  · split
    · exact safe_bind (safe_asked ordinary _) fun found _ => received found
    · exact safe_typeByDefault ordinary info abstract value

theorem safe_leaf (ordinary : account.Ordinary root) (type : TypeId) (value : Value)
    (path : List PathKey) :
    (leaf setting account type value).Safe setting.Tolerates (Content.Proper path) := by
  refine safe_bind (safe_act setting ordinary _
    (setting.lenient_tolerates.within_serialize (fun _ _ => trivial) _ _ _)) fun form _ _ => ?_
  split
  · exact safe_fail _ (.inl (Failure.ordinary_response _ rfl))
  · exact safe_pure _ (Content.proper_leaf path form)

theorem safe_claimed (ordinary : account.Ordinary root) (info : Info) (type : TypeId)
    (value : Value) :
    (claimed setting account info type value).Safe setting.Tolerates fun _ => True := by
  simp only [claimed]
  split
  · exact safe_pure _ trivial
  · refine safe_bind (safe_called ordinary _ _) fun answer _ harmless => ?_
    refine safe_bind (safe_handed ordinary answer harmless) fun holds _ _ => ?_
    split
    · exact safe_pure _ trivial
    · exact safe_fail _ (.inl (Failure.ordinary_response _ rfl))

section

variable {known : TypeId → Prop} {objects : Objects}

/-- The contents of objects are proper. -/
def BelowSafe (setting : Setting) (known : TypeId → Prop) (objects : Objects) : Prop :=
  ∀ type value path fields, known type → value.Harmless → fields.Distinct →
    (objects type value path fields).Safe setting.Tolerates (Content.Proper path.toList)

theorem safe_object (ordinary : account.Ordinary root) (below : BelowSafe setting known objects)
    (info : Info) (type : TypeId) (path : ResponsePath) (value : Value) (knownType : known type)
    (harmless : value.Harmless) :
    (object setting account objects info type path value).Safe setting.Tolerates
      (Content.Proper path.toList) := by
  refine safe_bind (safe_claimed ordinary info type value) fun _ _ _ => ?_
  refine safe_bind (safe_act setting ordinary _
    (setting.lenient_tolerates.within_collectNodes setting.scope _ _)) fun fields collected _ => ?_
  exact below type value path fields knownType harmless
    (Scope.distinct_collectNodes info.nodes fields collected)

theorem safe_abstract (ordinary : account.Ordinary root) (closed : Closed setting.schema known)
    (below : BelowSafe setting known objects) (info : Info) (type : TypeId) (path : ResponsePath)
    (value : Value) (harmless : value.Harmless) :
    (abstract setting account objects info type path value).Safe setting.Tolerates
      (Content.Proper path.toList) := by
  refine safe_bind (safe_typeFound ordinary info type value) fun found _ _ => ?_
  cases checked : RuntimeType.check setting info type value found with
  | error failure =>
      exact safe_fail _ (.inl (RuntimeType.ordinary_check info type value found failure checked))
  | ok id =>
      have possible := RuntimeType.possible_of_check info type value found id checked
      exact safe_object ordinary below info id path value
        (closed.possible type id possible.1 possible.2) harmless

theorem safe_named (ordinary : account.Ordinary root) (closed : Closed setting.schema known)
    (below : BelowSafe setting known objects) (info : Info) (type : TypeId) (path : ResponsePath)
    (value : Value) (knownType : setting.schema.kindOf type = .object → known type)
    (harmless : value.Harmless) :
    (named setting account objects info type path value).Safe setting.Tolerates
      (Content.Proper path.toList) := by
  unfold named
  cases kind : setting.schema.kindOf type with
  | scalar => exact safe_leaf ordinary type value path.toList
  | enum => exact safe_leaf ordinary type value path.toList
  | object => exact safe_object ordinary below info type path value (knownType kind) harmless
  | interface => exact safe_abstract ordinary closed below info type path value harmless
  | union => exact safe_abstract ordinary closed below info type path value harmless
  | input => exact safe_fail _ (.inl (Failure.ordinary_assertion _))

theorem safe_listItems (setting : Setting) (info : Info) (value : Value) (harmless : value.Harmless) :
    Results.Safe setting.Tolerates (fun items => ∀ item ∈ items, Value.Harmless item)
      (match Completion.listItems? value with
        | some items => .pure items
        | none => .fail (Completion.problem info setting .notIterable)) := by
  cases listed : Completion.listItems? value with
  | some items => exact safe_pure items fun item member => harmless.item listed member
  | none => exact safe_fail _ (.inl (Failure.ordinary_response _ rfl))

theorem safe_listed (ordinary : account.Ordinary root) (info : Info) (value : Value)
    (harmless : value.Harmless) :
    (listed setting account info value).Safe setting.Tolerates
      fun items => ∀ item ∈ items, item.Harmless := by
  have plain := safe_listItems setting info value harmless
  cases value with
  | iterator handle =>
      refine ⟨fun failure failed => ?_, fun items given => ?_⟩
      · rcases failed with ⟨items, fault, drained, same⟩
        cases fault with
        | none => cases same
        | some other =>
            cases same
            exact .inl (ordinary.faults handle items failure drained)
      · rcases given with ⟨others, fault, drained, same⟩
        cases fault with
        | none =>
            cases same
            exact ordinary.items handle items none drained
        | some other => cases same
  | _ => exact plain

theorem safe_required (info : Info) (path : List PathKey) (content : Content)
    (proper : content.Proper path) :
    (required setting info content).Safe setting.Tolerates (Content.Proper path) := by
  cases content with
  | null => exact safe_fail _ (.inl (Failure.ordinary_response _ rfl))
  | _ => exact safe_pure _ proper

theorem ordinary_raised {value : Value} {failure : Failure} (harmless : value.Harmless)
    (raised : Completion.raised? value = some failure) : failure.Ordinary := by
  rcases Option.filter_eq_some_iff.1 raised with ⟨stands, caught⟩
  cases value with
  | error thrown =>
      cases stands
      rcases harmless thrown (.self _) with fatal | ordinary
      · have kept : (Failure.ofThrown thrown).isFatal = true := by
          simp [Failure.ofThrown, fatal, Failure.isFatal, Failure.kind]
        rw [kept] at caught
        cases caught
      · exact ordinary
  | undefined =>
      cases stands
      exact Failure.ordinary_of_kind _ rfl fun _ same => by cases same
  | _ => cases stands

theorem safe_items (info : Info) (type : TypeRef) (path : ResponsePath) (items : List Value)
    (each : ∀ item ∈ items, ∀ index : Nat,
      (Results.placed type info.nodes (path.extend (.index index))
        ((handed setting account item).bind
          (completed setting account objects info type (path.extend (.index index))))).Safe
        setting.Tolerates (Place.Proper (path.extend (.index index)).toList)) :
    ((Results.together (items.zipIdx.map fun (item, index) =>
      Results.placed type info.nodes (path.extend (.index index))
        ((handed setting account item).bind
          (completed setting account objects info type (path.extend (.index index)))))).bind
        fun places => .pure (.list places)).Safe setting.Tolerates (Content.Proper path.toList) := by
  refine safe_bind (safe_together items.zipIdx _ (fun entry place =>
    Place.Proper (path.toList ++ [.index (entry.2 : Nat)]) place) fun entry member =>
      each entry.1 (List.fst_mem_of_mem_zipIdx member) entry.2) fun places _ proper => ?_
  rcases Place.proper_from path.toList items 0 places proper with ⟨fits, keyed⟩
  exact safe_pure _ ⟨fits, keyed⟩

/-- What a harmless value makes of a type is proper. -/
theorem safe_completed (ordinary : account.Ordinary root) (closed : Closed setting.schema known)
    (below : BelowSafe setting known objects) (info : Info) (type : TypeRef) (id : TypeId)
    (inner : type.innermost = .ok id) (knownType : setting.schema.kindOf id = .object → known id)
    (path : ResponsePath) (value : Value) (harmless : value.Harmless) :
    (completed setting account objects info type path value).Safe setting.Tolerates
      (Content.Proper path.toList) := by
  induction type generalizing path value with
  | broken fault => cases inner
  | nonNull of ih =>
      unfold completed
      cases raised : Completion.raised? value with
      | some failure => exact safe_fail _ (.inl (ordinary_raised harmless raised))
      | none =>
          exact safe_bind (ih inner path value harmless) fun content _ proper =>
            safe_required info path.toList content proper
  | list of ih =>
      unfold completed
      cases raised : Completion.raised? value with
      | some failure => exact safe_fail _ (.inl (ordinary_raised harmless raised))
      | none =>
          simp only
          split
          · exact safe_pure _ (Content.proper_null path.toList)
          · refine safe_bind (safe_listed ordinary info value harmless) fun items _ harmless => ?_
            refine safe_items info of path items fun item member index => ?_
            refine safe_placed ?_
            exact safe_bind (safe_handed ordinary item (harmless item member))
              fun found _ harmless => ih inner (path.extend (.index index)) found harmless
  | named found =>
      cases inner
      unfold completed
      cases raised : Completion.raised? value with
      | some failure => exact safe_fail _ (.inl (ordinary_raised harmless raised))
      | none =>
          simp only
          split
          · exact safe_pure _ (Content.proper_null path.toList)
          · exact safe_named ordinary closed below info id path value knownType harmless

theorem safe_resolvedByName (ordinary : account.Ordinary root) (source arguments : Value)
    (info : Info) (harmless : source.Harmless) :
    (resolvedByName account source arguments info).Safe setting.Tolerates Value.Harmless := by
  have found : ((source.get? info.fieldName).getD .null).Harmless := by
    cases looked : source.get? info.fieldName with
    | none => exact Value.Bare.null.harmless
    | some part => exact harmless.part looked
  unfold resolvedByName
  split
  · exact safe_asked ordinary _
  · next receiver name same =>
      rw [same] at found
      cases called : receiver.callMethod name arguments info.environment.context with
      | error fault => exact safe_fail _ (.inl (Failure.ordinary_value fault))
      | ok result => exact safe_pure _ (found.result called)
  · exact safe_pure _ found

theorem safe_resolved (ordinary : account.Ordinary root) (sound : Sound setting.schema known)
    (field : Field) (source arguments : Value) (info : Info) (knownParent : known info.parentType)
    (harmless : source.Harmless) :
    (resolved setting account field source arguments info).Safe setting.Tolerates
      Value.Harmless := by
  unfold resolved
  split
  · rcases sound.named info.parentType knownParent with ⟨text, named⟩
    rw [named]
    exact safe_pure _ (Value.Bare.str text).harmless
  · split
    · exact safe_called ordinary _ _
    · split
      · exact safe_asked ordinary _
      · exact safe_resolvedByName ordinary source arguments info harmless

theorem safe_fieldValue (ordinary : account.Ordinary root) (sound : Sound setting.schema known)
    (below : BelowSafe setting known objects) (field : Field) (type : TypeRef) (id : TypeId)
    (inner : type.innermost = .ok id) (knownType : setting.schema.kindOf id = .object → known id)
    (source : Value) (info : Info) (node : FieldNode) (knownParent : known info.parentType)
    (harmless : source.Harmless) :
    (fieldValue setting account objects field type source info node).Safe setting.Tolerates
      (Content.Proper info.path.toList) := by
  refine safe_bind (safe_act setting ordinary _
    (setting.lenient_tolerates.within_arguments _ _ _ _ _)) fun bound _ _ => ?_
  refine safe_bind (safe_resolved ordinary sound field source _ info knownParent harmless)
    fun value _ harmless => ?_
  refine safe_bind (safe_handed ordinary value harmless) fun value _ harmless => ?_
  exact safe_completed ordinary sound.toClosed below info type id inner knownType info.path value
    harmless

theorem safe_fieldPlace (ordinary : account.Ordinary root) (sound : Sound setting.schema known)
    (below : BelowSafe setting known objects) (parent : TypeId) (source : Value)
    (path : ResponsePath) (nodes : List FieldNode) (knownParent : known parent)
    (harmless : source.Harmless) (results : Results Place)
    (placed : fieldPlace? setting account objects parent source path nodes = some results) :
    results.Safe setting.Tolerates (Place.Proper path.toList) := by
  rcases Option.bind_eq_some_iff.1 placed with ⟨node, _, placed⟩
  rcases sound.declared parent node.name knownParent with ⟨found, looked, declared⟩
  rw [looked] at placed
  cases found with
  | none => cases placed
  | some field =>
      rcases declared field rfl with ⟨type, id, typed, inner⟩
      simp only [typed, Option.some.injEq] at placed
      rw [← placed]
      let info : Info := ⟨setting.environment, node.name, nodes, type, parent, path⟩
      exact safe_placed (safe_fieldValue ordinary sound below field type id inner
        (sound.field parent node.name field type id knownParent looked typed inner) source info node
        knownParent harmless)

theorem keys_fieldPlaces (parent : TypeId) (source : Value) (path : Option ResponsePath)
    (fields : Collected) :
    ((fieldPlaces setting account objects parent source path fields).map (·.1)).Sublist
      (fields.map (·.1)) := by
  induction fields with
  | nil => exact .slnil
  | cons entry rest ih =>
      obtain ⟨key, nodes⟩ := entry
      simp only [fieldPlaces, List.filterMap_cons]
      cases fieldPlace? setting account objects parent source (.add path (.name key)) nodes with
      | none => exact ih.cons key
      | some results => exact ih.cons_cons key

/-- The content of an object is proper, however deep objects nest in it. -/
theorem safe_selected (ordinary : account.Ordinary root) (sound : Sound setting.schema known)
    (levels : Nat) (parent : TypeId) (source : Value) (path : Option ResponsePath)
    (fields : Collected) (knownParent : known parent) (harmless : source.Harmless)
    (distinct : fields.Distinct) :
    (selected setting account levels parent source path fields).Safe setting.Tolerates
      (Content.Proper ((path.map ResponsePath.toList).getD [])) := by
  induction levels generalizing parent source path fields with
  | zero => exact safe_fail _ (.inl (Failure.ordinary_of_kind _ rfl fun _ same => by cases same))
  | succ levels ih =>
      have below : BelowSafe setting known fun type value place inner =>
          selected setting account levels type value (some place) inner :=
        fun type value place inner known harmless distinct =>
          ih type value (some place) inner known harmless distinct
      rw [selected]
      let base := (path.map ResponsePath.toList).getD []
      refine safe_bind (safe_together (fieldPlaces setting account _ parent source path fields)
        (·.2) (fun entry => Place.Proper (base ++ [.name entry.1])) fun entry member => ?_)
        fun places _ proper => ?_
      · rcases List.mem_filterMap.1 member with ⟨⟨key, nodes⟩, _, found⟩
        rcases Option.map_eq_some_iff.1 found with ⟨results, placed, rfl⟩
        simp only [base, ← ResponsePath.toList_add]
        exact safe_fieldPlace ordinary sound below parent source _ nodes knownParent harmless results
          placed
      · rcases Place.proper_under _ _ places proper with ⟨fits, size, keyed⟩
        refine safe_pure _ ⟨fits, ?_, size, keyed⟩
        exact distinct.sublist (keys_fieldPlaces parent source path fields)

theorem halts_of_selected (levels : Nat) (parent : TypeId) (source : Value)
    (path : Option ResponsePath) (fields : Collected) (failure : Failure)
    (failed : selected setting account (levels + 1) parent source path fields (.error failure)) :
    failure.halts = true := by
  rw [selected] at failed
  rcases bind_error failed with ⟨results, member, failed⟩ | ⟨_, _, failed⟩
  · exact halting_fieldPlaces _ _ _ _ _ _ _ results member failure failed
  · cases failed

end

end Reference

end GraphQL
