import GraphQL.Proofs.Subtyping

/-!
Members of abstract types. A schema finds the possible types of an interface or union by name, in a
table that is filled from its type map; declarations tell them apart by identity. Where the types pass
their own checks, both agree.
-/

namespace GraphQL

theorem Checked.bind_ne {α β : Type} {fault : SchemaFault} {first : Checked α} {next : α → Checked β}
    (spares : first ≠ .error fault) (later : ∀ value, first = .ok value → next value ≠ .error fault) :
    first >>= next ≠ .error fault := by
  cases first with
  | error other => exact fun same => spares (congrArg Except.error (Except.error.inj same))
  | ok value => exact later value rfl

theorem Checked.forM_ne {α : Type} {fault : SchemaFault} {test : α → Checked Unit} {items : List α}
    (spares : ∀ item ∈ items, test item ≠ .error fault) : items.forM test ≠ .error fault := by
  induction items with
  | nil => exact fun same => by cases same
  | cons first rest ih =>
      rw [List.forM_eq_forM, List.forM_cons]
      exact bind_ne (spares first List.mem_cons_self) fun _ _ =>
        ih fun item member => spares item (List.mem_cons_of_mem _ member)

theorem Checked.forM_ok {α : Type} {test : α → Checked Unit} {items : List α}
    (passes : ∀ item ∈ items, test item = .ok ()) : items.forM test = .ok () := by
  induction items with
  | nil => rfl
  | cons first rest ih =>
      rw [List.forM_eq_forM, List.forM_cons, passes first List.mem_cons_self]
      exact ih fun item member => passes item (List.mem_cons_of_mem _ member)

theorem require_ne {holds : Bool} {fault other : SchemaFault} (apart : other ≠ fault) :
    require holds other ≠ .error fault := by
  unfold require
  split
  · exact fun same => by cases same
  · exact fun same => apart (Except.error.inj same)

theorem checkNameOf_ne {owner : Option String} {name : Value} {interface implementation : String} :
    checkNameOf owner name ≠ .error (.possibleTypeForeign interface implementation) := by
  unfold checkNameOf
  split <;> exact fun same => by cases same

/-- What comes out of a list one by one is related as the items are. -/
theorem Except.pairwise_of_mapM {α β : Type} {next : α → Checked β} {items : List α} {results : List β}
    {related : α → α → Prop} {relates : β → β → Prop} (each : items.mapM next = .ok results)
    (apart : items.Pairwise related)
    (carries : ∀ left ∈ items, ∀ right ∈ items, related left right → ∀ made made',
      next left = .ok made → next right = .ok made' → relates made made') :
    results.Pairwise relates := by
  induction items generalizing results with
  | nil =>
      cases each
      exact .nil
  | cons first rest ih =>
      rw [List.mapM_cons] at each
      obtain ⟨head, made, each⟩ := Checked.ok_of_bind each
      obtain ⟨tail, others, each⟩ := Checked.ok_of_bind each
      cases each
      obtain ⟨front, apart⟩ := List.pairwise_cons.1 apart
      refine .cons (fun result inside => ?_) (ih others apart fun left leftInside right rightInside =>
        carries left (List.mem_cons_of_mem _ leftInside) right (List.mem_cons_of_mem _ rightInside))
      obtain ⟨item, member, made'⟩ := mem_of_mapM_result next rest tail others result inside
      exact carries first List.mem_cons_self item (List.mem_cons_of_mem _ member) (front item member)
        head result made made'

namespace Layout

variable {layout : Layout}

/-- Types of different names. -/
def Apart (layout : Layout) (earlier later : Candidate) : Prop :=
  ∀ id other, earlier = .named id → later = .named other →
    (layout.definition id).name.equals (layout.definition other).name = false

/-- No name of a list is that of a type. -/
def Unseen (layout : Layout) (seen : List Value) (candidate : Candidate) : Prop :=
  ∀ id, candidate = .named id → ∀ name ∈ seen, name.equals (layout.definition id).name = false

theorem apart_of_unseen {seen : List Value} {id : TypeId} {rest : List Candidate}
    (fresh : seen.any (·.equals (layout.definition id).name) = false)
    (later : rest.Pairwise layout.Apart
      ∧ ∀ candidate ∈ rest, layout.Unseen (seen ++ [(layout.definition id).name]) candidate) :
    (Candidate.named id :: rest).Pairwise layout.Apart
      ∧ ∀ candidate ∈ Candidate.named id :: rest, layout.Unseen seen candidate := by
  obtain ⟨apart, unseen⟩ := later
  refine ⟨.cons (fun candidate member first other same isOther => ?_) apart,
    fun candidate member other isOther name inside => ?_⟩
  · cases same
    exact unseen candidate member other isOther _ (List.mem_append_right _ List.mem_cons_self)
  · rcases List.mem_cons.1 member with rfl | later
    · cases isOther
      exact Bool.eq_false_iff.2 (List.any_eq_false.1 fresh name inside)
    · exact unseen candidate later other isOther name (List.mem_append_left _ inside)

theorem apart_of_checkMembers {union : String} {members : List Candidate} {seen : List Value}
    (passes : layout.checkMembers union members seen = .ok ()) :
    members.Pairwise layout.Apart ∧ ∀ candidate ∈ members, layout.Unseen seen candidate := by
  induction members generalizing seen with
  | nil => exact ⟨.nil, fun candidate member => by cases member⟩
  | cons first rest ih =>
      unfold checkMembers at passes
      split at passes
      · cases passes
      · next id found =>
          simp only at passes
          split at passes
          · cases passes
          · next fresh =>
              rw [Candidate.eq_named (Option.filter_eq_some_iff.1 found).1]
              exact apart_of_unseen (Bool.eq_false_iff.2 fresh) (ih passes)

theorem apart_of_checkInterfaces {type : String} {own : Table Field} {interfaces : List Candidate}
    {seen : List Value} (passes : layout.checkInterfaces type own interfaces seen = .ok ()) :
    interfaces.Pairwise layout.Apart ∧ ∀ candidate ∈ interfaces, layout.Unseen seen candidate := by
  induction interfaces generalizing seen with
  | nil => exact ⟨.nil, fun candidate member => by cases member⟩
  | cons first rest ih =>
      unfold checkInterfaces at passes
      split at passes
      · cases passes
      · next id named =>
          simp only at passes
          split at passes
          · split at passes
            · obtain ⟨_, ⟨⟩, _⟩ := Checked.ok_of_bind passes
            · next fresh =>
                obtain ⟨_, _, passes⟩ := Checked.ok_of_bind passes
                obtain ⟨_, _, passes⟩ := Checked.ok_of_bind passes
                rw [Candidate.eq_named named]
                exact apart_of_unseen (Bool.eq_false_iff.2 fresh) (ih passes)
          · cases passes

theorem nodup_of_apart {candidates : List Candidate} (apart : candidates.Pairwise layout.Apart)
    (each : ∀ candidate ∈ candidates, ∃ id, candidate = .named id
      ∧ (layout.definition id).name.equals (layout.definition id).name = true) :
    candidates.Nodup := by
  refine apart.imp_of_mem fun {earlier later} member _ differ same => ?_
  obtain ⟨id, rfl, equal⟩ := each _ member
  rw [differ id id rfl same.symm] at equal
  cases equal

end Layout

namespace Schema

variable {schema : Schema} {found : TypeMap}

section Vetted

variable (vetted : schema.Vetted found)
include vetted

theorem members_of_union {union : TypeId} (knows : schema.Knows union) {listed : Checked (List Candidate)}
    {resolveType : Slot} (body : (schema.definition union).body = .union listed resolveType) :
    ∃ members, listed = .ok members ∧ members.Nodup
      ∧ ∀ candidate ∈ members, ∃ object, candidate = .named object ∧ schema.Knows object
        ∧ schema.kindOf object = .object := by
  obtain ⟨_, _, checks⟩ := Checked.ok_of_bind (vetted.definition knows)
  rw [body] at checks
  obtain ⟨members, rfl, passes⟩ := Checked.ok_of_bind checks
  obtain ⟨_, _, passes⟩ := Checked.ok_of_bind passes
  obtain ⟨_, passes, _⟩ := Checked.ok_of_bind passes
  have each : ∀ candidate ∈ members, ∃ object, candidate = .named object ∧ schema.Knows object
      ∧ schema.kindOf object = .object := by
    intro candidate member
    obtain ⟨object, rfl, _⟩ := object_of_checkMembers passes candidate member
    exact ⟨object, rfl, object_of_member vetted knows body member⟩
  refine ⟨members, rfl, Layout.nodup_of_apart (Layout.apart_of_checkMembers passes).1
    fun candidate member => ?_, each⟩
  obtain ⟨object, rfl, known, _⟩ := each candidate member
  exact ⟨object, rfl, equals_name vetted known⟩

theorem interfaces_of_object {object : TypeId} (knows : schema.Knows object)
    {fields : Checked (Table Field)} {listed : Checked (List Candidate)} {isTypeOf : Slot}
    (body : (schema.definition object).body = .object fields listed isTypeOf) :
    ∃ interfaces, listed = .ok interfaces ∧ interfaces.Nodup
      ∧ ∀ candidate ∈ interfaces, ∃ interface, candidate = .named interface ∧ schema.Knows interface
        ∧ schema.kindOf interface = .interface := by
  obtain ⟨_, _, checks⟩ := Checked.ok_of_bind (vetted.definition knows)
  rw [body] at checks
  obtain ⟨_, checks, _⟩ := Checked.ok_of_bind checks
  obtain ⟨own, _, checks⟩ := Checked.ok_of_bind checks
  obtain ⟨_, _, checks⟩ := Checked.ok_of_bind checks
  obtain ⟨_, _, checks⟩ := Checked.ok_of_bind checks
  obtain ⟨interfaces, rfl, passes⟩ := Checked.ok_of_bind checks
  have each : ∀ candidate ∈ interfaces, ∃ interface, candidate = .named interface
      ∧ schema.Knows interface ∧ schema.kindOf interface = .interface := by
    intro candidate member
    obtain ⟨interface, _, rfl, _⟩ := interface_of_checkInterfaces passes candidate member
    exact ⟨interface, rfl, interface_of_implements vetted knows
      (implements_iff.2 ⟨interfaces, by rw [TypeDef.interfaces, body], member⟩)⟩
  refine ⟨interfaces, rfl, Layout.nodup_of_apart (Layout.apart_of_checkInterfaces passes).1
    fun candidate member => ?_, each⟩
  obtain ⟨interface, rfl, known, _⟩ := each candidate member
  exact ⟨interface, rfl, equals_name vetted known⟩

theorem contribution_to_union {union id : TypeId} (knows : schema.Knows union)
    (kind : schema.kindOf union = .union) (known : schema.Knows id) {own : List Candidate}
    (contributed : schema.contribution (schema.definition union).name id = .ok own) :
    own.Nodup ∧ (id ≠ union → own = []) := by
  have sound := vetted.sound
  unfold contribution at contributed
  cases body : (schema.definition id).body with
  | union listed resolveType =>
      simp only [body] at contributed
      split at contributed
      · next same =>
          obtain ⟨members, rfl, nodup, _⟩ := members_of_union vetted known body
          cases contributed
          exact ⟨nodup, fun apart => absurd (sound.distinct _ _ known knows same) apart⟩
      · cases contributed
        exact ⟨.nil, fun _ => rfl⟩
  | object fields listed isTypeOf =>
      -- an object type has interfaces only, of which none has the name of a union
      obtain ⟨interfaces, rfl, _, each⟩ := interfaces_of_object vetted known body
      simp only [body] at contributed
      obtain ⟨_, ⟨⟩, contributed⟩ := Checked.ok_of_bind contributed
      cases contributed
      have none : (interfaces.filter fun candidate => candidate.named?.any fun interface =>
          (schema.definition interface).name.equals (schema.definition union).name) = [] := by
        refine List.filter_eq_nil_iff.2 fun candidate member named => ?_
        obtain ⟨interface, rfl, base, abstract⟩ := each candidate member
        rw [sound.distinct _ _ base knows named, kind] at abstract
        cases abstract
      rw [none]
      exact ⟨.nil, fun _ => rfl⟩
  | _ =>
      simp only [body] at contributed
      cases contributed
      exact ⟨.nil, fun _ => rfl⟩

theorem contribution_to_interface {interface id : TypeId} (knows : schema.Knows interface)
    (kind : schema.kindOf interface = .interface) (known : schema.Knows id) {own : List Candidate}
    (contributed : schema.contribution (schema.definition interface).name id = .ok own) :
    own.Nodup ∧ own ⊆ [.named id] := by
  have sound := vetted.sound
  unfold contribution at contributed
  cases body : (schema.definition id).body with
  | union listed resolveType =>
      simp only [body] at contributed
      split at contributed
      · next same =>
          rw [sound.distinct _ _ known knows same] at body
          rw [Layout.kindOf, TypeDef.kind, body] at kind
          cases kind
      · cases contributed
        exact ⟨.nil, List.nil_subset _⟩
  | object fields listed isTypeOf =>
      obtain ⟨interfaces, rfl, nodup, each⟩ := interfaces_of_object vetted known body
      simp only [body] at contributed
      obtain ⟨_, ⟨⟩, contributed⟩ := Checked.ok_of_bind contributed
      cases contributed
      have few : (interfaces.filter fun candidate => candidate.named?.any fun base =>
          (schema.definition base).name.equals (schema.definition interface).name) ⊆
            [.named interface] := by
        intro candidate inside
        obtain ⟨member, named⟩ := List.mem_filter.1 inside
        obtain ⟨base, rfl, known, _⟩ := each candidate member
        rw [sound.distinct _ _ known knows named]
        exact List.mem_singleton.2 rfl
      have short := ((nodup.filter _).subperm few).length_le
      generalize interfaces.filter _ = implemented at short
      cases implemented with
      | nil => exact ⟨.nil, List.nil_subset _⟩
      | cons first rest =>
          cases List.eq_nil_of_length_eq_zero (Nat.le_zero.1 (Nat.le_of_succ_le_succ short))
          exact ⟨List.nodup_singleton _, List.Subset.refl _⟩
  | _ =>
      simp only [body] at contributed
      cases contributed
      exact ⟨.nil, List.nil_subset _⟩

theorem member_of_possible {union : TypeId} {members candidates : List Candidate} {resolveType : Slot}
    (knows : schema.Knows union) (body : (schema.definition union).body = .union (.ok members) resolveType)
    (possible : schema.possibleTypes union = .ok candidates) : candidates ⊆ members := by
  intro candidate inside
  have kind : schema.kindOf union = .union := by rw [Layout.kindOf, TypeDef.kind, body]
  obtain ⟨entry, here, own, contributed, member⟩ :=
    (mem_possibleTypes vetted.reached possible).1 inside
  have known : schema.Knows entry.2 := ⟨found, entry.1, vetted.reached, here⟩
  by_cases same : entry.2 = union
  · rw [same] at contributed
    unfold contribution at contributed
    simp only [body, equals_name vetted knows, if_true] at contributed
    cases contributed
    exact member
  · rw [(contribution_to_union vetted knows kind known contributed).2 same] at member
    cases member

theorem object_of_possible {abstract : TypeId} (knows : schema.Knows abstract)
    (kind : (schema.kindOf abstract).isAbstract = true) {candidates : List Candidate}
    (possible : schema.possibleTypes abstract = .ok candidates) {candidate : Candidate}
    (inside : candidate ∈ candidates) :
    ∃ object, candidate = .named object ∧ schema.Knows object ∧ schema.kindOf object = .object := by
  cases body : (schema.definition abstract).body with
  | union listed resolveType =>
      obtain ⟨members, rfl, _, each⟩ := members_of_union vetted knows body
      exact each candidate (member_of_possible vetted knows body possible inside)
  | interface fields interfaces resolveType =>
      have interface : schema.kindOf abstract = .interface := by
        rw [Layout.kindOf, TypeDef.kind, body]
      obtain ⟨object, rfl, known, shape, _⟩ :=
        implements_of_possible vetted knows interface possible inside
      exact ⟨object, rfl, known, shape⟩
  | _ =>
      rw [Layout.kindOf, TypeDef.kind, body] at kind
      cases kind

theorem Vetted.pairwise_ids : found.Pairwise fun earlier later => earlier.2 ≠ later.2 := by
  obtain ⟨_, _, walked⟩ := walked_of_reached vetted.reached
  refine (walked.distinct .nil).imp_of_mem fun {earlier later} front back apart same => ?_
  have known : schema.Knows earlier.2 := ⟨found, earlier.1, vetted.reached, front⟩
  rw [(settled_of_reached vetted.reached _ front).1, (settled_of_reached vetted.reached _ back).1,
    ← same, Value.isKey, equals_name vetted known, Bool.or_true] at apart
  cases apart

theorem nodup_possibleTypes {abstract : TypeId} (knows : schema.Knows abstract)
    (kind : (schema.kindOf abstract).isAbstract = true) {candidates : List Candidate}
    (possible : schema.possibleTypes abstract = .ok candidates) : candidates.Nodup := by
  obtain ⟨other, same, possible⟩ := Checked.ok_of_bind possible
  cases vetted.reached.symm.trans same
  obtain ⟨lists, each, possible⟩ := Checked.ok_of_bind possible
  cases possible
  have known : ∀ entry ∈ found, schema.Knows entry.2 := fun entry here =>
    ⟨found, entry.1, vetted.reached, here⟩
  refine List.nodup_flatten.2 ⟨fun own inside => ?_,
    Except.pairwise_of_mapM each vetted.pairwise_ids fun left leftHere right rightHere apart own others
      contributed contributed' candidate member member' => ?_⟩
  · obtain ⟨entry, here, contributed⟩ := Except.mem_of_mapM_result _ _ _ each own inside
    cases is : schema.kindOf abstract with
    | union => exact (contribution_to_union vetted knows is (known entry here) contributed).1
    | interface => exact (contribution_to_interface vetted knows is (known entry here) contributed).1
    | _ =>
        rw [is] at kind
        cases kind
  · cases is : schema.kindOf abstract with
    | union =>
        -- one of the two is not the union itself
        by_cases same : left.2 = abstract
        · rw [(contribution_to_union vetted knows is (known right rightHere) contributed').2
            fun same' => apart (same.trans same'.symm)] at member'
          cases member'
        · rw [(contribution_to_union vetted knows is (known left leftHere) contributed).2 same] at member
          cases member
    | interface =>
        have first := List.mem_singleton.1
          ((contribution_to_interface vetted knows is (known left leftHere) contributed).2 member)
        have second := List.mem_singleton.1
          ((contribution_to_interface vetted knows is (known right rightHere) contributed').2 member')
        rw [first] at second
        exact apart (TypeRef.named.inj (Candidate.type.inj second))
    | _ =>
        rw [is] at kind
        cases kind

omit vetted in
theorem interfaces_ok {id : TypeId} (known : schema.Knows id) :
    ∃ interfaces, (schema.definition id).interfaces = .ok interfaces := by
  obtain ⟨_, _, reached, here⟩ := known
  obtain ⟨_, references, refers, _⟩ := settled_of_reached reached _ here
  unfold TypeDef.references at refers
  unfold TypeDef.interfaces
  cases body : (schema.definition id).body with
  | object fields interfaces isTypeOf =>
      rw [body] at refers
      obtain ⟨listed, worked, _⟩ := Checked.ok_of_bind refers
      exact ⟨listed, worked⟩
  | interface fields interfaces resolveType =>
      rw [body] at refers
      obtain ⟨listed, worked, _⟩ := Checked.ok_of_bind refers
      exact ⟨listed, worked⟩
  | _ => exact ⟨[], rfl⟩

theorem isNamedSubtype_ok {abstract object : TypeId} (knows : schema.Knows abstract)
    (known : schema.Knows object) : ∃ holds, schema.isNamedSubtype object abstract = .ok holds := by
  unfold Layout.isNamedSubtype
  split
  · exact ⟨true, rfl⟩
  · cases body : (schema.definition abstract).body with
    | union listed resolveType =>
        obtain ⟨members, rfl, _⟩ := members_of_union vetted knows body
        exact ⟨_, rfl⟩
    | interface fields interfaces resolveType =>
        obtain ⟨listed, declared⟩ := interfaces_ok known
        simp only [Layout.implements, declared]
        exact ⟨_, rfl⟩
    | _ => exact ⟨false, rfl⟩

/-- An object type is a possible type of an abstract one exactly if it stands below it. -/
theorem mem_possibleTypes_iff {abstract object : TypeId} (knows : schema.Knows abstract)
    (kind : (schema.kindOf abstract).isAbstract = true) (known : schema.Knows object)
    (shape : schema.kindOf object = .object) {candidates : List Candidate}
    (possible : schema.possibleTypes abstract = .ok candidates) :
    .named object ∈ candidates ↔ schema.isNamedSubtype object abstract = .ok true := by
  rw [isNamedSubtype_iff]
  constructor
  · intro inside
    cases body : (schema.definition abstract).body with
    | union listed resolveType =>
        obtain ⟨members, rfl, _⟩ := members_of_union vetted knows body
        exact .inr (.inl ⟨members, resolveType, rfl,
          member_of_possible vetted knows body possible inside⟩)
    | interface fields interfaces resolveType =>
        have interface : schema.kindOf abstract = .interface := by
          rw [Layout.kindOf, TypeDef.kind, body]
        obtain ⟨_, ⟨⟩, _, _, implements⟩ :=
          implements_of_possible vetted knows interface possible inside
        exact .inr (.inr ⟨interface, implements⟩)
    | _ =>
        rw [Layout.kindOf, TypeDef.kind, body] at kind
        cases kind
  · rintro (rfl | ⟨members, resolveType, body, member⟩ | ⟨interface, implements⟩)
    · rw [shape] at kind
      cases kind
    · exact possible_of_member vetted knows body possible member
    · exact possible_of_implements vetted known shape implements possible

/-- The possible types of the interfaces of the map implement them. -/
theorem checkPossibleTypes_ok {id : TypeId} (knows : schema.Knows id) :
    schema.checkPossibleTypes id = .ok () := by
  unfold checkPossibleTypes
  cases kind : schema.kindOf id with
  | interface =>
      obtain ⟨candidates, possible⟩ := possibleTypes_of_reached vetted.reached id
      simp only [possible]
      refine Checked.forM_ok fun candidate inside => ?_
      obtain ⟨object, rfl, _, _, implements⟩ :=
        implements_of_possible vetted knows kind possible inside
      show (schema.implements object id >>= fun holds => require holds _) = .ok ()
      rw [show schema.implements object id = .ok true from implements]
      rfl
  | _ => rfl

theorem directive_arguments_ok {directive : Directive} (member : directive ∈ schema.directives) :
    ∃ arguments, directive.arguments = .ok arguments ∧ ∀ argument ∈ arguments.items,
      ∃ type inner, argument.type = .ok type ∧ type.innermost = .ok inner := by
  obtain ⟨origins, starts, walked⟩ := walked_of_reached vetted.reached
  obtain ⟨lists, each, starts⟩ := Checked.ok_of_bind starts
  obtain ⟨list, inside, refers⟩ := Except.mem_of_mapM _ _ _ each directive member
  obtain ⟨arguments, worked, refers⟩ := Checked.ok_of_bind refers
  refine ⟨arguments, worked, fun argument here => ?_⟩
  obtain ⟨candidate, referred, made⟩ := Except.mem_of_mapM _ _ _ refers argument here
  cases starts
  unfold InputValue.reference at made
  cases typed : argument.type with
  | error fault =>
      rw [typed] at made
      cases made
  | ok type =>
      rw [typed] at made
      cases made
      obtain ⟨inner, _, denotes, _⟩ := walked.covers (.type type)
        (List.mem_append_right _ (List.mem_flatten.2 ⟨list, inside, referred⟩)) type rfl
      exact ⟨type, inner, rfl, denotes⟩

theorem checkDirectives_ne {interface implementation : String} {directives : List Directive}
    {seen : List Value} (inside : directives ⊆ schema.directives) :
    schema.checkDirectives directives seen ≠ .error (.possibleTypeForeign interface implementation) := by
  induction directives generalizing seen with
  | nil => exact fun same => by cases same
  | cons directive rest ih =>
      obtain ⟨arguments, worked, each⟩ :=
        directive_arguments_ok vetted (inside List.mem_cons_self)
      unfold Layout.checkDirectives
      refine Checked.bind_ne ?_ fun _ _ => Checked.bind_ne (require_ne fun same => by cases same)
        fun _ _ => ih fun other later => inside (List.mem_cons_of_mem _ later)
      unfold Layout.checkDirective
      rw [worked]
      refine Checked.bind_ne checkNameOf_ne fun _ _ =>
        Checked.bind_ne (require_ne fun same => by cases same) fun _ _ =>
          Checked.forM_ne fun argument here => ?_
      obtain ⟨type, inner, typed, denotes⟩ := each argument here
      unfold Layout.checkDirectiveArgument Layout.checkType Layout.isInputType Layout.innermostIs
      rw [typed]
      refine Checked.bind_ne checkNameOf_ne fun _ _ => ?_
      show (TypeRef.innermost type |>.map _) >>= _ ≠ _
      rw [denotes]
      exact require_ne fun same => by cases same

/-- The check of a schema does not get to blame a possible type. -/
theorem check_ne_possibleTypeForeign (interface implementation : String) :
    schema.check ≠ .error (.possibleTypeForeign interface implementation) := by
  have known : ∀ entry ∈ found, schema.Knows entry.2 := fun entry here =>
    ⟨found, entry.1, vetted.reached, here⟩
  have definitions : (found.forM fun entry => schema.checkDefinition (schema.definition entry.2))
      = .ok () :=
    Checked.forM_ok vetted.definitions
  have possible : (found.forM fun entry => schema.checkPossibleTypes entry.2) = .ok () :=
    Checked.forM_ok fun entry here => checkPossibleTypes_ok vetted (known entry here)
  have roots : ∀ operation root, schema.checkRoot operation root
      ≠ .error (.possibleTypeForeign interface implementation) := by
    intro operation root
    cases root with
    | none => exact fun same => by cases same
    | some candidate => exact require_ne fun same => by cases same
  unfold check
  split
  · exact fun same => by cases same
  · refine Checked.bind_ne (require_ne fun same => by cases same) fun _ _ =>
      Checked.bind_ne (roots _ _) fun _ _ => Checked.bind_ne (roots _ _) fun _ _ =>
      Checked.bind_ne (roots _ _) fun _ _ => ?_
    rw [vetted.reached]
    show (found.forM fun entry => schema.checkDefinition (schema.definition entry.2)) >>= _ ≠ _
    rw [definitions]
    show (found.forM fun entry => schema.checkPossibleTypes entry.2) >>= _ ≠ _
    rw [possible]
    exact checkDirectives_ne vetted (List.Subset.refl _)

/-- Whether an object type is among the possible types of an abstract one is the same as whether it
stands below it. -/
theorem isPossible_eq_isSubtype {abstract object : TypeId} (knows : schema.Knows abstract)
    (kind : (schema.kindOf abstract).isAbstract = true) (known : schema.Knows object)
    (shape : schema.kindOf object = .object) :
    ∃ holds, schema.isPossible abstract object = .ok holds
      ∧ schema.isSubtype (.named object) (.named abstract) = .ok holds := by
  obtain ⟨candidates, possible⟩ := possibleTypes_of_reached vetted.reached abstract
  obtain ⟨holds, below⟩ := isNamedSubtype_ok vetted knows known
  refine ⟨holds, ?_, by rw [Layout.isSubtype, below]⟩
  have listed : schema.isPossible abstract object
      = .ok (candidates.any fun candidate => candidate.named? == some object) := by
    rw [isPossible, possible]
    rfl
  rw [listed]
  refine congrArg Except.ok (Bool.eq_iff_iff.2 ?_)
  have same := mem_possibleTypes_iff vetted knows kind known shape possible
  rw [below, Except.ok.injEq] at same
  rw [← same, List.any_eq_true]
  constructor
  · rintro ⟨candidate, inside, named⟩
    exact Candidate.eq_named (beq_iff_eq.1 named) ▸ inside
  · exact fun inside => ⟨_, inside, beq_iff_eq.2 rfl⟩

end Vetted

/-- Where all types pass their own checks, an abstract type of the map has different object types of
the map as its possible types: those that stand below it. So the check that possible types implement
their interface never fails. -/
theorem possible_types_are_subtypes (schema : Schema) (found : TypeMap)
    (vetted : schema.Vetted found) :
    (∀ abstract, schema.Knows abstract → (schema.kindOf abstract).isAbstract = true →
      (∃ candidates, schema.possibleTypes abstract = .ok candidates ∧ candidates.Nodup
        ∧ ∀ candidate ∈ candidates, ∃ object, candidate = .named object ∧ schema.Knows object
          ∧ schema.kindOf object = .object)
      ∧ ∀ object, schema.Knows object → schema.kindOf object = .object →
        ∃ holds, schema.isPossible abstract object = .ok holds
          ∧ schema.isSubtype (.named object) (.named abstract) = .ok holds)
      ∧ ∀ interface implementation,
        schema.check ≠ .error (.possibleTypeForeign interface implementation) := by
  refine ⟨fun abstract knows kind => ⟨?_, fun object known shape =>
    isPossible_eq_isSubtype vetted knows kind known shape⟩, check_ne_possibleTypeForeign vetted⟩
  obtain ⟨candidates, possible⟩ := possibleTypes_of_reached vetted.reached abstract
  exact ⟨candidates, possible, nodup_possibleTypes vetted knows kind possible,
    fun candidate inside => object_of_possible vetted knows kind possible inside⟩

/-- A root that implements an interface and has a field for a union, of which it is a member like
another object type. -/
def mingled : Schema :=
  let field (name : String) (type : TypeRef) : Value × Field := (.str name,
    { name := .str name, type := .ok type, arguments := .ok .empty, resolve := .absent
      complexity := .absent, deprecated := none })
  let number := field "x" (.named (.standard .int))
  .ofLayout
    { types := #[
        ⟨.str "Query", .object
          (.ok (.ofList [number, field "any" (.list (.named (.declared 3)))]))
          (.ok [.named (.declared 1)]) .absent⟩,
        ⟨.str "Node", .interface (.ok (.ofList [number])) (.ok []) .absent⟩,
        ⟨.str "Pet", .object (.ok (.ofList [number])) (.ok []) .absent⟩,
        ⟨.str "Any", .union (.ok [.named (.declared 2), .named (.declared 0)]) .absent⟩]
      query := some (.named (.declared 0))
      mutation := none
      subscription := none
      extra := []
      directives := []
      overrides := []
      assumeValid := false }

/-- The types that it leads to. -/
def mingledTypes : TypeMap :=
  [(.str "Query", .declared 0), (.str "Node", .declared 1), (.str "Int", .standard .int),
    (.str "Any", .declared 3), (.str "Pet", .declared 2)]

set_option maxRecDepth 10000 in
theorem vetted_mingled : mingled.Vetted mingledTypes where
  reached := by cbv
  definitions := by decide +kernel

/-- Another object type is not found below the interface, and both are found below the union. -/
theorem mingled_members :
    mingled.Vetted mingledTypes
      ∧ mingled.isPossible (.declared 1) (.declared 2) = .ok false
      ∧ mingled.isPossible (.declared 3) (.declared 2) = .ok true
      ∧ (∃ candidates, mingled.possibleTypes (.declared 3) = .ok candidates ∧ candidates.Nodup)
      ∧ mingled.check ≠ .error (.possibleTypeForeign "Node" "Pet") := by
  have knows : ∀ id ∈ mingledTypes.map (·.2), mingled.Knows id := by
    intro id member
    obtain ⟨entry, here, rfl⟩ := List.mem_map.1 member
    exact ⟨mingledTypes, entry.1, vetted_mingled.reached, here⟩
  obtain ⟨members, blameless⟩ := possible_types_are_subtypes mingled mingledTypes vetted_mingled
  obtain ⟨_, node⟩ := members (.declared 1) (knows _ (by decide)) rfl
  obtain ⟨⟨candidates, possible, nodup, _⟩, any⟩ :=
    members (.declared 3) (knows _ (by decide)) rfl
  obtain ⟨inNode, below, apart⟩ := node (.declared 2) (knows _ (by decide)) rfl
  obtain ⟨inAny, below', within⟩ := any (.declared 2) (knows _ (by decide)) rfl
  have pet : mingled.isSubtype (.named (.declared 2)) (.named (.declared 1)) = .ok false := by rfl
  have member : mingled.isSubtype (.named (.declared 2)) (.named (.declared 3)) = .ok true := by rfl
  cases pet.symm.trans apart
  cases member.symm.trans within
  exact ⟨vetted_mingled, below, below', ⟨candidates, possible, nodup⟩, blameless _ _⟩

end Schema

end GraphQL
