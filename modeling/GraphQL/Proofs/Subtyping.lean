import GraphQL.Proofs.Blameless

/-!
Subtypes and the values that a type has. In a schema that passes its check every type is a subtype of
itself. Subtypes of subtypes are subtypes exactly if the interfaces of an interface carry over to what
implements it; then whatever object type the values of a type have, those of a supertype have too.
-/

namespace GraphQL

theorem Candidate.eq_named {candidate : Candidate} {id : TypeId}
    (denotes : candidate.named? = some id) : candidate = .named id := by
  cases candidate with
  | other value => cases denotes
  | type ref =>
      cases ref with
      | named other =>
          cases denotes
          rfl
      | _ => cases denotes

/-- When the values of a type can stand where another type is expected. Null is kept out of where it is
not allowed. -/
inductive Layout.Subtype (layout : Layout) : TypeRef → TypeRef → Prop where
  | named {sub super : TypeId} :
    layout.isNamedSubtype sub super = .ok true → Subtype layout (.named sub) (.named super)
  | list {sub super : TypeRef} : Subtype layout sub super → Subtype layout (.list sub) (.list super)
  | nonNull {sub super : TypeRef} :
    Subtype layout sub super → Subtype layout (.nonNull sub) (.nonNull super)
  | required {sub super : TypeRef} : super.isNonNull = false →
    Subtype layout sub super → Subtype layout (.nonNull sub) super

namespace Layout

variable {layout : Layout}

theorem subtype_of_isSubtype {sub super : TypeRef} (holds : layout.isSubtype sub super = .ok true) :
    layout.Subtype sub super := by
  fun_induction isSubtype layout sub super with
  | case1 => cases holds
  | case2 => cases holds
  | case3 sub super ih => exact .nonNull (ih holds)
  | case4 => cases holds
  | case5 sub super broken wrapped ih =>
      refine .required ?_ (ih holds)
      cases super with
      | nonNull of => exact absurd rfl (wrapped of)
      | _ => rfl
  | case6 sub super ih => exact .list (ih holds)
  | case7 => cases holds
  | case8 => cases holds
  | case9 sub super => exact .named holds

theorem isSubtype_of_subtype {sub super : TypeRef} (subtype : layout.Subtype sub super) :
    layout.isSubtype sub super = .ok true := by
  induction subtype with
  | named holds => rwa [isSubtype]
  | list _ ih => rwa [isSubtype]
  | nonNull _ ih => rwa [isSubtype]
  | @required sub super nullable _ ih =>
      cases super with
      | nonNull of => cases nullable
      | broken fault => cases sub <;> simp [isSubtype] at ih
      | _ => simpa [isSubtype] using ih

theorem Subtype.refl {type : TypeRef} {inner : TypeId} (leads : type.innermost = .ok inner) :
    layout.Subtype type type := by
  induction type with
  | named id => exact .named (by rw [isNamedSubtype, if_pos rfl])
  | list of ih => exact .list (ih leads)
  | nonNull of ih => exact .nonNull (ih leads)
  | broken fault => cases leads

theorem Subtype.nullable {sub super : TypeRef} (subtype : layout.Subtype sub super)
    (nullable : sub.isNonNull = false) : super.isNonNull = false := by
  cases subtype with
  | named holds => rfl
  | list below => rfl
  | nonNull below => cases nullable
  | required free below => exact free

end Layout

namespace Schema

variable {schema : Schema}

/-- Whether a type declares that it implements an interface. -/
def Implements (schema : Schema) (type interface : TypeId) : Prop :=
  schema.implements type interface = .ok true

/-- What implements an interface implements the interfaces of that one too. -/
def Inherits (schema : Schema) : Prop :=
  ∀ type interface base, schema.Knows type → type ≠ base → schema.Implements type interface →
    schema.Implements interface base → schema.Implements type base

/-- A type that leads to a type of the map with selections. -/
def Composes (schema : Schema) (type : TypeRef) : Prop :=
  ∃ inner, type.innermost = .ok inner ∧ schema.Knows inner
    ∧ (schema.kindOf inner).isComposite = true

/-- The object types that the values of a type can have: its possible types if it is abstract, or else
the type itself. -/
def runtimeTypes (schema : Schema) (type : TypeId) : Checked (List Candidate) :=
  if (schema.kindOf type).isAbstract then schema.possibleTypes type else .ok [.named type]

theorem implements_iff {type interface : TypeId} :
    schema.Implements type interface ↔
      ∃ interfaces, (schema.definition type).interfaces = .ok interfaces
        ∧ .named interface ∈ interfaces := by
  unfold Implements Layout.implements
  constructor
  · intro implements
    obtain ⟨interfaces, declared, implements⟩ := Checked.ok_of_bind implements
    obtain ⟨candidate, member, named⟩ := List.any_eq_true.1 (Except.ok.inj implements)
    rw [Candidate.eq_named (beq_iff_eq.1 named)] at member
    exact ⟨interfaces, declared, member⟩
  · rintro ⟨interfaces, declared, member⟩
    have found : (interfaces.any fun candidate => candidate.named? == some interface) = true :=
      List.any_eq_true.2 ⟨_, member, beq_iff_eq.2 rfl⟩
    rw [declared]
    exact congrArg Except.ok found

theorem interface_of_checkInterfaces {type : String} {own : Table Field}
    {interfaces : List Candidate} {seen : List Value}
    (passes : schema.checkInterfaces type own interfaces seen = .ok ()) :
    ∀ candidate ∈ interfaces, ∃ id fields, candidate = .named id ∧ schema.kindOf id = .interface
      ∧ (schema.definition id).fields? = some (.ok fields)
      ∧ ∀ entry ∈ fields.entries,
        schema.checkImplementedField type (schema.definition id).label own entry = .ok () := by
  induction interfaces generalizing seen with
  | nil =>
      intro candidate member
      cases member
  | cons first rest ih =>
      unfold Layout.checkInterfaces at passes
      split at passes
      · cases passes
      · next id named =>
          simp only at passes
          split at passes
          · next fields implemented resolveType body =>
              split at passes
              · obtain ⟨_, ⟨⟩, _⟩ := Checked.ok_of_bind passes
              · obtain ⟨table, worked, passes⟩ := Checked.ok_of_bind passes
                obtain ⟨⟨⟩, each, passes⟩ := Checked.ok_of_bind passes
                intro candidate member
                rcases List.mem_cons.1 member with rfl | later
                · refine ⟨id, table, Candidate.eq_named named, ?_, ?_, Except.all_of_forM _ _ each⟩
                  · rw [Layout.kindOf, TypeDef.kind, body]
                  · rw [TypeDef.fields?, body, worked]
                · exact ih passes candidate later
          · cases passes

theorem object_of_checkMembers {union : String} {members : List Candidate} {seen : List Value}
    (passes : schema.checkMembers union members seen = .ok ()) :
    ∀ candidate ∈ members, ∃ id, candidate = .named id ∧ schema.kindOf id = .object := by
  induction members generalizing seen with
  | nil =>
      intro candidate member
      cases member
  | cons first rest ih =>
      unfold Layout.checkMembers at passes
      split at passes
      · cases passes
      · next id found =>
          simp only at passes
          split at passes
          · cases passes
          · obtain ⟨named, object⟩ := Option.filter_eq_some_iff.1 found
            intro candidate member
            rcases List.mem_cons.1 member with rfl | later
            · exact ⟨id, Candidate.eq_named named, of_decide_eq_true object⟩
            · exact ih passes candidate later

/-- A subtype of a named type is the type itself, a member of it or an implementation of it. -/
theorem isNamedSubtype_iff {sub super : TypeId} :
    schema.isNamedSubtype sub super = .ok true ↔
      sub = super
        ∨ (∃ members resolveType, (schema.definition super).body = .union (.ok members) resolveType
          ∧ .named sub ∈ members)
        ∨ (schema.kindOf super = .interface ∧ schema.Implements sub super) := by
  unfold Layout.isNamedSubtype Layout.kindOf TypeDef.kind
  by_cases same : sub = super
  · rw [if_pos same]
    exact ⟨fun _ => .inl same, fun _ => rfl⟩
  · rw [if_neg same]
    simp only [same, false_or]
    cases body : (schema.definition super).body with
    | union listed resolveType =>
        simp only [TypeBody.union.injEq, reduceCtorEq, false_and, or_false]
        constructor
        · intro holds
          obtain ⟨members, worked, holds⟩ := Checked.ok_of_bind holds
          obtain ⟨candidate, member, named⟩ := List.any_eq_true.1 (Except.ok.inj holds)
          rw [Candidate.eq_named (beq_iff_eq.1 named)] at member
          exact ⟨members, resolveType, ⟨worked, rfl⟩, member⟩
        · rintro ⟨members, _, ⟨rfl, _⟩, member⟩
          have found : (members.any fun candidate => candidate.named? == some sub) = true :=
            List.any_eq_true.2 ⟨_, member, beq_iff_eq.2 rfl⟩
          exact congrArg Except.ok found
    | interface fields interfaces resolveType => simp [Implements]
    | _ => simp

theorem knows_of_covers {found : TypeMap} (reached : schema.reached = .ok found) {id : TypeId}
    (composite : (schema.kindOf id).isComposite = true)
    (covers : schema.Covers found (.named id)) : schema.Knows id := by
  obtain ⟨inner, name, denotes, member⟩ := covers (.named id) rfl
  cases denotes
  cases id with
  | declared index => exact ⟨found, name, reached, member⟩
  | standard scalar => cases composite

section Vetted

variable {found : TypeMap} (vetted : schema.Vetted found)
include vetted

theorem interface_of_implements {type interface : TypeId} (knows : schema.Knows type)
    (implements : schema.Implements type interface) :
    schema.Knows interface ∧ schema.kindOf interface = .interface := by
  obtain ⟨interfaces, declared, member⟩ := implements_iff.1 implements
  obtain ⟨_, _, passes⟩ := Checked.ok_of_bind (vetted.definition knows)
  obtain ⟨found, name, reached, here⟩ := knows
  obtain ⟨_, references, refers, covers⟩ := settled_of_reached reached _ here
  unfold TypeDef.references at refers
  unfold TypeDef.interfaces at declared
  have inside : ∀ label fields, schema.checkFieldsType label fields (.ok interfaces) = .ok () →
      TypeDef.fieldReferences fields (.ok interfaces) = .ok references →
      schema.Knows interface ∧ schema.kindOf interface = .interface := by
    intro label fields passes refers
    obtain ⟨own, _, passes⟩ := Checked.ok_of_bind passes
    obtain ⟨_, _, passes⟩ := Checked.ok_of_bind passes
    obtain ⟨_, _, passes⟩ := Checked.ok_of_bind passes
    obtain ⟨_, ⟨⟩, passes⟩ := Checked.ok_of_bind passes
    obtain ⟨_, ⟨⟩, refers⟩ := Checked.ok_of_bind refers
    obtain ⟨_, _, refers⟩ := Checked.ok_of_bind refers
    obtain ⟨_, _, refers⟩ := Checked.ok_of_bind refers
    cases refers
    obtain ⟨id, _, same, kind, _⟩ := interface_of_checkInterfaces passes _ member
    cases same
    exact ⟨knows_of_covers reached (by rw [kind]; rfl)
      (covers _ (List.mem_append_left _ member)), kind⟩
  cases body : (schema.definition type).body with
  | object fields own isTypeOf =>
      simp only [body] at declared refers passes
      subst declared
      obtain ⟨_, passes, _⟩ := Checked.ok_of_bind passes
      exact inside _ _ passes refers
  | interface fields own resolveType =>
      simp only [body] at declared refers passes
      subst declared
      obtain ⟨_, passes, _⟩ := Checked.ok_of_bind passes
      exact inside _ _ passes refers
  | _ =>
      simp only [body, Except.ok.injEq] at declared
      subst declared
      cases member

theorem object_of_member {union member : TypeId} {members : List Candidate} {resolveType : Slot}
    (knows : schema.Knows union)
    (body : (schema.definition union).body = .union (.ok members) resolveType)
    (inside : .named member ∈ members) :
    schema.Knows member ∧ schema.kindOf member = .object := by
  obtain ⟨_, _, passes⟩ := Checked.ok_of_bind (vetted.definition knows)
  rw [body] at passes
  obtain ⟨_, ⟨⟩, passes⟩ := Checked.ok_of_bind passes
  obtain ⟨_, _, passes⟩ := Checked.ok_of_bind passes
  obtain ⟨_, passes, _⟩ := Checked.ok_of_bind passes
  obtain ⟨id, same, object⟩ := object_of_checkMembers passes _ inside
  cases same
  obtain ⟨found, name, reached, here⟩ := knows
  obtain ⟨_, references, refers, covers⟩ := settled_of_reached reached _ here
  rw [TypeDef.references, body] at refers
  cases refers
  exact ⟨knows_of_covers reached (by rw [object]; rfl) (covers _ inside), object⟩

end Vetted

section Accepted

variable (checked : schema.check = .ok ()) (strict : schema.assumeValid = false)
include checked strict

/-- Subtypes of subtypes are subtypes, if interfaces carry over. -/
theorem isNamedSubtype_trans (inherits : schema.Inherits) {sub middle super : TypeId}
    (known : schema.Knows sub) (knownSuper : schema.Knows super)
    (first : schema.isNamedSubtype sub middle = .ok true)
    (second : schema.isNamedSubtype middle super = .ok true) :
    schema.isNamedSubtype sub super = .ok true := by
  rcases isNamedSubtype_iff.1 second with rfl | ⟨members, resolveType, body, member⟩ |
    ⟨interface, implements⟩
  · exact first
  · -- a member of a union is an object type, which has no other subtype
    obtain ⟨found, checks⟩ := checks_of_check checked strict
    have object := (object_of_member checks.toVetted knownSuper body member).2
    rcases isNamedSubtype_iff.1 first with rfl | ⟨_, _, shape, _⟩ | ⟨abstract, _⟩
    · exact second
    · rw [Layout.kindOf, TypeDef.kind, shape] at object
      cases object
    · rw [object] at abstract
      cases abstract
  · rcases isNamedSubtype_iff.1 first with rfl | ⟨_, _, shape, _⟩ | ⟨_, below⟩
    · exact second
    · -- a union implements nothing
      obtain ⟨interfaces, declared, member⟩ := implements_iff.1 implements
      rw [TypeDef.interfaces, shape] at declared
      cases declared
      cases member
    · by_cases same : sub = super
      · exact isNamedSubtype_iff.2 (.inl same)
      · exact isNamedSubtype_iff.2
          (.inr (.inr ⟨interface, inherits _ _ _ known same below implements⟩))

theorem subtype_trans (inherits : schema.Inherits) {sub middle super : TypeRef}
    (first : schema.Subtype sub middle) (second : schema.Subtype middle super)
    (composes : schema.Composes sub) (composesSuper : schema.Composes super) :
    schema.Subtype sub super := by
  induction first generalizing super with
  | named below =>
      cases second with
      | named above =>
          obtain ⟨_, ⟨⟩, known, _⟩ := composes
          obtain ⟨_, ⟨⟩, knownSuper, _⟩ := composesSuper
          exact .named (isNamedSubtype_trans checked strict inherits known knownSuper below above)
  | list below ih =>
      cases second with
      | list above => exact .list (ih above composes composesSuper)
  | nonNull below ih =>
      cases second with
      | nonNull above => exact .nonNull (ih above composes composesSuper)
      | required free above => exact .required free (ih above composes composesSuper)
  | required free below ih =>
      exact .required (second.nullable free) (ih second composes composesSuper)

theorem subtype_of_implements {type interface : TypeId} (knows : schema.Knows type)
    (implements : schema.Implements type interface) :
    schema.isSubtype (.named type) (.named interface) = .ok true
      ∧ schema.Composes (.named type) ∧ schema.Composes (.named interface) := by
  obtain ⟨found, checks⟩ := checks_of_check checked strict
  obtain ⟨known, kind⟩ := interface_of_implements checks.toVetted knows implements
  refine ⟨?_, ⟨type, rfl, knows, ?_⟩, ⟨interface, rfl, known, by rw [kind]; rfl⟩⟩
  · rw [Layout.isSubtype]
    exact isNamedSubtype_iff.2 (.inr (.inr ⟨kind, implements⟩))
  · obtain ⟨interfaces, declared, member⟩ := implements_iff.1 implements
    unfold TypeDef.interfaces at declared
    unfold Layout.kindOf TypeDef.kind
    cases body : (schema.definition type).body with
    | object => rfl
    | interface => rfl
    | _ =>
        rw [body] at declared
        cases declared
        cases member

/-- If subtypes of subtypes are subtypes, then interfaces carry over. -/
theorem inherits_of_trans
    (trans : ∀ sub middle super, schema.Composes sub → schema.Composes middle →
      schema.Composes super → schema.isSubtype sub middle = .ok true →
      schema.isSubtype middle super = .ok true → schema.isSubtype sub super = .ok true) :
    schema.Inherits := by
  intro type interface base knows apart below above
  obtain ⟨found, checks⟩ := checks_of_check checked strict
  obtain ⟨first, composes, middle⟩ := subtype_of_implements checked strict knows below
  have known := (interface_of_implements checks.toVetted knows below).1
  obtain ⟨second, _, composesBase⟩ := subtype_of_implements checked strict known above
  have holds := trans _ _ _ composes middle composesBase first second
  rw [Layout.isSubtype] at holds
  rcases isNamedSubtype_iff.1 holds with same | ⟨_, _, shape, _⟩ | ⟨_, implements⟩
  · exact absurd same apart
  · have kind := (interface_of_implements checks.toVetted known above).2
    rw [Layout.kindOf, TypeDef.kind, shape] at kind
    cases kind
  · exact implements

end Accepted

theorem mem_possibleTypes {found : TypeMap} (reached : schema.reached = .ok found)
    {abstract : TypeId} {candidates : List Candidate}
    (possible : schema.possibleTypes abstract = .ok candidates) {candidate : Candidate} :
    candidate ∈ candidates ↔ ∃ entry ∈ found, ∃ own,
      schema.contribution (schema.definition abstract).name entry.2 = .ok own
        ∧ candidate ∈ own := by
  obtain ⟨other, same, possible⟩ := Checked.ok_of_bind possible
  cases reached.symm.trans same
  obtain ⟨lists, each, possible⟩ := Checked.ok_of_bind possible
  cases possible
  rw [List.mem_flatten]
  constructor
  · rintro ⟨list, inside, member⟩
    obtain ⟨entry, here, contributed⟩ := Except.mem_of_mapM_result _ _ _ each list inside
    exact ⟨entry, here, list, contributed, member⟩
  · rintro ⟨entry, here, own, contributed, member⟩
    obtain ⟨list, inside, again⟩ := Except.mem_of_mapM _ _ _ each entry here
    cases contributed.symm.trans again
    exact ⟨_, inside, member⟩

section Vetted

variable {found : TypeMap} (vetted : schema.Vetted found)
include vetted

theorem equals_name {id : TypeId} (knows : schema.Knows id) :
    (schema.definition id).name.equals (schema.definition id).name = true := by
  obtain ⟨text, named⟩ := vetted.sound.named id knows
  rw [named]
  exact (Value.equals_str text text).2 rfl

theorem possible_of_implements {object interface : TypeId} {candidates : List Candidate}
    (knows : schema.Knows object) (kind : schema.kindOf object = .object)
    (implements : schema.Implements object interface)
    (possible : schema.possibleTypes interface = .ok candidates) :
    .named object ∈ candidates := by
  have known := (interface_of_implements vetted knows implements).1
  obtain ⟨interfaces, declared, member⟩ := implements_iff.1 implements
  obtain ⟨found, name, reached, here⟩ := knows
  refine (mem_possibleTypes reached possible).2 ⟨_, here, ?_⟩
  unfold contribution
  unfold TypeDef.interfaces at declared
  unfold Layout.kindOf TypeDef.kind at kind
  cases body : (schema.definition object).body with
  | object fields own isTypeOf =>
      simp only [body] at declared ⊢
      subst declared
      refine ⟨_, rfl, List.mem_map.2 ⟨.named interface, List.mem_filter.2 ⟨member, ?_⟩, rfl⟩⟩
      exact equals_name vetted known
  | _ =>
      rw [body] at kind
      cases kind

theorem implements_of_possible {interface : TypeId} {candidates : List Candidate}
    (knows : schema.Knows interface) (kind : schema.kindOf interface = .interface)
    (possible : schema.possibleTypes interface = .ok candidates) {candidate : Candidate}
    (member : candidate ∈ candidates) :
    ∃ object, candidate = .named object ∧ schema.Knows object ∧ schema.kindOf object = .object
      ∧ schema.Implements object interface := by
  have sound := vetted.sound
  have reached := knows
  obtain ⟨found, name, reached, _⟩ := reached
  obtain ⟨entry, here, own, contributed, member⟩ := (mem_possibleTypes reached possible).1 member
  have known : schema.Knows entry.2 := ⟨found, entry.1, reached, here⟩
  unfold contribution at contributed
  cases body : (schema.definition entry.2).body with
  | union members resolveType =>
      simp only [body] at contributed
      split at contributed
      · next same =>
          -- the names of the map tell the union from the interface
          rw [sound.distinct _ _ known knows same] at body
          rw [Layout.kindOf, TypeDef.kind, body] at kind
          cases kind
      · cases contributed
        cases member
  | object fields interfaces isTypeOf =>
      simp only [body] at contributed
      obtain ⟨implemented, declared, contributed⟩ := Checked.ok_of_bind contributed
      cases contributed
      obtain ⟨implementing, inside, rfl⟩ := List.mem_map.1 member
      obtain ⟨listed, named⟩ := List.mem_filter.1 inside
      cases denotes : implementing.named? with
      | none =>
          rw [denotes] at named
          cases named
      | some base =>
          rw [denotes, Option.any_some] at named
          rw [Candidate.eq_named denotes] at listed
          have implements : schema.Implements entry.2 base :=
            implements_iff.2 ⟨implemented, by rw [TypeDef.interfaces, body, declared], listed⟩
          have base := (interface_of_implements vetted known implements).1
          rw [sound.distinct _ _ base knows named] at implements
          refine ⟨entry.2, rfl, known, ?_, implements⟩
          rw [Layout.kindOf, TypeDef.kind, body]
  | _ =>
      simp only [body] at contributed
      cases contributed
      cases member

theorem possible_of_member {union : TypeId} {members candidates : List Candidate}
    {resolveType : Slot} (knows : schema.Knows union)
    (body : (schema.definition union).body = .union (.ok members) resolveType)
    (possible : schema.possibleTypes union = .ok candidates) : members ⊆ candidates := by
  intro candidate member
  have named := equals_name vetted knows
  obtain ⟨found, name, reached, here⟩ := knows
  refine (mem_possibleTypes reached possible).2 ⟨_, here, members, ?_, member⟩
  unfold contribution
  simp only [body]
  rw [if_pos named]

end Vetted

theorem runtimeTypes_ok {type : TypeId} (knows : schema.Knows type) :
    ∃ candidates, schema.runtimeTypes type = .ok candidates := by
  obtain ⟨found, name, reached, here⟩ := knows
  unfold runtimeTypes
  split
  · exact possibleTypes_of_reached reached type
  · exact ⟨_, rfl⟩

section Accepted

variable (checked : schema.check = .ok ()) (strict : schema.assumeValid = false)
include checked strict

/-- The values of a subtype have no object type that those of its supertype have not, if interfaces
carry over. -/
theorem runtimeTypes_subset (inherits : schema.Inherits) {sub super : TypeId}
    (knows : schema.Knows sub) (knowsSuper : schema.Knows super)
    (composite : (schema.kindOf sub).isComposite = true)
    (subtype : schema.isNamedSubtype sub super = .ok true) :
    ∃ own others, schema.runtimeTypes sub = .ok own ∧ schema.runtimeTypes super = .ok others
      ∧ own ⊆ others := by
  obtain ⟨own, ran⟩ := runtimeTypes_ok knows
  obtain ⟨others, ranSuper⟩ := runtimeTypes_ok knowsSuper
  refine ⟨own, others, ran, ranSuper, ?_⟩
  obtain ⟨found, checks⟩ := checks_of_check checked strict
  have vetted := checks.toVetted
  unfold runtimeTypes at ran ranSuper
  rcases isNamedSubtype_iff.1 subtype with rfl | ⟨members, resolveType, body, member⟩ |
    ⟨interface, implements⟩
  · cases ran.symm.trans ranSuper
    exact List.Subset.refl _
  · have object := (object_of_member vetted knowsSuper body member).2
    rw [object] at ran
    rw [Layout.kindOf, TypeDef.kind, body] at ranSuper
    cases ran
    intro candidate inside
    rw [List.mem_singleton.1 inside]
    exact possible_of_member vetted knowsSuper body ranSuper member
  · rw [interface] at ranSuper
    cases kind : schema.kindOf sub with
    | object =>
        rw [kind] at ran
        cases ran
        intro candidate inside
        rw [List.mem_singleton.1 inside]
        exact possible_of_implements vetted knows kind implements ranSuper
    | interface =>
        rw [kind] at ran
        intro candidate inside
        obtain ⟨object, rfl, known, kind', below⟩ :=
          implements_of_possible vetted knows kind ran inside
        have apart : object ≠ super := by
          rintro rfl
          rw [kind'] at interface
          cases interface
        exact possible_of_implements vetted known kind'
          (inherits _ _ _ known apart below implements) ranSuper
    -- a union declares no interfaces
    | union =>
        obtain ⟨interfaces, declared, member⟩ := implements_iff.1 implements
        unfold Layout.kindOf TypeDef.kind at kind
        unfold TypeDef.interfaces at declared
        cases body : (schema.definition sub).body with
        | union =>
            rw [body] at declared
            cases declared
            cases member
        | _ =>
            rw [body] at kind
            cases kind
    | _ =>
        rw [kind] at composite
        cases composite

end Accepted

/-- On the types of an accepted schema, to be a subtype is reflexive; it is transitive, through all
wrappers, exactly if interfaces carry over, and then a subtype has no values that its supertype has
not. -/
theorem subtypes_are_sound (schema : Schema) (checked : schema.check = .ok ())
    (strict : schema.assumeValid = false) :
    (∀ type, schema.Composes type → schema.isSubtype type type = .ok true)
      ∧ ((∀ sub middle super, schema.Composes sub → schema.Composes middle →
          schema.Composes super → schema.isSubtype sub middle = .ok true →
          schema.isSubtype middle super = .ok true → schema.isSubtype sub super = .ok true)
        ↔ schema.Inherits)
      ∧ (schema.Inherits → ∀ sub super, schema.Composes (.named sub) →
        schema.Composes (.named super) →
        schema.isSubtype (.named sub) (.named super) = .ok true →
        ∃ own others, schema.runtimeTypes sub = .ok own ∧ schema.runtimeTypes super = .ok others
          ∧ own ⊆ others) := by
  refine ⟨?_, ⟨inherits_of_trans checked strict, ?_⟩, ?_⟩
  · rintro type ⟨inner, leads, _⟩
    exact Layout.isSubtype_of_subtype (.refl leads)
  · intro inherits sub middle super composes _ composesSuper first second
    exact Layout.isSubtype_of_subtype (subtype_trans checked strict inherits
      (Layout.subtype_of_isSubtype first) (Layout.subtype_of_isSubtype second) composes
      composesSuper)
  · rintro inherits sub super ⟨_, ⟨⟩, knows, composite⟩ ⟨_, ⟨⟩, knowsSuper, _⟩ subtype
    rw [Layout.isSubtype] at subtype
    exact runtimeTypes_subset checked strict inherits knows knowsSuper composite subtype

/-- Three types with one field each: a root that declares some interfaces, an interface, and another
interface that the first one implements. -/
def layered (interfaces : List TypeId) : Schema :=
  let number : Checked (Table Field) := .ok (.ofList [(.str "x",
    { name := .str "x", type := .ok (.named (.standard .int)), arguments := .ok .empty
      resolve := .absent, complexity := .absent, deprecated := none })])
  .ofLayout
    { types := #[⟨.str "Query", .object number (.ok (interfaces.map .named)) .absent⟩,
        ⟨.str "Inner", .interface number (.ok [.named (.declared 2)]) .absent⟩,
        ⟨.str "Outer", .interface number (.ok []) .absent⟩]
      query := some (.named (.declared 0))
      mutation := none
      subscription := none
      extra := []
      directives := []
      overrides := []
      assumeValid := false }

/-- The types that it leads to. -/
def layeredTypes : TypeMap :=
  [(.str "Query", .declared 0), (.str "Inner", .declared 1), (.str "Outer", .declared 2),
    (.str "Int", .standard .int)]

theorem reached_layered (interfaces : List TypeId)
    (either : interfaces = [.declared 1] ∨ interfaces = [.declared 1, .declared 2]) :
    (layered interfaces).reached = .ok layeredTypes := by
  rcases either with rfl | rfl
  · cbv
  · cbv

set_option maxRecDepth 10000 in
theorem check_layered (interfaces : List TypeId)
    (either : interfaces = [.declared 1] ∨ interfaces = [.declared 1, .declared 2]) :
    (layered interfaces).check = .ok () := by
  have reached := reached_layered interfaces either
  unfold check
  rw [reached]
  rcases either with rfl | rfl
  · cbv
  · cbv

theorem knows_layered {interfaces : List TypeId}
    (either : interfaces = [.declared 1] ∨ interfaces = [.declared 1, .declared 2]) {id : TypeId} :
    (layered interfaces).Knows id ↔ id ∈ layeredTypes.map (·.2) := by
  have reached := reached_layered interfaces either
  constructor
  · rintro ⟨found, name, reached', member⟩
    cases reached.symm.trans reached'
    exact List.mem_map_of_mem member
  · intro member
    obtain ⟨entry, inside, rfl⟩ := List.mem_map.1 member
    exact ⟨_, entry.1, reached, inside⟩

theorem implements_layered {interfaces : List TypeId} {type interface : TypeId}
    (implements : (layered interfaces).Implements type interface) :
    (type = .declared 0 ∧ interface ∈ interfaces)
      ∨ (type = .declared 1 ∧ interface = .declared 2) := by
  obtain ⟨candidates, declared, member⟩ := implements_iff.1 implements
  match type with
  | .declared 0 =>
      cases declared
      obtain ⟨_, inside, same⟩ := List.mem_map.1 member
      cases same
      exact .inl ⟨rfl, inside⟩
  | .declared 1 =>
      cases declared
      cases List.mem_singleton.1 member
      exact .inr ⟨rfl, rfl⟩
  | .declared 2 =>
      cases declared
      cases member
  | .declared (index + 3) =>
      cases declared
      cases member
  | .standard scalar =>
      cases declared
      cases member

theorem inherits_layered : (layered [.declared 1, .declared 2]).Inherits := by
  intro type interface base _ _ below above
  rcases implements_layered below with ⟨rfl, inside⟩ | ⟨rfl, rfl⟩
  · rcases implements_layered above with ⟨rfl, _⟩ | ⟨rfl, rfl⟩
    · exact absurd inside (by decide)
    · exact implements_iff.2 ⟨_, rfl, List.mem_cons_of_mem _ List.mem_cons_self⟩
  · rcases implements_layered above with ⟨same, _⟩ | ⟨same, _⟩
    · cases same
    · cases same

theorem composes_layered {interfaces : List TypeId}
    (either : interfaces = [.declared 1] ∨ interfaces = [.declared 1, .declared 2]) (index : Nat)
    (below : index < 3) : (layered interfaces).Composes (.named (.declared index)) := by
  refine ⟨_, rfl, (knows_layered either).2 ?_, ?_⟩
  · interval_cases index <;> decide
  · interval_cases index <;> rfl

/-- An object type that declares what its interface implements stands below both. -/
theorem root_is_below_outer :
    (layered [.declared 1, .declared 2]).check = .ok ()
      ∧ (layered [.declared 1, .declared 2]).assumeValid = false
      ∧ (layered [.declared 1, .declared 2]).isSubtype (.list (.named (.declared 0)))
        (.list (.named (.declared 1))) = .ok true
      ∧ (layered [.declared 1, .declared 2]).isSubtype (.list (.named (.declared 1)))
        (.list (.named (.declared 2))) = .ok true
      ∧ (layered [.declared 1, .declared 2]).isSubtype (.list (.named (.declared 0)))
        (.list (.named (.declared 2))) = .ok true
      ∧ ∃ own others, (layered [.declared 1, .declared 2]).runtimeTypes (.declared 1) = .ok own
        ∧ (layered [.declared 1, .declared 2]).runtimeTypes (.declared 2) = .ok others
        ∧ own ⊆ others := by
  have accepted := check_layered [.declared 1, .declared 2] (.inr rfl)
  have sound := subtypes_are_sound (layered [.declared 1, .declared 2]) accepted rfl
  have composes := composes_layered (.inr rfl)
  have first : (layered [.declared 1, .declared 2]).isSubtype (.named (.declared 0))
      (.named (.declared 1)) = .ok true := by
    decide +kernel
  have second : (layered [.declared 1, .declared 2]).isSubtype (.named (.declared 1))
      (.named (.declared 2)) = .ok true := by
    decide +kernel
  exact ⟨accepted, rfl, first, second,
    sound.2.1.2 inherits_layered (.list (.named (.declared 0))) (.list (.named (.declared 1)))
      (.list (.named (.declared 2))) (composes 0 (by decide)) (composes 1 (by decide))
      (composes 2 (by decide)) first second,
    sound.2.2 inherits_layered _ _ (composes 1 (by decide)) (composes 2 (by decide)) second⟩

/-- An object type need not declare what its interface implements. Then it is no subtype of that, and
no type of its values. -/
theorem root_is_beside_outer :
    (layered [.declared 1]).check = .ok ()
      ∧ (layered [.declared 1]).assumeValid = false
      ∧ (∀ index, index < 3 → (layered [.declared 1]).Composes (.named (.declared index)))
      ∧ (layered [.declared 1]).isSubtype (.named (.declared 0)) (.named (.declared 1)) = .ok true
      ∧ (layered [.declared 1]).isSubtype (.named (.declared 1)) (.named (.declared 2)) = .ok true
      ∧ (layered [.declared 1]).isSubtype (.named (.declared 0)) (.named (.declared 2)) = .ok false
      ∧ (layered [.declared 1]).runtimeTypes (.declared 1) = .ok [.named (.declared 0)]
      ∧ (layered [.declared 1]).runtimeTypes (.declared 2) = .ok [] := by
  have reached := reached_layered [.declared 1] (.inl rfl)
  refine ⟨check_layered _ (.inl rfl), rfl, composes_layered (.inl rfl), by decide +kernel,
    by decide +kernel, by decide +kernel, ?_, ?_⟩
  · unfold runtimeTypes possibleTypes
    rw [reached]
    cbv
  · unfold runtimeTypes possibleTypes
    rw [reached]
    cbv

end Schema

end GraphQL
