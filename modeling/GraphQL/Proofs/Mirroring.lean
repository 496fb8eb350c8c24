import GraphQL.Proofs.Completing
import GraphQL.Proofs.Matching

/-!
Runs that mirror each other. Of two runs of one operation, one may wait for what the other has at
once, and their values may differ where nothing shows it. If each single answer in one run mirrors
the answer in the other, then the operation means the same in both.
-/

namespace GraphQL

def Environment.withRoot (environment : Environment) (root : Value) : Environment :=
  { environment with root }

def Info.withRoot (info : Info) (root : Value) : Info :=
  { info with environment := info.environment.withRoot root }

/-- What is passed on about a field that its type declares. -/
structure Setting.Describes (setting : Setting) (info : Info) : Prop where
  environment : info.environment = setting.environment
  declared : ∃ field, setting.schema.field? info.parentType info.fieldName = .ok (some field)
    ∧ field.type = .ok info.returnType

/-- The types of the values of a field are found by asking the possible types. -/
def Setting.FindsByDefault (setting : Setting) (info : Info) : Prop :=
  setting.environment.typeResolver = none ∧ ∃ abstract, info.returnType.innermost = .ok abstract
    ∧ (setting.schema.kindOf abstract).isAbstract = true
    ∧ (setting.schema.definition abstract).resolveType.isUnset = true

/-- Values that are errors alike, both null, or else related in a further way. -/
structure Value.Faces (left right : Value) (further : Prop) : Prop where
  raised : Option.Rel Failure.Alike (Completion.raised? left) (Completion.raised? right)
  null : left.isNull = right.isNull
  further : Completion.raised? left = none → left.isNull = false → further

/-- Two runs of one operation, the second on a root value of its own and perhaps without waiting, and
which values of a named type in the second stand for which in the first. -/
structure Mirror where
  setting : Setting
  account : Account
  root : Value
  synchronous : Bool
  image : Account
  stands : TypeId → Value → Value → Prop

namespace Mirror

variable (mirror : Mirror)

def mirrored : Setting := ⟨mirror.setting.environment.withRoot mirror.root, mirror.synchronous⟩

/-- What is handed over in the two runs. -/
abbrev handed : Value → Results Value := Reference.handed mirror.setting mirror.account

abbrev handed' : Value → Results Value := Reference.handed mirror.mirrored mirror.image

/-- A resolved value of a type stands for another: both list items that stand for each other once
they have come, or hold values of a named type that stand for each other. -/
def StandsFor : TypeRef → Value → Value → Prop
  | .nonNull of, left, right => StandsFor of left right
  | .list of, left, right =>
    left.Faces right <| ∀ info : Info,
      (Reference.listed mirror.setting mirror.account info left).Match
        (List.Forall₂ fun item item' =>
          (mirror.handed item).Match (StandsFor of) (mirror.handed' item'))
        (Reference.listed mirror.mirrored mirror.image (info.withRoot mirror.root) right)
  | .named id, left, right => left.Faces right (mirror.stands id left right)
  | .broken _, _, _ => True

/-- Two calls, one in each run, come to results that are related, once these have been waited for. -/
def Replies (related : Value → Value → Prop) (asked asked' : Call) : Prop :=
  (Results.bind (mirror.account.called asked) mirror.handed).Match related
    (Results.bind (mirror.image.called asked') mirror.handed')

/-- Values that stand for each other are written alike, quoted alike in messages and have fields that
come to values that stand for each other; and so do calls with such values. -/
structure Holds : Prop where
  written : ∀ type left right,
    mirror.setting.schema.kindOf type = .scalar ∨ mirror.setting.schema.kindOf type = .enum →
    mirror.stands type left right →
    let leaf := mirror.setting.schema.leafInEffect type
    Results.Match Eq ((mirror.setting.schema.serialize leaf left).Yields mirror.account)
      ((mirror.setting.schema.serialize leaf right).Yields mirror.image)
  /-- No message quotes a value of an object type without a test. -/
  shown : ∀ type left right, mirror.stands type left right →
    mirror.setting.schema.kindOf type ≠ .object
      ∨ (mirror.setting.schema.definition type).isTypeOf.isAbsent = false →
    left.shown = right.shown
  names : ∀ text, mirror.stands (.standard .string) (.str text) (.str text)
  possible : ∀ abstract type left right, mirror.stands abstract left right →
    mirror.setting.schema.isPossible abstract type = .ok true →
    mirror.setting.schema.kindOf type = .object → mirror.stands type left right
  typename : ∀ type left right, mirror.stands type left right →
    (mirror.setting.schema.kindOf type).isAbstract = true →
    left.get? "__typename" = right.get? "__typename"
  /-- Calls that are made for no field are answered the same. -/
  aside : ∀ asked reply reply', Aside asked → mirror.account.called asked reply →
    mirror.image.called asked reply' → reply = reply'
  resolvers : ∀ function source source' arguments info, mirror.setting.Describes info →
    mirror.stands info.parentType source source' →
    mirror.Replies (mirror.StandsFor info.returnType) (.resolve function source arguments info)
      (.resolve function source' arguments (info.withRoot mirror.root))
  /-- What is found under the name of a field. -/
  fields : ∀ source source' arguments info, mirror.setting.Describes info →
    mirror.stands info.parentType source source' →
    ((Reference.resolvedByName mirror.account source arguments info).bind mirror.handed).Match
      (mirror.StandsFor info.returnType)
      ((Reference.resolvedByName mirror.image source' arguments (info.withRoot mirror.root)).bind
        mirror.handed')
  typeResolvers : ∀ function abstract type left right info, mirror.setting.Describes info →
    mirror.stands type left right →
    mirror.Replies Eq (.resolveType function abstract left info)
      (.resolveType function abstract right (info.withRoot mirror.root))
  tests : ∀ function type around left right info, mirror.setting.Describes info →
    mirror.stands around left right →
    mirror.Replies (fun holds holds' => holds.isTruthy = holds'.isTruthy)
      (.isTypeOf function type left info)
      (.isTypeOf function type right (info.withRoot mirror.root))
  /-- No test is deferred where types are found by default. -/
  prompt : ∀ function type value info ticket, mirror.setting.FindsByDefault info →
    ¬ mirror.account.called (.isTypeOf function type value info) (.ok (.deferred ticket))
      ∧ ¬ mirror.image.called (.isTypeOf function type value (info.withRoot mirror.root))
        (.ok (.deferred ticket))

variable {mirror}

open Results Reference

theorem match_action (holds : mirror.Holds) {α : Type} (action : Action α)
    (aside : action.StaysAside) :
    Results.Match Eq (action.Yields mirror.account) (action.Yields mirror.image) :=
  fun _ _ yields yields' => .of_eq (action.same_of_aside holds.aside aside yields yields')

/-- What stands in a slot is called in both runs, or fails in both. -/
theorem match_called (slot : Slot) (asked asked' : Nat → Call) {related : Value → Value → Prop}
    (each : ∀ id, mirror.Replies related (asked id) (asked' id)) :
    ((called mirror.account slot asked).bind mirror.handed).Match related
      ((called mirror.image slot asked').bind mirror.handed') := by
  have uncallable : ∀ failure : Failure, (Results.bind (fail failure) mirror.handed).Match related
      (Results.bind (fail failure) mirror.handed') := by
    intro failure
    have same : Match Eq (fail failure : Results Value) (fail failure) := match_fail_same failure
    exact match_bind same fun _ _ given => nomatch given
  cases slot with
  | function id => exact each id
  | other value => exact uncallable _
  | absent => exact uncallable _

theorem match_claimed (holds : mirror.Holds) (info : Info) (describes : mirror.setting.Describes info)
    (type : TypeId) (left right : Value) (related : mirror.stands type left right) :
    (claimed mirror.setting mirror.account info type left).Match (fun _ _ => True)
      (claimed mirror.mirrored mirror.image (info.withRoot mirror.root) type right) := by
  unfold claimed
  cases absent : (mirror.setting.schema.definition type).isTypeOf.isAbsent with
  | true =>
      have absent' : (mirror.mirrored.schema.definition type).isTypeOf.isAbsent = true := absent
      simp only [absent, absent', if_true]
      exact match_pure trivial
  | false =>
      have absent' : (mirror.mirrored.schema.definition type).isTypeOf.isAbsent = false := absent
      simp only [absent, absent', Bool.false_eq_true, if_false]
      rw [← bind_assoc, ← bind_assoc]
      refine match_bind (match_called (mirror.setting.schema.definition type).isTypeOf _ _ fun id =>
        holds.tests id type type left right info describes related) ?_
      intro answer answer' _ _ agree
      rw [holds.shown type left right related (.inr absent), agree]
      split
      · exact match_pure trivial
      · exact match_fail_same _

/-- The contents of objects that stand for each other are the same. -/
def BelowMatches (mirror : Mirror) (known : TypeId → Prop) (objects objects' : Objects) : Prop :=
  ∀ type left right path fields, known type → mirror.stands type left right →
    (objects type left path fields).Match Eq (objects' type right path fields)

section

variable {known : TypeId → Prop} {objects objects' : Objects}

theorem match_object (holds : mirror.Holds) (below : mirror.BelowMatches known objects objects')
    (info : Info) (describes : mirror.setting.Describes info) (type : TypeId) (knownType : known type)
    (path : ResponsePath) (left right : Value) (related : mirror.stands type left right) :
    (object mirror.setting mirror.account objects info type path left).Match Eq
      (object mirror.mirrored mirror.image objects' (info.withRoot mirror.root) type path right) := by
  refine match_bind (match_claimed holds info describes type left right related) ?_
  intro _ _ _ _ _
  refine match_bind (match_action holds (mirror.setting.scope.collectNodes type info.nodes)
    (lenient_aside.within_collectNodes mirror.setting.scope type info.nodes)) ?_
  rintro fields _ _ _ rfl
  exact below type left right path fields knownType related

end

theorem handed_of_prompt (setting : Setting) (account : Account) (value : Value)
    (prompt : value.ticket? = none) : Reference.handed setting account value = Results.pure value := by
  cases value with
  | deferred ticket => cases prompt
  | _ => rfl

/-- Values that are there at once, and hold both or both do not. -/
def SamePromptly (left right : Value) : Prop :=
  left.isTruthy = right.isTruthy ∧ left.ticket? = none ∧ right.ticket? = none

theorem match_prompt (test : Slot) (asked asked' : Nat → Call)
    (each : ∀ id, mirror.Replies (fun holds holds' => holds.isTruthy = holds'.isTruthy) (asked id)
      (asked' id))
    (prompt : ∀ id ticket, ¬ mirror.account.called (asked id) (.ok (.deferred ticket)))
    (prompt' : ∀ id ticket, ¬ mirror.image.called (asked' id) (.ok (.deferred ticket))) :
    (called mirror.account test asked).Match SamePromptly (called mirror.image test asked') := by
  cases test with
  | other value => exact match_fail_same _
  | absent => exact match_fail_same _
  | function id =>
      have atOnce : ∀ value, mirror.account.called (asked id) (.ok value) → value.ticket? = none := by
        intro value replied
        cases value with
        | deferred ticket => exact absurd replied (prompt id ticket)
        | _ => rfl
      have atOnce' : ∀ value, mirror.image.called (asked' id) (.ok value) → value.ticket? = none := by
        intro value replied
        cases value with
        | deferred ticket => exact absurd replied (prompt' id ticket)
        | _ => rfl
      have comes : ∀ result, mirror.account.called (asked id) result →
          Results.bind (mirror.account.called (asked id)) mirror.handed result := by
        intro result replied
        cases result with
        | error failure => exact .inl ⟨failure, replied, rfl⟩
        | ok value =>
            have now := handed_of_prompt mirror.setting mirror.account value (atOnce value replied)
            exact .inr ⟨value, replied, by rw [handed, now]; rfl⟩
      have comes' : ∀ result, mirror.image.called (asked' id) result →
          Results.bind (mirror.image.called (asked' id)) mirror.handed' result := by
        intro result replied
        cases result with
        | error failure => exact .inl ⟨failure, replied, rfl⟩
        | ok value =>
            have now := handed_of_prompt mirror.mirrored mirror.image value (atOnce' value replied)
            exact .inr ⟨value, replied, by rw [handed', now]; rfl⟩
      intro result result' replied replied'
      cases each id result result' (comes result replied) (comes' result' replied') with
      | failed alike => exact .failed alike
      | given agree => exact .given ⟨agree, atOnce _ replied, atOnce' _ replied'⟩

theorem match_claimant (holds : mirror.Holds) (info : Info)
    (describes : mirror.setting.Describes info) (byDefault : mirror.setting.FindsByDefault info)
    (around : TypeId) (left right : Value) (related : mirror.stands around left right)
    (types : List (TypeId × Slot)) :
    (claimant mirror.setting mirror.account info left types []).Match Eq
      (claimant mirror.mirrored mirror.image (info.withRoot mirror.root) right types []) := by
  induction types with
  | nil => exact match_pure rfl
  | cons entry rest ih =>
      obtain ⟨type, test⟩ := entry
      rw [claimant, claimant]
      refine match_bind (match_prompt test _ _
        (fun id => holds.tests id type around left right info describes related)
        (fun id ticket => (holds.prompt id type left info ticket byDefault).1)
        fun id ticket => (holds.prompt id type right info ticket byDefault).2) ?_
      rintro answer answer' _ _ ⟨agree, now, now'⟩
      cases answer' with
      | deferred ticket => cases now'
      | _ =>
          split
          · cases now
          · rw [agree]
            split
            · exact match_pure rfl
            · exact ih

theorem match_typeByDefault (holds : mirror.Holds) (info : Info)
    (describes : mirror.setting.Describes info) (byDefault : mirror.setting.FindsByDefault info)
    (abstract : TypeId) (isAbstract : (mirror.setting.schema.kindOf abstract).isAbstract = true)
    (left right : Value) (related : mirror.stands abstract left right) :
    (typeByDefault mirror.setting mirror.account info abstract left).Match Eq
      (typeByDefault mirror.mirrored mirror.image (info.withRoot mirror.root) abstract right) := by
  unfold typeByDefault
  rw [← holds.typename abstract left right related isAbstract]
  split
  · exact match_pure rfl
  · cases possible : mirror.setting.schema.possibleTypes abstract with
    | error fault =>
        have possible' : mirror.mirrored.schema.possibleTypes abstract = .error fault := possible
        rw [possible']
        exact match_fail_same _
    | ok types =>
        have possible' : mirror.mirrored.schema.possibleTypes abstract = .ok types := possible
        rw [possible']
        refine match_bind (match_claimant holds info describes byDefault abstract left right related
          _) ?_
        rintro found _ _ _ rfl
        split
        · exact match_pure rfl
        · exact match_pure rfl

theorem match_typeFound (holds : mirror.Holds) (info : Info)
    (describes : mirror.setting.Describes info) (abstract : TypeId)
    (inner : info.returnType.innermost = .ok abstract)
    (isAbstract : (mirror.setting.schema.kindOf abstract).isAbstract = true) (left right : Value)
    (related : mirror.stands abstract left right) :
    (typeFound mirror.setting mirror.account info abstract left).Match Eq
      (typeFound mirror.mirrored mirror.image (info.withRoot mirror.root) abstract right) := by
  have asked : ∀ id of, mirror.Replies Eq (.resolveType id of left info)
      (.resolveType id of right (info.withRoot mirror.root)) :=
    fun id of => holds.typeResolvers id of abstract left right info describes related
  unfold typeFound
  cases unset : (mirror.setting.schema.definition abstract).resolveType.isUnset with
  | false =>
      have unset' : (mirror.mirrored.schema.definition abstract).resolveType.isUnset = false := unset
      simp only [unset, unset', Bool.not_false, if_true]
      exact match_called (mirror.setting.schema.definition abstract).resolveType _ _ fun id =>
        asked id (some abstract)
  | true =>
      have unset' : (mirror.mirrored.schema.definition abstract).resolveType.isUnset = true := unset
      simp only [unset, unset', Bool.not_true, Bool.false_eq_true, if_false]
      cases resolver : mirror.setting.environment.typeResolver with
      | some id =>
          have resolver' : mirror.mirrored.environment.typeResolver = some id := resolver
          rw [resolver']
          exact asked id none
      | none =>
          have resolver' : mirror.mirrored.environment.typeResolver = none := resolver
          rw [resolver']
          exact match_typeByDefault holds info describes ⟨resolver, abstract, inner, isAbstract, unset⟩
            abstract isAbstract left right related

theorem check_mirrored (info : Info) (abstract : TypeId) {left right : Value}
    (shown : left.shown = right.shown) (found : Value) :
    RuntimeType.check mirror.mirrored (info.withRoot mirror.root) abstract right found
      = RuntimeType.check mirror.setting info abstract left found := by
  unfold RuntimeType.check
  rw [shown]
  rfl

section

variable {known : TypeId → Prop} {objects objects' : Objects}

theorem match_abstract (holds : mirror.Holds) (closed : Closed mirror.setting.schema known)
    (below : mirror.BelowMatches known objects objects')
    (info : Info) (describes : mirror.setting.Describes info) (abstract : TypeId)
    (inner : info.returnType.innermost = .ok abstract)
    (isAbstract : (mirror.setting.schema.kindOf abstract).isAbstract = true) (path : ResponsePath)
    (left right : Value) (related : mirror.stands abstract left right) :
    (Reference.abstract mirror.setting mirror.account objects info abstract path left).Match Eq
      (Reference.abstract mirror.mirrored mirror.image objects' (info.withRoot mirror.root) abstract
        path right) := by
  refine match_bind (match_typeFound holds info describes abstract inner isAbstract left right
    related) ?_
  rintro found _ _ _ rfl
  have noObject : mirror.setting.schema.kindOf abstract ≠ .object := by
    intro same
    rw [same] at isAbstract
    cases isAbstract
  rw [check_mirrored info abstract (holds.shown abstract left right related (.inl noObject)) found]
  cases checked : RuntimeType.check mirror.setting info abstract left found with
  | error failure => exact match_fail_same failure
  | ok id =>
      rcases RuntimeType.possible_of_check info abstract left found id checked with
        ⟨possible, isObject⟩
      exact match_object holds below info describes id
        (closed.possible abstract id possible isObject) path left right
        (holds.possible abstract id left right related possible isObject)

theorem match_leaf (holds : mirror.Holds) (type : TypeId)
    (kind : mirror.setting.schema.kindOf type = .scalar ∨ mirror.setting.schema.kindOf type = .enum)
    (left right : Value) (related : mirror.stands type left right) :
    (leaf mirror.setting mirror.account type left).Match Eq
      (leaf mirror.mirrored mirror.image type right) := by
  have noObject : mirror.setting.schema.kindOf type ≠ .object := by
    intro same
    rw [same] at kind
    rcases kind with kind | kind <;> cases kind
  refine match_bind (holds.written type left right kind related) ?_
  rintro form _ _ _ rfl
  rw [holds.shown type left right related (.inl noObject)]
  split
  · exact match_fail_same _
  · exact match_pure rfl

theorem match_named (holds : mirror.Holds) (closed : Closed mirror.setting.schema known)
    (below : mirror.BelowMatches known objects objects') (info : Info)
    (describes : mirror.setting.Describes info) (type : TypeId)
    (inner : info.returnType.innermost = .ok type)
    (knownType : mirror.setting.schema.kindOf type = .object → known type) (path : ResponsePath)
    (left right : Value)
    (related : mirror.stands type left right) :
    (named mirror.setting mirror.account objects info type path left).Match Eq
      (named mirror.mirrored mirror.image objects' (info.withRoot mirror.root) type path right) := by
  unfold named
  cases kind : mirror.setting.schema.kindOf type with
  | scalar =>
      rw [show mirror.mirrored.schema.kindOf type = .scalar from kind]
      exact match_leaf holds type (.inl kind) left right related
  | enum =>
      rw [show mirror.mirrored.schema.kindOf type = .enum from kind]
      exact match_leaf holds type (.inr kind) left right related
  | interface =>
      rw [show mirror.mirrored.schema.kindOf type = .interface from kind]
      exact match_abstract holds closed below info describes type inner (by rw [kind]; rfl) path left
        right related
  | union =>
      rw [show mirror.mirrored.schema.kindOf type = .union from kind]
      exact match_abstract holds closed below info describes type inner (by rw [kind]; rfl) path left
        right related
  | object =>
      rw [show mirror.mirrored.schema.kindOf type = .object from kind]
      exact match_object holds below info describes type (knownType kind) path left right related
  | input =>
      rw [show mirror.mirrored.schema.kindOf type = .input from kind]
      exact match_fail_same _

theorem match_required (info : Info) (content : Content) :
    (required mirror.setting info content).Match Eq
      (required mirror.mirrored (info.withRoot mirror.root) content) := by
  cases content with
  | null => exact match_fail_same _
  | _ => exact match_pure rfl

theorem match_items (info : Info) (type : TypeRef) (path : ResponsePath) (items items' : List Value)
    (same : List.Forall₂ (fun item item' =>
      (mirror.handed item).Match (mirror.StandsFor type) (mirror.handed' item')) items items')
    (each : ∀ place left right, mirror.StandsFor type left right →
      (completed mirror.setting mirror.account objects info type place left).Match Eq
        (completed mirror.mirrored mirror.image objects' (info.withRoot mirror.root) type place
          right))
    (start : Nat) :
    List.Forall₂ (Match Eq)
      ((items.zipIdx start).map fun (item, index) =>
        Results.placed type info.nodes (path.extend (.index index))
          ((mirror.handed item).bind
            (completed mirror.setting mirror.account objects info type
              (path.extend (.index index)))))
      ((items'.zipIdx start).map fun (item, index) =>
        Results.placed type info.nodes (path.extend (.index index))
          ((mirror.handed' item).bind
            (completed mirror.mirrored mirror.image objects' (info.withRoot mirror.root) type
              (path.extend (.index index))))) := by
  induction same generalizing start with
  | nil => exact .nil
  | cons first _ ih =>
      refine .cons (match_placed type info.nodes _ (match_bind first ?_)) (ih (start + 1))
      exact fun left right _ _ related => each _ left right related

theorem match_completed_of_faces (info : Info) (type : TypeRef) (path : ResponsePath)
    {left right : Value} {further : Prop} (faces : left.Faces right further)
    (goesOn : Completion.raised? left = none → Completion.raised? right = none →
      left.isNull = right.isNull → (left.isNull = false → further) →
      (completed mirror.setting mirror.account objects info type path left).Match Eq
        (completed mirror.mirrored mirror.image objects' (info.withRoot mirror.root) type path
          right)) :
    (completed mirror.setting mirror.account objects info type path left).Match Eq
      (completed mirror.mirrored mirror.image objects' (info.withRoot mirror.root) type path
        right) := by
  have raised := faces.raised
  cases leftRaised : Completion.raised? left with
  | some failure =>
      cases rightRaised : Completion.raised? right with
      | none =>
          rw [leftRaised, rightRaised] at raised
          cases raised
      | some failure' =>
          rw [leftRaised, rightRaised] at raised
          cases raised with
          | some alike =>
              unfold completed
              rw [leftRaised, rightRaised]
              exact match_fail alike
  | none =>
      cases rightRaised : Completion.raised? right with
      | none => exact goesOn leftRaised rightRaised faces.null (faces.further leftRaised)
      | some failure' =>
          rw [leftRaised, rightRaised] at raised
          cases raised

theorem faces_of_standsFor (type : TypeRef) (id : TypeId) (inner : type.innermost = .ok id)
    {left right : Value} (related : mirror.StandsFor type left right) : left.Faces right True := by
  induction type with
  | broken fault => cases inner
  | nonNull of ih => exact ih inner related
  | list of _ => exact ⟨related.raised, related.null, fun _ _ => trivial⟩
  | named _ => exact ⟨related.raised, related.null, fun _ _ => trivial⟩

/-- Values that stand for each other make the same of their type. -/
theorem match_completed (holds : mirror.Holds) (closed : Closed mirror.setting.schema known)
    (below : mirror.BelowMatches known objects objects') (info : Info)
    (describes : mirror.setting.Describes info) (type : TypeRef) (id : TypeId)
    (inner : type.innermost = .ok id) (innermost : info.returnType.innermost = .ok id)
    (knownType : mirror.setting.schema.kindOf id = .object → known id) (path : ResponsePath)
    (left right : Value) (related : mirror.StandsFor type left right) :
    (completed mirror.setting mirror.account objects info type path left).Match Eq
      (completed mirror.mirrored mirror.image objects' (info.withRoot mirror.root) type path
        right) := by
  induction type generalizing path left right with
  | broken fault => cases inner
  | nonNull of ih =>
      refine match_completed_of_faces info _ path (faces_of_standsFor of id inner related) ?_
      intro leftRaised rightRaised _ _
      unfold completed
      rw [leftRaised, rightRaised]
      refine match_bind (ih inner path left right related) ?_
      rintro content _ _ _ rfl
      exact match_required info content
  | list of ih =>
      refine match_completed_of_faces info _ path related ?_
      intro leftRaised rightRaised null further
      unfold completed
      rw [leftRaised, rightRaised, ← null]
      cases isNull : left.isNull with
      | true => exact match_pure rfl
      | false =>
          refine match_bind (further isNull info) ?_
          intro items items' _ _ same
          have each := match_items info of path items items' same
            (fun place left right related => ih inner place left right related) 0
          -- an item keeps its own failures, so the items match together if each of them does
          refine match_bind (match_together each ?_ ?_) ?_
          · intro results member
            rcases List.mem_map.1 member with ⟨entry, _, rfl⟩
            exact halting_placed _ _ _ _
          · intro results member
            rcases List.mem_map.1 member with ⟨entry, _, rfl⟩
            exact halting_placed _ _ _ _
          · intro places places' _ _ same
            rw [List.forall₂_eq_eq_eq] at same
            rw [same]
            exact match_pure rfl
  | named found =>
      cases inner
      refine match_completed_of_faces info _ path related ?_
      intro leftRaised rightRaised null further
      unfold completed
      rw [leftRaised, rightRaised, ← null]
      cases isNull : left.isNull with
      | true => exact match_pure rfl
      | false =>
          exact match_named holds closed below info describes id innermost knownType path left right
            (further isNull)

theorem match_resolved (holds : mirror.Holds) (field : Field) (info : Info)
    (describes : mirror.setting.Describes info)
    (named : ∃ text, (mirror.setting.schema.definition info.parentType).name = .str text)
    (source source' arguments : Value) (related : mirror.stands info.parentType source source') :
    ((resolved mirror.setting mirror.account field source arguments info).bind mirror.handed).Match
      (mirror.StandsFor info.returnType)
      ((resolved mirror.mirrored mirror.image field source' arguments
        (info.withRoot mirror.root)).bind mirror.handed') := by
  unfold resolved
  by_cases typename : info.fieldName = Field.typenameName
  · have typename' : (info.withRoot mirror.root).fieldName = Field.typenameName := typename
    rw [if_pos typename, if_pos typename']
    rcases named with ⟨text, named⟩
    have named' : (mirror.mirrored.schema.definition (info.withRoot mirror.root).parentType).name
        = .str text := named
    rw [named, named']
    rcases describes.declared with ⟨found, declared, typed⟩
    rw [Layout.field?, if_pos typename] at declared
    cases declared
    have same : Match Eq (Results.pure (Value.str text)) (Results.pure (Value.str text)) :=
      match_pure rfl
    refine match_bind same ?_
    rintro value _ given _ rfl
    cases given
    rw [← Except.ok.inj typed]
    exact match_pure ⟨.none, rfl, fun _ _ => holds.names text⟩
  · have typename' : ¬ (info.withRoot mirror.root).fieldName = Field.typenameName := typename
    rw [if_neg typename, if_neg typename']
    cases unset : field.resolve.isUnset with
    | false =>
        simp only [Bool.not_false, if_true]
        exact match_called field.resolve _ _ fun id =>
          holds.resolvers id source source' arguments info describes related
    | true =>
        simp only [Bool.not_true, Bool.false_eq_true, if_false]
        cases resolver : mirror.setting.environment.fieldResolver with
        | some id =>
            rw [show mirror.mirrored.environment.fieldResolver = some id from resolver]
            exact holds.resolvers id source source' arguments info describes related
        | none =>
            rw [show mirror.mirrored.environment.fieldResolver = none from resolver]
            exact holds.fields source source' arguments info describes related

theorem match_fieldValue (holds : mirror.Holds) (closed : Closed mirror.setting.schema known)
    (below : mirror.BelowMatches known objects objects') (field : Field) (info : Info) (describes : mirror.setting.Describes info)
    (named : ∃ text, (mirror.setting.schema.definition info.parentType).name = .str text)
    (type : TypeRef) (returns : info.returnType = type) (id : TypeId)
    (inner : type.innermost = .ok id)
    (knownType : mirror.setting.schema.kindOf id = .object → known id) (source source' : Value)
    (node : FieldNode) (related : mirror.stands info.parentType source source') :
    (fieldValue mirror.setting mirror.account objects field type source info node).Match Eq
      (fieldValue mirror.mirrored mirror.image objects' field type source'
        (info.withRoot mirror.root) node) := by
  subst returns
  refine match_bind (match_action holds (Input.arguments mirror.setting.schema.toLayout
    mirror.setting.environment.vars node.start node.arguments field.arguments)
    (lenient_aside.within_arguments _ _ _ _ _)) ?_
  rintro bound _ _ _ rfl
  rw [← bind_assoc, ← bind_assoc]
  refine match_bind (match_resolved holds field info describes named source source' (.map bound)
    related) ?_
  intro left right _ _ related
  exact match_completed holds closed below info describes info.returnType id inner inner knownType
    info.path left right related

/-- Places of one key that match. -/
structure SamePlaces (entry entry' : String × Results Place) : Prop where
  key : entry.1 = entry'.1
  same : entry.2.Match Eq entry'.2

theorem match_fieldPlaces (holds : mirror.Holds) (sound : Sound mirror.setting.schema known)
    (below : mirror.BelowMatches known objects objects') (parent : TypeId) (knownParent : known parent)
    (source source' : Value) (related : mirror.stands parent source source')
    (path : Option ResponsePath) (fields : Collected) :
    List.Forall₂ SamePlaces
      (fieldPlaces mirror.setting mirror.account objects parent source path fields)
      (fieldPlaces mirror.mirrored mirror.image objects' parent source' path fields) := by
  induction fields with
  | nil => exact .nil
  | cons entry rest ih =>
      obtain ⟨key, nodes⟩ := entry
      simp only [fieldPlaces, List.filterMap_cons]
      cases nodes with
      | nil => exact ih
      | cons node nodes =>
          rcases sound.declared parent node.name knownParent with ⟨found, looked, declared⟩
          have looked' : mirror.mirrored.schema.field? parent node.name = .ok found := looked
          simp only [fieldPlace?, List.head?_cons, Option.bind_some, looked, looked']
          cases found with
          | none => exact ih
          | some field =>
              rcases declared field rfl with ⟨type, id, typed, inner⟩
              simp only [typed]
              let info : Info := ⟨mirror.setting.environment, node.name, node :: nodes, type, parent,
                .add path (.name key)⟩
              have describes : mirror.setting.Describes info := ⟨rfl, field, looked, typed⟩
              have knownType := sound.field parent node.name field type id knownParent looked typed
                inner
              have same := match_fieldValue holds sound.toClosed below field info describes
                (sound.named parent knownParent) type rfl id inner knownType source source' node
                related
              exact .cons ⟨rfl, match_placed type (node :: nodes) _ same⟩ ih

theorem match_fieldContents {places places' : List (String × Results Place)}
    (each : List.Forall₂ SamePlaces places places')
    (halting : ∀ results ∈ places.map (·.2), results.Halting)
    (halting' : ∀ results ∈ places'.map (·.2), results.Halting) :
    ((together (places.map (·.2))).bind fun found =>
      .pure (Content.object (places.map (·.1)) found)).Match Eq
      ((together (places'.map (·.2))).bind fun found =>
        .pure (Content.object (places'.map (·.1)) found)) := by
  have keys : places.map (·.1) = places'.map (·.1) := by
    rw [← List.forall₂_eq_eq_eq, List.forall₂_map_left_iff, List.forall₂_map_right_iff]
    exact each.imp fun _ _ entry => entry.key
  have contents : List.Forall₂ (Match Eq) (places.map (·.2)) (places'.map (·.2)) := by
    rw [List.forall₂_map_left_iff, List.forall₂_map_right_iff]
    exact each.imp fun _ _ entry => entry.same
  refine match_bind (match_together contents halting halting') ?_
  intro found found' _ _ same
  rw [List.forall₂_eq_eq_eq] at same
  rw [keys, same]
  exact match_pure rfl

/-- Objects that stand for each other have the same content. -/
theorem match_selected (holds : mirror.Holds) (sound : Sound mirror.setting.schema known)
    (levels : Nat) (parent : TypeId) (knownParent : known parent) (source source' : Value)
    (related : mirror.stands parent source source') (path : Option ResponsePath)
    (fields : Collected) :
    (selected mirror.setting mirror.account levels parent source path fields).Match Eq
      (selected mirror.mirrored mirror.image levels parent source' path fields) := by
  induction levels generalizing parent source source' path fields with
  | zero => exact match_fail_same _
  | succ levels ih =>
      have below : mirror.BelowMatches known
          (fun type value place inner =>
            selected mirror.setting mirror.account levels type value (some place) inner)
          (fun type value place inner =>
            selected mirror.mirrored mirror.image levels type value (some place) inner) :=
        fun type left right place inner knownType related =>
          ih type knownType left right related (some place) inner
      rw [selected, selected]
      exact match_fieldContents
        (match_fieldPlaces holds sound below parent knownParent source source' related path fields)
        (halting_fieldPlaces _ _ _ _ _ _ _) (halting_fieldPlaces _ _ _ _ _ _ _)

end

end Mirror

end GraphQL
