import GraphQL.Proofs.Attending

/-!
Executing an operation leaves nothing pending. Each step of completion attends to what is handed over
to it: it waits for it, or it gives it up, before anything can keep it from doing so.
-/

namespace GraphQL

/-- The values that an event brings to completion. -/
def Event.values : Event → List Value
  | .resolved _ value | .delivered _ (.ok value) => [value]
  | .listed _ items => items
  | _ => []

/-- A world in which the application raises exceptions of its own, never one that ends everything or
one by which executions are stopped. -/
structure World.Orderly {σ : Type} (world : World σ) (schema : Schema) : Prop where
  failures : ∀ asked failure, world.account.called asked (.error failure) → failure.halts = false
  faults : ∀ handle items failure, world.account.drained handle items (some failure) →
    failure.halts = false
  refusals : ∀ ticket failure, world.account.came ticket (.error failure) → failure.halts = false
  values : ∀ event value failure, world.Saw event → value ∈ event.values →
    Failure.ofValue? value = some failure → failure.kind ≠ .asynchronous
  written : ∀ form failure, world.account.Written schema form →
    Failure.ofValue? form = some failure → failure.halts = false

theorem World.Orderly.handled {σ : Type} {world : World σ} {schema : Schema}
    (orderly : world.Orderly schema) : world.account.Handled schema where
  failures asked failure called := Failure.caught_of_halts (orderly.failures asked failure called)
  faults handle items failure drained :=
    Failure.caught_of_halts (orderly.faults handle items failure drained)
  refusals ticket failure came := Failure.caught_of_halts (orderly.refusals ticket failure came)
  written form failure written found :=
    (Failure.caught_of_halts (orderly.written form failure written found)).caught

/-- A schema in which the fields of the known types, and the types of these fields, are worked out. -/
structure Definite (schema : Schema) (known : TypeId → Prop) : Prop extends Closed schema known where
  declared : ∀ parent name, known parent → ∃ found, schema.field? parent name = .ok found
    ∧ ∀ field, found = some field → ∃ type id, field.type = .ok type ∧ type.innermost = .ok id

theorem Sound.definite {schema : Schema} {known : TypeId → Prop} (sound : Sound schema known) :
    Definite schema known :=
  ⟨sound.toClosed, sound.declared⟩

/-- How the test by which an object type claims a value fails at once. -/
inductive Account.TestFails (account : Account) (schema : Schema) (value : Value) (info : Info) :
    Prop where
  | raised {function : Nat} {type : TypeId} {failure : Failure} :
    account.called (.isTypeOf function type value info) (.error failure) →
    TestFails account schema value info
  | uncallable {type : TypeId} {found : Value} :
    (schema.definition type).isTypeOf = .other found → TestFails account schema value info

/-- What a book has to allow for: tests that are still deferred when another one fails at once, and
items of a list behind the one at which the execution stops. -/
structure Book.Fits {σ : Type} (book : Book σ) (setting : Setting) : Prop where
  strict : book.strict ↔ setting.synchronous = true
  tests : ∀ function type value info ticket,
    book.final.account.called (.isTypeOf function type value info) (.ok (.deferred ticket)) →
    book.final.account.TestFails setting.schema value info → book.excused ticket
  items : ∀ path front ticket back, setting.synchronous = true → front ≠ [] →
    book.final.Saw (.listed path (front ++ .deferred ticket :: back)) → book.skipped ticket

theorem Value.mem_ticket? {value : Value} {ticket : Nat} (member : ticket ∈ value.ticket?.toList) :
    value = .deferred ticket := by
  cases value with
  | deferred other =>
      have same : ticket = other := List.mem_singleton.1 member
      rw [same]
  | _ => cases member

theorem Value.mem_tickets {values : List Value} {ticket : Nat}
    (member : ticket ∈ values.filterMap Value.ticket?) : .deferred ticket ∈ values := by
  obtain ⟨value, inside, found⟩ := List.mem_filterMap.1 member
  have same : value = .deferred ticket := mem_ticket? (by simp [found])
  rwa [← same]

namespace Book

variable {σ : Type} (book : Book σ)

theorem allows_of_goesOn {failure : Failure} (goesOn : failure.kind ≠ .asynchronous) :
    book.Allows failure :=
  fun stops => absurd stops goesOn

theorem goesOn_of_halts {failure : Failure} (handled : failure.halts = false) :
    failure.kind ≠ .asynchronous := by
  rw [Failure.halts, Bool.or_eq_false_iff, decide_eq_false_iff_not] at handled
  exact handled.2

theorem lenient_allows :
    Lenient (fun asked => ∀ reply, asked.hands reply = []) book.Allows where
  literals _ _ _ reply := by cases reply <;> rfl
  response _ _ _ := book.allows_of_goesOn fun same => by cases same
  schema fault := book.allows_of_goesOn fun same => by cases fault <;> cases same
  value fault := book.allows_of_goesOn fun same => by cases fault <;> cases same
  leaf fault := by
    obtain ⟨direction, problem⟩ := fault
    exact book.allows_of_goesOn fun same => by cases direction <;> cases same
  assertion _ := book.allows_of_goesOn fun same => by cases same

/-- A value that is no error, or one that does not stop the execution. -/
def Plain (value : Value) : Prop :=
  ∀ failure, Completion.raised? value = some failure → book.Allows failure

end Book

open Program

section

variable {setting : Setting} {σ : Type} {book : Book σ} {owed : Nat → Prop}

theorem World.Orderly.allows (orderly : book.final.Orderly setting.schema) (asked : Call)
    (failure : Failure) (called : book.final.account.called asked (.error failure)) :
    book.Allows failure :=
  book.allows_of_goesOn (Book.goesOn_of_halts (orderly.failures asked failure called))

theorem Book.Fits.halted (fits : book.Fits setting) {ticket : Nat}
    (synchronous : setting.synchronous = true) (attended : book.final.Attends ticket) :
    book.Halted :=
  ⟨fits.strict.2 synchronous, ticket, attended⟩

theorem Book.Fits.synchronous (fits : book.Fits setting) (halted : book.Halted) :
    setting.synchronous = true :=
  fits.strict.1 halted.1

theorem World.Orderly.plain (orderly : book.final.Orderly setting.schema) {event : Event}
    (saw : book.final.Saw event) {value : Value} (inside : value ∈ event.values) :
    book.Plain value := by
  intro failure raised
  have found := (Option.filter_eq_some_iff.1 raised).1
  exact book.allows_of_goesOn (orderly.values event value failure saw inside found)

namespace Program

theorem pays_call (asked : Call) (next : Reply → Program)
    (orderly : book.final.Orderly setting.schema)
    (each : ∀ value, book.final.account.called asked (.ok value) →
      (next (.ok value)).Pays book fun ticket => owed ticket ∨ ticket ∈ asked.hands (.ok value))
    (failed : ∀ failure, book.final.account.called asked (.error failure) → book.Allows failure →
      (next (.error failure)).Pays book owed) :
    (call asked next).Pays book owed := by
  simp only [Pays]
  intro reply called
  cases reply with
  | ok value => exact each value called
  | error failure =>
      refine (failed failure called (orderly.allows asked failure called)).mono _ fun ticket owes =>
        .inr (owes.resolve_right ?_)
      cases asked <;> exact List.not_mem_nil

theorem pays_receive (orderly : book.final.Orderly setting.schema)
    (fits : book.Fits setting) (value : Value) (next : Outcome → Program)
    (given : ∀ ticket, owed ticket → ticket ∈ value.ticket?.toList)
    (each : ∀ received, (book.Plain value → book.Plain received) →
      (next (.ok received)).Pays book fun _ => False)
    (failed : ∀ failure, book.Allows failure →
      (next (.error failure)).Pays book fun _ => False) :
    (receive setting value next).Pays book owed := by
  have nothing : value.ticket? = none → ∀ ticket, ¬ owed ticket := by
    intro none_ ticket owes
    have member := given ticket owes
    rw [none_] at member
    cases member
  cases value with
  | deferred ticket =>
      have same : ∀ other, owed other → other = ticket := fun other owes =>
        List.mem_singleton.1 (given other owes)
      simp only [receive]
      split
      · next synchronous =>
          refine pays_closing (fun shows => failed _ fun _ => ?_) fun other owes => .inr ?_
          · exact fits.halted synchronous (shows ticket List.mem_cons_self)
          · rw [same other owes]
            exact List.mem_cons_self
      · next lenient =>
          refine pays_await (fun other owes => .inr ⟨same other owes, ?_⟩) fun reply came => ?_
          · exact fun halted => lenient (fits.synchronous halted)
          · cases reply with
            | ok received =>
                obtain ⟨waiter, _, delivered⟩ := came
                exact each received fun _ => orderly.plain delivered List.mem_cons_self
            | error failure =>
                have handled := orderly.refusals ticket failure came
                exact failed failure (book.allows_of_goesOn (Book.goesOn_of_halts handled))
  | _ => exact (each _ id).mono _ fun ticket owes => absurd owes (nothing rfl ticket)

theorem pays_settle (type : TypeRef) (nodes : List FieldNode) (path : ResponsePath)
    (outcome : Outcome) (accepts : book.Accepts outcome) :
    (settle type nodes path outcome).Pays book (book.leftAt outcome) := by
  cases outcome with
  | ok value => exact pays_left accepts
  | error failure =>
      simp only [settle]
      split
      · exact pays_left accepts
      · next handled =>
          have goesOn : failure.kind ≠ .asynchronous := by
            intro stops
            rw [stops] at handled
            simp at handled
          have nothing : ∀ ticket, ¬ book.leftAt (.error failure) ticket := leftAt_of_goesOn goesOn
          have response : ∀ error, book.Allows (.response error) := fun error =>
            book.allows_of_goesOn fun same => by cases same
          split
          · exact (pays_fail (response _)).mono _ fun ticket left => absurd left (nothing ticket)
          · simp only [Pays]
            intro _
            refine (pays_succeed rfl : (succeed .null).Pays book _).mono _ fun ticket left => ?_
            exact absurd left (nothing ticket)

theorem pays_bubble (first : Failure) (failures : List Failure) (allows : book.Allows first)
    (all : ∀ failure ∈ failures, book.Allows failure) :
    (bubble first failures).Pays book fun _ => False := by
  induction failures with
  | nil => exact pays_fail allows
  | cons failure rest ih =>
      have later := ih fun other inside => all other (List.mem_cons_of_mem _ inside)
      unfold bubble
      split
      · exact pays_fail allows
      · next same =>
          cases same
          simp only [Pays]
          exact fun _ => later
      · next same =>
          cases same
          exact pays_fail (all _ List.mem_cons_self)

theorem pays_gathered (build : List Value → Value)
    (built : ∀ values, Failure.ofValue? (build values) = none) (outcomes : List Outcome)
    (accepted : ∀ outcome ∈ outcomes, book.Accepts outcome) :
    (gathered build (.ok outcomes)).Pays book fun _ => False := by
  simp only [gathered]
  split
  · exact pays_succeed (built _)
  · next first rest found =>
      have all : ∀ failure ∈ first :: rest, book.Allows failure := by
        intro failure inside
        rw [← found] at inside
        obtain ⟨outcome, member, failed⟩ := List.mem_filterMap.1 inside
        exact accepted outcome member failure failed
      exact pays_bubble first _ (all first List.mem_cons_self) all

theorem pays_gatheredStop (build : List Value → Value) (failure : Failure)
    (stops : failure.kind = .asynchronous) (halted : book.Halted) :
    (gathered build (.error failure)).Pays book book.skipped := by
  have left : (fail failure).Pays book (book.leftAt (.error failure)) := by
    refine pays_left fun other found => ?_
    cases found
    exact fun _ => halted
  exact left.mono _ fun ticket skipped => .inr ⟨⟨failure, rfl, stops⟩, skipped⟩

/-- Siblings among whom everything that is owed can be shared. -/
theorem pays_siblings (build : List Value → Value)
    (built : ∀ values, Failure.ofValue? (build values) = none) {children : List Program}
    (each : PayEach book owed children) : (join children (gathered build)).Pays book owed := by
  simp only [Pays]
  exact ⟨each, pays_gathered build built, pays_gatheredStop build⟩

theorem payEach_of_forall {children : List Program}
    (each : ∀ child ∈ children, (child.Pays book fun _ => False)
      ∧ child.Ends book.final.account Outcome.Calm) :
    PayEach book (fun _ => False) children := by
  induction children with
  | nil =>
      simp only [PayEach]
      exact fun ticket owes => owes.elim
  | cons child rest ih =>
      obtain ⟨pays, calm⟩ := each child List.mem_cons_self
      simp only [PayEach]
      refine ⟨fun _ => False, fun _ => False, fun ticket owes => owes.elim, pays, calm,
        fun _ ticket owes => owes.elim, ?_⟩
      exact ih fun other inside => each other (List.mem_cons_of_mem _ inside)

end Program

theorem Slot.pays_call (slot : Slot) (asked : Nat → Call) (next : Reply → Program)
    (orderly : book.final.Orderly setting.schema)
    (each : ∀ id value, (next (.ok value)).Pays book fun ticket => ticket ∈ (asked id).hands (.ok value))
    (failed : ∀ failure, book.Allows failure → (next (.error failure)).Pays book fun _ => False) :
    (slot.call asked next).Pays book fun _ => False := by
  have uncallable := fun fault => failed _ (book.lenient_allows.value fault)
  cases slot with
  | function id =>
      refine Program.pays_call _ _ orderly (fun value _ => ?_) fun failure _ => failed failure
      exact (each id value).mono _ fun ticket owes => .inr (owes.resolve_left not_false)
  | other value => exact uncallable _
  | absent => exact uncallable _

namespace RuntimeType

/-- The tests that are still deferred are waited for together, or given up together. -/
theorem pays_decideDeferred (orderly : book.final.Orderly setting.schema)
    (fits : book.Fits setting) (deferred : List (TypeId × Nat))
    (next : Except Failure (Option TypeId) → Program)
    (given : ∀ ticket, owed ticket → ticket ∈ deferred.map (·.2))
    (each : ∀ found, (next (.ok found)).Pays book fun _ => False)
    (failed : ∀ failure, book.Allows failure →
      (next (.error failure)).Pays book fun _ => False) :
    (decideDeferred setting deferred next).Pays book owed := by
  have inside : ∀ ticket, owed ticket → ticket ∈ (deferred.map (·.2)).eraseDups :=
    fun ticket owes => List.mem_eraseDups.2 (given ticket owes)
  cases deferred with
  | nil => exact (each none).mono _ fun ticket owes => (by cases given ticket owes)
  | cons first rest =>
      have some_ : first.2 ∈ (((first :: rest).map (·.2)).eraseDups : List Nat) :=
        List.mem_eraseDups.2 List.mem_cons_self
      unfold decideDeferred
      simp only [List.isEmpty_cons, Bool.false_eq_true, if_false]
      split
      · next synchronous =>
          refine pays_closing (fun shows => failed _ fun _ => ?_) fun ticket owes => .inr ?_
          · exact fits.halted synchronous (shows first.2 some_)
          · exact inside ticket owes
      · next lenient =>
          simp only [Pays]
          refine ⟨List.ne_nil_of_mem some_, fun ticket owes => .inr ⟨inside ticket owes, ?_⟩, ?_⟩
          · exact fun halted => absurd (fits.synchronous halted) lenient
          · intro result awaited _
            cases result with
            | ok results => exact each _
            | error failure =>
                obtain ⟨ticket, _, came⟩ := awaited
                have handled := orderly.refusals ticket failure came
                exact failed failure (book.allows_of_goesOn (Book.goesOn_of_halts handled))

/-- Asking the possible types in turn: the answers that are still deferred are given up as soon as one
of the types claims the value. -/
theorem pays_askTypes (orderly : book.final.Orderly setting.schema)
    (fits : book.Fits setting) (info : Info) (value : Value)
    (next : Except Failure (Option TypeId) → Program)
    (each : ∀ found, (next (.ok found)).Pays book fun _ => False)
    (failed : ∀ failure, book.Allows failure →
      (next (.error failure)).Pays book fun _ => False)
    (tests : List (TypeId × Slot)) (deferred : List (TypeId × Nat))
    (own : ∀ entry ∈ tests, (setting.schema.definition entry.1).isTypeOf = entry.2
      ∧ entry.2.isAbsent = false)
    (answered : ∀ entry ∈ deferred, ∃ function, book.final.account.called
      (.isTypeOf function entry.1 value info) (.ok (.deferred entry.2)))
    {owed : Nat → Prop} (given : ∀ ticket, owed ticket → ticket ∈ deferred.map (·.2)) :
    (askTypes setting info value next tests deferred).Pays book owed := by
  -- Once a test fails at once, those before it are nobody's concern any more.
  have dropped : book.final.account.TestFails setting.schema value info →
      ∀ ticket, owed ticket → book.excused ticket := by
    intro fails ticket owes
    obtain ⟨⟨type, ticket⟩, inside, rfl⟩ := List.mem_map.1 (given ticket owes)
    obtain ⟨function, called⟩ := answered _ inside
    exact fits.tests function type value info ticket called fails
  induction tests generalizing deferred owed with
  | nil => exact pays_decideDeferred orderly fits deferred next given each failed
  | cons test rest ih =>
      obtain ⟨type, slot⟩ := test
      obtain ⟨⟨defined, present⟩, others⟩ := List.forall_mem_cons.1 own
      simp only at defined present
      cases slot with
      | absent => cases present
      | other found =>
          have lost := dropped (.uncallable defined)
          exact (failed _ (book.lenient_allows.value _)).mono _ fun ticket owes =>
            .inl (lost ticket owes)
      | function id =>
          unfold askTypes
          refine pays_call _ _ orderly (fun answer called => ?_) fun failure called allows => ?_
          · split
            · next same => cases same
            · next ticket same =>
                cases same
                have more : ∀ other, owed other ∨ other ∈ Call.hands
                    (.isTypeOf id type value info) (.ok (.deferred ticket)) →
                    other ∈ (deferred ++ [(type, ticket)]).map (·.2) := by
                  intro other owes
                  rw [List.map_append, List.mem_append]
                  exact owes.imp_left (given other)
                have known : ∀ entry ∈ deferred ++ [(type, ticket)], ∃ function,
                    book.final.account.called (.isTypeOf function entry.1 value info)
                      (.ok (.deferred entry.2)) := by
                  intro entry inside
                  rcases List.mem_append.1 inside with before | new
                  · exact answered entry before
                  · rw [List.mem_singleton.1 new]
                    exact ⟨id, called⟩
                refine ih _ others known more fun fails other owes => ?_
                obtain before | handed := owes
                · exact dropped fails other before
                · rw [List.mem_singleton.1 handed]
                  exact fits.tests id type value info ticket called fails
            · next result undeferred same =>
                cases same
                have none_ : answer.ticket? = none := by
                  cases answer with
                  | deferred ticket => exact absurd rfl (undeferred ticket)
                  | _ => rfl
                have before : ∀ ticket, owed ticket ∨ ticket ∈ Call.hands
                    (.isTypeOf id type value info) (.ok answer) → owed ticket := by
                  intro ticket owes
                  rw [Call.hands, none_] at owes
                  exact owes.resolve_right List.not_mem_nil
                split
                · exact pays_closing (fun _ => each _) fun ticket owes =>
                    .inr (given ticket (before ticket owes))
                · exact ih deferred others answered
                    (fun ticket owes => given ticket (before ticket owes))
                    fun fails ticket owes => dropped fails ticket (before ticket owes)
          · have lost := dropped (.raised called)
            exact (failed failure allows).mono _ fun ticket owes => .inl (lost ticket owes)

theorem own_of_tested (schema : Schema) (possible : List Candidate) :
    ∀ entry ∈ tested schema possible, (schema.definition entry.1).isTypeOf = entry.2
      ∧ entry.2.isAbsent = false := by
  intro entry member
  obtain ⟨id, _, found⟩ := List.mem_filterMap.1 member
  simp only at found
  split at found
  · cases found
  · next present =>
      cases found
      exact ⟨rfl, by simpa using present⟩

theorem pays_find (orderly : book.final.Orderly setting.schema) (fits : book.Fits setting)
    (info : Info) (abstract : TypeId) (value : Value) (next : Outcome → Program)
    (each : ∀ found, (next (.ok found)).Pays book fun _ => False)
    (failed : ∀ failure, book.Allows failure →
      (next (.error failure)).Pays book fun _ => False) :
    (find setting info abstract value next).Pays book fun _ => False := by
  have received : ∀ found, (receive setting found next).Pays book
      fun ticket => ticket ∈ found.ticket?.toList := fun found =>
    pays_receive orderly fits found next (fun _ owes => owes) (fun value _ => each value) failed
  unfold find
  simp only
  split
  · exact Slot.pays_call _ _ _ orderly (fun id found => received found) failed
  · split
    · refine pays_call _ _ orderly (fun found _ => ?_) fun failure _ => failed failure
      exact (received found).mono _ fun ticket owes => .inr (owes.resolve_left not_false)
    · unfold byDefault
      split
      · exact each _
      · split
        · exact failed _ (book.lenient_allows.schema _)
        · next possible _ =>
            refine pays_askTypes orderly fits info value _ (fun found => ?_) failed _ []
              (own_of_tested setting.schema possible) (fun entry inside => by cases inside)
              fun ticket owes => owes.elim
            cases found with
            | some type => exact each _
            | none => exact each _

end RuntimeType

/-- The selections on objects of known types leave nothing pending. -/
def BelowPays (book : Book σ) (known : TypeId → Prop) (below : Completion.Subfields) : Prop :=
  ∀ type value path fields, known type → (below type value path fields).Pays book fun _ => False

variable {known : TypeId → Prop} {below : Completion.Subfields}

namespace Completion

theorem pays_leaf (orderly : book.final.Orderly setting.schema) (type : TypeId)
    (value : Value) : (leaf setting type value).Pays book fun _ => False := by
  have written : ∀ form failure, book.final.account.Written setting.schema form →
      Failure.ofValue? form = some failure → book.Allows failure := fun form failure written found =>
    book.allows_of_goesOn (Book.goesOn_of_halts (orderly.written form failure written found))
  unfold leaf
  refine pays_act _ _ (book.lenient_allows.within_serialize (fun _ _ reply => ?_) _ _ _)
    orderly.allows (fun form yields => ?_) fun failure allows => pays_fail allows
  · cases reply <;> rfl
  · split
    · next same => cases same
    · next ticket same =>
        cases same
        refine pays_await (fun other owes => owes.elim) fun reply came =>
          pays_done fun failure found => ?_
        cases reply with
        | ok result => exact written result failure (.result yields came) found
        | error other =>
            cases found
            exact book.allows_of_goesOn (Book.goesOn_of_halts (orderly.refusals ticket _ came))
    · next result _ same =>
        cases same
        split
        · exact pays_fail (book.lenient_allows.response _ rfl rfl)
        · exact pays_done fun failure found => written form failure (.form yields) found

theorem pays_executeSubfields (orderly : book.final.Orderly setting.schema)
    (pays : BelowPays book known below) (info : Info) (type : TypeId) (path : ResponsePath)
    (value : Value) (knownType : known type) :
    (executeSubfields setting below info type path value).Pays book fun _ => False := by
  simp only [executeSubfields, subfields, Pays]
  intro found
  cases found with
  | some fields => exact pays type value path fields knownType
  | none =>
      refine pays_act _ _ (book.lenient_allows.within_collectNodes _ _ _) orderly.allows
        (fun fields _ => ?_) fun failure allows => pays_fail allows
      simp only [Pays]
      exact fun _ => pays type value path fields knownType

theorem pays_object (orderly : book.final.Orderly setting.schema) (fits : book.Fits setting)
    (pays : BelowPays book known below) (info : Info) (type : TypeId) (path : ResponsePath)
    (value : Value) (knownType : known type) :
    (object setting below info type path value).Pays book fun _ => False := by
  have execute : (executeSubfields setting below info type path value).Pays book fun _ => False :=
    pays_executeSubfields orderly pays info type path value knownType
  unfold object
  simp only
  split
  · exact execute
  · refine Slot.pays_call _ _ _ orderly (fun id result => ?_) fun failure allows => pays_fail allows
    refine pays_receive orderly fits result _ (fun ticket owes => owes) (fun holds _ => ?_)
      fun failure allows => pays_fail allows
    simp only [onSuccess]
    split
    · exact execute
    · exact pays_fail (book.lenient_allows.response _ rfl rfl)

theorem pays_abstract (orderly : book.final.Orderly setting.schema)
    (fits : book.Fits setting) (closed : Closed setting.schema known)
    (pays : BelowPays book known below) (info : Info) (type : TypeId) (path : ResponsePath)
    (value : Value) : (abstract setting below info type path value).Pays book fun _ => False := by
  unfold abstract
  refine RuntimeType.pays_find orderly fits info type value _ (fun found => ?_)
    fun failure allows => pays_fail allows
  simp only [onSuccess]
  cases checked : RuntimeType.check setting info type value found with
  | ok id =>
      have possible := RuntimeType.possible_of_check info type value found id checked
      have knownType := closed.possible type id possible.1 possible.2
      exact pays_object orderly fits pays info id path value knownType
  | error failure =>
      have ordinary := RuntimeType.ordinary_check info type value found failure checked
      exact pays_fail (book.allows_of_goesOn (Book.goesOn_of_halts ordinary.handled))

theorem pays_named (orderly : book.final.Orderly setting.schema) (fits : book.Fits setting)
    (closed : Closed setting.schema known) (pays : BelowPays book known below) (info : Info)
    (type : TypeId) (path : ResponsePath) (value : Value)
    (knownType : setting.schema.kindOf type = .object → known type) :
    (named setting below info type path value).Pays book fun _ => False := by
  unfold named
  split
  · exact pays_leaf orderly type value
  · exact pays_leaf orderly type value
  · exact pays_abstract orderly fits closed pays info type path value
  · exact pays_abstract orderly fits closed pays info type path value
  · next object => exact pays_object orderly fits pays info type path value (knownType object)
  · exact pays_fail (book.lenient_allows.assertion _)

/-- The items of a list share what is owed for the list: each attends to itself. -/
theorem payEach_items (fits : book.Fits setting) (path : ResponsePath) (position : Value × Nat → Program)
    (values : List Value) (listed : book.final.Saw (.listed path values))
    (front : List Value) (entries : List (Value × Nat))
    (each : ∀ entry ∈ entries,
      (position entry).Pays book (fun ticket => ticket ∈ entry.1.ticket?.toList)
        ∧ (position entry).Ends book.final.account Outcome.Calm)
    (split : values = front ++ entries.map (·.1)) :
    PayEach book (fun ticket => ticket ∈ (entries.map (·.1)).filterMap Value.ticket?)
      (entries.map position) := by
  induction entries generalizing front with
  | nil =>
      simp only [List.map_nil, List.filterMap_nil, List.not_mem_nil, PayEach]
      exact fun ticket owes => owes.elim
  | cons entry rest ih =>
      obtain ⟨⟨pays, calm⟩, later⟩ := List.forall_mem_cons.1 each
      have others := ih (front ++ [entry.1]) later
        (by rw [split, List.map_cons, List.append_assoc]; rfl)
      simp only [List.map_cons, PayEach]
      refine ⟨_, _, fun ticket owes => .inr ?_, pays, calm, fun halted ticket owes => ?_, others⟩
      · obtain ⟨value, inside, found⟩ := List.mem_filterMap.1 owes
        rcases List.mem_cons.1 inside with same | later
        · exact .inl (by rw [← same, found]; exact List.mem_singleton.2 rfl)
        · exact .inr (List.mem_filterMap.2 ⟨value, later, found⟩)
      · obtain ⟨middle, back, behind⟩ := List.append_of_mem (Value.mem_tickets owes)
        refine fits.items path (front ++ entry.1 :: middle) ticket back (fits.synchronous halted)
          (by simp) ?_
        rw [List.map_cons, behind] at split
        rwa [List.append_assoc, List.cons_append, ← split]

theorem pays_items (orderly : book.final.Orderly setting.schema) (fits : book.Fits setting)
    (info : Info) (type : TypeRef) (whole : ∀ fault, type ≠ .broken fault) (path : ResponsePath)
    (complete : ResponsePath → Value → Program)
    (each : ∀ place value, book.Plain value → (complete place value).Pays book fun _ => False)
    (calm : ∀ value place, (receive setting value (onSuccess (complete place))).Ends
      book.final.account (setting.Takes book.final.account))
    (values : List Value) (given : ∀ ticket, owed ticket → ticket ∈ values.filterMap Value.ticket?) :
    (items setting info type path complete values).Pays book owed := by
  unfold items
  simp only [Pays]
  intro listed
  have positions := payEach_items fits path (fun entry =>
      (receive setting entry.1 (onSuccess (complete (path.extend (.index entry.2))))).andThen
        (settle type info.nodes (path.extend (.index entry.2)))) values listed [] values.zipIdx
    (fun entry inside => ⟨?_, calm_settled (calm entry.1 _) _ _ _⟩)
    (by rw [List.nil_append, List.zipIdx_map_fst])
  · refine (pays_siblings .list (fun _ => rfl) positions).mono _ fun ticket owes => .inr ?_
    rw [List.zipIdx_map_fst]
    exact owes.elim (given ticket) id
  · have item : entry.1 ∈ values := by
      rw [← List.zipIdx_map_fst 0 values]
      exact List.mem_map_of_mem inside
    refine pays_andThen _ _ ?_ fun outcome accepts => pays_settle _ _ _ outcome accepts
    refine pays_receive orderly fits entry.1 _ (fun ticket owes => owes) (fun received plain => ?_)
      fun failure allows => pays_fail allows
    exact each _ received (plain (orderly.plain listed item))

theorem pays_list (orderly : book.final.Orderly setting.schema) (fits : book.Fits setting)
    (info : Info) (type : TypeRef) (whole : ∀ fault, type ≠ .broken fault) (path : ResponsePath)
    (complete : ResponsePath → Value → Program)
    (each : ∀ place value, book.Plain value → (complete place value).Pays book fun _ => False)
    (calm : ∀ value place, (receive setting value (onSuccess (complete place))).Ends
      book.final.account (setting.Takes book.final.account))
    (value : Value) : (list setting info type path complete value).Pays book fun _ => False := by
  unfold list
  split
  · next handle =>
      simp only [Pays]
      intro values fault drained
      cases fault with
      | none =>
          exact pays_items orderly fits info type whole path complete each calm values fun ticket owes =>
            owes.resolve_left not_false
      | some failure =>
          have handled := orderly.faults handle values failure drained
          have caught := (Failure.caught_of_halts handled).caught
          simp only [caught, Bool.false_eq_true, if_false]
          refine pays_closing (fun _ => pays_fail ?_) fun ticket owes =>
            .inr (owes.resolve_left not_false)
          exact book.allows_of_goesOn (Book.goesOn_of_halts handled)
  · split
    · next values _ =>
        exact pays_items orderly fits info type whole path complete each calm values fun ticket owes =>
          owes.elim
    · exact pays_fail (book.lenient_allows.response _ rfl rfl)

theorem pays_complete (orderly : book.final.Orderly setting.schema)
    (fits : book.Fits setting) (closed : Closed setting.schema known)
    (pays : BelowPays book known below) (ends : BelowEnds setting book.final.account below)
    (info : Info) (type : TypeRef) (id : TypeId) (inner : type.innermost = .ok id)
    (knownType : setting.schema.kindOf id = .object → known id) (path : ResponsePath)
    (value : Value) (plain : book.Plain value) :
    (complete setting below info type path value).Pays book fun _ => False := by
  have whole : ∀ {type : TypeRef}, type.innermost = .ok id → ∀ fault, type ≠ .broken fault := by
    rintro type inner fault rfl
    cases inner
  induction type generalizing path value with
  | named other =>
      cases inner
      unfold complete
      split
      · next raised => exact pays_fail (plain _ raised)
      · simp only
        split
        · exact pays_succeed rfl
        · exact pays_named orderly fits closed pays info id path value knownType
  | list of ih =>
      unfold complete
      split
      · next raised => exact pays_fail (plain _ raised)
      · simp only
        split
        · exact pays_succeed rfl
        · refine pays_list orderly fits info of (whole inner) path _ (ih inner) (fun item place => ?_)
            value
          refine ends_receive orderly.handled item _ (fun received => ?_) fun failure handles =>
            ends_refused _ handles
          exact ends_complete orderly.handled ends info of place received
  | nonNull of ih =>
      unfold complete
      split
      · next raised => exact pays_fail (plain _ raised)
      · refine pays_andThen _ _ (ih inner path value plain) fun outcome accepts => ?_
        cases outcome with
        | error failure => exact pays_left accepts
        | ok completed =>
            simp only [requireValue, onSuccess]
            split
            · refine (pays_fail (book.lenient_allows.response _ rfl rfl)).mono _ fun ticket left => ?_
              exact absurd left (leftAt_ok completed ticket)
            · exact pays_left accepts
  | broken fault => cases inner

end Completion

namespace Execution

theorem pays_resolve (orderly : book.final.Orderly setting.schema) (field : Field)
    (source arguments : Value) (info : Info) (next : Reply → Program)
    (each : ∀ value, (next (.ok value)).Pays book fun _ => False)
    (failed : ∀ failure, book.Allows failure → (next (.error failure)).Pays book fun _ => False) :
    (resolve setting field source arguments info next).Pays book fun _ => False := by
  have asked : ∀ asked, (∀ value, asked.hands (.ok value) = []) →
      (call asked next).Pays book fun _ => False := by
    intro asked aside
    refine pays_call _ _ orderly (fun value _ => ?_) fun failure _ => failed failure
    refine (each value).mono _ fun ticket owes => .inr ?_
    rw [aside value] at owes
    exact owes.elim id List.not_mem_nil
  unfold resolve
  split
  · exact each _
  · split
    · refine Slot.pays_call _ _ _ orderly (fun id value => ?_) failed
      exact (each value).mono _ fun ticket owes => absurd owes List.not_mem_nil
    · split
      · exact asked _ fun _ => rfl
      · unfold resolveByName
        split
        · exact asked _ fun _ => rfl
        · next receiver name _ =>
            cases receiver.callMethod name arguments info.environment.context with
            | ok value => exact each value
            | error fault => exact failed _ (book.lenient_allows.value fault)
        · exact each _

theorem pays_fieldValue (orderly : book.final.Orderly setting.schema) (fits : book.Fits setting)
    (closed : Closed setting.schema known) (pays : BelowPays book known below)
    (ends : BelowEnds setting book.final.account below) (field : Field) (type : TypeRef)
    (source : Value) (info : Info) (node : FieldNode) (id : TypeId)
    (inner : type.innermost = .ok id) (knownType : setting.schema.kindOf id = .object → known id) :
    (fieldValue setting below field type source info node).Pays book fun _ => False := by
  unfold fieldValue
  refine pays_act _ _ (book.lenient_allows.within_arguments _ _ _ _ _) orderly.allows
    (fun bound _ => ?_) fun failure allows => pays_fail allows
  simp only [Pays]
  intro _
  refine pays_resolve orderly field source _ info _ (fun value => ?_)
    fun failure allows => pays_fail allows
  simp only [onSuccess, Pays]
  intro resolved
  refine pays_receive orderly fits value _ (fun ticket owes => owes.resolve_left not_false)
    (fun received plain => ?_) fun failure allows => pays_fail allows
  have given : book.Plain value := orderly.plain resolved List.mem_cons_self
  exact Completion.pays_complete orderly fits closed pays ends info type id inner knownType
    info.path received (plain given)

theorem pays_fieldPrograms (orderly : book.final.Orderly setting.schema) (fits : book.Fits setting)
    (definite : Definite setting.schema known) (pays : BelowPays book known below)
    (ends : BelowEnds setting book.final.account below) (parent : TypeId)
    (knownParent : known parent) (source : Value) (path : Option ResponsePath)
    (fields : Collected) :
    ∀ entry ∈ fieldPrograms setting below parent source path fields,
      (entry.2.Pays book fun _ => False) ∧ entry.2.Ends book.final.account Outcome.Calm := by
  intro entry member
  obtain ⟨⟨key, nodes⟩, _, made⟩ := List.mem_filterMap.1 member
  obtain ⟨program, found, rfl⟩ := Option.map_eq_some_iff.1 made
  obtain ⟨node, _, program_⟩ := field?_eq_some found
  obtain ⟨looked, declared, typed⟩ := definite.declared parent node.name knownParent
  obtain ⟨fault, rfl, broken⟩ | ⟨field, type, named, given, rfl⟩ := program_
  · obtain broken | ⟨field, same, broken⟩ := broken
    · rw [declared] at broken
      cases broken
    · rw [declared] at same
      cases same
      obtain ⟨type, _, given, _⟩ := typed field rfl
      rw [given] at broken
      cases broken
  · have own := named
    rw [declared] at own
    cases own
    obtain ⟨other, id, same, inner⟩ := typed field rfl
    rw [given] at same
    cases same
    have knownType := definite.field parent node.name field type id knownParent named given inner
    refine ⟨pays_andThen _ _ ?_ fun outcome accepts => pays_settle _ _ _ outcome accepts, ?_⟩
    · exact pays_fieldValue orderly fits definite.toClosed pays ends field type source _ node id inner
        knownType
    · exact calm_settled (ends_fieldValue orderly.handled ends field type source _ node) _ _ _

theorem pays_fields (orderly : book.final.Orderly setting.schema) (fits : book.Fits setting)
    (definite : Definite setting.schema known) (levels : Nat) (parent : TypeId)
    (knownParent : known parent) (source : Value) (path : Option ResponsePath)
    (collected : Collected) :
    (fields setting levels parent source path collected).Pays book fun _ => False := by
  induction levels generalizing parent source path collected with
  | zero => exact pays_fail (book.allows_of_goesOn fun same => by cases same)
  | succ levels ih =>
      have each := pays_fieldPrograms orderly fits definite
        (fun type value place selected knownType => ih type knownType value (some place) selected)
        (fun type value place selected =>
          ends_fields orderly.handled levels type value (some place) selected)
        parent knownParent source path collected
      refine pays_siblings _ (fun _ => rfl) (payEach_of_forall fun child inside => ?_)
      obtain ⟨entry, member, rfl⟩ := List.mem_map.1 inside
      exact each entry member

theorem pays_inTurn (build : List Value → Value)
    (built : ∀ values, Failure.ofValue? (build values) = none) (programs : List Program)
    (each : ∀ program ∈ programs, program.Pays book fun _ => False) (settled : List Outcome)
    (accepted : ∀ outcome ∈ settled, book.Accepts outcome) :
    (inTurn (gathered build) programs settled).Pays book fun _ => False := by
  induction programs generalizing settled with
  | nil => exact pays_gathered build built settled accepted
  | cons program rest ih =>
      refine pays_andThen _ _ (each program List.mem_cons_self) fun outcome accepts => ?_
      have later := ih (fun other inside => each other (List.mem_cons_of_mem _ inside))
        (settled ++ [outcome]) fun other inside => by
          rcases List.mem_append.1 inside with before | last
          · exact accepted other before
          · rw [List.mem_singleton.1 last]
            exact accepts
      split
      · exact later.mono _ fun ticket left => absurd left (leftAt_of_goesOn (fun same => by cases same) ticket)
      · exact pays_left accepts
      · exact later.mono _ fun ticket left => absurd left (leftAt_ok _ ticket)

theorem pays_rootFields (orderly : book.final.Orderly setting.schema) (fits : book.Fits setting)
    (definite : Definite setting.schema known) (order : RootOrder) (root : TypeId)
    (knownRoot : known root) (collected : Collected) :
    (rootFields setting order root collected).Pays book fun _ => False := by
  cases order with
  | sideBySide => exact pays_fields orderly fits definite _ root knownRoot _ none collected
  | inTurn =>
      have each := pays_fieldPrograms orderly fits definite
        (fun type value place selected knownType => pays_fields orderly fits definite
          setting.environment.levels type knownType value (some place) selected)
        (fun type value place selected => ends_fields orderly.handled setting.environment.levels type
          value (some place) selected)
        root knownRoot setting.environment.root none collected
      refine pays_inTurn _ (fun _ => rfl) _ (fun program inside => ?_) [] fun outcome inside => ?_
      · obtain ⟨entry, member, rfl⟩ := List.mem_map.1 inside
        exact (each entry member).1
      · cases inside

/-- An operation leaves nothing pending. -/
theorem pays_operationIn (orderly : book.final.Orderly setting.schema) (fits : book.Fits setting)
    (definite : Definite setting.schema known) (order : RootOrder) (root : TypeId)
    (knownRoot : known root) : (operationIn setting order root).Pays book fun _ => False := by
  refine pays_andThen _ _ ?_ fun outcome accepts => ?_
  · refine pays_act _ _ (book.lenient_allows.within_collect _ _ _) orderly.allows
      (fun collected _ => ?_) fun failure allows => pays_fail allows
    exact pays_rootFields orderly fits definite order root knownRoot collected
  · unfold settleRoot
    split
    · next error =>
        simp only [Pays]
        intro _
        refine (pays_succeed rfl : (succeed .null).Pays book _).mono _ fun ticket left => ?_
        exact absurd left (leftAt_of_goesOn (fun same => by cases same) ticket)
    · exact pays_left accepts

end Execution

end

end GraphQL
