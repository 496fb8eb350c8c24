import GraphQL.Proofs.Conforming
import GraphQL.Proofs.Mirroring
import GraphQL.Proofs.Moments
import GraphQL.Proofs.Propagation

/-!
Independence of waiting. Two runs that mirror each other report the same data and the same errors, in
whatever order things were waited for and the fields at the root were executed.
-/

namespace GraphQL

namespace Mirror

open Reference Results

variable {mirror : Mirror} {root : TypeId}

theorem match_rootContent (holds : mirror.Holds)
    (sound : Sound mirror.setting.schema mirror.setting.schema.Knows)
    (knownRoot : mirror.setting.schema.Knows root)
    (roots : mirror.stands root mirror.setting.environment.root mirror.root) :
    (rootContent mirror.setting mirror.account root).Match Eq
      (rootContent mirror.mirrored mirror.image root) := by
  refine match_bind (match_action holds
    (mirror.setting.scope.collect root mirror.setting.environment.operation.selections)
    (lenient_aside.within_collect mirror.setting.scope root _)) ?_
  rintro fields _ _ _ rfl
  exact match_selected holds sound _ root knownRoot _ _ roots none fields

/-- A response error at the root comes from collecting its fields. -/
theorem yields_of_response {setting : Setting} {account : Account} {error : ResponseError}
    (failed : rootContent setting account root (.error (.response error))) :
    (setting.scope.collect root setting.environment.operation.selections).Yields account
      (.error (.response error)) := by
  rcases bind_error failed with collected | ⟨fields, _, failed⟩
  · exact collected
  · cases halts_of_selected _ root _ none fields _ failed

theorem same_collected (holds : mirror.Holds) {result result' : Except Failure Collected}
    (yields : (mirror.setting.scope.collect root
      mirror.setting.environment.operation.selections).Yields mirror.account result)
    (yields' : (mirror.mirrored.scope.collect root
      mirror.mirrored.environment.operation.selections).Yields mirror.image result') :
    result = result' :=
  Action.same_of_aside holds.aside _ (lenient_aside.within_collect mirror.setting.scope root _)
    yields yields'

/-- The place at the root is the same in runs that mirror each other. -/
theorem same_executed (holds : mirror.Holds)
    (sound : Sound mirror.setting.schema mirror.setting.schema.Knows)
    (knownRoot : mirror.setting.schema.Knows root)
    (roots : mirror.stands root mirror.setting.environment.root mirror.root) {place place' : Place}
    (executed : executed mirror.setting mirror.account root (.ok place))
    (executed' : Reference.executed mirror.mirrored mirror.image root (.ok place')) :
    place = place' := by
  have matched := match_rootContent holds sound knownRoot roots
  rcases executed with ⟨error, failed, rfl⟩ | ⟨content, given, rfl⟩
  · rcases executed' with ⟨error', failed', rfl⟩ | ⟨content', given', _⟩
    · cases same_collected holds (yields_of_response failed) (yields_of_response failed')
      rfl
    · exact (matched _ _ failed given').not_error_ok.elim
  · rcases executed' with ⟨error', failed', _⟩ | ⟨content', given', rfl⟩
    · exact (matched _ _ given failed').not_ok_error.elim
    · rw [(matched _ _ given given').ok_inv]

theorem collected_of_raised (holds : mirror.Holds) {failure failure' : Failure}
    (yields : (mirror.setting.scope.collect root
      mirror.setting.environment.operation.selections).Yields mirror.account (.error failure))
    (executed' : executed mirror.mirrored mirror.image root (.error failure')) :
    failure' = failure := by
  rcases bind_error executed'.1 with collected | ⟨fields, collected, _⟩
  · cases same_collected holds yields collected
    rfl
  · cases same_collected holds yields collected

theorem not_collected_of_placed (holds : mirror.Holds) {failure : Failure}
    (urgent : failure.isUrgent = true) {place : Place}
    (yields : (mirror.setting.scope.collect root
      mirror.setting.environment.operation.selections).Yields mirror.account (.error failure))
    (executed' : executed mirror.mirrored mirror.image root (.ok place)) : False := by
  rcases executed' with ⟨error, failed, _⟩ | ⟨content, given, _⟩
  · cases same_collected holds yields (yields_of_response failed)
    cases urgent
  · rcases bind_ok given with ⟨fields, collected, _⟩
    cases same_collected holds yields collected

theorem not_raised_of_placed (holds : mirror.Holds)
    (sound : Sound mirror.setting.schema mirror.setting.schema.Knows)
    (knownRoot : mirror.setting.schema.Knows root)
    (roots : mirror.stands root mirror.setting.environment.root mirror.root) {place : Place}
    {failure : Failure} (executed : executed mirror.setting mirror.account root (.ok place))
    (executed' : Reference.executed mirror.mirrored mirror.image root (.error failure)) : False := by
  rcases executed with ⟨error, failed, _⟩ | ⟨content, given, _⟩
  · cases collected_of_raised holds (yields_of_response failed) executed'
    cases executed'.2
  · exact (match_rootContent holds sound knownRoot roots _ _ given executed'.1).not_ok_error

end Mirror

namespace Request

variable {σ τ : Type}

/-- Two runs of an operation that mirror each other report the same data and, in whatever order, the
same errors, whether the fields at the root are executed side by side or in turn. If the fields at
the root cannot be collected, then both are refused for the same reason. -/
theorem outcome_does_not_depend_on_waiting (mirror : Mirror) (application : Application σ)
    (application' : Application τ) (order order' : RootOrder) (root : TypeId) (world : World σ)
    (world' : World τ) (report : Report σ) (report' : Report τ)
    (checked : mirror.setting.schema.check = .ok ())
    (strict : mirror.setting.schema.assumeValid = false)
    (rooted : rootType mirror.setting.schema mirror.setting.environment.operation = .ok root)
    (waits : mirror.setting.synchronous = false) (ready : world.Ready) (ready' : world'.Ready)
    (carried : report = carryOut application mirror.setting.synchronous
      (Execution.operationIn mirror.setting order root) world)
    (carried' : report' = carryOut application' mirror.synchronous
      (Execution.operationIn mirror.mirrored order' root) world')
    (account : mirror.account = report.world.account)
    (image : mirror.image = report'.world.account)
    (plain : mirror.setting.schema.WritesPlain mirror.account)
    (plain' : mirror.setting.schema.WritesPlain mirror.image)
    (ordinary : mirror.account.Ordinary mirror.setting.environment.root)
    (roots : mirror.stands root mirror.setting.environment.root mirror.root)
    (holds : mirror.Holds) :
    (∃ response response', report.outcome = .ok response ∧ report'.outcome = .ok response'
        ∧ response.data = response'.data ∧ response.errors.Perm response'.errors)
      ∨ ∃ failure, (mirror.setting.scope.collect root
            mirror.setting.environment.operation.selections).Yields mirror.account (.error failure)
        ∧ failure.isUrgent = true ∧ report.outcome = .error (.failed failure)
        ∧ report'.outcome = .error (.failed failure) := by
  have sound : Sound mirror.setting.schema mirror.setting.schema.Knows :=
    Schema.sound_of_check checked strict
  have knownRoot : mirror.setting.schema.Knows root := Schema.knows_root checked strict rooted
  have first := agrees_of_carryOut application order root sound knownRoot world ready report carried
    (account ▸ plain)
  have sound' : Sound mirror.mirrored.schema mirror.mirrored.schema.Knows := sound
  have second := agrees_of_carryOut application' order' root sound' knownRoot world' ready' report'
    carried' (image ▸ plain')
  rw [← account] at first
  rw [← image] at second
  -- Each run shows a place at its root, or it raises what the fields there could not be collected for.
  rcases first with ⟨place, data, executed, shown, outcome, alike⟩ | ⟨failure, awaited, raised, outcome⟩
  · rcases second with
      ⟨place', data', executed', shown', outcome', alike'⟩ | ⟨failure', _, raised', _⟩
    · cases Mirror.same_executed holds sound knownRoot roots executed executed'
      have apart := (Reference.apart_of_executed sound knownRoot ordinary place executed).2.2
      refine .inl ⟨_, _, outcome, outcome', ?_, (alike apart).trans (alike' apart).symm⟩
      exact Option.some.inj (shown.symm.trans shown')
    · exact (Mirror.not_raised_of_placed holds sound knownRoot roots executed raised').elim
  · rcases Reference.raised_of_executed sound knownRoot ordinary failure raised with
      ⟨nowhere, _⟩ | ⟨yields, urgent, ends⟩
    · rw [waits] at nowhere
      cases nowhere
    · rcases second with ⟨place', _, executed', _⟩ | ⟨failure', awaited', raised', outcome'⟩
      · exact (Mirror.not_collected_of_placed holds urgent yields executed').elim
      · cases Mirror.collected_of_raised holds yields raised'
        refine .inr ⟨failure, yields, urgent, ?_, ?_⟩
        · rw [outcome]
          cases failure with
          | asynchronous => exact absurd rfl ends
          | _ => rfl
        · rw [outcome']
          cases failure with
          | asynchronous => exact absurd rfl ends
          | _ => rfl

end Request

/-- A schema with two texts, of which a function resolves the first. -/
def Schema.worded : Schema := .ofLayout
  { types := #[⟨.str "Query", .object
      (.ok (.ofList
        [(.str "a", .plain "a" (.named (.standard .string))),
          (.str "b", { Field.plain "b" (.named (.standard .string)) with resolve := .absent })]))
      (.ok []) .absent⟩]
    query := some (.named (.declared 0))
    mutation := none
    subscription := none
    extra := []
    directives := Directive.specified
    overrides := []
    assumeValid := false }

set_option maxRecDepth 10000 in
theorem Schema.check_worded : worded.check = .ok () := by
  have reached : worded.reached = .ok [(.str "Query", .declared 0),
      (.str "String", .standard .string), (.str "Boolean", .standard .boolean)] := by
    cbv
  unfold check
  rw [reached]
  decide +kernel

/-- An application whose resolvers answer one value, which is what deferred results come to. -/
def Application.answering (answer result : Value) : Application Unit where
  answer _ state := (.ok answer, state)
  drain _ state := (([], none), state)
  delay _ _ := 1
  finish _ state := (.ok result, state)

/-- What happens where resolvers find a word, at once or after a while. -/
def Event.isWorded : Event → Bool
  | .called (.resolve ..) (.ok (.str text)) => text = "word"
  | .called (.resolve ..) (.ok (.deferred _)) => true
  | .delivered _ (.ok (.str text)) => text = "word"
  | .settled .. | .launched .. | .resolving _ | .resolved .. | .listed .. | .recorded _ => true
  | _ => false

/-- An account in which only resolvers are called, and all that they come to is a word. -/
structure Account.Worded (account : Account) : Prop where
  called : ∀ asked reply, account.called asked reply →
    (∃ function source arguments info, asked = .resolve function source arguments info)
      ∧ (reply = .ok (.str "word") ∨ ∃ ticket, reply = .ok (.deferred ticket))
  drained : ∀ handle items fault, ¬ account.drained handle items fault
  came : ∀ ticket reply, account.came ticket reply → reply = .ok (.str "word")

theorem World.worded_of_isWorded {σ : Type} (world : World σ)
    (all : world.past.all (fun entry => entry.2.isWorded) = true) : world.account.Worded := by
  have worded : ∀ event, world.Saw event → event.isWorded = true := by
    rintro event ⟨time, member⟩
    exact List.all_eq_true.1 all _ member
  refine ⟨fun asked reply saw => ?_, fun handle items fault saw => ?_, ?_⟩
  · have shape := worded _ saw
    unfold Event.isWorded at shape
    split at shape
    · next same =>
        cases same
        exact ⟨⟨_, _, _, _, rfl⟩, .inl (by rw [of_decide_eq_true shape])⟩
    · next same =>
        cases same
        exact ⟨⟨_, _, _, _, rfl⟩, .inr ⟨_, rfl⟩⟩
    all_goals first
      | (next same => cases same)
      | cases shape
  · cases worded _ saw
  · rintro ticket reply ⟨waiter, _, saw⟩
    have shape := worded _ saw
    unfold Event.isWorded at shape
    split at shape
    rotate_left 2
    · next same =>
        cases same
        rw [of_decide_eq_true shape]
    all_goals first
      | (next same => cases same)
      | cases shape

namespace Request

/-- The query for one field, executed in an order of its root fields by resolvers that answer a value. -/
def worded (order : RootOrder) (answer : Value) : Report Unit :=
  carryOut (.answering answer (.str "word")) false
    (Execution.operationIn
      ⟨({} : Request).environment Schema.worded ⟨[], [.operation .single]⟩ .single [], false⟩
      order (.declared 0)) { state := () }

set_option maxRecDepth 10000 in
theorem all_isWorded_deferred : (worded .sideBySide (.deferred 0)).world.past.all
    (fun entry => entry.2.isWorded) = true :=
  carryOut_of_within 3 (fun report => report.world.past.all fun entry => entry.2.isWorded) (by cbv)

set_option maxRecDepth 10000 in
theorem all_isWorded_prompt : (worded .inTurn (.str "word")).world.past.all
    (fun entry => entry.2.isWorded) = true := by
  cbv

theorem worded_deferred : (worded .sideBySide (.deferred 0)).world.account.Worded :=
  World.worded_of_isWorded _ all_isWorded_deferred

theorem worded_prompt : (worded .inTurn (.str "word")).world.account.Worded :=
  World.worded_of_isWorded _ all_isWorded_prompt

end Request

namespace Mirror

open Results

/-- Two accounts of resolvers that come to a word, with the values that offer nothing but methods. -/
def worded (setting : Setting) (account image : Account) : Mirror where
  setting
  account
  root := setting.environment.root
  synchronous := setting.synchronous
  image
  stands _ left right := left = right ∧ left.Bare

theorem raised_of_bare {value : Value} (bare : value.Bare) : Completion.raised? value = none := by
  cases bare <;> rfl

theorem prompt_of_bare {value : Value} (bare : value.Bare) : value.ticket? = none := by
  cases bare <;> rfl

variable {setting : Setting} {account image : Account}

theorem standsFor_of_bare (type : TypeRef) {value : Value} (bare : value.Bare) :
    (worded setting account image).StandsFor type value value := by
  induction type with
  | nonNull of ih => exact ih
  | broken fault => trivial
  | named id =>
      refine ⟨?_, rfl, fun _ _ => ⟨rfl, bare⟩⟩
      rw [raised_of_bare bare]
      exact .none
  | list of ih =>
      refine ⟨?_, rfl, fun _ _ info => ?_⟩
      · rw [raised_of_bare bare]
        exact .none
      · cases bare <;> exact match_fail_same _

theorem eq_of_worded (words : account.Worded) (waits : setting.synchronous = false) (asked : Call)
    (result : Except Failure Value)
    (found : Results.bind (account.called asked) (Reference.handed setting account) result) :
    result = .ok (.str "word") := by
  rcases found with ⟨failure, called, _⟩ | ⟨value, called, handed⟩
  · rcases (words.called asked _ called).2 with same | ⟨ticket, same⟩
    · cases same
    · cases same
  · rcases (words.called asked _ called).2 with same | ⟨ticket, same⟩
    · cases same
      exact handed
    · cases same
      simp only [Reference.handed, waits, Bool.false_eq_true, if_false] at handed
      exact words.came ticket result handed

theorem match_foundByName (source arguments root : Value) (info : Info) (bare : source.Bare) :
    ((Reference.resolvedByName account source arguments info).bind
        (Reference.handed setting account)).Match
      ((worded setting account image).StandsFor info.returnType)
      ((Reference.resolvedByName image source arguments (info.withRoot root)).bind
        (Reference.handed setting image)) := by
  have found : ((source.get? info.fieldName).getD .null).Bare := by
    cases looked : source.get? info.fieldName with
    | none => exact .null
    | some part => exact bare.part looked
  have results : (Reference.resolvedByName account source arguments info).Match
      (fun left right => left = right ∧ left.Bare)
      (Reference.resolvedByName image source arguments (info.withRoot root)) := by
    unfold Reference.resolvedByName
    have same : (source.get? (info.withRoot root).fieldName) = source.get? info.fieldName := rfl
    rw [same]
    generalize (source.get? info.fieldName).getD .null = part at found
    cases found with
    | null => exact match_pure ⟨rfl, .null⟩
    | str text => exact match_pure ⟨rfl, .str text⟩
    | map => exact match_pure ⟨rfl, .map⟩
    | @method receiver name own =>
        rintro _ _ rfl rfl
        have context : (info.withRoot root).environment.context = info.environment.context := rfl
        rw [context]
        cases called : receiver.callMethod name arguments info.environment.context with
        | error fault => exact .failed (.refl _)
        | ok result => exact .given ⟨rfl, own.result called⟩
  refine match_bind results ?_
  rintro left _ _ _ ⟨rfl, bare⟩
  rw [handed_of_prompt _ _ _ (prompt_of_bare bare), handed_of_prompt _ _ _ (prompt_of_bare bare)]
  exact match_pure (standsFor_of_bare _ bare)

theorem holds_worded (words : account.Worded) (words' : image.Worded)
    (waits : setting.synchronous = false) : (worded setting account image).Holds := by
  have only : ∀ {account : Account}, account.Worded → ∀ asked reply, account.called asked reply →
      ∃ function source arguments info, asked = .resolve function source arguments info :=
    fun words asked reply called => (words.called asked reply called).1
  have aside : ∀ asked reply reply', Aside asked → account.called asked reply →
      image.called asked reply' → reply = reply' := by
    intro asked reply _ aside called _
    rcases only words asked reply called with ⟨_, _, _, _, rfl⟩
    cases aside
  -- nothing but resolvers is called, so no other call has to be answered alike
  have uncalled : ∀ asked asked' (related : Value → Value → Prop),
      (∀ function source arguments info, asked ≠ .resolve function source arguments info) →
      (worded setting account image).Replies related asked asked' := by
    intro asked asked' related other result result' found _
    have called : ∃ reply, account.called asked reply := by
      rcases found with ⟨failure, called, _⟩ | ⟨value, called, _⟩
      · exact ⟨_, called⟩
      · exact ⟨_, called⟩
    rcases called with ⟨reply, called⟩
    rcases only words asked reply called with ⟨_, _, _, _, same⟩
    exact absurd same (other _ _ _ _)
  refine ⟨?_, ?_, fun text => ⟨rfl, .str text⟩, fun _ _ _ _ stands _ _ => stands, ?_, aside, ?_, ?_,
    ?_, ?_, ?_⟩
  · rintro type left _ _ ⟨rfl, bare⟩ leaf result result' yields yields'
    exact .of_eq (Action.same_of_aside aside _
      (lenient_aside.within_serialize (fun _ _ => rfl) _ _ _) yields yields')
  · rintro type left _ ⟨rfl, _⟩ _
    rfl
  · rintro type left _ ⟨rfl, _⟩ _
    rfl
  · rintro function source _ arguments info _ ⟨rfl, _⟩ result result' found found'
    rw [eq_of_worded words waits _ result found, eq_of_worded words' waits _ result' found']
    exact .given (standsFor_of_bare _ (.str "word"))
  · rintro source _ arguments info _ ⟨rfl, bare⟩
    exact match_foundByName source arguments _ info bare
  · intro function abstract type left right info _ _
    exact uncalled _ _ _ fun _ _ _ _ same => by cases same
  · intro function type around left right info _ _
    exact uncalled _ _ _ fun _ _ _ _ same => by cases same
  · intro function type value info ticket _
    constructor
    · intro called
      rcases only words _ _ called with ⟨_, _, _, _, same⟩
      cases same
    · intro called
      rcases only words' _ _ called with ⟨_, _, _, _, same⟩
      cases same

end Mirror

/-- Results that are still deferred, and their methods. -/
inductive Value.Hollow : Value → Prop where
  | deferred (ticket : Nat) : Hollow (.deferred ticket)
  | method {receiver : Value} (name : String) : Hollow receiver → Hollow (.method receiver name)

namespace Value

theorem Hollow.part {value part : Value} {name : String} (hollow : value.Hollow)
    (found : value.get? name = some part) : part.Hollow := by
  have methods : value.dataAttribute? name = none → value.attribute? name = some part →
      part.Hollow := by
    intro none_ found
    rw [attribute?, none_] at found
    simp only [Option.orElse_none] at found
    split at found
    · cases found
      exact .method name hollow
    · cases found
  cases hollow with
  | deferred ticket => exact methods rfl found
  | method own hollow => exact methods rfl found

theorem Hollow.offers {value found : Value} (offers : value.Offers found) (hollow : value.Hollow) :
    found.Hollow := by
  induction offers with
  | self value => exact hollow
  | item listed _ _ _ => cases hollow <;> cases listed
  | part looked _ ih => exact ih (hollow.part looked)
  | result called _ ih =>
      cases hollow with
      | method name own =>
        cases own with
        | deferred ticket => cases called
        | method other own => cases called

theorem Hollow.harmless {value : Value} (hollow : value.Hollow) : value.Harmless := by
  intro thrown offers
  cases hollow.offers offers

end Value

theorem Account.Worded.ordinary {account : Account} (words : account.Worded) {root : Value}
    (harmless : root.Harmless) : account.Ordinary root := by
  have word : (Value.str "word").Harmless := (Value.Bare.str "word").harmless
  refine ⟨harmless, fun asked value called => ?_, fun asked failure called => ?_,
    fun handle items fault drained => (words.drained _ _ _ drained).elim,
    fun handle items failure drained => (words.drained _ _ _ drained).elim,
    fun ticket value came => ?_, fun ticket failure came => ?_⟩
  · rcases (words.called _ _ called).2 with same | ⟨ticket, same⟩
    · cases same
      exact word
    · cases same
      exact (Value.Hollow.deferred ticket).harmless
  · rcases (words.called _ _ called).2 with same | ⟨ticket, same⟩
    · cases same
    · cases same
  · cases words.came _ _ came
    exact word
  · cases words.came _ _ came

theorem Account.Worded.writesPlain {account : Account} (words : account.Worded) :
    Schema.worded.WritesPlain account := by
  refine Schema.worded.writesPlain account (fun id value form called => ?_) fun leaf values body => ?_
  · rcases (words.called _ _ called).1 with ⟨_, _, _, _, same⟩
    cases same
  · rcases leaf with _ | _ | _ <;> cases body

/-- A query for one field under two keys. -/
def Operation.twice : Operation where
  start := 0
  kind := .query
  name := none
  variableNodes := []
  directives := []
  selections := [.field 2 none "b" [] [] [], .field 4 (some "c") "b" [] [] []]

/-- What happens where a deferred word is waited for twice. -/
def Event.isShared : Event → Bool
  | .delivered _ (.ok (.str text)) => text = "word"
  | .delivered _ (.error (.value _)) => true
  | .settled .. | .launched .. | .resolving _ | .resolved .. | .listed .. | .recorded _ => true
  | _ => false

theorem Event.isShared_delivered (waiter : Nat) (reply : Reply)
    (allowed : (delivered waiter reply).isShared = true) :
    reply = .ok (.str "word") ∨ ∃ fault, reply = .error (.value fault) := by
  unfold isShared at allowed
  split at allowed
  · next same =>
      cases same
      exact .inl (by rw [of_decide_eq_true allowed])
  · next same =>
      cases same
      exact .inr ⟨_, rfl⟩
  all_goals first
    | (next same => cases same)
    | cases allowed

theorem Value.harmless_shared : (Value.ofFields [("b", .deferred 0)]).Harmless := by
  intro thrown offers
  cases offers with
  | item listed _ _ => cases listed
  | part looked offers =>
      rcases Input.mem_of_lookup? _ _ _ looked with ⟨entry, member, rfl⟩
      cases List.mem_singleton.1 member
      exact (Value.Hollow.deferred 0).harmless thrown offers

/-- The texts that stand under the keys of the data. -/
def Report.texts {σ : Type} (report : Report σ) : List (Option String) :=
  match report.outcome with
  | .ok ⟨.map entries, _⟩ => entries.map fun entry =>
    match entry.2 with
    | .str text => some text
    | _ => none
  | _ => []

namespace Request

/-- A word that comes after a while is reported as one that is there at once. -/
theorem word_does_not_depend_on_waiting :
    (worded .sideBySide (.deferred 0)).world.account.Ordinary .null
      ∧ ∃ response response', (worded .sideBySide (.deferred 0)).outcome = .ok response
        ∧ (worded .inTurn (.str "word")).outcome = .ok response'
        ∧ response.data = response'.data ∧ response.errors.Perm response'.errors := by
  let mirror : Mirror := .worded
    ⟨({} : Request).environment Schema.worded ⟨[], [.operation .single]⟩ .single [], false⟩
    (worded .sideBySide (.deferred 0)).world.account (worded .inTurn (.str "word")).world.account
  have ordinary := worded_deferred.ordinary Value.Bare.null.harmless
  have answered : (worded .inTurn (.str "word")).outcome.toOption.isSome = true := by
    cbv
  refine ⟨ordinary, ?_⟩
  rcases outcome_does_not_depend_on_waiting mirror (.answering (.deferred 0) (.str "word"))
    (.answering (.str "word") (.str "word")) .sideBySide .inTurn (.declared 0) { state := () }
    { state := () } (worded .sideBySide (.deferred 0)) (worded .inTurn (.str "word"))
    Schema.check_worded rfl rfl rfl (.new ()) (.new ()) rfl rfl rfl rfl worded_deferred.writesPlain
    worded_prompt.writesPlain ordinary ⟨rfl, .null⟩
    (Mirror.holds_worded worded_deferred worded_prompt rfl) with found | ⟨failure, _, _, _, refused⟩
  · exact found
  · rw [refused] at answered
    cases answered

/-- The query for one field under two keys, where the root holds what is found. -/
def shared (found : Value) : Report Unit :=
  carryOut (.answering .null (.str "word")) false
    (Execution.operationIn
      ⟨({ root := .ofFields [("b", found)] } : Request).environment Schema.worded
        ⟨[], [.operation .twice]⟩ .twice [], false⟩
      .sideBySide (.declared 0)) { state := () }

set_option maxRecDepth 20000 in
theorem all_isShared : (shared (.deferred 0)).world.past.all
    (fun entry => entry.2.isShared) = true :=
  carryOut_of_within 3 (fun report => report.world.past.all fun entry => entry.2.isShared) (by decide +kernel)

set_option maxRecDepth 20000 in
theorem texts_shared : (shared (.deferred 0)).texts = [some "word", none] :=
  of_decide_eq_true <| carryOut_of_within 3 (fun report => report.texts = [some "word", none]) (by decide +kernel)

set_option maxRecDepth 20000 in
/-- A deferred result that is handed over at two places is waited for a second time in vain. -/
theorem deferred_differs_when_shared :
    Schema.worded.check = .ok () ∧ Schema.worded.assumeValid = false
      ∧ (shared (.deferred 0)).world.account.Ordinary (.ofFields [("b", .deferred 0)])
      ∧ Schema.worded.WritesPlain (shared (.deferred 0)).world.account
      ∧ (shared (.deferred 0)).texts = [some "word", none]
      ∧ (shared (.str "word")).texts = [some "word", some "word"] := by
  have calm : ∀ event, (shared (.deferred 0)).world.Saw event → event.isShared = true := by
    rintro event ⟨time, member⟩
    exact List.all_eq_true.1 all_isShared _ member
  have uncalled : ∀ asked reply, ¬ (shared (.deferred 0)).world.Saw (.called asked reply) :=
    fun asked reply saw => by cases calm _ saw
  refine ⟨Schema.check_worded, rfl, ?_, ?_, texts_shared, by cbv⟩
  · refine ⟨Value.harmless_shared, fun asked value saw => (uncalled _ _ saw).elim,
      fun asked failure saw => (uncalled _ _ saw).elim,
      fun handle items fault saw => (by cases calm _ saw),
      fun handle items failure saw => (by cases calm _ saw), ?_, ?_⟩
    · rintro ticket value ⟨waiter, _, saw⟩
      rcases Event.isShared_delivered waiter _ (calm _ saw) with same | ⟨fault, same⟩
      · cases same
        exact (Value.Bare.str "word").harmless
      · cases same
    · rintro ticket failure ⟨waiter, _, saw⟩
      rcases Event.isShared_delivered waiter _ (calm _ saw) with same | ⟨fault, same⟩
      · cases same
      · cases same
        exact Failure.ordinary_value fault
  · refine Schema.worded.writesPlain _ (fun id value form saw => (uncalled _ _ saw).elim) ?_
    intro leaf values body
    rcases leaf with _ | _ | _ <;> cases body

end Request

end GraphQL
