import GraphQL.Proofs.Drained
import GraphQL.Proofs.Responding
import GraphQL.Proofs.Simulation

/-!
Turns. The fields at the root of a mutation are executed one after the other: each is resolved once,
if its arguments can be bound, and all that happens below it, with everything that is waited for,
happens before the next one takes its turn.
-/

namespace GraphQL

namespace Process

variable {σ : Type}

theorem begin_act {α : Type} (application : Application σ) (action : Action α)
    (next : Except Failure α → Program) (world : World σ) :
    begin application (Program.act action next) world
      = begin application (next (action.run (World.ask application) world).1)
        (action.run (World.ask application) world).2 := by
  rw [begin, start_act, begin]

theorem complete_act {α : Type} (application : Application σ) (action : Action α)
    (next : Except Failure α → Program) (world : World σ) :
    complete application (Program.act action next) world
      = complete application (next (action.run (World.ask application) world).1)
        (action.run (World.ask application) world).2 := by
  rw [complete, begin_act, complete]

theorem complete_call (application : Application σ) (asked : Call) (next : Reply → Program)
    (world : World σ) :
    complete application (.call asked next) world
      = complete application (next (world.ask application asked).1)
        (world.ask application asked).2 := by
  rw [complete, begin, start, complete, begin]

theorem complete_perform (application : Application σ) (effect : Effect) (next : Program)
    (world : World σ) :
    complete application (.perform effect next) world
      = complete application next (world.perform effect) := by
  rw [complete, begin, start, complete, begin]

theorem complete_done (application : Application σ) (outcome : Outcome) (world : World σ) :
    complete application (.done outcome) world = (outcome, world) := by
  simp only [complete, begin, start, launch, run]

theorem leads_complete (application : Application σ) (program : Program) (world : World σ) :
    world.Leads (complete application program world).2 :=
  (leads_begin application program world).trans (leads_run application _ _)

theorem comes_complete (application : Application σ) (program : Program) (world : World σ) :
    ∃ encountered, program.Comes (complete application program world).2.account
      (complete application program world).1 encountered := by
  obtain ⟨future, ends, _⟩ := ends_of_run application _ _ (alive_begin application program world)
  obtain ⟨encountered, comes, _⟩ := comes_of_begin application _ program world
    (leads_run application _ _) _ future ends
  exact ⟨encountered, comes⟩

theorem keeps_complete {policy : Policy} (application : Application σ) (program : Program)
    (world : World σ)
    (obeys : program.Obeys policy (complete application program world).2.account)
    (keeps : world.Keeps policy) : (complete application program world).2.Keeps policy := by
  obtain ⟨obeys, keeps⟩ := obeys_begin application _ program world (leads_run application _ _)
    obeys keeps
  exact keeps_run application _ _ _ (.refl _) obeys keeps

theorem Steady.first {application : Application σ} {program : Program} {next : Outcome → Program}
    {world : World σ}
    (steady : Steady application (begin application (program.andThen next) world).1
      (begin application (program.andThen next) world).2) :
    Steady application (begin application program world).1
      (begin application program world).2 := by
  intro last final visits timer found
  rw [begin_andThen] at steady
  have extended := steady _ _ visits.extend
  cases last with
  | finished outcome =>
      intro failure _ group member
      simp only [groups] at member
      cases member
  | waiting slots rest =>
      have lonely := extended timer found
      simpa only [followedBy, extend, groups] using lonely
  | joining children rest =>
      have lonely := extended timer found
      simpa only [followedBy, extend, groups] using lonely

theorem Steady.second {application : Application σ} {program : Program}
    {next : Outcome → Program} {world : World σ}
    (steady : Steady application (begin application (program.andThen next) world).1
      (begin application (program.andThen next) world).2) :
    Steady application (begin application (next (complete application program world).1)
        (complete application program world).2).1
      (begin application (next (complete application program world).1)
        (complete application program world).2).2 :=
  steady.of_visits (visits_andThen application program next world)

end Process

namespace World

variable {σ : Type}

theorem onto_unburdened (world : World σ) : ({ world with past := [] } : World σ).onto world.past
    = world := rfl

/-- What is carried out after some past happens as it would without it. -/
theorem complete_unburdened (application : Application σ) (program : Program) (world : World σ) :
    Process.complete application program world
      = ((Process.complete application program { world with past := [] }).1,
        (Process.complete application program { world with past := [] }).2.onto world.past) := by
  rw [← complete_onto, onto_unburdened]

theorem run_onto {α : Type} (application : Application σ) (action : Action α)
    (past : List (Nat × Event)) (world : World σ) :
    action.run (World.ask application) (world.onto past)
      = ((action.run (World.ask application) world).1,
        (action.run (World.ask application) world).2.onto past) := by
  induction action generalizing world with
  | done result => rfl
  | call asked next ih =>
      have same : ask application asked (world.onto past)
        = ((ask application asked world).1, (ask application asked world).2.onto past) := rfl
      simp only [Action.run, same]
      exact ih _ _

end World

theorem Action.Yields.mono {α : Type} {account later : Account} {action : Action α}
    {result : Except Failure α}
    (kept : ∀ asked reply, account.called asked reply → later.called asked reply)
    (yields : action.Yields account result) : action.Yields later result := by
  induction action with
  | done found => exact yields
  | call asked next ih =>
      obtain ⟨reply, called, yields⟩ := yields
      exact ⟨reply, kept asked reply called, ih reply yields⟩

theorem World.Leads.handled {σ : Type} {schema : Schema} {before after : World σ}
    (leads : before.Leads after) (handled : after.account.Handled schema) :
    before.account.Handled schema := by
  have came : ∀ ticket reply, before.account.came ticket reply → after.account.came ticket reply :=
    fun _ _ ⟨waiter, launched, delivered⟩ => ⟨waiter, leads.saw launched, leads.saw delivered⟩
  have yields : ∀ leaf value result, (schema.serialize leaf value).Yields before.account result →
      (schema.serialize leaf value).Yields after.account result :=
    fun _ _ _ => .mono fun _ _ => leads.saw
  refine ⟨fun asked failure saw => handled.failures asked failure (leads.saw saw),
    fun handle items failure saw => handled.faults handle items failure (leads.saw saw),
    fun ticket failure found => handled.refusals ticket failure (came _ _ found),
    fun form failure written found => handled.written form failure ?_ found⟩
  cases written with
  | form wrote => exact .form (yields _ _ _ wrote)
  | result wrote found => exact .result (yields _ _ _ wrote) (came _ _ found)

namespace World

variable {σ : Type}

theorem timers_runAction {α : Type} (application : Application σ) (action : Action α)
    (world : World σ) : (action.run (ask application) world).2.timers = world.timers := by
  induction action generalizing world with
  | done result => rfl
  | call asked next ih => exact ih _ _

end World

/-- Whether one of several events, and only one, is of a kind. -/
def Once (kind : Event → Prop) (events : List (Nat × Event)) : Prop :=
  ∃ front entry back, events = front ++ entry :: back ∧ kind entry.2
    ∧ ∀ other ∈ front ++ back, ¬ kind other.2

/-- The position that something is asked for, or where a field is about to be resolved. -/
def Event.place? : Event → Option ResponsePath
  | .called asked _ => asked.info?.map (·.path)
  | .resolving path => some path
  | _ => none

/-- Whether a function is called to resolve the field at a position. -/
def Event.Resolves (path : ResponsePath) : Event → Prop
  | .called asked _ => asked.resolves = true ∧ asked.info?.map (·.path) = some path
  | _ => False

/-- The function that resolves a field, if there is one. -/
def Field.resolver? (field : Field) (setting : Setting) (name : String) : Option Nat :=
  if name = Field.typenameName then none
  else
    match field.resolve with
    | .function id => some id
    | slot => if slot.isUnset then setting.environment.fieldResolver else none

/-- The definition of the field that nodes ask for, with the node that supplies its arguments. -/
def Setting.Defines (setting : Setting) (root : TypeId) (nodes : List FieldNode) (node : FieldNode)
    (field : Field) : Prop :=
  nodes.head? = some node ∧ setting.schema.field? root node.name = .ok (some field)

theorem Setting.Defines.unique {setting : Setting} {root : TypeId} {nodes : List FieldNode}
    {node other : FieldNode} {field found : Field} (left : setting.Defines root nodes node field)
    (right : setting.Defines root nodes other found) : other = node ∧ found = field := by
  have same : node = other := Option.some.inj (left.1.symm.trans right.1)
  subst same
  have looked := left.2.symm.trans right.2
  exact ⟨rfl, (Option.some.inj (Except.ok.inj looked)).symm⟩

/-- Whether the nodes of a field ask for something that the type at the root has: a declared field,
or one whose definition is at fault. -/
def Setting.selects (setting : Setting) (root : TypeId) (nodes : List FieldNode) : Bool :=
  nodes.head?.any fun node =>
    match setting.schema.field? root node.name with
    | .ok none => false
    | _ => true

/-- Whether the arguments of a field can be bound in a world. -/
def Setting.Binds {σ : Type} (setting : Setting) (application : Application σ) (node : FieldNode)
    (field : Field) (world : World σ) : Prop :=
  ∃ bound, ((Input.arguments setting.schema.toLayout setting.environment.vars node.start
    node.arguments field.arguments).run (World.ask application) world).1 = .ok bound

/-- What happens while a field at the root has its turn, from its beginning on. -/
structure Turn {σ : Type} (application : Application σ) (setting : Setting) (root : TypeId)
    (key : String) (nodes : List FieldNode) (before : World σ) (events : List (Nat × Event)) :
    Prop where
  /-- Nothing happens for another field. -/
  within : ∀ entry ∈ events, ∀ path, entry.2.place? = some path →
    path.toList.head? = some (.name key)
  /-- The field is resolved once. -/
  bound : ∀ node field, setting.Defines root nodes node field →
    setting.Binds application node field before →
    Once (· = .resolving (.start (.name key))) events
      ∧ ∀ id, field.resolver? setting node.name = some id →
        Once (Event.Resolves (.start (.name key))) events
  /-- If the arguments cannot be bound, the field is not resolved. -/
  unbound : ∀ node field, setting.Defines root nodes node field →
    ¬ setting.Binds application node field before →
    ∀ entry ∈ events, entry.2 ≠ .resolving (.start (.name key))
      ∧ ¬ entry.2.Resolves (.start (.name key))
  /-- Whoever starts to wait gets a reply, and nobody else does. -/
  awaited : ∀ waiter, (∃ time ticket, (time, .launched waiter ticket) ∈ events)
    ↔ ∃ time reply, (time, .delivered waiter reply) ∈ events

/-- Fields that have their turns, each while nothing else is under way. -/
inductive Turns {σ : Type} (application : Application σ) (setting : Setting) (root : TypeId) :
    Collected → World σ → World σ → Prop where
  | none (world : World σ) : Turns application setting root [] world world
  | next {key : String} {nodes : List FieldNode} {rest : Collected} {before between after : World σ}
      {events : List (Nat × Event)} :
    before.timers = [] → between.history = before.history ++ events →
    Turn application setting root key nodes before events →
    Turns application setting root rest between after →
    Turns application setting root ((key, nodes) :: rest) before after

/-- An event for a field at the root that does not resolve the field itself. -/
structure Event.Inside (key : String) (event : Event) : Prop where
  place : ∀ path, event.place? = some path → path.toList.head? = some (.name key)
  resolving : event ≠ .resolving (.start (.name key))
  resolves : ¬ event.Resolves (.start (.name key))

namespace ResponsePath

theorem head?_extend (path : ResponsePath) (key : PathKey) :
    (path.extend key).toList.head? = path.toList.head? := by
  rw [toList, List.head?_append_of_ne_nil _ path.toList_ne_nil]

end ResponsePath

/-- The positions of a field at the root, among which fields are resolved strictly below it. -/
def Region.inside (setting : Setting) (account : Account) (key : String) :
    Region setting account fun _ => True where
  place path _ := path.toList.head? = some (.name key)
  field path _ := path.toList.head? = some (.name key) ∧ path ≠ .start (.name key)
  remembers _ _ := True
  place_of_field located := located.1
  item index located := by rw [ResponsePath.head?_extend, located]
  collected _ _ _ := trivial
  subfield located _ _ _ := ⟨by rw [ResponsePath.head?_extend, located], by rintro ⟨⟩⟩

theorem World.inside_of_keeps {σ : Type} {setting : Setting} {account : Account} {key : String}
    {world : World σ} (keeps : world.Keeps (Region.inside setting account key).policy) :
    ∀ entry ∈ world.past, entry.2.Inside key := by
  rintro ⟨time, event⟩ member
  have saw : world.Saw event := ⟨time, member⟩
  cases event with
  | called asked reply =>
      have allowed := keeps.called asked reply saw
      refine ⟨fun path placed => ?_, by rintro ⟨⟩, fun ⟨resolves, placed⟩ => ?_⟩
      · obtain ⟨info, found, rfl⟩ := Option.map_eq_some_iff.1 placed
        exact (allowed info found).1
      · obtain ⟨info, found, same⟩ := Option.map_eq_some_iff.1 placed
        exact ((allowed info found).2 resolves).2 same
  | resolving path =>
      obtain ⟨nodes, below, other⟩ := keeps.resolving path saw
      refine ⟨fun path placed => ?_, fun same => ?_, fun resolves => resolves⟩
      · cases placed
        exact below
      · cases same
        exact other rfl
  | _ => exact ⟨fun path placed => (by cases placed), by rintro ⟨⟩, fun resolves => resolves⟩

namespace Process

variable {σ : Type} {setting : Setting} {key : String}

/-- What a program does that obeys the policy of a field at the root. -/
theorem inside_complete (setting : Setting) (key : String) (application : Application σ)
    (program : Program) (world : World σ)
    (obeys : ∀ account, program.Obeys (Region.inside setting account key).policy account) :
    ∃ later, (complete application program world).2.past = later ++ world.past
      ∧ ∀ entry ∈ later, entry.2.Inside key := by
  let alone : World σ := { world with past := [] }
  have keeps : alone.Keeps (Region.inside setting
      (complete application program alone).2.account key).policy := by
    refine ⟨fun _ _ saw => ?_, fun _ saw => ?_, fun _ _ => trivial⟩ <;>
      (obtain ⟨_, member⟩ := saw; cases member)
  refine ⟨(complete application program alone).2.past, ?_, ?_⟩
  · rw [World.complete_unburdened]
    rfl
  · exact World.inside_of_keeps (keeps_complete application program alone (obeys _) keeps)

end Process

namespace Execution

open Program

variable {σ : Type} {setting : Setting} {key : String}

theorem resolve_cases_unset (setting : Setting) (source arguments : Value) (info : Info)
    (next : Reply → Program) :
    (setting.environment.fieldResolver = none
        ∧ ∃ reply, (match setting.environment.fieldResolver with
          | some id => .call (.resolve id source arguments info) next
          | none => resolveByName source arguments info next) = next reply)
      ∨ ∃ asked : Call, asked.resolves = true ∧ asked.info? = some info
        ∧ (match setting.environment.fieldResolver with
          | some id => .call (.resolve id source arguments info) next
          | none => resolveByName source arguments info next) = Program.call asked next := by
  cases setting.environment.fieldResolver with
  | some id => exact .inr ⟨_, rfl, rfl, rfl⟩
  | none =>
      simp only [resolveByName]
      split
      · exact .inr ⟨_, rfl, rfl, rfl⟩
      · exact .inl ⟨trivial, _, rfl⟩
      · exact .inl ⟨trivial, _, rfl⟩

theorem resolve_cases (setting : Setting) (field : Field) (source arguments : Value) (info : Info)
    (next : Reply → Program) :
    (field.resolver? setting info.fieldName = none
        ∧ ∃ reply, resolve setting field source arguments info next = next reply)
      ∨ ∃ asked : Call, asked.resolves = true ∧ asked.info? = some info
        ∧ resolve setting field source arguments info next = .call asked next := by
  have unset := resolve_cases_unset setting source arguments info next
  unfold resolve Field.resolver?
  split
  · exact .inl ⟨rfl, _, rfl⟩
  · cases field.resolve with
    | function id => exact .inr ⟨_, rfl, rfl, rfl⟩
    | absent => exact unset
    | other value =>
        cases truthy : value.isTruthy with
        | true =>
            simp only [Slot.isUnset, truthy, Bool.not_true, Bool.not_false, Bool.false_eq_true,
              if_true, if_false]
            exact .inl ⟨trivial, _, rfl⟩
        | false =>
            simp only [Slot.isUnset, truthy, Bool.not_false, Bool.not_true, Bool.false_eq_true,
              if_true, if_false]
            exact unset

/-- What becomes of a field once its resolver has replied. -/
def continued (setting : Setting) (levels : Nat) (type : TypeRef) (info : Info) : Reply → Program :=
  onSuccess fun value => .perform (.resolved info.path value)
    (receive setting value (onSuccess (Completion.complete setting
      (fun type value place selected => fields setting levels type value (some place) selected)
      info type info.path)))

theorem obeys_continued (setting : Setting) (account : Account) (key : String) (levels : Nat)
    (type : TypeRef) (info : Info) (nodes : List FieldNode)
    (placed : info.path = .start (.name key)) (reply : Reply) :
    ((continued setting levels type info reply).andThen (settle type nodes info.path)).Obeys
      (Region.inside setting account key).policy account := by
  have located : (Region.inside setting account key).place info.path info.nodes := by
    rw [placed]
    rfl
  have closed := Request.closed_all setting.schema
  unfold continued
  refine obeys_andThen _ _ (obeys_onSuccess _ _ fun value => ?_) fun outcome => obeys_settle _ _ _ _
  simp only [Obeys]
  refine ⟨trivial, obeys_receive _ _ fun outcome => obeys_onSuccess _ _ fun received => ?_⟩
  exact Completion.obeys_complete closed
    (fun type value place selected _ inside =>
      obeys_fields closed levels type value (some place) selected trivial inside)
    info type info.path received (fun _ _ _ => trivial) located located

end Execution

theorem once_of_split {kind : Event → Prop} {later earlier : List (Nat × Event)}
    {entry : Nat × Event} (holds : kind entry.2) (after : ∀ other ∈ later, ¬ kind other.2)
    (before : ∀ other ∈ earlier, ¬ kind other.2) :
    Once kind (later ++ entry :: earlier).reverse := by
  refine ⟨earlier.reverse, entry, later.reverse, by simp, holds, fun other member => ?_⟩
  rcases List.mem_append.1 member with inside | inside
  · exact before other (List.mem_reverse.1 inside)
  · exact after other (List.mem_reverse.1 inside)

/-- The events for a field at the root, the latest first, when it is resolved once. -/
structure Resolution (key : String) (events : List (Nat × Event)) : Prop where
  place : ∀ entry ∈ events, ∀ path, entry.2.place? = some path →
    path.toList.head? = some (.name key)
  resolving : Once (· = .resolving (.start (.name key))) events.reverse

theorem resolution_of_noted {key : String} {later earlier : List (Nat × Event)} (time : Nat)
    (after : ∀ entry ∈ later, entry.2.Inside key) (before : ∀ entry ∈ earlier, entry.2.Inside key) :
    Resolution key (later ++ (time, .resolving (.start (.name key))) :: earlier) := by
  refine ⟨fun entry member path found => ?_, once_of_split rfl
    (fun other member => (after other member).resolving)
    fun other member => (before other member).resolving⟩
  rcases List.mem_append.1 member with member | member
  · exact (after entry member).place path found
  rcases List.mem_cons.1 member with rfl | member
  · cases found
    rfl
  · exact (before entry member).place path found

theorem resolution_of_called {key : String} {later earlier : List (Nat × Event)} {asked : Call}
    (reply : Reply) (time moment : Nat)
    (here : asked.info?.map (·.path) = some (.start (.name key)))
    (after : ∀ entry ∈ later, entry.2.Inside key) (before : ∀ entry ∈ earlier, entry.2.Inside key) :
    Resolution key (later ++ (moment, .called asked reply)
      :: (time, .resolving (.start (.name key))) :: earlier) := by
  have noted := @resolution_of_noted key [] earlier time (fun _ member => nomatch member) before
  refine ⟨fun entry member path found => ?_, ?_⟩
  · rcases List.mem_append.1 member with member | member
    · exact (after entry member).place path found
    rcases List.mem_cons.1 member with rfl | member
    · rw [Event.place?, here] at found
      cases found
      rfl
    · exact noted.place entry member path found
  · rw [List.append_cons]
    refine once_of_split rfl (fun other member => ?_) fun other member =>
      (before other member).resolving
    rcases List.mem_append.1 member with member | member
    · exact (after other member).resolving
    · rw [List.mem_singleton.1 member]
      rintro ⟨⟩

theorem once_called {key : String} {later earlier : List (Nat × Event)} {asked : Call}
    (reply : Reply) (time moment : Nat) (resolves : asked.resolves = true)
    (here : asked.info?.map (·.path) = some (.start (.name key)))
    (after : ∀ entry ∈ later, entry.2.Inside key) (before : ∀ entry ∈ earlier, entry.2.Inside key) :
    Once (Event.Resolves (.start (.name key))) (later ++ (moment, .called asked reply)
      :: (time, .resolving (.start (.name key))) :: earlier).reverse := by
  refine once_of_split ⟨resolves, here⟩ (fun other member => (after other member).resolves)
    fun other member => ?_
  rcases List.mem_cons.1 member with rfl | member
  · exact fun resolves => resolves
  · exact (before other member).resolves

namespace Process

variable {σ : Type} {setting : Setting} {key : String}

theorem inside_runAction {α : Type} (setting : Setting) (key : String) (application : Application σ)
    (action : Action α) (aside : action.StaysAside) (world : World σ) :
    ∃ earlier, (action.run (World.ask application) world).2.past = earlier ++ world.past
      ∧ ∀ entry ∈ earlier, entry.2.Inside key := by
  let alone : World σ := { world with past := [] }
  have keeps : alone.Keeps (Region.inside setting alone.account key).policy := by
    refine ⟨fun _ _ saw => ?_, fun _ saw => ?_, fun _ _ => trivial⟩ <;>
      (obtain ⟨_, member⟩ := saw; cases member)
  refine ⟨(action.run (World.ask application) alone).2.past, ?_, ?_⟩
  · have same := World.run_onto application action world.past alone
    rw [World.onto_unburdened] at same
    rw [same]
    rfl
  · exact World.inside_of_keeps (World.keeps_runAction application action aside
      (Region.inside setting alone.account key).calls_aside alone keeps)

theorem awaited_complete (application : Application σ) (program : Program) (world : World σ)
    (idle : world.timers = []) (ended : (complete application program world).2.timers = []) :
    ∃ events, (complete application program world).2.past = events ++ world.past
      ∧ ∀ waiter, (∃ time ticket, (time, .launched waiter ticket) ∈ events)
        ↔ ∃ time reply, (time, .delivered waiter reply) ∈ events := by
  -- without its past, a world has nothing to account for but what happens from now on
  let alone : World σ := { world with past := [] }
  have empty : alone.Accounted := World.accounted_of_empty rfl idle
  have accounted := (World.invariant_accounted application).complete program empty
  rw [World.complete_unburdened] at ended ⊢
  refine ⟨(complete application program alone).2.past, rfl, fun waiter => ⟨?_, ?_⟩⟩
  · rintro ⟨time, ticket, member⟩
    obtain ⟨timer, waits, _⟩ | ⟨reply, moment, got⟩ :=
      accounted.launched waiter ticket ⟨time, member⟩
    · have none_ : (complete application program alone).2.timers = [] := ended
      rw [none_] at waits
      cases waits
    · exact ⟨moment, reply, got⟩
  · rintro ⟨time, reply, member⟩
    obtain ⟨ticket, moment, launched⟩ := accounted.delivered waiter reply ⟨time, member⟩
    exact ⟨moment, ticket, launched⟩

end Process

namespace Execution

open Program Process

variable {σ : Type} {setting : Setting} {key : String}

/-- What happens once the arguments of a field at the root are bound: it is about to be resolved, its
resolver is called, if it has one, and the rest happens inside it. -/
theorem resolved_once (application : Application σ) (setting : Setting) (key : String)
    (levels : Nat) (field : Field) (type : TypeRef) (source arguments : Value) (info : Info)
    (nodes : List FieldNode) (placed : info.path = .start (.name key)) (world : World σ)
    (earlier : List (Nat × Event)) (quiet : ∀ entry ∈ earlier, entry.2.Inside key) :
    ∃ events, (complete application
        ((Program.perform (.resolving info.path) (resolve setting field source arguments info
          (continued setting levels type info))).andThen (settle type nodes info.path)) world).2.past
        = events ++ world.past
      ∧ Resolution key (events ++ earlier)
      ∧ ∀ id, field.resolver? setting info.fieldName = some id →
        Once (Event.Resolves (.start (.name key))) (events ++ earlier).reverse := by
  have rest := fun reply world => inside_complete setting key application _ world fun account =>
    obeys_continued setting account key levels type info nodes placed reply
  have noted : (world.perform (.resolving info.path)).past
    = (world.clock, .resolving (.start (.name key))) :: world.past := by
    rw [← placed]
    rfl
  rw [andThen, complete_perform]
  obtain ⟨unresolved, reply, same⟩ | ⟨asked, resolves, about, same⟩ :=
    resolve_cases setting field source arguments info (continued setting levels type info)
  · obtain ⟨later, past, inside⟩ := rest reply (world.perform (.resolving info.path))
    rw [same]
    refine ⟨later ++ [(world.clock, .resolving (.start (.name key)))], ?_, ?_, ?_⟩
    · rw [past, noted, List.append_assoc]
      rfl
    · rw [List.append_assoc]
      exact resolution_of_noted world.clock inside quiet
    · intro id found
      rw [unresolved] at found
      cases found
  · rw [same, andThen, complete_call]
    have here : asked.info?.map (·.path) = some (.start (.name key)) := by
      rw [about, Option.map_some, placed]
    obtain ⟨later, past, inside⟩ := rest
      ((world.perform (.resolving info.path)).ask application asked).1
      ((world.perform (.resolving info.path)).ask application asked).2
    have asked_ : ((world.perform (.resolving info.path)).ask application asked).2.past
      = (world.clock, .called asked
          ((world.perform (.resolving info.path)).ask application asked).1)
        :: (world.perform (.resolving info.path)).past := rfl
    rw [noted] at asked_
    generalize ((world.perform (.resolving info.path)).ask application asked).1 = reply at *
    refine ⟨later ++ [(world.clock, .called asked reply),
      (world.clock, .resolving (.start (.name key)))], ?_, ?_, ?_⟩
    · rw [past, asked_, List.append_assoc]
      rfl
    · rw [List.append_assoc]
      exact resolution_of_called reply world.clock world.clock here inside quiet
    · intro id _
      rw [List.append_assoc]
      exact once_called reply world.clock world.clock resolves here inside quiet

/-- The field at the root that nodes ask for, executed to its end while nothing else is under way,
has its turn. -/
theorem turn_of_field (application : Application σ) {root : TypeId} {nodes : List FieldNode}
    {node : FieldNode} {field : Field} (defines : setting.Defines root nodes node field)
    (levels : Nat) (type : TypeRef) (source : Value) (world : World σ) (idle : world.timers = [])
    (program : Program)
    (made : program = (fieldValue setting
        (fun type value place selected => fields setting levels type value (some place) selected)
        field type source
        ⟨setting.environment, node.name, nodes, type, root, .start (.name key)⟩ node).andThen
      (settle type nodes (.start (.name key))))
    (ended : (complete application program world).2.timers = []) :
    ∃ events, (complete application program world).2.history = world.history ++ events
      ∧ Turn application setting root key nodes world events := by
  obtain ⟨later, past, awaited⟩ := awaited_complete application program world idle ended
  refine ⟨later.reverse, by rw [World.history, past, List.reverse_append, World.history], ?_⟩
  have waits : ∀ waiter, (∃ time ticket, (time, .launched waiter ticket) ∈ later.reverse)
      ↔ ∃ time reply, (time, .delivered waiter reply) ∈ later.reverse := by
    simpa only [List.mem_reverse] using awaited
  obtain ⟨earlier, bindings, quiet⟩ := inside_runAction setting key application
    (Input.arguments setting.schema.toLayout setting.environment.vars node.start node.arguments
      field.arguments) (lenient_aside.within_arguments _ _ _ _ _) world
  rw [made, fieldValue, Program.act_andThen, complete_act] at past
  have binds : ∀ bound, ((Input.arguments setting.schema.toLayout setting.environment.vars
      node.start node.arguments field.arguments).run (World.ask application) world).1 = .ok bound →
      setting.Binds application node field world := fun bound found => ⟨bound, found⟩
  have fails : ∀ failure, ((Input.arguments setting.schema.toLayout setting.environment.vars
      node.start node.arguments field.arguments).run (World.ask application) world).1
        = .error failure → ¬ setting.Binds application node field world := by
    rintro failure found ⟨bound, bind⟩
    rw [found] at bind
    cases bind
  generalize (Input.arguments setting.schema.toLayout setting.environment.vars node.start
    node.arguments field.arguments).run (World.ask application) world = result at *
  obtain ⟨result, between⟩ := result
  -- either the arguments cannot be bound, or the field is resolved with them
  cases result with
  | error failure =>
      obtain ⟨rest, continued, inside⟩ := inside_complete setting key application
        (settle type nodes (.start (.name key)) (.error failure)) between
        fun account => obeys_settle _ _ _ _
      have whole : later = rest ++ earlier := by
        refine (List.append_left_inj world.past).1 ?_
        rw [← past, List.append_assoc, ← bindings]
        exact continued
      have all : ∀ entry ∈ later.reverse, entry.2.Inside key := by
        intro entry member
        rw [List.mem_reverse, whole] at member
        rcases List.mem_append.1 member with after | before
        · exact inside entry after
        · exact quiet entry before
      refine ⟨fun entry member => (all entry member).place, fun other found also bind => ?_,
        fun _ _ _ _ entry member => ⟨(all entry member).resolving, (all entry member).resolves⟩,
        waits⟩
      obtain ⟨rfl, rfl⟩ := defines.unique also
      exact absurd bind (fails failure rfl)
  | ok bound =>
      obtain ⟨events, continued, resolution, resolves⟩ := resolved_once application setting
        key levels field type source (.map bound)
        ⟨setting.environment, node.name, nodes, type, root, .start (.name key)⟩ nodes rfl between
        earlier quiet
      have whole : later = events ++ earlier := by
        refine (List.append_left_inj world.past).1 ?_
        rw [← past, List.append_assoc, ← bindings]
        exact continued
      rw [← whole] at resolution resolves
      refine ⟨fun entry member => resolution.place entry (List.mem_reverse.1 member),
        fun other found also _ => ?_, fun other found also unbound => ?_, waits⟩
      · obtain ⟨rfl, rfl⟩ := defines.unique also
        exact ⟨resolution.resolving, resolves⟩
      · obtain ⟨rfl, rfl⟩ := defines.unique also
        exact absurd (binds bound rfl) unbound

/-- How a field at the root can keep the later ones from their turns: it stops the execution, or its
own definition is at fault. -/
inductive Halts (setting : Setting) (root : TypeId) : Collected → Failure → Prop where
  | stopped {rest : Collected} {thrown : Thrown} : thrown.kind = .asynchronous →
    Halts setting root rest (.thrown thrown)
  | faulty {key : String} {nodes : List FieldNode} {node : FieldNode} {rest : Collected}
    {fault : SchemaFault} : nodes.head? = some node →
    (setting.schema.field? root node.name = .error fault
      ∨ ∃ field, setting.schema.field? root node.name = .ok (some field)
        ∧ field.type = .error fault) →
    Halts setting root ((key, nodes) :: rest) (.schema fault)

/-- A program gives the wanted fields at the root their turns, up to one that halts the execution, and
hands on what they came to. -/
def Serves (application : Application σ) (setting : Setting) (root : TypeId)
    (next : Except Failure (List Outcome) → Program) (wanted : Collected) (program : Program)
    (world : World σ) : Prop :=
  ∃ served rest last outcomes,
    wanted = served ++ rest
    ∧ Turns application setting root served world last
    ∧ complete application program world = complete application (next outcomes) last
    ∧ (rest = [] ∧ (∃ all, outcomes = .ok all)
      ∨ ∃ failure, outcomes = .error failure ∧ Halts setting root rest failure)

theorem Serves.next {application : Application σ} {root : TypeId}
    {next : Except Failure (List Outcome) → Program} {nodes : List FieldNode} {rest : Collected}
    {whole program : Program} {world between : World σ} {events : List (Nat × Event)}
    (idle : world.timers = []) (history : between.history = world.history ++ events)
    (turn : Turn application setting root key nodes world events)
    (same : complete application whole world = complete application program between)
    (serves : Serves application setting root next rest program between) :
    Serves application setting root next ((key, nodes) :: rest) whole world := by
  obtain ⟨served, halted, last, outcomes, split, turns, ends, ending⟩ := serves
  exact ⟨(key, nodes) :: served, halted, last, outcomes, by rw [split]; rfl,
    .next idle history turn turns, same.trans ends, ending⟩

theorem fieldPrograms_of_none (path : Option ResponsePath) {below : Completion.Subfields}
    {parent : TypeId} {source : Value} {key : String} {nodes : List FieldNode}
    (absent : field? setting below parent source (.add path (.name key)) nodes = none)
    (rest : Collected) :
    fieldPrograms setting below parent source path ((key, nodes) :: rest)
      = fieldPrograms setting below parent source path rest := by
  rw [fieldPrograms, List.filterMap_cons]
  simp only [absent, Option.map_none]
  rfl

theorem fieldPrograms_of_some (path : Option ResponsePath) {below : Completion.Subfields}
    {parent : TypeId} {source : Value} {key : String} {nodes : List FieldNode} {program : Program}
    (found : field? setting below parent source (.add path (.name key)) nodes = some program)
    (rest : Collected) :
    fieldPrograms setting below parent source path ((key, nodes) :: rest)
      = (key, program) :: fieldPrograms setting below parent source path rest := by
  rw [fieldPrograms, List.filterMap_cons]
  simp only [found, Option.map_some]
  rfl

theorem isSome_field? (setting : Setting) (below : Completion.Subfields) (root : TypeId)
    (source : Value) (path : ResponsePath) (nodes : List FieldNode) :
    (field? setting below root source path nodes).isSome = setting.selects root nodes := by
  unfold field? Setting.selects
  cases nodes.head? with
  | none => rfl
  | some node =>
      simp only [Option.bind_some, Option.any_some]
      cases setting.schema.field? root node.name with
      | error fault => rfl
      | ok found =>
          cases found with
          | none => rfl
          | some field =>
              simp only
              cases field.type <;> rfl

/-- Where one may wait, only an error of the application stops an execution. -/
theorem thrown_of_stops {failure : Failure} (asynchronous : setting.synchronous = false)
    (handles : setting.Handles failure) (stops : failure.kind = .asynchronous) :
    ∃ thrown : Thrown, failure = .thrown thrown ∧ thrown.kind = .asynchronous := by
  cases failure with
  | thrown thrown => exact ⟨thrown, rfl, stops⟩
  | asynchronous =>
      have synchronous := handles.stops rfl
      rw [asynchronous] at synchronous
      cases synchronous
  | schema fault => cases fault <;> cases stops
  | value fault => cases fault <;> cases stops
  | leaf fault =>
      obtain ⟨direction, problem⟩ := fault
      cases direction <;> cases stops
  | _ => cases stops

theorem ends_complete (application : Application σ) {first : Program} {world : World σ}
    {good : Outcome → Prop}
    (ends : first.Ends (complete application first world).2.account good) :
    good (complete application first world).1 := by
  obtain ⟨encountered, comes⟩ := comes_complete application first world
  exact ends _ encountered comes

/-- The fields at the root have their turns until the execution is halted. -/
theorem turns_inTurn (application : Application σ) (root : TypeId) (levels : Nat)
    (asynchronous : setting.synchronous = false) (source : Value) (collected : Collected)
    (next : Except Failure (List Outcome) → Program) (settled : List Outcome) (world : World σ)
    (idle : world.timers = []) (program : Program)
    (made : program = inTurn next ((fieldPrograms setting
      (fun type value place selected => fields setting levels type value (some place) selected)
      root source none collected).map (·.2)) settled)
    (handled : (complete application program world).2.account.Handled setting.schema)
    (steady : Steady application (begin application program world).1
      (begin application program world).2) :
    Serves application setting root next
      (collected.filter fun entry => setting.selects root entry.2) program world := by
  induction collected generalizing settled world program with
  | nil => exact ⟨[], [], world, .ok settled, rfl, .none world, by rw [made]; rfl,
      .inl ⟨rfl, _, rfl⟩⟩
  | cons entry rest ih =>
      obtain ⟨key, nodes⟩ := entry
      let below : Completion.Subfields := fun type value place selected =>
        fields setting levels type value (some place) selected
      have executed := isSome_field? setting below root source (.start (.name key)) nodes
      cases found : field? setting below root source (.start (.name key)) nodes with
      | none =>
          rw [found] at executed
          rw [fieldPrograms_of_none none found] at made
          rw [List.filter_cons, ← executed]
          exact ih settled world idle program made handled steady
      | some first =>
          rw [found] at executed
          rw [fieldPrograms_of_some none found, List.map_cons, inTurn] at made
          rw [List.filter_cons, ← executed]
          obtain ⟨node, head, ⟨fault, rfl, broken⟩ | ⟨field, type, declared, _, single⟩⟩ :=
            field?_eq_some found
          · exact ⟨[], _, world, .error (.schema fault), rfl, .none world, by rw [made]; rfl,
              .inr ⟨_, rfl, .faulty head broken⟩⟩
          · have same := (congrArg (fun program => complete application program world) made).trans
              (complete_andThen application first _ world)
            rw [made] at steady
            have ended := idle_complete application first world idle (Steady.first steady)
            obtain ⟨events, history, turn⟩ := turn_of_field application ⟨head, declared⟩ levels type
              source world idle first single ended
            have further := Steady.second steady
            rw [same] at handled
            have earlier : (complete application first world).2.account.Handled setting.schema :=
              World.Leads.handled (leads_complete application _ _) handled
            have leaves : setting.Leaves (complete application first world).2.account
                (complete application first world).1 := by
              refine ends_complete application ?_
              generalize (complete application first world).2.account = account at earlier ⊢
              rw [single]
              exact ends_field earlier (fun type value place selected =>
                ends_fields earlier levels type value (some place) selected) field type source _ node
                nodes (.start (.name key))
            generalize (complete application first world).1 = outcome at *
            cases outcome with
            | ok value =>
                exact .next idle history turn same (ih _ _ ended _ rfl handled further)
            | error failure =>
                obtain ⟨handles, ⟨error, rfl⟩ | stops⟩ := leaves
                · exact .next idle history turn same (ih _ _ ended _ rfl handled further)
                -- only an error of the application stops the fields behind this one
                · obtain ⟨thrown, rfl, stopping⟩ := thrown_of_stops asynchronous handles stops
                  exact .next idle history turn same
                    ⟨[], _, _, .error (.thrown thrown), rfl, .none _, rfl,
                      .inr ⟨_, rfl, .stopped stopping⟩⟩

theorem recorded_perform (world : World σ) (error : ResponseError) :
    ∃ records, (world.perform (.record error)).past = records ++ world.past
      ∧ ∀ entry ∈ records, ∃ error, entry.2 = .recorded error := by
  simp only [World.perform, World.record]
  split
  · exact ⟨[], rfl, by simp⟩
  · exact ⟨[(world.clock, .recorded error)], rfl, fun entry member => ⟨error, by
      rw [List.mem_singleton.1 member]⟩⟩

theorem recorded_bubble (application : Application σ) (first : Failure) (failures : List Failure)
    (world : World σ) :
    ∃ records, (complete application (bubble first failures) world).2.past = records ++ world.past
      ∧ ∀ entry ∈ records, ∃ error, entry.2 = .recorded error := by
  induction failures generalizing world with
  | nil => exact ⟨[], by rw [bubble, fail, complete_done]; rfl, by simp⟩
  | cons failure rest ih =>
      unfold bubble
      split
      · exact ⟨[], by rw [fail, complete_done]; rfl, by simp⟩
      · next error _ same =>
          cases same
          rw [complete_perform]
          obtain ⟨records, past, only⟩ := ih (world.perform (.record error))
          obtain ⟨noted, before, none_⟩ := recorded_perform world error
          rw [before] at past
          refine ⟨records ++ noted, by rw [past, List.append_assoc], fun entry member => ?_⟩
          exact (List.mem_append.1 member).elim (only entry) (none_ entry)
      · exact ⟨[], by rw [fail, complete_done]; rfl, by simp⟩

theorem recorded_settled (application : Application σ) (build : List Value → Value)
    (outcomes : Except Failure (List Outcome)) (world : World σ) :
    ∃ records, (complete application ((gathered build outcomes).andThen settleRoot) world).2.past
        = records ++ world.past
      ∧ ∀ entry ∈ records, ∃ error, entry.2 = .recorded error := by
  have root : ∀ outcome (world : World σ), ∃ records,
      (complete application (settleRoot outcome) world).2.past = records ++ world.past
        ∧ ∀ entry ∈ records, ∃ error, entry.2 = .recorded error := by
    intro outcome world
    unfold settleRoot
    split
    · rw [complete_perform, succeed, complete_done]
      exact recorded_perform world _
    · exact ⟨[], by rw [complete_done]; rfl, by simp⟩
  have gathers : ∃ records, (complete application (gathered build outcomes) world).2.past
      = records ++ world.past ∧ ∀ entry ∈ records, ∃ error, entry.2 = .recorded error := by
    unfold gathered
    split
    · exact ⟨[], by rw [fail, complete_done]; rfl, by simp⟩
    · split
      · exact ⟨[], by rw [succeed, complete_done]; rfl, by simp⟩
      · exact recorded_bubble application _ _ world
  rw [complete_andThen]
  obtain ⟨earlier, before, noted⟩ := gathers
  obtain ⟨later, after, settled⟩ := root (complete application (gathered build outcomes) world).1
    (complete application (gathered build outcomes) world).2
  refine ⟨later ++ earlier, by rw [after, before, List.append_assoc], fun entry member => ?_⟩
  exact (List.mem_append.1 member).elim (settled entry) (noted entry)

/-- What halts the fields at the root gets out of the operation. -/
theorem complete_halted (application : Application σ) (build : List Value → Value)
    {root : TypeId} {rest : Collected} {failure : Failure} (halts : Halts setting root rest failure)
    (world : World σ) :
    complete application ((gathered build (.error failure)).andThen settleRoot) world
      = (.error failure, world) := by
  cases halts <;> exact complete_done application _ world

theorem turns_operationIn (application : Application σ) (asynchronous : setting.synchronous = false)
    {root : TypeId} {collected : Collected} (world started : World σ)
    (collects : (setting.scope.collect root setting.environment.operation.selections).run
      (World.ask application) world = (.ok collected, started))
    (idle : world.timers = []) (result : Outcome × World σ)
    (completed : result = complete application (operationIn setting .inTurn root) world)
    (handled : result.2.account.Handled setting.schema)
    (steady : Steady application (begin application (operationIn setting .inTurn root) world).1
      (begin application (operationIn setting .inTurn root) world).2) :
    ∃ served rest last records,
      collected.filter (fun entry => setting.selects root entry.2) = served ++ rest
      ∧ Turns application setting root served started last
      ∧ result.2.history = last.history ++ records
      ∧ (∀ entry ∈ records, ∃ error, entry.2 = .recorded error)
      ∧ (rest = [] ∨ ∃ failure, Halts setting root rest failure ∧ result.1 = .error failure) := by
  let below : Completion.Subfields := fun type value place selected =>
    fields setting setting.environment.levels type value (some place) selected
  let build := objectOf ((fieldPrograms setting below root setting.environment.root none
    collected).map (·.1))
  have resting : started.timers = [] := by
    have same := World.timers_runAction application
      (setting.scope.collect root setting.environment.operation.selections) world
    rw [collects] at same
    exact same.trans idle
  have steadily := Steady.first steady
  rw [begin_act, collects] at steadily
  rw [operationIn, complete_andThen, complete_act, collects, ← complete_andThen] at completed
  have inside : (complete application (rootFields setting .inTurn root collected) started).2.account.Handled
      setting.schema := by
    refine World.Leads.handled ?_ handled
    rw [completed, complete_andThen]
    exact leads_complete application _ _
  obtain ⟨served, rest, last, outcomes, split, turns, same, ending⟩ := turns_inTurn application root
    setting.environment.levels asynchronous setting.environment.root collected (gathered build) []
    started resting _ rfl inside steadily
  have ended : result = complete application ((gathered build outcomes).andThen settleRoot) last := by
    rw [completed, complete_andThen, complete_andThen]
    exact congrArg (fun middle => complete application (settleRoot middle.1) middle.2) same
  obtain ⟨records, past, only⟩ := recorded_settled application build outcomes last
  rw [← ended] at past
  refine ⟨served, rest, last, records.reverse, split, turns, ?_,
    fun entry member => only entry (List.mem_reverse.1 member), ?_⟩
  · rw [World.history, past, List.reverse_append, World.history]
  · obtain ⟨none_, _⟩ | ⟨failure, rfl, halts⟩ := ending
    · exact .inl none_
    · exact .inr ⟨failure, halts, by rw [ended, complete_halted application build halts]⟩

end Execution

namespace Request

open Process Execution

variable {σ : Type}

/-- The fields at the root of a mutation have their turns: those that the type at the root declares,
in the order in which their keys are met, one to its end before the next one, whether it fails or not.
Afterwards nothing happens but that errors are recorded. They have all had their turns, unless one of
them stopped the execution with an error that is meant for that, or has a definition that is itself at
fault. -/
theorem root_fields_take_turns (application : Application σ) (request : Request) {schema : Schema}
    (document : Document) {operation : Operation} {root : TypeId} (vars : Variables)
    (setting : Setting) (world started : World σ) {collected : Collected} (report : Report σ)
    (checked : schema.check = .ok ())
    (chosen : document.choose request.operationName = .ok operation)
    (mutation : operation.kind = .mutation) (rooted : rootType schema operation = .ok root)
    (made : setting = ⟨request.environment schema document operation vars, false⟩)
    (collects : (setting.scope.collect root operation.selections).run (World.ask application) world
      = (.ok collected, started))
    (idle : world.timers = [])
    (executed : report = request.executeWith application schema document vars false world)
    (handled : report.world.account.Handled schema)
    (steady : Steady application
      (begin application (Execution.operation setting root) world).1
      (begin application (Execution.operation setting root) world).2) :
    ∃ served rest last records,
      collected.filter (fun entry => setting.selects root entry.2) = served ++ rest
      ∧ Turns application setting root served started last
      ∧ report.world.history = last.history ++ records
      ∧ (∀ entry ∈ records, ∃ error, entry.2 = .recorded error)
      ∧ (rest = [] ∨ ∃ failure, Halts setting root rest failure
        ∧ report.outcome = .error (.failed failure)) := by
  rw [executeWith_eq application request vars false world checked chosen rooted, ← made,
    carryOut_eq] at executed
  have kind : setting.environment.operation.kind = .mutation := by
    rw [made]
    exact mutation
  rw [Execution.operation, kind] at steady
  rw [mutation] at executed
  have world_ : report.world
      = (complete application (operationIn setting .inTurn root) world).2 := by
    rw [executed, respond_world]
    rfl
  rw [world_] at handled ⊢
  subst made
  obtain ⟨served, rest, last, records, split, turns, history, only, ending⟩ :=
    turns_operationIn application rfl world started collects idle _ rfl handled steady
  refine ⟨served, rest, last, records, split, turns, history, only, ending.imp_right ?_⟩
  rintro ⟨failure, halts, failed⟩
  refine ⟨failure, halts, ?_⟩
  rw [executed]
  simp only [OperationKind.rootOrder, failed]
  exact outcome_respond _ failure _

end Request

/-- Whether a waiter gets a value, or waits by itself. -/
def Process.isLonely (waiter : Nat) (reply : Reply) (groups : List (List Nat)) : Bool :=
  reply.isOk || groups.all fun group => !group.contains waiter || group.all (· == waiter)

theorem Process.lonely_of_isLonely {waiter : Nat} {reply : Reply} {groups : List (List Nat)}
    (alone : isLonely waiter reply groups = true) : Lonely waiter reply groups := by
  intro failure failed group member inside other among
  subst failed
  have all := List.all_eq_true.1 (by simpa only [isLonely, Except.isOk, Except.toBool,
    Bool.false_or] using alone) group member
  rw [List.contains_iff_mem.2 inside, Bool.not_true, Bool.false_or, List.all_eq_true] at all
  exact beq_iff_eq.1 (all other among)

/-- Whether a process comes to its end in a number of steps, and whatever fails on the way is awaited
by itself. -/
def Process.isSteadyWithin {σ : Type} (application : Application σ) :
    (steps : Nat) → Process → World σ → Bool
  | 0, _, _ => false
  | steps + 1, process, world =>
    ((World.earliest world.timers).all fun timer =>
        isLonely timer.waiter (world.fire application timer).1 process.groups)
      && match step? application process world with
        | some (after, later) => isSteadyWithin application steps after later
        | none => true

theorem Process.steady_of_within {σ : Type} {application : Application σ} (steps : Nat)
    {process : Process} {world : World σ}
    (within : isSteadyWithin application steps process world = true) :
    Steady application process world := by
  induction steps generalizing process world with
  | zero => cases within
  | succ steps ih =>
      rw [isSteadyWithin, Bool.and_eq_true] at within
      intro last final visits timer found
      cases visits with
      | here =>
          have alone := within.1
          rw [found] at alone
          exact lonely_of_isLonely alone
      | step moved rest =>
          have later := within.2
          rw [moved] at later
          exact ih later _ _ rest timer found

/-- An event without a failure that is not handled, and without a leaf that is written by a
function. -/
def Event.isCalm : Event → Bool
  | .called asked reply => asked.info?.isSome && reply.isOk
  | .drained _ _ fault => fault.isNone
  | .delivered _ (.error failure) => !failure.halts
  | _ => true

theorem World.forms_of_isCalm {schema : Schema} {σ : Type} (world : World σ)
    (calm : ∀ event, world.Saw event → event.isCalm = true)
    (unlisted : ∀ leaf values, (schema.definition leaf).body ≠ .enum (.ok values)) :
    ∀ leaf value form, (schema.serialize leaf value).Yields world.account (.ok form) →
      form.isPlain = true := by
  refine schema.isPlain_of_serialize _ (fun id value form saw => ?_) fun leaf values body =>
    absurd body (unlisted leaf values)
  cases calm _ saw

theorem World.handled_of_isCalm {schema : Schema} {σ : Type} (world : World σ)
    (calm : ∀ event, world.Saw event → event.isCalm = true)
    (unlisted : ∀ leaf values, (schema.definition leaf).body ≠ .enum (.ok values)) :
    world.account.Handled schema := by
  have forms := world.forms_of_isCalm calm unlisted
  refine ⟨fun asked failure saw => ?_, fun handle items failure saw => ?_,
    fun ticket failure ⟨waiter, _, delivered⟩ => ?_, fun form failure written found => ?_⟩
  · have answered := calm _ saw
    simp only [Event.isCalm, Except.isOk, Except.toBool, Bool.and_false] at answered
    cases answered
  · cases calm _ saw
  · have handled : (!failure.halts) = true := calm _ delivered
    exact Failure.caught_of_halts (by simpa using handled)
  · cases written with
    | form yields => exact Value.caught_of_isPlain (forms _ _ form yields) found
    | result yields _ => cases forms _ _ _ yields

/-- A schema with one object type, at the root of queries and of mutations, whose fields lead back to
it, one of them in any case. -/
def Schema.guardedMutation : Schema := .ofLayout
  { Schema.guarded.toLayout with mutation := some (.named (.declared 0)) }

set_option maxRecDepth 10000 in
theorem Schema.check_guardedMutation : guardedMutation.check = .ok () := by
  have reached : guardedMutation.reached = .ok [(.str "Query", .declared 0),
      (.str "Boolean", .standard .boolean), (.str "String", .standard .string)] := by
    cbv
  unfold check
  rw [reached]
  decide +kernel

/-- A mutation whose first field is never null. -/
def Operation.twoTurns : Operation where
  start := 0
  kind := .mutation
  name := none
  variableNodes := []
  directives := []
  selections := [.field 11 none "b" [] [] [.field 15 none "a" [] [] []],
    .field 19 none "a" [] [] [.field 23 none "a" [] [] []]]

/-- Resolvers of which the first one fails after a while, and the others find an object. -/
def Application.lagging : Application Nat where
  answer _ calls := (if calls = 0 then .ok (.deferred 0) else .ok (.map []), calls + 1)
  drain _ calls := (([], none), calls)
  delay _ _ := 5
  finish _ calls := (.error (.thrown ⟨.key, some "lost", none, [], 0⟩), calls)

namespace Request

/-- The mutation, whose first field fails after a while. -/
def twoTurns : Report Nat :=
  ({} : Request).executeWith Application.lagging Schema.guardedMutation
    ⟨[], [.operation .twoTurns]⟩ [] false { state := 0 }

def settingOfTwoTurns : Setting :=
  ⟨({} : Request).environment Schema.guardedMutation ⟨[], [.operation .twoTurns]⟩ .twoTurns [], false⟩

theorem twoTurns_eq : twoTurns = carryOut Application.lagging false
    (Execution.operationIn settingOfTwoTurns .inTurn (.declared 0)) { state := 0 } :=
  executeWith_eq _ _ _ _ _ Schema.check_guardedMutation rfl rfl

set_option maxRecDepth 10000 in
theorem isCalm_twoTurns (event : Event) (saw : twoTurns.world.Saw event) : event.isCalm = true := by
  obtain ⟨time, member⟩ := saw
  have all : twoTurns.world.past.all (fun entry => entry.2.isCalm) = true := by
    rw [twoTurns_eq]
    exact carryOut_of_within 5 (fun report => report.world.past.all fun entry => entry.2.isCalm)
      (by cbv)
  exact List.all_eq_true.1 all _ member

/-- What the mutation collects at its root. -/
def collectedOfTwoTurns : Collected :=
  [("b", [⟨11, none, "b", [], [], [.field 15 none "a" [] [] []]⟩]),
    ("a", [⟨19, none, "a", [], [], [.field 23 none "a" [] [] []]⟩])]

set_option maxRecDepth 10000 in
theorem failed_root_field_takes_turn :
    (settingOfTwoTurns.scope.collect (.declared 0) Operation.twoTurns.selections).run
        (World.ask Application.lagging) { state := 0 } = (.ok collectedOfTwoTurns, { state := 0 })
      ∧ twoTurns.world.account.Handled Schema.guardedMutation
      ∧ Process.Steady Application.lagging
        (Process.begin Application.lagging
          (Execution.operation settingOfTwoTurns (.declared 0)) { state := 0 }).1
        (Process.begin Application.lagging
          (Execution.operation settingOfTwoTurns (.declared 0)) { state := 0 }).2
      ∧ ∃ last records,
        Turns Application.lagging settingOfTwoTurns (.declared 0) collectedOfTwoTurns { state := 0 }
          last
        ∧ twoTurns.world.history = last.history ++ records
        ∧ ∀ entry ∈ records, ∃ error, entry.2 = .recorded error := by
  have collects : (settingOfTwoTurns.scope.collect (.declared 0) Operation.twoTurns.selections).run
      (World.ask Application.lagging) { state := 0 }
        = (.ok collectedOfTwoTurns, { state := 0 }) := by
    cbv
  have handled : twoTurns.world.account.Handled Schema.guardedMutation :=
    World.handled_of_isCalm twoTurns.world isCalm_twoTurns fun leaf values body => by
      rcases leaf with _ | _ | _ <;> cases body
  have steady : Process.Steady Application.lagging
      (Process.begin Application.lagging
        (Execution.operation settingOfTwoTurns (.declared 0)) { state := 0 }).1
      (Process.begin Application.lagging
        (Execution.operation settingOfTwoTurns (.declared 0)) { state := 0 }).2 :=
    Process.steady_of_within 5 (by cbv)
  obtain ⟨served, rest, last, records, split, turns, history, only, ending⟩ :=
    root_fields_take_turns Application.lagging {} ⟨[], [.operation .twoTurns]⟩ [] settingOfTwoTurns
      { state := 0 } { state := 0 } twoTurns Schema.check_guardedMutation rfl rfl rfl rfl collects rfl
      rfl handled steady
  refine ⟨collects, handled, steady, last, records, ?_, history, only⟩
  have selected : collectedOfTwoTurns.filter
      (fun entry => settingOfTwoTurns.selects (.declared 0) entry.2) = collectedOfTwoTurns := by
    cbv
  have answered : twoTurns.outcome.toOption.isSome = true := by
    rw [twoTurns_eq]
    exact carryOut_of_within 5 (fun report => report.outcome.toOption.isSome) (by cbv)
  obtain rfl | ⟨failure, _, failed⟩ := ending
  · rw [selected, List.append_nil] at split
    rw [split]
    exact turns
  · rw [failed] at answered
    cases answered

end Request

/-- A schema that is taken for well-formed, though the type of a field is none. -/
def Schema.unchecked : Schema := .ofLayout
  { types := #[⟨.str "Mutation", .object
      (.ok (.ofList [(.str "bad", { Field.plain "bad" (.named (.standard .string)) with
          type := .error (.fieldTypeNotType "bad" "1") }),
        (.str "a", .plain "a" (.named (.standard .string)))])) (.ok []) .absent⟩]
    query := some (.named (.declared 0))
    mutation := some (.named (.declared 0))
    subscription := none
    extra := []
    directives := Directive.specified
    overrides := []
    assumeValid := true }

/-- A mutation for both fields of that schema. -/
def Operation.faulty : Operation where
  start := 0
  kind := .mutation
  name := none
  variableNodes := []
  directives := []
  selections := [.field 11 none "bad" [] [] [], .field 15 none "a" [] [] []]

namespace Request

def settingOfFaulty : Setting :=
  ⟨({} : Request).environment Schema.unchecked ⟨[], [.operation .faulty]⟩ .faulty [], false⟩

/-- The mutation, carried out. -/
def faulty : Report Nat :=
  ({} : Request).executeWith Application.faltering Schema.unchecked
    ⟨[], [.operation .faulty]⟩ [] false { state := 1 }

theorem faulty_eq : faulty = carryOut Application.faltering false
    (Execution.operationIn settingOfFaulty .inTurn (.declared 0)) { state := 1 } :=
  executeWith_eq _ _ _ _ _ rfl rfl rfl

set_option maxRecDepth 10000 in
/-- A field at the root whose definition is at fault keeps the ones after it from their turns, though
they are declared and nothing keeps their arguments from being bound. -/
theorem faulty_field_ends_mutation :
    Schema.unchecked.check = .ok ()
      ∧ (settingOfFaulty.scope.collect (.declared 0) Operation.faulty.selections).run
          (World.ask Application.faltering) { state := 1 }
        = (.ok [("bad", [⟨11, none, "bad", [], [], []⟩]), ("a", [⟨15, none, "a", [], [], []⟩])],
          { state := 1 })
      ∧ settingOfFaulty.Defines (.declared 0) [⟨15, none, "a", [], [], []⟩]
        ⟨15, none, "a", [], [], []⟩ (.plain "a" (.named (.standard .string)))
      ∧ (∀ world : World Nat, settingOfFaulty.Binds Application.faltering
        ⟨15, none, "a", [], [], []⟩ (.plain "a" (.named (.standard .string))) world)
      ∧ faulty.world.history = [] := by
  refine ⟨rfl, by cbv, ⟨rfl, by cbv⟩, fun world => ⟨[], by cbv⟩, ?_⟩
  rw [faulty_eq]
  cbv

end Request

end GraphQL
