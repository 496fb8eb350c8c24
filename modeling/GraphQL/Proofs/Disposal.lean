import GraphQL.Proofs.Paying

/-!
No deferred result is left pending. By the end of a request every deferred result that was handed over
to it has run to its end or is closed, but for the tests of a value of which another one fails, and for
the items of a list in the middle of which a request stops that must not wait.
-/

namespace GraphQL

namespace World

variable {σ : Type}

/-- Whether a deferred result has run to its end, or was closed. -/
def Disposed (world : World σ) (ticket : Nat) : Prop :=
  world.status? ticket = some .settled ∨ world.status? ticket = some .closed

theorem status?_setStatus (world : World σ) (ticket : Nat) (status : TicketStatus) (other : Nat) :
    (world.setStatus ticket status).status? other
      = if other = ticket then some status else world.status? other := by
  unfold status? setStatus
  simp only [List.lookup_cons]
  by_cases same : other = ticket
  · simp [same]
  · have differs : (other == ticket) = false := by simpa using same
    simp [differs, same]

/-- Whatever runs has a timer, and no two timers have the same waiter. -/
structure Timely (world : World σ) : Prop where
  running : ∀ ticket, world.status? ticket = some .running →
    ∃ timer ∈ world.timers, timer.wake = .finish ticket
  bound : ∀ timer ∈ world.timers, timer.waiter < world.nextWaiter
  distinct : world.timers.Pairwise fun earlier later => earlier.waiter ≠ later.waiter

theorem Timely.of_same {world after : World σ} (timely : world.Timely)
    (timers : after.timers = world.timers) (next : after.nextWaiter = world.nextWaiter)
    (running : ∀ ticket, after.status? ticket = some .running →
      world.status? ticket = some .running) : after.Timely := by
  refine ⟨fun ticket runs => ?_, ?_, ?_⟩
  · rw [timers]
    exact timely.running ticket (running ticket runs)
  · rw [timers, next]
    exact timely.bound
  · rw [timers]
    exact timely.distinct

theorem timely_close (ticket : Nat) {world : World σ} (timely : world.Timely) :
    (world.close ticket).Timely := by
  unfold close
  split
  · refine timely.of_same rfl rfl fun other runs => ?_
    have status : (world.setStatus ticket .closed).status? other = some .running := runs
    rw [status?_setStatus] at status
    split at status
    · cases status
    · exact status
  · exact timely

theorem timely_closeAll (tickets : List Nat) {world : World σ} (timely : world.Timely) :
    (tickets.foldl close world).Timely := by
  induction tickets generalizing world with
  | nil => exact timely
  | cons ticket rest ih => exact ih (timely_close ticket timely)

theorem timely_perform (effect : Effect) {world : World σ} (timely : world.Timely) :
    (world.perform effect).Timely := by
  cases effect with
  | record error =>
      simp only [perform, record]
      split
      · exact timely
      · exact timely.of_same rfl rfl fun _ runs => runs
  | close tickets => exact timely_closeAll tickets timely
  | _ => exact timely.of_same rfl rfl fun _ runs => runs

theorem Timely.add {world after : World σ} (timely : world.Timely) {timer : Timer}
    (waiter : timer.waiter = world.nextWaiter) (timers : after.timers = world.timers ++ [timer])
    (next : after.nextWaiter = world.nextWaiter + 1)
    (running : ∀ ticket, after.status? ticket = some .running →
      world.status? ticket = some .running ∨ timer.wake = .finish ticket) : after.Timely := by
  refine ⟨fun ticket runs => ?_, fun other member => ?_, ?_⟩
  · rw [timers]
    obtain before | new := running ticket runs
    · obtain ⟨found, member, wakes⟩ := timely.running ticket before
      exact ⟨found, List.mem_append_left _ member, wakes⟩
    · exact ⟨timer, List.mem_append_right _ List.mem_cons_self, new⟩
  · rw [timers] at member
    rw [next]
    rcases List.mem_append.1 member with before | new
    · have below := timely.bound other before
      omega
    · rw [List.mem_singleton.1 new, waiter]
      omega
  · rw [timers, List.pairwise_append]
    refine ⟨timely.distinct, List.pairwise_singleton _ _, fun earlier member later new => ?_⟩
    have below := timely.bound earlier member
    rw [List.mem_singleton.1 new, waiter]
    omega

theorem timely_launch (application : Application σ) (ticket : Nat) {world : World σ}
    (timely : world.Timely) : (world.launch application ticket).2.Timely := by
  unfold launch
  cases found : world.status? ticket with
  | none =>
      refine timely.add rfl rfl rfl fun other runs => ?_
      have status : (world.setStatus ticket .running).status? other = some .running := runs
      rw [status?_setStatus] at status
      split at status
      · next same => exact .inr (by rw [same])
      · exact .inl status
  | some status =>
      cases status with
      | running => exact timely.add rfl rfl rfl fun _ runs => .inl runs
      | settled => exact timely.add rfl rfl rfl fun _ runs => .inl runs
      | closed => exact timely.add rfl rfl rfl fun _ runs => .inl runs

theorem Timely.eq_of_waiter {world : World σ} (timely : world.Timely) {timer other : Timer}
    (pending : timer ∈ world.timers) (member : other ∈ world.timers)
    (same : other.waiter = timer.waiter) : other = timer := by
  have symmetric : Std.Symm fun earlier later : Timer => earlier.waiter ≠ later.waiter :=
    ⟨fun _ _ apart => apart.symm⟩
  by_contra differs
  exact timely.distinct.forall member pending differs same

theorem Timely.apart {world : World σ} (timely : world.Timely) {timer other : Timer}
    (pending : timer ∈ world.timers) (member : other ∈ world.timers)
    (differs : other.wake ≠ timer.wake) : other.waiter ≠ timer.waiter := by
  intro same
  rw [timely.eq_of_waiter pending member same] at differs
  exact differs rfl

theorem timely_fire (application : Application σ) {timer : Timer} {world : World σ}
    (timely : world.Timely) (pending : timer ∈ world.timers) :
    (world.fire application timer).2.Timely := by
  obtain ⟨next, timers⟩ := Process.waits_fire application timer world
  refine ⟨fun ticket runs => ?_, fun other member => ?_, ?_⟩
  · -- What still runs is not what this timer wakes, so that its own timer is left.
    have before : world.status? ticket = some .running ∧ timer.wake ≠ .finish ticket := by
      unfold fire at runs
      cases wake : timer.wake with
      | finish other =>
          rw [wake] at runs
          have status : (world.setStatus other .settled).status? ticket = some .running := runs
          rw [status?_setStatus] at status
          split at status
          · cases status
          · next differs =>
              refine ⟨status, fun same => ?_⟩
              cases same
              exact differs rfl
      | refuse fault =>
          rw [wake] at runs
          exact ⟨runs, fun same => by cases same⟩
    obtain ⟨found, member, wakes⟩ := timely.running ticket before.1
    have apart := timely.apart pending member fun same => before.2 (by rw [← same, wakes])
    refine ⟨found, ?_, wakes⟩
    rw [timers]
    exact List.mem_filter.2 ⟨member, by simpa using apart⟩
  · rw [timers] at member
    rw [next]
    exact timely.bound other (List.mem_filter.1 member).1
  · rw [timers]
    exact timely.distinct.filter _

theorem invariant_timely (application : Application σ) :
    Invariant application (Timely (σ := σ)) where
  ask timely _ := timely.of_same rfl rfl fun _ runs => runs
  drain timely _ := timely.of_same rfl rfl fun _ runs => runs
  perform timely effect := timely_perform effect timely
  launch timely ticket := timely_launch application ticket timely
  fire timely _ pending := timely_fire application timely pending

theorem timely_start (state : σ) : ({ state } : World σ).Timely := by
  refine ⟨fun _ runs => ?_, fun timer member => ?_, .nil⟩
  · cases runs
  · cases member

theorem Timely.disposed {world : World σ} (timely : world.Timely) (idle : world.timers = [])
    {ticket : Nat} (attended : world.Attends ticket) : world.Disposed ticket := by
  cases status : world.status? ticket with
  | none => exact absurd status attended
  | some found =>
      cases found with
      | running =>
          obtain ⟨timer, member, _⟩ := timely.running ticket status
          rw [idle] at member
          cases member
      | settled => exact .inl status
      | closed => exact .inr status

end World

/-- Whether a deferred result is an item of a list, behind another item. -/
def World.Trails {σ : Type} (world : World σ) (ticket : Nat) : Prop :=
  ∃ path front back, front ≠ [] ∧ world.Saw (.listed path (front ++ .deferred ticket :: back))

/-- Whether a deferred result is the test of a value of which another test fails at once. -/
def World.TestedInVain {σ : Type} (world : World σ) (schema : Schema) (ticket : Nat) : Prop :=
  ∃ function type value info,
    world.account.called (.isTypeOf function type value info) (.ok (.deferred ticket))
      ∧ world.account.TestFails schema value info

/-- A deferred result that a request may leave pending. An item of a list is one only if the request
must not wait, and stopped at something else that it closed. -/
inductive Report.Overlooks {σ : Type} (report : Report σ) (schema : Schema) (synchronous : Bool)
    (ticket : Nat) : Prop where
  | test (tested : report.world.TestedInVain schema ticket)
  | item (strict : synchronous = true) (trails : report.world.Trails ticket)
    (stopped : report.awaited = false → (∀ response, report.outcome ≠ .ok response)
      ∧ ∃ other, other ≠ ticket ∧ report.world.Disposed other)

namespace Request

open World Process

variable {σ : Type}

/-- The book of a report. -/
def book (schema : Schema) (synchronous : Bool) (report : Report σ) : Book σ where
  final := report.world
  excused ticket := report.world.TestedInVain schema ticket
    ∨ (report.awaited = true ∧ synchronous = true ∧ report.world.Trails ticket)
  skipped ticket := synchronous = true ∧ report.world.Trails ticket
  strict := synchronous = true
  waited := report.awaited = true

theorem fits_book (setting : Setting) (report : Report σ) :
    (book setting.schema setting.synchronous report).Fits setting where
  strict := .rfl
  tests function type value info _ called failed :=
    .inl ⟨function, type, value, info, called, failed⟩
  items path front _ back synchronous behind listed :=
    ⟨synchronous, path, front, back, behind, listed⟩

theorem ne_ok_respond (synchronous awaited : Bool) (failure : Failure) (world : World σ)
    (response : Response) :
    (respond synchronous awaited (.error failure) world).outcome ≠ .ok response := by
  intro answered
  cases failure with
  | asynchronous => cases answered
  | _ => cases answered

/-- A program that pays, run from the start, leaves nothing pending but what it overlooks. -/
theorem disposed_of_pays (application : Application σ) (schema : Schema) (synchronous : Bool)
    (program : Program) (state : σ) (report : Report σ)
    (carried : report = carryOut application synchronous program { state })
    (pays : program.Pays (book schema synchronous report) fun _ => False)
    (steady : Steady application (begin application program { state }).1
      (begin application program { state }).2)
    (ticket : Nat) (handed : report.world.HandedOver ticket) :
    report.world.Disposed ticket ∨ report.Overlooks schema synchronous ticket := by
  rw [carryOut_eq] at carried
  have final : report.world = (complete application program { state }).2 := by
    rw [carried, respond_world]
  have awaited : report.awaited = defers application program { state } := by
    rw [carried, awaited_respond]
  have fresh : ∀ other, ¬ ({ state } : World σ).HandedOver other := by
    rintro other ⟨event, ⟨time, member⟩, _⟩
    cases member
  obtain ⟨accepts, covered⟩ := covered_complete application program { state } fresh final
    awaited.trans (fun waited _ skipped => Or.inr ⟨waited, skipped⟩) pays
  rw [← final] at covered
  have timely : report.world.Timely := by
    rw [final]
    exact (invariant_timely application).complete program (timely_start state)
  have idle : report.world.timers = [] := by
    rw [final]
    exact idle_complete application program _ rfl steady
  obtain held | (tested | ⟨waited, strict, trails⟩) | ⟨stops, strict, trails⟩ := covered ticket handed
  · exact .inl (timely.disposed idle held)
  · exact .inr (.test tested)
  · refine .inr (.item strict trails fun direct => ?_)
    rw [waited] at direct
    cases direct
  · obtain ⟨_, other, held⟩ := accepts.halted stops
    have disposed := timely.disposed idle held
    by_cases same : other = ticket
    · exact .inl (same ▸ disposed)
    · refine .inr (.item strict trails fun _ => ⟨fun response => ?_, other, same, disposed⟩)
      obtain ⟨failure, failed, _⟩ := stops
      rw [carried, failed]
      exact ne_ok_respond _ _ failure _ response

/-- A request leaves no deferred result pending: whatever was handed over to it has run to its end, or
was closed. Let what the application raises be an exception of its own, and let whatever fails be
awaited by itself. Then the only ones that may be overlooked are the tests of a value of which another
test fails at once, and the items of a list behind the one at which a request stops that must not
wait. -/
theorem no_result_is_left_pending (application : Application σ) (request : Request)
    (schema : Schema) (document : Document) (vars : Variables) (synchronous : Bool) (state : σ)
    (report : Report σ) (known : TypeId → Prop) (definite : Definite schema known)
    (knownRoot : ∀ operation root, rootType schema operation = .ok root → known root)
    (executed : report
      = request.executeWith application schema document vars synchronous { state })
    (orderly : report.world.Orderly schema)
    (steady : ∀ operation root, document.choose request.operationName = .ok operation →
      rootType schema operation = .ok root →
      Steady application
        (begin application (Execution.operation
          ⟨request.environment schema document operation vars, synchronous⟩ root) { state }).1
        (begin application (Execution.operation
          ⟨request.environment schema document operation vars, synchronous⟩ root) { state }).2)
    (ticket : Nat) (handed : report.world.HandedOver ticket) :
    report.world.Disposed ticket ∨ report.Overlooks schema synchronous ticket := by
  -- a request that is refused before its execution has nothing handed over to it
  have refused : ∀ outcome, report ≠ Request.report { state } false outcome := by
    rintro outcome rfl
    obtain ⟨event, ⟨time, member⟩, _⟩ := handed
    cases member
  cases checked : schema.check with
  | error fault =>
      rw [executeWith, checked] at executed
      exact absurd executed (refused _)
  | ok =>
      cases chosen : document.choose request.operationName with
      | error fault =>
          rw [executeWith, checked, chosen] at executed
          exact absurd executed (refused _)
      | ok operation =>
          cases rooted : rootType schema operation with
          | error error =>
              simp only [executeWith, checked, chosen, rooted] at executed
              exact absurd executed (refused _)
          | ok root =>
              rw [executeWith_eq application request vars synchronous _ checked chosen rooted]
                at executed
              let setting : Setting :=
                ⟨request.environment schema document operation vars, synchronous⟩
              have fits : (book schema synchronous report).Fits setting := fits_book setting report
              have pays := Execution.pays_operationIn orderly fits definite operation.kind.rootOrder
                root (knownRoot operation root rooted)
              exact disposed_of_pays application schema synchronous _ state report executed pays
                (steady operation root chosen rooted) ticket handed

end Request

/-- A schema with a union of two object types that are told apart by tests. -/
def Schema.tested : Schema := .ofLayout
  { types := #[⟨.str "Query", .object
        (.ok (.ofList [(.str "u", .plain "u" (.named (.declared 1)))])) (.ok []) .absent⟩,
      ⟨.str "U", .union (.ok [.named (.declared 2), .named (.declared 3)]) .absent⟩,
      ⟨.str "A", .object
        (.ok (.ofList [(.str "a", .plain "a" (.named (.declared 2)))])) (.ok []) (.function 1)⟩,
      ⟨.str "B", .object
        (.ok (.ofList [(.str "b", .plain "b" (.named (.declared 3)))])) (.ok []) (.function 2)⟩]
    query := some (.named (.declared 0))
    mutation := none
    subscription := none
    extra := []
    directives := Directive.specified
    overrides := []
    assumeValid := false }

set_option maxRecDepth 10000 in
theorem Schema.check_tested : tested.check = .ok () := by
  have reached : tested.reached = .ok [(.str "Query", .declared 0), (.str "U", .declared 1),
      (.str "A", .declared 2), (.str "B", .declared 3),
      (.str "Boolean", .standard .boolean), (.str "String", .standard .string)] := by
    cbv
  unfold check
  rw [reached]
  decide +kernel

/-- A query for the type of a value. -/
def Operation.tested : Operation where
  start := 0
  kind := .query
  name := none
  variableNodes := []
  directives := []
  selections := [.field 2 none "u" [] [] [.field 6 none "__typename" [] [] []]]

/-- Tests of which the first takes a while and fails then. The second one succeeds, at once or later
still. -/
def Application.testing (quick : Bool) : Application Unit where
  answer asked _ :=
    (match asked with
      | .isTypeOf 1 .. => .ok (.deferred 0)
      | .isTypeOf .. => .ok (if quick then .bool true else .deferred 1)
      | _ => .ok (.map []), ())
  drain _ _ := (([], none), ())
  delay ticket _ := ticket + 1
  finish ticket _ :=
    (if ticket = 0 then .error (.thrown ⟨.key, some "lost", none, [], 0⟩) else .ok (.bool true), ())

/-- An event without a failure, and without a value that is one. -/
def Event.isClean (event : Event) : Bool :=
  event.isCalm && event.values.all fun value => (Failure.ofValue? value).isNone

theorem World.orderly_of_isClean {schema : Schema} {σ : Type} (world : World σ)
    (clean : ∀ event, world.Saw event → event.isClean = true)
    (unlisted : ∀ leaf values, (schema.definition leaf).body ≠ .enum (.ok values)) :
    world.Orderly schema := by
  have calm : ∀ event, world.Saw event → event.isCalm = true := fun event saw =>
    (Bool.and_eq_true_iff.1 (clean event saw)).1
  have forms := world.forms_of_isCalm calm unlisted
  refine ⟨fun asked failure saw => ?_, fun handle items failure saw => ?_,
    fun ticket failure ⟨waiter, _, delivered⟩ => ?_, fun event value failure saw inside found => ?_,
    fun form failure written found => ?_⟩
  · have answered := calm _ saw
    simp only [Event.isCalm, Except.isOk, Except.toBool, Bool.and_false] at answered
    cases answered
  · cases calm _ saw
  · have handled : (!failure.halts) = true := calm _ delivered
    simpa using handled
  · have none_ := List.all_eq_true.1 (Bool.and_eq_true_iff.1 (clean event saw)).2 value inside
    rw [found] at none_
    cases none_
  · cases written with
    | form yields =>
        have plain := forms _ _ form yields
        cases form with
        | error thrown => cases plain
        | undefined =>
            cases found
            rfl
        | _ => cases found
    | result yields _ => cases forms _ _ _ yields

namespace Request

def tested (quick : Bool) : Report Unit :=
  ({} : Request).executeWith (.testing quick) Schema.tested ⟨[], [.operation .tested]⟩ [] false
    { state := () }

def settingOfTested : Setting :=
  ⟨({} : Request).environment Schema.tested ⟨[], [.operation .tested]⟩ .tested [], false⟩

theorem tested_eq (quick : Bool) : tested quick = carryOut (.testing quick) false
    (Execution.operationIn settingOfTested .sideBySide (.declared 0)) { state := () } :=
  executeWith_eq _ _ _ _ _ Schema.check_tested rfl rfl

set_option maxRecDepth 10000 in
theorem isClean_tested (event : Event) (saw : (tested true).world.Saw event) :
    event.isClean = true := by
  obtain ⟨time, member⟩ := saw
  have all : (tested true).world.past.all (fun entry => entry.2.isClean) = true := by
    rw [tested_eq]
    exact carryOut_of_within 5 (fun report => report.world.past.all fun entry => entry.2.isClean)
      (by cbv)
  exact List.all_eq_true.1 all _ member

/-- Whether a world has seen a test whose answer is deferred. -/
def seesTest (ticket : Nat) (world : World Unit) : Bool :=
  world.past.any fun entry => entry.2.hands.contains ticket

theorem handedOver_of_seesTest {ticket : Nat} {world : World Unit}
    (sees : seesTest ticket world = true) : world.HandedOver ticket := by
  obtain ⟨⟨time, event⟩, member, hands⟩ := List.any_eq_true.1 sees
  exact ⟨event, ⟨time, member⟩, List.contains_iff_mem.1 hands⟩

set_option maxRecDepth 10000 in
theorem slow_test_is_closed :
    Definite Schema.tested Schema.tested.Knows ∧ (tested true).world.Orderly Schema.tested
      ∧ (tested true).world.HandedOver 0 ∧ (tested true).world.Disposed 0 := by
  have unlisted : ∀ leaf values, (Schema.tested.definition leaf).body ≠ .enum (.ok values) := by
    intro leaf values body
    rcases leaf with _ | _ | _ | _ | _ | _ <;> cases body
  have definite := (Schema.sound_of_check Schema.check_tested rfl).definite
  have orderly := World.orderly_of_isClean (tested true).world isClean_tested unlisted
  have handed : (tested true).world.HandedOver 0 := by
    apply handedOver_of_seesTest
    rw [tested_eq]
    exact carryOut_of_within 5 (fun report => seesTest 0 report.world) (by cbv)
  have steady : Process.Steady (.testing true)
      (Process.begin (.testing true) (Execution.operation settingOfTested (.declared 0))
        { state := () }).1
      (Process.begin (.testing true) (Execution.operation settingOfTested (.declared 0))
        { state := () }).2 :=
    Process.steady_of_within 5 (by cbv)
  refine ⟨definite, orderly, handed, ?_⟩
  obtain disposed | overlooked := no_result_is_left_pending (.testing true) {} Schema.tested
    ⟨[], [.operation .tested]⟩ [] false () (tested true) Schema.tested.Knows definite
    (fun operation root rooted => Schema.knows_root Schema.check_tested rfl rooted) rfl orderly
    (by
      intro operation root chosen rooted
      cases chosen
      cases rooted
      exact steady) 0 handed
  · exact disposed
  · cases overlooked with
    | test tested =>
        obtain ⟨function, type, value, info, _, fails⟩ := tested
        cases fails with
        | raised called => cases isClean_tested _ called
        | @uncallable type found other =>
            have own : (Schema.tested.definition type).isTypeOf = .absent
                ∨ ∃ id, (Schema.tested.definition type).isTypeOf = .function id := by
              rcases type with _ | _ | _ | _ | _ | _ <;> first | exact .inl rfl | exact .inr ⟨_, rfl⟩
            rw [other] at own
            obtain absent | ⟨id, function⟩ := own
            · cases absent
            · cases function
    | item strict _ _ => cases strict

set_option maxRecDepth 10000 in
/-- Of two tests that are waited for together the one that takes longer is left pending if the other one
fails. -/
theorem slower_test_is_left_pending :
    Schema.tested.check = .ok () ∧ Schema.tested.assumeValid = false
      ∧ (∃ response, (tested false).outcome = .ok response)
      ∧ (tested false).world.HandedOver 1 ∧ ¬ (tested false).world.Disposed 1 := by
  have answered : (tested false).outcome.isOk = true := by
    rw [tested_eq]
    exact carryOut_of_within 5 (fun report => report.outcome.isOk) (by cbv)
  have handed : (tested false).world.HandedOver 1 := by
    apply handedOver_of_seesTest
    rw [tested_eq]
    exact carryOut_of_within 5 (fun report => seesTest 1 report.world) (by cbv)
  have running : (tested false).world.status? 1 = some .running := by
    rw [tested_eq]
    exact of_decide_eq_true <| carryOut_of_within 5
      (fun report => decide (report.world.status? 1 = some .running)) (by cbv)
  refine ⟨Schema.check_tested, rfl, ?_, handed, ?_⟩
  · cases outcome : (tested false).outcome with
    | ok response => exact ⟨response, rfl⟩
    | error refusal =>
        rw [outcome] at answered
        cases answered
  · rintro (settled | closed)
    · rw [running] at settled
      cases settled
    · rw [running] at closed
      cases closed

end Request

end GraphQL
