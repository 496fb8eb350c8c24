import GraphQL.Proofs.Synchronous

/-!
What a program owes. A deferred result that the application hands over is owed until something waits
for it or it is given up. A program that pays its way owes nothing at its end, unless it stops.
-/

namespace GraphQL

/-- What a call of the application hands over to the execution, if it is still deferred. -/
def Call.hands : Call → Reply → List Nat
  | .resolveType .., .ok value | .isTypeOf .., .ok value => value.ticket?.toList
  | _, _ => []

/-- The deferred results that come with an event: what a resolver gave, the items of a list, and what
the functions answered that tell the type of a value. -/
def Event.hands : Event → List Nat
  | .called asked reply => asked.hands reply
  | .drained _ items _ | .listed _ items => items.filterMap Value.ticket?
  | .resolved _ value => value.ticket?.toList
  | _ => []

/-- A failure that ends an execution which must not wait. -/
def Outcome.Stops (outcome : Outcome) : Prop :=
  ∃ failure, outcome = .error failure ∧ failure.kind = .asynchronous

theorem Outcome.stops_error {failure : Failure} (stops : Outcome.Stops (.error failure)) :
    failure.kind = .asynchronous := by
  obtain ⟨other, same, stops⟩ := stops
  cases same
  exact stops

theorem Outcome.not_stops_ok (value : Value) : ¬ Outcome.Stops (.ok value) := by
  rintro ⟨failure, same, _⟩
  cases same

namespace World

variable {σ : Type}

/-- Whether a deferred result was handed over to the execution. -/
def HandedOver (world : World σ) (ticket : Nat) : Prop :=
  ∃ event, world.Saw event ∧ ticket ∈ event.hands

/-- Whether something has waited for a deferred result, or it was given up. -/
def Attends (world : World σ) (ticket : Nat) : Prop := world.status? ticket ≠ none

theorem attends_setStatus (world : World σ) (ticket : Nat) (status : TicketStatus) (other : Nat) :
    (world.setStatus ticket status).Attends other ↔ other = ticket ∨ world.Attends other := by
  unfold Attends status? setStatus
  simp only [List.lookup_cons]
  by_cases same : other = ticket
  · simp [same]
  · have differs : (other == ticket) = false := by simpa using same
    simp [differs, same]

theorem attends_close (world : World σ) (ticket other : Nat) :
    (world.close ticket).Attends other ↔ other = ticket ∨ world.Attends other := by
  unfold close
  split
  · exact attends_setStatus world ticket .closed other
  · next status found =>
      refine ⟨.inr, ?_⟩
      rintro (rfl | before)
      · unfold Attends
        rw [found]
        exact Option.some_ne_none status
      · exact before

theorem attends_closeAll (tickets : List Nat) (world : World σ) (other : Nat) :
    (tickets.foldl close world).Attends other ↔ other ∈ tickets ∨ world.Attends other := by
  induction tickets generalizing world with
  | nil => simp
  | cons ticket rest ih =>
      rw [List.foldl_cons, ih, attends_close, List.mem_cons]
      tauto

theorem attends_launch (application : Application σ) (ticket : Nat) (world : World σ)
    (other : Nat) :
    (world.launch application ticket).2.Attends other ↔ other = ticket ∨ world.Attends other := by
  have attended : ∀ status, world.status? ticket = some status →
      (world.Attends other ↔ other = ticket ∨ world.Attends other) := by
    intro status found
    refine ⟨.inr, ?_⟩
    rintro (rfl | before)
    · unfold Attends
      rw [found]
      exact Option.some_ne_none status
    · exact before
  unfold launch
  cases found : world.status? ticket with
  | none => exact attends_setStatus world ticket .running other
  | some status =>
      cases status with
      | running => exact attended _ found
      | settled => exact attended _ found
      | closed => exact attended _ found

theorem attends_record (world : World σ) (error : ResponseError) (ticket : Nat) :
    (world.record error).Attends ticket ↔ world.Attends ticket := by
  unfold record
  split <;> rfl

theorem invariant_attends (application : Application σ) (ticket : Nat) :
    Invariant application (Attends (σ := σ) · ticket) where
  ask held _ := held
  drain held _ := held
  perform := by
    intro world held effect
    cases effect with
    | record error => exact (attends_record world error ticket).2 held
    | close tickets => exact (attends_closeAll tickets world ticket).2 (.inr held)
    | _ => exact held
  launch held other := (attends_launch _ other _ ticket).2 (.inr held)
  fire := by
    intro world held timer _
    unfold fire
    cases timer.wake with
    | finish other => exact (attends_setStatus _ other .settled ticket).2 (.inr held)
    | refuse fault => exact held

end World

/-- What is known at the end of a run about the deferred results of the run. -/
structure Book (σ : Type) where
  final : World σ
  /-- The deferred results that nobody has to attend to. -/
  excused : Nat → Prop
  /-- Those that nobody attends to any more once the execution stops. -/
  skipped : Nat → Prop
  /-- The execution must not wait. -/
  strict : Prop
  /-- Something was waited for. -/
  waited : Prop

namespace Book

variable {σ : Type}

/-- An execution only stops if it must not wait, and at something that it gives up. -/
def Halted (book : Book σ) : Prop := book.strict ∧ ∃ ticket, book.final.Attends ticket

/-- A failure by which the execution may stop, if it does so at all. -/
def Allows (book : Book σ) (failure : Failure) : Prop :=
  failure.kind = .asynchronous → book.Halted

/-- An outcome that hands on no failure but those. -/
def Accepts (book : Book σ) (outcome : Outcome) : Prop :=
  ∀ failure, outcome.failure? = some failure → book.Allows failure

theorem Accepts.halted {book : Book σ} {outcome : Outcome} (accepts : book.Accepts outcome)
    (stops : outcome.Stops) : book.Halted := by
  obtain ⟨failure, rfl, stops⟩ := stops
  exact accepts failure rfl stops

/-- What is left to be attended to when a part of the execution has come to an outcome. -/
def leftAt (book : Book σ) (outcome : Outcome) (ticket : Nat) : Prop :=
  outcome.Stops ∧ book.skipped ticket

end Book

namespace Effect

/-- What is owed after an effect. -/
def owes (effect : Effect) (owed : Nat → Prop) (ticket : Nat) : Prop :=
  match effect with
  | .resolved _ value => owed ticket ∨ ticket ∈ value.ticket?.toList
  | .listed _ items => owed ticket ∨ ticket ∈ items.filterMap Value.ticket?
  | .close tickets => owed ticket ∧ ticket ∉ tickets
  | _ => owed ticket

/-- What an effect has left behind in the end. -/
def Shows {σ : Type} (final : World σ) : Effect → Prop
  | .resolved path value => final.Saw (.resolved path value)
  | .listed path items => final.Saw (.listed path items)
  | .close tickets => ∀ ticket ∈ tickets, final.Attends ticket
  | _ => True

end Effect

namespace Program

variable {σ : Type}

mutual

/-- A program that attends to everything that it owes and to everything that is handed over to it. -/
def Pays (book : Book σ) : (Nat → Prop) → Program → Prop
  | owed, .done outcome =>
    (∀ ticket, owed ticket → book.excused ticket ∨ book.leftAt outcome ticket)
      ∧ book.Accepts outcome
  | owed, .call asked next =>
    ∀ reply, book.final.account.called asked reply →
      Pays book (fun ticket => owed ticket ∨ ticket ∈ asked.hands reply) (next reply)
  | owed, .perform effect next => effect.Shows book.final → Pays book (effect.owes owed) next
  | owed, .consult _ next => ∀ found, Pays book owed (next found)
  | owed, .drain handle next =>
    ∀ items fault, book.final.account.drained handle items fault →
      Pays book (fun ticket => owed ticket ∨ ticket ∈ items.filterMap Value.ticket?)
        (next items fault)
  | owed, .wait tickets next =>
    tickets ≠ []
      ∧ (∀ ticket, owed ticket →
          book.excused ticket ∨ (ticket ∈ tickets ∧ (book.Halted → book.skipped ticket)))
      ∧ ∀ result, book.final.account.Awaited tickets result → book.waited →
          Pays book (fun _ => False) (next result)
  | owed, .join children next =>
    PayEach book owed children
      ∧ (∀ outcomes, (∀ outcome ∈ outcomes, book.Accepts outcome) →
          Pays book (fun _ => False) (next (.ok outcomes)))
      ∧ ∀ failure, failure.kind = .asynchronous → book.Halted →
          Pays book book.skipped (next (.error failure))

/-- Siblings that share what is owed. Those after one that stops are not even started. -/
def PayEach (book : Book σ) : (Nat → Prop) → List Program → Prop
  | owed, [] => ∀ ticket, owed ticket → book.excused ticket
  | owed, program :: rest =>
    ∃ here later : Nat → Prop,
      (∀ ticket, owed ticket → book.excused ticket ∨ here ticket ∨ later ticket)
        ∧ Pays book here program ∧ program.Ends book.final.account Outcome.Calm
        ∧ (book.Halted → ∀ ticket, later ticket → book.skipped ticket)
        ∧ PayEach book later rest

end

variable {book : Book σ} {owed : Nat → Prop}

mutual

theorem Pays.mono {owed less : Nat → Prop} (program : Program) (pays : program.Pays book owed)
    (fewer : ∀ ticket, less ticket → book.excused ticket ∨ owed ticket) :
    program.Pays book less := by
  match program with
  | .done outcome =>
      simp only [Pays] at pays ⊢
      refine ⟨fun ticket owes => ?_, pays.2⟩
      exact (fewer ticket owes).elim .inl (pays.1 ticket)
  | .call asked next =>
      simp only [Pays] at pays ⊢
      intro reply called
      refine Pays.mono (next reply) (pays reply called) fun ticket owes => ?_
      obtain before | handed := owes
      · exact (fewer ticket before).imp_right .inl
      · exact .inr (.inr handed)
  | .perform effect next =>
      simp only [Pays] at pays ⊢
      intro shows
      refine Pays.mono next (pays shows) fun ticket owes => ?_
      cases effect with
      | resolved path value => exact owes.elim (fun o => (fewer ticket o).imp_right .inl) (.inr ∘ .inr)
      | listed path items => exact owes.elim (fun o => (fewer ticket o).imp_right .inl) (.inr ∘ .inr)
      | close tickets => exact (fewer ticket owes.1).imp_right fun o => ⟨o, owes.2⟩
      | _ => exact fewer ticket owes
  | .consult key next =>
      simp only [Pays] at pays ⊢
      exact fun found => Pays.mono (next found) (pays found) fewer
  | .drain handle next =>
      simp only [Pays] at pays ⊢
      intro items fault drained
      refine Pays.mono (next items fault) (pays items fault drained) fun ticket owes => ?_
      obtain before | handed := owes
      · exact (fewer ticket before).imp_right .inl
      · exact .inr (.inr handed)
  | .wait tickets next =>
      simp only [Pays] at pays ⊢
      obtain ⟨some_, awaited, later⟩ := pays
      exact ⟨some_, fun ticket owes => (fewer ticket owes).elim .inl (awaited ticket), later⟩
  | .join children next =>
      simp only [Pays] at pays ⊢
      exact ⟨PayEach.mono children pays.1 fewer, pays.2⟩

theorem PayEach.mono {owed less : Nat → Prop} (programs : List Program)
    (pays : PayEach book owed programs)
    (fewer : ∀ ticket, less ticket → book.excused ticket ∨ owed ticket) :
    PayEach book less programs := by
  match programs with
  | [] =>
      simp only [PayEach] at pays ⊢
      exact fun ticket owes => (fewer ticket owes).elim id (pays ticket)
  | program :: rest =>
      simp only [PayEach] at pays ⊢
      obtain ⟨here, later, shared, pays⟩ := pays
      exact ⟨here, later, fun ticket owes => (fewer ticket owes).elim .inl (shared ticket), pays⟩

end

theorem pays_done {outcome : Outcome} (accepts : book.Accepts outcome) :
    (done outcome).Pays book fun _ => False := by
  simp only [Pays]
  exact ⟨fun ticket owes => owes.elim, accepts⟩

theorem pays_fail {failure : Failure} (allows : book.Allows failure) :
    (fail failure).Pays book fun _ => False := by
  refine pays_done fun other found => ?_
  cases found
  exact allows

theorem pays_succeed {value : Value} (none_ : Failure.ofValue? value = none) :
    (succeed value).Pays book fun _ => False := by
  refine pays_done fun failure found => ?_
  rw [Outcome.failure?, none_] at found
  cases found

/-- An outcome that is passed on is passed on with what it leaves undone. -/
theorem pays_left {outcome : Outcome} (accepts : book.Accepts outcome) :
    (done outcome).Pays book (book.leftAt outcome) := by
  simp only [Pays]
  exact ⟨fun ticket left => .inr left, accepts⟩

theorem leftAt_of_goesOn {failure : Failure} (goesOn : failure.kind ≠ .asynchronous)
    (ticket : Nat) : ¬ book.leftAt (.error failure) ticket :=
  fun ⟨stops, _⟩ => goesOn (Outcome.stops_error stops)

theorem leftAt_ok (value : Value) (ticket : Nat) : ¬ book.leftAt (.ok value) ticket :=
  fun ⟨stops, _⟩ => Outcome.not_stops_ok value stops

/-- Programs in sequence: the second takes over what the first one leaves. -/
theorem pays_andThen {owed : Nat → Prop} (program : Program) (next : Outcome → Program)
    (first : program.Pays book owed)
    (second : ∀ outcome, book.Accepts outcome →
      (next outcome).Pays book (book.leftAt outcome)) :
    (program.andThen next).Pays book owed := by
  match program with
  | .done outcome =>
      simp only [Pays] at first
      simp only [andThen]
      exact (second outcome first.2).mono _ first.1
  | .call asked reply =>
      simp only [andThen, Pays] at first ⊢
      exact fun answer called => pays_andThen (reply answer) next (first answer called) second
  | .perform effect rest =>
      simp only [andThen, Pays] at first ⊢
      exact fun shows => pays_andThen rest next (first shows) second
  | .consult key rest =>
      simp only [andThen, Pays] at first ⊢
      exact fun found => pays_andThen (rest found) next (first found) second
  | .drain handle rest =>
      simp only [andThen, Pays] at first ⊢
      exact fun items fault drained =>
        pays_andThen (rest items fault) next (first items fault drained) second
  | .wait tickets rest =>
      simp only [andThen, Pays] at first ⊢
      obtain ⟨some_, awaited, later⟩ := first
      exact ⟨some_, awaited, fun result came waited =>
        pays_andThen (rest result) next (later result came waited) second⟩
  | .join children rest =>
      simp only [andThen, Pays] at first ⊢
      obtain ⟨each, settled, stopped⟩ := first
      exact ⟨each, fun outcomes all => pays_andThen (rest _) next (settled outcomes all) second,
        fun failure stops halted => pays_andThen (rest _) next (stopped failure stops halted) second⟩

/-- Actions that only read: they hand nothing over, and their failures are allowed. -/
theorem pays_act {α : Type} (action : Action α) (next : Except Failure α → Program)
    (within : action.Within (fun asked => ∀ reply, asked.hands reply = []) book.Allows)
    (replies : ∀ asked failure, book.final.account.called asked (.error failure) →
      book.Allows failure)
    (each : ∀ value, action.Yields book.final.account (.ok value) →
      (next (.ok value)).Pays book owed)
    (failed : ∀ failure, book.Allows failure → (next (.error failure)).Pays book owed) :
    (act action next).Pays book owed := by
  induction action with
  | done result =>
      cases result with
      | ok value => exact each value rfl
      | error failure => exact failed failure (within failure rfl)
  | call asked reply ih =>
      simp only [act, Pays]
      intro answer called
      have well : Except.FailsWell book.Allows answer := by
        rintro failure rfl
        exact replies asked failure called
      have rest := ih answer (within.2 answer well) fun value yields =>
        each value ⟨answer, called, yields⟩
      refine rest.mono _ fun ticket owes => .inr ?_
      rw [within.1 answer] at owes
      exact owes.resolve_right List.not_mem_nil

theorem pays_closing {tickets : List Nat} {next : Program}
    (rest : (∀ ticket ∈ tickets, book.final.Attends ticket) → next.Pays book fun _ => False)
    (given : ∀ ticket, owed ticket → book.excused ticket ∨ ticket ∈ tickets) :
    (closing tickets next).Pays book owed := by
  unfold closing
  split
  · next none_ =>
      have empty : tickets = [] := by simpa using none_
      subst empty
      refine (rest (fun ticket member => by cases member)).mono _ fun ticket owes => ?_
      exact (given ticket owes).imp_right fun member => by cases member
  · simp only [Pays]
    intro shows
    refine (rest shows).mono _ fun ticket ⟨owes, kept⟩ => ?_
    exact (given ticket owes).imp_right kept

theorem pays_await {ticket : Nat} {next : Outcome → Program}
    (given : ∀ other, owed other → book.excused other ∨ (other = ticket ∧ ¬ book.Halted))
    (each : ∀ reply, book.final.account.came ticket reply → (next reply).Pays book fun _ => False) :
    (await ticket next).Pays book owed := by
  simp only [await, Pays]
  refine ⟨List.cons_ne_nil _ _, fun other owes => ?_, fun result awaited _ => ?_⟩
  · obtain excused | ⟨rfl, lenient⟩ := given other owes
    · exact .inl excused
    · exact .inr ⟨List.mem_cons_self, fun halted => absurd halted lenient⟩
  · cases result with
    | error failure =>
        obtain ⟨found, member, came⟩ := awaited
        rw [List.mem_singleton.1 member] at came
        exact each _ came
    | ok values =>
        obtain _ | ⟨came, _ | _⟩ := awaited
        exact each _ came

end Program

end GraphQL
