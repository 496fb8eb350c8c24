import GraphQL.Execution.Program

/-!
The world that a request runs in: the application and its state, a clock that jumps from one due
time to the next, the deferred results that are under way, the errors recorded so far and the
history of what happened.
-/

namespace GraphQL

/-- The application that answers calls, with a state of its own. -/
structure Application (σ : Type) where
  answer : Call → σ → Reply × σ
  /-- Takes everything out of an iterator. -/
  drain : Nat → σ → (List Value × Option Failure) × σ
  /-- How long a deferred result takes once it is waited for. -/
  delay : Nat → σ → Nat
  /-- What a deferred result comes to when its time is over. -/
  finish : Nat → σ → Reply × σ

inductive TicketStatus where
  | running
  | settled
  | closed
deriving DecidableEq, Repr

/-- What happens at a due time. -/
inductive Wake where
  | finish (ticket : Nat)
  /-- A deferred result was waited for a second time. -/
  | refuse (fault : ValueFault)

structure Timer where
  due : Nat
  waiter : Nat
  wake : Wake

inductive Event where
  | called (asked : Call) (reply : Reply)
  | drained (handle : Nat) (items : List Value) (fault : Option Failure)
  | resolving (path : ResponsePath)
  | resolved (path : ResponsePath) (value : Value)
  | listed (path : ResponsePath) (items : List Value)
  | recorded (error : ResponseError)
  | closed (ticket : Nat)
  | settled (ticket : Nat) (reply : Reply)
  /-- Something started to wait for a deferred result. -/
  | launched (waiter ticket : Nat)
  /-- What a waiter got. -/
  | delivered (waiter : Nat) (reply : Reply)

structure World (σ : Type) where
  state : σ
  clock : Nat := 0
  timers : List Timer := []
  nextWaiter : Nat := 0
  tickets : List (Nat × TicketStatus) := []
  errors : List ResponseError := []
  cache : List (SubfieldKey × Collected) := []
  /-- What happened and when, the latest first. -/
  past : List (Nat × Event) := []

/-- Whether two errors are one: the same error of the application, or the failure of a position. -/
def ResponseError.isSame (left right : ResponseError) : Bool :=
  match left.identity, right.identity with
  | some a, some b => a = b
  | none, none => left.path = right.path
  | _, _ => false

namespace World

variable {σ : Type}

def note (world : World σ) (event : Event) : World σ :=
  { world with past := (world.clock, event) :: world.past }

/-- What happened, the earliest first. -/
def history (world : World σ) : List (Nat × Event) := world.past.reverse

def ask (application : Application σ) (asked : Call) (world : World σ) : Reply × World σ :=
  let (reply, state) := application.answer asked world.state
  (reply, { world with state }.note (.called asked reply))

def drain (application : Application σ) (handle : Nat) (world : World σ) :
    (List Value × Option Failure) × World σ :=
  let (result, state) := application.drain handle world.state
  (result, { world with state }.note (.drained handle result.1 result.2))

def setStatus (world : World σ) (ticket : Nat) (status : TicketStatus) : World σ :=
  { world with tickets := (ticket, status) :: world.tickets }

def status? (world : World σ) (ticket : Nat) : Option TicketStatus := world.tickets.lookup ticket

/-- Records an error, unless it was recorded before. -/
def record (world : World σ) (error : ResponseError) : World σ :=
  if world.errors.any (·.isSame error) then world
  else { world with errors := world.errors ++ [error] }.note (.recorded error)

/-- Closes a deferred result that nothing waits for. -/
def close (world : World σ) (ticket : Nat) : World σ :=
  match world.status? ticket with
  | none => (world.setStatus ticket .closed).note (.closed ticket)
  | some _ => world

def perform (world : World σ) : Effect → World σ
  | .resolving path => world.note (.resolving path)
  | .resolved path value => world.note (.resolved path value)
  | .listed path items => world.note (.listed path items)
  | .record error => world.record error
  | .close tickets => tickets.foldl close world
  | .remember key fields => { world with cache := (key, fields) :: world.cache }

def consult (world : World σ) (key : SubfieldKey) : Option Collected :=
  (world.cache.find? fun entry => entry.1.equals key).map (·.2)

/-- Starts waiting for a deferred result. One that is waited for again fails. -/
def launch (application : Application σ) (ticket : Nat) (world : World σ) : Nat × World σ :=
  let waiter := world.nextWaiter
  let wait (due : Nat) (wake : Wake) (world : World σ) : World σ :=
    let timer : Timer := ⟨due, waiter, wake⟩
    { world with timers := world.timers ++ [timer], nextWaiter := waiter + 1 }.note
      (.launched waiter ticket)
  (waiter,
    match world.status? ticket with
    | none =>
      wait (world.clock + application.delay ticket world.state) (.finish ticket)
        (world.setStatus ticket .running)
    | some .running => wait world.clock (.refuse .deferredRunning) world
    | some _ => wait world.clock (.refuse .deferredReused) world)

/-- The timer that is due first; of several, the one that was set first. -/
def earliest : List Timer → Option Timer
  | [] => none
  | timer :: rest =>
    match earliest rest with
    | some other => if other.due < timer.due then some other else some timer
    | none => some timer

/-- Lets the time of a timer come. -/
def fire (application : Application σ) (timer : Timer) (world : World σ) : Reply × World σ :=
  let world := { world with
    clock := max world.clock timer.due
    timers := world.timers.filter (·.waiter != timer.waiter) }
  let deliver (reply : Reply) (world : World σ) : Reply × World σ :=
    (reply, world.note (.delivered timer.waiter reply))
  match timer.wake with
  | .finish ticket =>
    let (reply, state) := application.finish ticket world.state
    deliver reply (({ world with state }.setStatus ticket .settled).note (.settled ticket reply))
  | .refuse fault => deliver (.error (.value fault)) world

theorem earliest_mem {timers : List Timer} {timer : Timer} (found : earliest timers = some timer) :
    timer ∈ timers := by
  induction timers generalizing timer with
  | nil => cases found
  | cons head rest ih =>
    simp only [earliest] at found
    split at found
    · next other located =>
      split at found
      · cases found
        exact List.mem_cons_of_mem _ (ih located)
      · cases found
        exact List.mem_cons_self
    · cases found
      exact List.mem_cons_self

theorem fire_timers_lt {application : Application σ} {timer : Timer} {world : World σ}
    (pending : timer ∈ world.timers) :
    (world.fire application timer).2.timers.length < world.timers.length := by
  have fewer : (world.timers.filter (·.waiter != timer.waiter)).length < world.timers.length := by
    refine List.length_filter_lt_length_iff_exists.2 ⟨timer, pending, by simp⟩
  unfold fire
  split <;> exact fewer

end World

end GraphQL
