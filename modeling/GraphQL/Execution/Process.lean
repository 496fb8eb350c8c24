import GraphQL.Execution.World

/-!
Programs under way. `Process.start` carries a program out up to the points where it has to wait,
`Process.resume` hands one reply to the point that waits for it, and `Process.run` lets the clock
jump from one due time to the next until the program has its outcome.
-/

namespace GraphQL

/-- One of the results that a point waits for. -/
inductive Pending where
  /-- Not yet waited for. -/
  | ticket (ticket : Nat)
  | waiter (waiter : Nat)
  | arrived (value : Value)

inductive Process where
  | finished (outcome : Outcome)
  | waiting (slots : List Pending) (next : Except Failure (List Value) → Program)
  | joining (children : List Process) (next : Except Failure (List Outcome) → Program)

/-- Failures other than response errors end a join at once. -/
def Failure.isUrgent : Failure → Bool
  | .response _ => false
  | _ => true

namespace Process

variable {σ : Type}

/-- The outcomes of processes that are all finished. -/
def outcomes? : List Process → Option (List Outcome)
  | [] => some []
  | finished outcome :: rest => (outcomes? rest).map (outcome :: ·)
  | _ :: _ => none

def urgent? : Process → Option Failure
  | finished (.error failure) => if failure.isUrgent then some failure else none
  | _ => none

mutual

/-- Carries a program out until it is done or has to wait. -/
def start (application : Application σ) (program : Program) (world : World σ) :
    Process × World σ :=
  match program with
  | .done outcome => (finished outcome, world)
  | .call asked next =>
    let (reply, world) := world.ask application asked
    start application (next reply) world
  | .perform effect next => start application next (world.perform effect)
  | .consult key next => start application (next (world.consult key)) world
  | .drain handle next =>
    let ((items, fault), world) := world.drain application handle
    start application (next items fault) world
  | .wait [] next => start application (next (.ok [])) world
  | .wait tickets next => (waiting (tickets.map .ticket) next, world)
  | .join children next =>
    match startAll application children world with
    | (.error failure, world) => start application (next (.error failure)) world
    | (.ok processes, world) =>
      match outcomes? processes with
      | some outcomes => start application (next (.ok outcomes)) world
      | none => (joining processes next, world)

def startAll (application : Application σ) (programs : List Program) (world : World σ) :
    Except Failure (List Process) × World σ :=
  match programs with
  | [] => (.ok [], world)
  | program :: rest =>
    let (process, world) := start application program world
    match process.urgent? with
    | some failure => (.error failure, world)
    | none =>
      let (processes, world) := startAll application rest world
      (processes.map (process :: ·), world)

end

def launchSlots (application : Application σ) : List Pending → World σ → List Pending × World σ
  | [], world => ([], world)
  | .ticket ticket :: rest, world =>
    let (waiter, world) := world.launch application ticket
    let (rest, world) := launchSlots application rest world
    (.waiter waiter :: rest, world)
  | slot :: rest, world =>
    let (rest, world) := launchSlots application rest world
    (slot :: rest, world)

mutual

/-- Starts the clock of everything that a process has come to wait for. -/
def launch (application : Application σ) (process : Process) (world : World σ) :
    Process × World σ :=
  match process with
  | finished outcome => (finished outcome, world)
  | waiting slots next =>
    let (slots, world) := launchSlots application slots world
    (waiting slots next, world)
  | joining children next =>
    let (children, world) := launchAll application children world
    (joining children next, world)

def launchAll (application : Application σ) (processes : List Process) (world : World σ) :
    List Process × World σ :=
  match processes with
  | [] => ([], world)
  | process :: rest =>
    let (process, world) := launch application process world
    let (rest, world) := launchAll application rest world
    (process :: rest, world)

end

/-- Starts a program and the clocks of what it waits for. -/
def begin (application : Application σ) (program : Program) (world : World σ) :
    Process × World σ :=
  let (process, world) := start application program world
  launch application process world

def isWaiter (waiter : Nat) : Pending → Bool
  | .waiter other => other = waiter
  | _ => false

def isOpen : Pending → Bool
  | .arrived _ => false
  | _ => true

/-- How many slots have no value yet. -/
def openSlots : List Pending → Nat
  | [] => 0
  | slot :: rest => (if isOpen slot then 1 else 0) + openSlots rest

/-- Puts a value where a waiter waits. -/
def fill (waiter : Nat) (value : Value) (slots : List Pending) : List Pending :=
  slots.map fun slot => if isWaiter waiter slot then .arrived value else slot

def arrivals? (slots : List Pending) : Option (List Value) :=
  slots.mapM fun
    | .arrived value => some value
    | _ => none

mutual

/-- Hands a reply to the point that waits for it, if there still is one. -/
def resume (application : Application σ) (waiter : Nat) (reply : Reply) (process : Process)
    (world : World σ) : Option (Process × World σ) :=
  match process with
  | finished _ => none
  | waiting slots next =>
    if slots.any (isWaiter waiter) then
      match reply with
      | .error failure => some (begin application (next (.error failure)) world)
      | .ok value =>
        match arrivals? (fill waiter value slots) with
        | some values => some (begin application (next (.ok values)) world)
        | none => some (waiting (fill waiter value slots) next, world)
    else none
  | joining children next =>
    match resumeAny application waiter reply children world with
    | none => none
    | some (children, world) =>
      match outcomes? children with
      | some outcomes => some (begin application (next (.ok outcomes)) world)
      | none => some (joining children next, world)

def resumeAny (application : Application σ) (waiter : Nat) (reply : Reply)
    (processes : List Process) (world : World σ) : Option (List Process × World σ) :=
  match processes with
  | [] => none
  | process :: rest =>
    match resume application waiter reply process world with
    | some (process, world) => some (process :: rest, world)
    | none =>
      match resumeAny application waiter reply rest world with
      | some (rest, world) => some (process :: rest, world)
      | none => none

end

/-- A process that a program can become when it is started. -/
inductive Started : Program → Process → Prop where
  | done (outcome : Outcome) : Started (.done outcome) (finished outcome)
  | call {asked next process} (reply : Reply) :
    Started (next reply) process → Started (.call asked next) process
  | perform {effect next process} : Started next process → Started (.perform effect next) process
  | consult {key next process} (found : Option Collected) :
    Started (next found) process → Started (.consult key next) process
  | drain {handle next process} (items : List Value) (fault : Option Failure) :
    Started (next items fault) process → Started (.drain handle next) process
  | wait {tickets next} (slots : List Pending) : Started (.wait tickets next) (waiting slots next)
  | waited {tickets next process} (result : Except Failure (List Value)) :
    Started (next result) process → Started (.wait tickets next) process
  | join {children next processes} (origin : Process → Program)
    (inside : ∀ process ∈ processes, origin process ∈ children)
    (each : ∀ process ∈ processes, Started (origin process) process) :
    Started (.join children next) (joining processes next)
  | joined {children next process} (settled : Except Failure (List Outcome)) :
    Started (next settled) process → Started (.join children next) process

/-- Joined processes each come from one of the joined programs. -/
theorem Started.ofChildren {children : List Program} {processes : List Process}
    {next : Except Failure (List Outcome) → Program}
    (each : ∀ process ∈ processes, ∃ child ∈ children, Started child process) :
    Started (.join children next) (joining processes next) := by
  classical
  refine .join (fun process => if h : ∃ child ∈ children, Started child process then h.choose
    else .done (.ok .null)) (fun process mem => ?_) (fun process mem => ?_)
  · simp only [each process mem, dif_pos]
    exact (each process mem).choose_spec.1
  · simp only [each process mem, dif_pos]
    exact (each process mem).choose_spec.2

mutual

theorem started_start (application : Application σ) (program : Program) (world : World σ) :
    Started program (start application program world).1 := by
  match program with
  | .done outcome => exact .done outcome
  | .call asked next =>
    simp only [start]
    exact .call _ (started_start application (next _) _)
  | .perform effect next =>
    simp only [start]
    exact .perform (started_start application next _)
  | .consult key next =>
    simp only [start]
    exact .consult _ (started_start application (next _) _)
  | .drain handle next =>
    simp only [start]
    exact .drain _ _ (started_start application (next _ _) _)
  | .wait [] next =>
    simp only [start]
    exact .waited _ (started_start application (next _) _)
  | .wait (ticket :: tickets) next =>
    simp only [start]
    exact .wait _
  | .join children next =>
    have each := started_startAll application children world
    simp only [start]
    split
    · exact .joined _ (started_start application (next _) _)
    · next processes after started =>
      split
      · exact .joined _ (started_start application (next _) _)
      · exact .ofChildren fun process mem => each processes (by rw [started]) process mem

theorem started_startAll (application : Application σ) (programs : List Program)
    (world : World σ) (processes : List Process)
    (started : (startAll application programs world).1 = .ok processes) :
    ∀ process ∈ processes, ∃ program ∈ programs, Started program process := by
  match programs with
  | [] =>
    simp only [startAll, Except.ok.injEq] at started
    subst started
    intro process mem
    cases mem
  | program :: rest =>
    simp only [startAll] at started
    split at started
    · cases started
    · have head := started_start application program world
      have tail := started_startAll application rest (start application program world).2
      generalize startAll application rest (start application program world).2 = after at *
      obtain ⟨result, world⟩ := after
      cases result with
      | error failure => cases started
      | ok others =>
        simp only [Except.map, Except.ok.injEq] at started
        subst started
        intro process mem
        rcases List.mem_cons.1 mem with rfl | later
        · exact ⟨program, List.mem_cons_self, head⟩
        · obtain ⟨found, inside, from_⟩ := tail others rfl process later
          exact ⟨found, List.mem_cons_of_mem _ inside, from_⟩

end

theorem mem_launchAll (application : Application σ) {processes : List Process} {world : World σ}
    {process : Process} (mem : process ∈ (launchAll application processes world).1) :
    ∃ before ∈ processes, ∃ world, process = (launch application before world).1 := by
  induction processes generalizing world with
  | nil => simp [launchAll] at mem
  | cons first rest ih =>
    simp only [launchAll] at mem
    rcases List.mem_cons.1 mem with rfl | later
    · exact ⟨first, List.mem_cons_self, world, rfl⟩
    · obtain ⟨before, inside, found⟩ := ih later
      exact ⟨before, List.mem_cons_of_mem _ inside, found⟩

theorem started_launch (application : Application σ) {program : Program} {process : Process}
    (started : Started program process) (world : World σ) :
    Started program (launch application process world).1 := by
  induction started generalizing world with
  | done outcome => exact .done outcome
  | call reply _ ih => exact .call reply (ih world)
  | perform _ ih => exact .perform (ih world)
  | consult found _ ih => exact .consult found (ih world)
  | drain items fault _ ih => exact .drain items fault (ih world)
  | wait slots => exact .wait _
  | waited result _ ih => exact .waited result (ih world)
  | join origin inside each ih =>
    simp only [launch]
    refine .ofChildren fun process mem => ?_
    obtain ⟨before, found, world, rfl⟩ := mem_launchAll application mem
    exact ⟨origin before, inside before found, ih before found world⟩
  | joined settled _ ih => exact .joined settled (ih world)

theorem started_begin (application : Application σ) (program : Program) (world : World σ) :
    Started program (begin application program world).1 :=
  started_launch application (started_start application program world) _

/-- What a process can become when a reply is handed to it. -/
inductive Follows : Process → Process → Prop where
  | arrived {before after next} :
    openSlots after < openSlots before → Follows (waiting after next) (waiting before next)
  | waited {slots next process} (result : Except Failure (List Value)) :
    Started (next result) process → Follows process (waiting slots next)
  | child {front back next before after} :
    Follows after before →
      Follows (joining (front ++ after :: back) next) (joining (front ++ before :: back) next)
  | joined {children next process} (settled : Except Failure (List Outcome)) :
    Started (next settled) process → Follows process (joining children next)

theorem acc_waiting {next : Except Failure (List Value) → Program}
    (rest : ∀ result process, Started (next result) process → Acc Follows process)
    (slots : List Pending) : Acc Follows (waiting slots next) := by
  generalize size : openSlots slots = count
  induction count using Nat.strongRecOn generalizing slots with
  | ind count ih =>
    refine .intro _ fun process follows => ?_
    cases follows with
    | arrived fewer => exact ih _ (size ▸ fewer) _ rfl
    | waited result started => exact rest result process started

/-- One of several processes is followed by another. -/
def FollowsOne (after before : List Process) : Prop :=
  ∃ front old new back, before = front ++ old :: back ∧ after = front ++ new :: back
    ∧ Follows new old

theorem acc_followsOne {processes : List Process}
    (each : ∀ process ∈ processes, Acc Follows process) : Acc FollowsOne processes := by
  induction processes with
  | nil =>
    refine .intro _ fun after follows => ?_
    obtain ⟨front, old, new, back, split, _⟩ := follows
    exact absurd split (by simp)
  | cons first rest ih =>
    have head := each first List.mem_cons_self
    have tail := ih fun process mem => each process (List.mem_cons_of_mem _ mem)
    clear ih each
    induction head generalizing rest with
    | intro first _ ihHead =>
      induction tail with
      | intro rest restAcc ihTail =>
        refine .intro _ fun after follows => ?_
        obtain ⟨front, old, new, back, split, rfl, step⟩ := follows
        cases front with
        | nil =>
          simp only [List.nil_append, List.cons.injEq] at split
          obtain ⟨rfl, rfl⟩ := split
          exact ihHead new step _ (.intro _ restAcc)
        | cons head front =>
          simp only [List.cons_append, List.cons.injEq] at split
          obtain ⟨rfl, rfl⟩ := split
          exact ihTail _ ⟨front, old, new, back, rfl, rfl, step⟩

theorem acc_joining {next : Except Failure (List Outcome) → Program}
    (rest : ∀ settled process, Started (next settled) process → Acc Follows process)
    {children : List Process} (each : ∀ child ∈ children, Acc Follows child) :
    Acc Follows (joining children next) := by
  have steps := acc_followsOne each
  clear each
  induction steps with
  | intro children _ ih =>
    refine .intro _ fun process follows => ?_
    cases follows with
    | child step => exact ih _ ⟨_, _, _, _, rfl, rfl, step⟩
    | joined settled started => exact rest settled process started

mutual

theorem acc_of_started (program : Program) (process : Process)
    (started : Started program process) : Acc Follows process := by
  match program, started with
  | .done outcome, .done _ => exact .intro _ fun _ follows => nomatch follows
  | .call asked next, .call reply from_ => exact acc_of_started (next reply) process from_
  | .perform effect next, .perform from_ => exact acc_of_started next process from_
  | .consult key next, .consult found from_ => exact acc_of_started (next found) process from_
  | .drain handle next, .drain items fault from_ =>
    exact acc_of_started (next items fault) process from_
  | .wait tickets next, .wait slots =>
    exact acc_waiting (fun result => acc_of_started (next result)) slots
  | .wait tickets next, .waited result from_ => exact acc_of_started (next result) process from_
  | .join children next, .join origin inside each =>
    exact acc_joining (fun settled => acc_of_started (next settled)) fun child mem =>
      acc_of_startedIn children child (origin child) (inside child mem) (each child mem)
  | .join children next, .joined settled from_ =>
    exact acc_of_started (next settled) process from_

theorem acc_of_startedIn (programs : List Program) (process : Process) (program : Program)
    (inside : program ∈ programs) (started : Started program process) : Acc Follows process := by
  match programs with
  | [] => cases inside
  | first :: rest =>
    rcases List.mem_cons.1 inside with same | later
    · exact acc_of_started first process (same ▸ started)
    · exact acc_of_startedIn rest process program later started

end

mutual

/-- Every process comes to an end, whatever the replies are. -/
theorem acc_follows (process : Process) : Acc Follows process := by
  match process with
  | finished outcome => exact .intro _ fun _ follows => nomatch follows
  | waiting slots next => exact acc_waiting (fun result => acc_of_started (next result)) slots
  | joining children next =>
    exact acc_joining (fun settled => acc_of_started (next settled)) (acc_follows_all children)

theorem acc_follows_all (processes : List Process) :
    ∀ process ∈ processes, Acc Follows process := by
  match processes with
  | [] => intro process mem; cases mem
  | first :: rest =>
    intro process mem
    rcases List.mem_cons.1 mem with same | later
    · exact same ▸ acc_follows first
    · exact acc_follows_all rest process later

end

instance : WellFoundedRelation Process := ⟨Follows, ⟨acc_follows⟩⟩

theorem fill_cons (waiter : Nat) (value : Value) (slot : Pending) (rest : List Pending) :
    fill waiter value (slot :: rest)
      = (if isWaiter waiter slot then .arrived value else slot) :: fill waiter value rest := rfl

theorem isOpen_of_isWaiter {waiter : Nat} {slot : Pending} (waits : isWaiter waiter slot = true) :
    isOpen slot = true := by
  cases slot <;> simp_all [isWaiter, isOpen]

theorem openSlots_fill_le (waiter : Nat) (value : Value) (slots : List Pending) :
    openSlots (fill waiter value slots) ≤ openSlots slots := by
  induction slots with
  | nil => exact Nat.le_refl _
  | cons slot rest ih =>
    simp only [fill_cons, openSlots]
    cases waits : isWaiter waiter slot with
    | true => simp [isOpen]; omega
    | false => simpa using ih

theorem openSlots_fill_lt {waiter : Nat} {value : Value} {slots : List Pending}
    (found : slots.any (isWaiter waiter) = true) :
    openSlots (fill waiter value slots) < openSlots slots := by
  induction slots with
  | nil => cases found
  | cons slot rest ih =>
    have below := openSlots_fill_le waiter value rest
    simp only [fill_cons, openSlots]
    cases waits : isWaiter waiter slot with
    | true =>
      simp only [if_true, isOpen_of_isWaiter waits]
      simp only [isOpen, Bool.false_eq_true, if_false]
      omega
    | false =>
      have later := ih (by simpa [waits] using found)
      simpa using later

mutual

theorem follows_resume (application : Application σ) (waiter : Nat) (reply : Reply)
    (process : Process) (world : World σ) (after : Process × World σ)
    (resumed : resume application waiter reply process world = some after) :
    Follows after.1 process := by
  match process with
  | finished _ => simp [resume] at resumed
  | waiting slots next =>
    simp only [resume] at resumed
    split at resumed
    · next found =>
      split at resumed
      · cases resumed
        exact .waited _ (started_begin application _ world)
      · split at resumed
        · cases resumed
          exact .waited _ (started_begin application _ world)
        · cases resumed
          exact .arrived (openSlots_fill_lt found)
    · cases resumed
  | joining children next =>
    have step := followsOne_resumeAny application waiter reply children world
    simp only [resume] at resumed
    split at resumed
    · cases resumed
    · next processes later found =>
      split at resumed
      · cases resumed
        exact .joined _ (started_begin application _ _)
      · cases resumed
        obtain ⟨front, old, new, back, rfl, same, follows⟩ := step _ found
        simp only at same
        subst same
        exact .child follows

theorem followsOne_resumeAny (application : Application σ) (waiter : Nat) (reply : Reply)
    (processes : List Process) (world : World σ) (after : List Process × World σ)
    (resumed : resumeAny application waiter reply processes world = some after) :
    FollowsOne after.1 processes := by
  match processes with
  | [] => simp [resumeAny] at resumed
  | process :: rest =>
    have here := follows_resume application waiter reply process world
    have later := followsOne_resumeAny application waiter reply rest world
    simp only [resumeAny] at resumed
    split at resumed
    · next new changed found =>
      cases resumed
      exact ⟨[], process, new, rest, rfl, rfl, here _ found⟩
    · split at resumed
      · next others changed found =>
        cases resumed
        obtain ⟨front, old, new, back, rfl, same, follows⟩ := later _ found
        simp only at same
        subst same
        exact ⟨process :: front, old, new, back, rfl, rfl, follows⟩
      · cases resumed

end

/-- Lets time pass until a process is finished. -/
def run (application : Application σ) (process : Process) (world : World σ) : Outcome × World σ :=
  match process with
  | finished outcome => (outcome, world)
  | process =>
    match _ : World.earliest world.timers with
    | none => (.error .asynchronous, world)
    | some timer =>
      match _ : resume application timer.waiter (world.fire application timer).1 process
          (world.fire application timer).2 with
      | none => run application process (world.fire application timer).2
      | some (after, world) => run application after world
termination_by (process, world.timers.length)
decreasing_by
  · exact Prod.Lex.right _ (World.fire_timers_lt (World.earliest_mem (by assumption)))
  · exact Prod.Lex.left _ _ (follows_resume application _ _ _ _ _ (by assumption))

end Process

end GraphQL
