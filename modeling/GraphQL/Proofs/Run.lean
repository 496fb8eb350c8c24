import GraphQL.Proofs.Account

/-!
Runs under accounts. The history of a run is an account of the application, and whatever a process
ends with under it, its program comes to. The proofs go backwards from the end of the run: each step
keeps what the steps after it come to.
-/

namespace GraphQL

theorem ResponseError.isSame_refl (error : ResponseError) : error.isSame error = true := by
  cases identity : error.identity <;> simp [isSame, identity]

namespace World

variable {σ : Type}

/-- Whether something happened at any time. -/
def Saw (world : World σ) (event : Event) : Prop := ∃ time, (time, event) ∈ world.past

/-- The account that the history of a run gives. -/
def account (world : World σ) : Account where
  called asked reply := world.Saw (.called asked reply)
  drained handle items fault := world.Saw (.drained handle items fault)
  came ticket reply :=
    ∃ waiter, world.Saw (.launched waiter ticket) ∧ world.Saw (.delivered waiter reply)
  remembered key fields := (key, fields) ∈ world.cache

/-- No error is recorded twice. -/
def Apart (world : World σ) : Prop :=
  world.errors.Pairwise fun earlier later => earlier.isSame later = false

/-- Whether a world can have become another one. -/
structure Leads (before after : World σ) : Prop where
  past : before.past ⊆ after.past
  cache : before.cache ⊆ after.cache
  errors : before.errors ⊆ after.errors
  apart : before.Apart → after.Apart

theorem Leads.refl (world : World σ) : world.Leads world :=
  ⟨List.Subset.refl _, List.Subset.refl _, List.Subset.refl _, fun apart => apart⟩

theorem leads_of_past {before after : World σ} (past : before.past ⊆ after.past)
    (cache : after.cache = before.cache) (errors : after.errors = before.errors) :
    before.Leads after :=
  ⟨past, by rw [cache]; exact List.Subset.refl _, by rw [errors]; exact List.Subset.refl _,
    fun apart => by rw [Apart, errors]; exact apart⟩

theorem Leads.trans {first second third : World σ} (left : first.Leads second)
    (right : second.Leads third) : first.Leads third :=
  ⟨List.Subset.trans left.past right.past, List.Subset.trans left.cache right.cache,
    List.Subset.trans left.errors right.errors, fun apart => right.apart (left.apart apart)⟩

theorem Leads.saw {before after : World σ} (leads : before.Leads after) {event : Event}
    (saw : before.Saw event) : after.Saw event := by
  rcases saw with ⟨time, member⟩
  exact ⟨time, leads.past member⟩

theorem leads_note (world : World σ) (event : Event) : world.Leads (world.note event) :=
  leads_of_past (List.subset_cons_self _ _) rfl rfl

theorem saw_note (world : World σ) (event : Event) : (world.note event).Saw event :=
  ⟨world.clock, List.mem_cons_self⟩

theorem leads_ask (application : Application σ) (asked : Call) (world : World σ) :
    world.Leads (world.ask application asked).2 :=
  leads_of_past (List.subset_cons_self _ _) rfl rfl

theorem saw_ask (application : Application σ) (asked : Call) (world : World σ) :
    (world.ask application asked).2.Saw (.called asked (world.ask application asked).1) :=
  ⟨world.clock, List.mem_cons_self⟩

theorem leads_drain (application : Application σ) (handle : Nat) (world : World σ) :
    world.Leads (world.drain application handle).2 :=
  leads_of_past (List.subset_cons_self _ _) rfl rfl

theorem saw_drain (application : Application σ) (handle : Nat) (world : World σ) :
    (world.drain application handle).2.Saw
      (.drained handle (world.drain application handle).1.1
        (world.drain application handle).1.2) :=
  ⟨world.clock, List.mem_cons_self⟩

theorem leads_record (world : World σ) (error : ResponseError) :
    world.Leads (world.record error) := by
  unfold record
  split
  · exact .refl world
  · next fresh =>
      refine ⟨List.subset_cons_self _ _, List.Subset.refl _, List.subset_append_left _ _, ?_⟩
      intro apart
      refine List.pairwise_append.2 ⟨apart, List.pairwise_singleton _ _, ?_⟩
      intro earlier member later new
      rw [List.mem_singleton.1 new]
      simpa using List.any_eq_false.1 (Bool.eq_false_iff.2 fresh) earlier member

theorem leads_close (world : World σ) (ticket : Nat) : world.Leads (world.close ticket) := by
  unfold close
  split
  · exact leads_of_past (List.subset_cons_self _ _) rfl rfl
  · exact .refl world

theorem errors_close (world : World σ) (ticket : Nat) :
    (world.close ticket).errors = world.errors := by
  unfold close
  split <;> rfl

theorem leads_closeAll (tickets : List Nat) (world : World σ) :
    world.Leads (tickets.foldl close world) := by
  induction tickets generalizing world with
  | nil => exact .refl world
  | cons ticket rest ih => exact (leads_close world ticket).trans (ih (world.close ticket))

theorem errors_closeAll (tickets : List Nat) (world : World σ) :
    (tickets.foldl close world).errors = world.errors := by
  induction tickets generalizing world with
  | nil => rfl
  | cons ticket rest ih =>
      rw [List.foldl_cons, ih, errors_close]

theorem leads_perform (world : World σ) (effect : Effect) : world.Leads (world.perform effect) := by
  cases effect with
  | resolving path => exact leads_note world _
  | resolved path value => exact leads_note world _
  | listed path items => exact leads_note world _
  | record error => exact leads_record world error
  | close tickets => exact leads_closeAll tickets world
  | remember key fields =>
      exact ⟨List.Subset.refl _, List.subset_cons_self _ _, List.Subset.refl _, fun apart => apart⟩

theorem errors_record_sub (world : World σ) (error : ResponseError) :
    ∀ e ∈ (world.record error).errors, e ∈ world.errors ∨ e = error := by
  intro e member
  unfold record at member
  split at member
  · exact .inl member
  · simpa [note] using member

theorem errors_record_same (world : World σ) (error : ResponseError) :
    ∃ e ∈ (world.record error).errors, e.isSame error = true := by
  unfold record
  split
  · next found => simpa using found
  · exact ⟨error, by simp [note], error.isSame_refl⟩

theorem leads_launch (application : Application σ) (ticket : Nat) (world : World σ) :
    world.Leads (world.launch application ticket).2 := by
  unfold launch
  cases world.status? ticket with
  | none => exact leads_of_past (List.subset_cons_self _ _) rfl rfl
  | some status =>
      cases status <;>
        exact leads_of_past (List.subset_cons_self _ _) rfl rfl

theorem errors_launch (application : Application σ) (ticket : Nat) (world : World σ) :
    (world.launch application ticket).2.errors = world.errors := by
  unfold launch
  cases world.status? ticket with
  | none => rfl
  | some status => cases status <;> rfl

theorem saw_launch (application : Application σ) (ticket : Nat) (world : World σ) :
    (world.launch application ticket).2.Saw
      (.launched (world.launch application ticket).1 ticket) := by
  unfold launch
  cases world.status? ticket with
  | none => exact ⟨world.clock, List.mem_cons_self⟩
  | some status => cases status <;> exact ⟨world.clock, List.mem_cons_self⟩

theorem leads_fire (application : Application σ) (timer : Timer) (world : World σ) :
    world.Leads (world.fire application timer).2 := by
  unfold fire
  cases timer.wake with
  | finish ticket =>
      exact leads_of_past
        (List.Subset.trans (List.subset_cons_self _ _) (List.subset_cons_self _ _)) rfl rfl
  | refuse fault => exact leads_of_past (List.subset_cons_self _ _) rfl rfl

theorem errors_fire (application : Application σ) (timer : Timer) (world : World σ) :
    (world.fire application timer).2.errors = world.errors := by
  unfold fire
  cases timer.wake <;> rfl

theorem saw_fire (application : Application σ) (timer : Timer) (world : World σ) :
    (world.fire application timer).2.Saw
      (.delivered timer.waiter (world.fire application timer).1) := by
  unfold fire
  cases timer.wake <;> exact ⟨_, List.mem_cons_self⟩

/-- What is recorded between two worlds, and what is still to be recorded. -/
structure Splits (before after : World σ) (recorded future : List ResponseError) : Prop where
  kept : before.errors ⊆ after.errors
  sound : ∀ error ∈ after.errors, error ∈ before.errors ∨ error ∈ recorded
  complete : ∀ error ∈ recorded, (∃ same ∈ after.errors, same.isSame error = true) ∨ error ∈ future
  later : future ⊆ recorded

theorem Splits.refl (world : World σ) (future : List ResponseError) :
    world.Splits world future future :=
  ⟨List.Subset.refl _, fun _ member => .inl member, fun _ member => .inr member,
    List.Subset.refl _⟩

theorem Splits.of_errors {before after : World σ} (same : after.errors = before.errors)
    (future : List ResponseError) : before.Splits after future future :=
  ⟨by rw [same]; exact List.Subset.refl _, fun _ member => .inl (same ▸ member),
    fun _ member => .inr member, List.Subset.refl _⟩

theorem Splits.trans {first second third : World σ} {recorded middle future : List ResponseError}
    (left : first.Splits second recorded middle) (right : second.Splits third middle future) :
    first.Splits third recorded future := by
  refine ⟨List.Subset.trans left.kept right.kept, ?_, ?_,
    List.Subset.trans right.later left.later⟩
  · intro error member
    rcases right.sound error member with before | found
    · exact left.sound error before
    · exact .inr (left.later found)
  · intro error member
    rcases left.complete error member with ⟨same, kept, alike⟩ | found
    · exact .inl ⟨same, right.kept kept, alike⟩
    · exact right.complete error found

/-- Two stretches of a run whose futures are apart. -/
theorem Splits.append {first second third : World σ}
    {recorded recorded' future future' : List ResponseError}
    (left : first.Splits second recorded future) (right : second.Splits third recorded' future') :
    first.Splits third (recorded ++ recorded') (future ++ future') := by
  refine ⟨List.Subset.trans left.kept right.kept, ?_, ?_, ?_⟩
  · intro error member
    rcases right.sound error member with before | found
    · rcases left.sound error before with earlier | found
      · exact .inl earlier
      · exact .inr (List.mem_append_left _ found)
    · exact .inr (List.mem_append_right _ found)
  · intro error member
    rcases List.mem_append.1 member with found | found
    · rcases left.complete error found with ⟨same, kept, alike⟩ | later
      · exact .inl ⟨same, right.kept kept, alike⟩
      · exact .inr (List.mem_append_left _ later)
    · rcases right.complete error found with alike | later
      · exact .inl alike
      · exact .inr (List.mem_append_right _ later)
  · intro error member
    rcases List.mem_append.1 member with found | found
    · exact List.mem_append_left _ (left.later found)
    · exact List.mem_append_right _ (right.later found)

/-- What was recorded by parts that are given up counts as recorded. -/
theorem Splits.given_up {first second third : World σ} {recorded future : List ResponseError}
    (kept : first.errors ⊆ second.errors) (right : second.Splits third recorded future) :
    first.Splits third (second.errors ++ recorded) future := by
  refine ⟨List.Subset.trans kept right.kept, ?_, ?_,
    List.Subset.trans right.later (List.subset_append_right _ _)⟩
  · intro error member
    rcases right.sound error member with before | found
    · exact .inr (List.mem_append_left _ before)
    · exact .inr (List.mem_append_right _ found)
  · intro error member
    rcases List.mem_append.1 member with found | found
    · exact .inl ⟨error, right.kept found, error.isSame_refl⟩
    · exact right.complete error found

theorem splits_ask (application : Application σ) (asked : Call) (world : World σ)
    (future : List ResponseError) : world.Splits (world.ask application asked).2 future future :=
  .of_errors (show (world.ask application asked).2.errors = world.errors from rfl) future

theorem splits_drain (application : Application σ) (handle : Nat) (world : World σ)
    (future : List ResponseError) : world.Splits (world.drain application handle).2 future future :=
  .of_errors (show (world.drain application handle).2.errors = world.errors from rfl) future

theorem splits_perform (world : World σ) (effect : Effect) (future : List ResponseError) :
    world.Splits (world.perform effect) (effect.errors ++ future) future := by
  refine ⟨(leads_perform world effect).errors, ?_, ?_, List.subset_append_right _ _⟩
  · intro error member
    cases effect with
    | record made =>
        rcases errors_record_sub world made error member with before | same
        · exact .inl before
        · exact .inr (by simp [Effect.errors, same])
    | resolving path => exact .inl member
    | resolved path value => exact .inl member
    | listed path items => exact .inl member
    | close tickets => exact .inl (errors_closeAll tickets world ▸ member)
    | remember key fields => exact .inl member
  · intro error member
    rcases List.mem_append.1 member with found | later
    · cases effect with
      | record made =>
          rw [Effect.errors, List.mem_singleton] at found
          exact .inl (found ▸ errors_record_same world made)
      | _ => cases found
    · exact .inr later

end World

end GraphQL
