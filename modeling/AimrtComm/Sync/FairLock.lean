import AimrtComm.Lib.Transition

/-!
# A fair lock

What the mutex is for: a lock with a queue.  A free lock is acquired, a held lock is queued for,
and a holder that is done gives it to the first of the queue, or frees it when nobody waits.  The
state remembers who was queued and who was given the lock, in their order.
-/

namespace AimrtComm.Sync

/-- The state of a fair lock. -/
structure FairLock (α : Type*) where
  owner : Option α
  queue : List α
  /-- Everyone who was ever queued. -/
  enqueued : List α
  /-- Everyone who was ever given the lock from the queue. -/
  granted : List α

namespace FairLock

/-- What can happen to the lock. -/
inductive Event (α : Type*) where
  | acquire (c : α)
  | enqueue (c : α)
  | handOver
  | release

variable {α : Type*}

/-- The effect of an event. -/
def step (s : FairLock α) : Event α → Option (FairLock α)
  | .acquire c =>
    if s.owner.isNone then some { s with owner := some c } else none
  | .enqueue c =>
    if s.owner.isSome then
      some { s with queue := s.queue ++ [c], enqueued := s.enqueued ++ [c] }
    else none
  | .handOver =>
    match s.owner, s.queue with
    | some _, d :: queue => some { s with owner := some d, queue, granted := s.granted ++ [d] }
    | _, _ => none
  | .release =>
    match s.owner, s.queue with
    | some _, [] => some { s with owner := none }
    | _, _ => none

variable (α) in
/-- The lock as a system. -/
def system : System (FairLock α) (Event α) where
  init := { owner := none, queue := [], enqueued := [], granted := [] }
  step := step

/-- What a step can do to a lock: everyone who waits keeps waiting and only a free lock gets an
owner, or the lock is given to the first of the queue. -/
def Steps (s s' : FairLock α) : Prop :=
  (s'.granted = s.granted ∧ (∀ d ∈ s.queue, d ∈ s'.queue) ∧
      ∀ d, s'.owner = some d → s.owner = some d ∨ s.owner = none) ∨
    ∃ d queue, s.queue = d :: queue ∧ s'.queue = queue ∧ s'.owner = some d ∧
      s'.granted = s.granted ++ [d]

theorem steps_of_step {s s' : FairLock α} {e : Event α} (h : s.step e = some s') : s.Steps s' := by
  obtain ⟨owner, queue, enqueued, granted⟩ := s
  cases e with
  | acquire c =>
    simp only [step, Option.isNone_iff_eq_none, Option.ite_none_right_eq_some,
      Option.some.injEq] at h
    obtain ⟨hn, rfl⟩ := h
    exact .inl ⟨rfl, fun _ hd => hd, fun _ _ => .inr hn⟩
  | enqueue c =>
    simp only [step, Option.ite_none_right_eq_some, Option.some.injEq] at h
    obtain ⟨-, rfl⟩ := h
    exact .inl ⟨rfl, fun _ hd => List.mem_append_left _ hd, fun _ hd => .inl hd⟩
  | handOver =>
    rcases owner with - | c <;> rcases queue with - | ⟨d, queue⟩ <;>
      simp only [step, reduceCtorEq] at h
    obtain rfl := Option.some.inj h
    exact .inr ⟨d, queue, rfl, rfl, rfl, rfl⟩
  | release =>
    rcases owner with - | c <;> rcases queue with - | ⟨d, queue⟩ <;>
      simp only [step, reduceCtorEq] at h
    obtain rfl := Option.some.inj h
    exact .inl ⟨rfl, fun _ hd => hd, fun _ hd => by cases hd⟩

/-- Nobody waits for a free lock, and the queue is what was queued and not yet granted. -/
structure Inv (s : FairLock α) : Prop where
  free : s.owner = none → s.queue = []
  history : s.enqueued = s.granted ++ s.queue

theorem inv_step {s s' : FairLock α} {e : Event α} (hi : Inv s) (h : s.step e = some s') :
    Inv s' := by
  obtain ⟨owner, queue, enqueued, granted⟩ := s
  obtain ⟨hfree, hhist⟩ := hi
  simp only at hfree hhist
  cases e with
  | acquire c =>
    simp only [step, Option.isNone_iff_eq_none, Option.ite_none_right_eq_some,
      Option.some.injEq] at h
    obtain ⟨-, rfl⟩ := h
    exact ⟨by simp, hhist⟩
  | enqueue c =>
    simp only [step, Option.ite_none_right_eq_some, Option.some.injEq] at h
    obtain ⟨hs, rfl⟩ := h
    refine ⟨fun hn => ?_, by simp [hhist]⟩
    simp only at hn hs
    simp [hn] at hs
  | handOver =>
    rcases owner with - | c <;> rcases queue with - | ⟨d, queue⟩ <;>
      simp only [step, reduceCtorEq] at h
    obtain rfl := Option.some.inj h
    exact ⟨by simp, by simp [hhist]⟩
  | release =>
    rcases owner with - | c <;> rcases queue with - | ⟨d, queue⟩ <;>
      simp only [step, reduceCtorEq] at h
    obtain rfl := Option.some.inj h
    exact ⟨by simp, hhist⟩

/-- **The lock is fair**: it is given in the order of the queue, and taken only when nobody
waits. -/
theorem inv_of_reachable {s : FairLock α} (h : (system α).Reachable s) : Inv s :=
  h.invariant (I := Inv) ⟨fun _ => rfl, rfl⟩ fun _ _ _ hi he => inv_step hi he

end FairLock

end AimrtComm.Sync
