import AimrtComm.Core.Coroutine

/-!
## When coroutines run in their own contexts

A resumption puts the context of the coroutine back, so that what a thread has is the context of
the coroutine that was last resumed on it (`Thread.Inv`).  There are two ways for a body to go on
without a resumption: `Post` returns into it, having prepared the context of another coroutine; and
`Inline`, `Sync` or a resumption that was called in the body return, after other coroutines have
run on the thread.  `InContext` says of these steps when the body still finds its own context.
-/

namespace AimrtComm.Core

open Function

variable {T R : Type*}

/-! ### Threads -/

namespace Thread

variable {t : Thread R}

/-- The invariant of a thread. -/
structure Inv (t : Thread R) : Prop where
  /-- A thread that is in use has the context of the coroutine that was last resumed on it. -/
  last : t.stack ≠ [] → ∃ d, t.lastRun = some d ∧ t.ctx = d.ctx
  own : t.InOwnContext

/-- When the top of the stack returns into a body, the coroutine that was last resumed on the
thread was created in the same context as the one of the body. -/
def ReturnsInContext (t : Thread R) : Prop :=
  ∀ top c stack, t.stack = top :: .body c :: stack → ∀ d, t.lastRun = some d → d.ctx = c.ctx

/-- The executor that a body posts to is the one that it was created with, and it handles no
rpc. -/
def PostsInContext (t : Thread R) (exe : Executor) : Prop :=
  ∀ c stack, t.stack = .body c :: stack → c.ctx.exe = exe ∧ c.ctx.activeRpcContext = none

/-- What a body reads of its thread is then its own: the executor that it sleeps on, the context
that the coroutines capture which it creates, and the parent of its calls. -/
theorem InOwnContext.observed (ht : t.InOwnContext) {c : Coroutine R} {stack : List (Frame R)}
    (hstack : t.stack = .body c :: stack) : t.executor = c.ctx.exe ∧ t.captured = c.ctx ∧
      t.parentRpcContext = c.ctx.activeRpcContext := by
  have hctx : t.ctx = c.ctx := ht c stack hstack
  exact ⟨congrArg ThreadContext.exe hctx, hctx, congrArg ThreadContext.activeRpcContext hctx⟩

/-- A thread outside of coroutines. -/
theorem Inv.of_nil (h : t.stack = []) : t.Inv where
  last hne := absurd h hne
  own c stack hstack := by
    rw [h] at hstack
    cases hstack

/-- A resumption puts the context back. -/
theorem inv_run (c : Coroutine R) (stack : List (Frame R)) : (run c stack).Inv where
  last _ := ⟨c, rfl, rfl⟩
  own d rest hstack := by
    obtain rfl : c = d := Frame.body.inj (List.cons.inj hstack).1
    rfl

/-- **Returning into a body.** -/
theorem Inv.leave {top : Frame R} {stack : List (Frame R)} (ht : t.Inv)
    (hstack : t.stack = top :: stack) :
    (({ t with stack } : Thread R).InOwnContext → t.ReturnsInContext) ∧
      (t.ReturnsInContext → ({ t with stack } : Thread R).Inv) := by
  obtain ⟨d, hlast, hctx⟩ := ht.last (by simp [hstack])
  constructor
  · intro hown top' c rest hrest d' hd'
    obtain rfl : d = d' := Option.some.inj (hlast.symm.trans hd')
    have hbody : stack = .body c :: rest := (List.cons.inj (hstack.symm.trans hrest)).2
    exact hctx.symm.trans (hown c rest hbody)
  · intro hreturns
    refine ⟨fun _ => ⟨d, hlast, hctx⟩, fun c rest hbody => ?_⟩
    have hbody : stack = .body c :: rest := hbody
    exact hctx.trans (hreturns top c rest (hbody ▸ hstack) d hlast)

/-- The context that `Post` and `Inline` prepare. -/
theorem eq_of_prepare {exe : Executor} {ctx : ThreadContext R} (h : t.prepare exe = some ctx) :
    ctx = { ctxPtr := t.ctx.ctxPtr, exe } := by
  rw [prepare] at h
  split_ifs at h
  exact (Option.some.inj h).symm

/-- **`Post` returns into the body that called it.** -/
theorem Inv.post {exe : Executor} {ctx : ThreadContext R} (ht : t.Inv)
    (hblocked : t.blocked = false) (h : t.prepare exe = some ctx) :
    (({ t with ctx } : Thread R).InOwnContext → t.PostsInContext exe) ∧
      (t.PostsInContext exe → ({ t with ctx } : Thread R).Inv) := by
  obtain rfl := eq_of_prepare h
  constructor
  · intro hown c stack hstack
    rw [← hown c stack hstack]
    exact ⟨rfl, rfl⟩
  · intro hposts
    by_cases hnil : t.stack = []
    · exact .of_nil hnil
    obtain ⟨top, stack, hstack⟩ := List.exists_cons_of_ne_nil hnil
    cases top with
    | syncWait c => simp [blocked, hstack] at hblocked
    | body c =>
      -- what `Post` prepares is the context that the thread has
      have hsame : ({ ctxPtr := t.ctx.ctxPtr, exe } : ThreadContext R) = t.ctx := by
        obtain ⟨hexe, hrpc⟩ := hposts c stack hstack
        rw [ht.own c stack hstack, ← hexe, ← hrpc]
      rw [hsame]
      exact ht

end Thread

/-! ### Steps -/

variable {s s' : State T R}

/-- The invariant of a state. -/
def State.Inv (s : State T R) : Prop := ∀ θ, (s.threads θ).Inv

/-- What the steps have to meet that go on with a body without resuming it. -/
def InContext (s : State T R) : Event T R → Prop
  | .post θ exe => (s.threads θ).PostsInContext exe
  | .suspend θ | .return θ => (s.threads θ).ReturnsInContext
  | .finish θ => ∀ c stack, (s.threads θ).stack = .body c :: stack →
      s.continuation c.id = none → (s.threads θ).ReturnsInContext
  | _ => True

variable [DecidableEq T]

/-- A step changes one thread. -/
theorem State.Inv.setThread {θ : T} {t : Thread R} {p : Prop} (hs : s.Inv)
    (hthreads : s'.threads = update s.threads θ t)
    (h : (t.InOwnContext → p) ∧ (p → t.Inv)) : (s'.InOwnContext → p) ∧ (p → s'.Inv) := by
  constructor
  · intro hown
    have hθ := hown θ
    rw [hthreads, update_self] at hθ
    exact h.1 hθ
  · intro hp θ'
    rw [hthreads]
    by_cases hθ : θ' = θ
    · rw [hθ, update_self]
      exact h.2 hp
    · rw [update_of_ne hθ]
      exact hs θ'

/-- A step that resumes a coroutine. -/
theorem State.Inv.run {θ : T} {c : Coroutine R} {stack : List (Frame R)} {p : Prop} (hs : s.Inv)
    (hp : p) (hthreads : s'.threads = update s.threads θ (.run c stack)) :
    (s'.InOwnContext → p) ∧ (p → s'.Inv) :=
  hs.setThread hthreads ⟨fun _ => hp, fun _ => Thread.inv_run c stack⟩

variable [DecidableEq R]

/-- **A step goes on with a body in its own context exactly under the condition.** -/
theorem step_spec {e : Event T R} (hs : s.Inv) (h : s.step e = some s') :
    (s'.InOwnContext → InContext s e) ∧ (InContext s e → s'.Inv) := by
  cases e with
  | enter θ ctx =>
    rw [State.step] at h
    split_ifs at h with hstack
    cases h
    exact hs.setThread rfl ⟨fun _ => trivial, fun _ => .of_nil hstack⟩
  | create θ =>
    rw [State.step] at h
    split_ifs at h
    cases h
    exact ⟨fun _ => trivial, fun _ => hs⟩
  | await θ c =>
    rw [State.step] at h
    split at h
    case h_1 awaiter stack hstack =>
      split_ifs at h
      cases h
      exact hs.run trivial rfl
    case h_2 => cases h
  | ready θ =>
    rw [State.step] at h
    split at h
    case h_1 c stack hstack =>
      cases h
      exact hs.run trivial rfl
    case h_2 => cases h
  | suspend θ =>
    rw [State.step] at h
    split at h
    case h_1 c stack hstack =>
      cases h
      exact hs.setThread rfl ((hs θ).leave hstack)
    case h_2 => cases h
  | resume θ c =>
    rw [State.step] at h
    split_ifs at h
    cases h
    exact hs.run trivial rfl
  | post θ exe =>
    rw [State.step] at h
    split_ifs at h with hblocked
    obtain ⟨ctx, hctx, rfl⟩ := Option.map_eq_some_iff.mp h
    exact hs.setThread rfl ((hs θ).post (by simpa using hblocked) hctx)
  | inline θ exe =>
    rw [State.step] at h
    split_ifs at h
    obtain ⟨ctx, hctx, rfl⟩ := Option.map_eq_some_iff.mp h
    exact hs.run trivial rfl
  | sync θ c =>
    rw [State.step] at h
    split_ifs at h
    cases h
    exact hs.run trivial rfl
  | finish θ =>
    rw [State.step] at h
    split at h
    case h_1 c stack hstack =>
      cases h
      have hbody : ∀ d rest, (s.threads θ).stack = .body d :: rest → d = c := by
        intro d rest hd
        exact Frame.body.inj (List.cons.inj (hd.symm.trans hstack)).1
      rw [State.finish]
      cases hcontinuation : s.continuation c.id with
      | some awaiter =>
        -- the coroutine that awaits this one is resumed
        refine hs.run (fun d rest hd hnone => ?_) rfl
        rw [hbody d rest hd, hcontinuation] at hnone
        cases hnone
      | none =>
        obtain ⟨hown, hinv⟩ := (hs θ).leave hstack
        exact hs.setThread rfl
          ⟨fun h _ _ _ _ => hown h, fun h => hinv (h c stack hstack hcontinuation)⟩
    case h_2 => cases h
  | «return» θ =>
    rw [State.step] at h
    split at h
    case h_1 c stack hstack =>
      split_ifs at h
      cases h
      exact hs.setThread rfl ((hs θ).leave hstack)
    case h_2 => cases h

/-- **When coroutines run in their own contexts**: they do in all states of a run exactly when no
body posts to another executor than its own, or while it handles an rpc, and every `Inline`, `Sync`
or nested resumption returns into a body of the context of the coroutine that was last resumed on
the thread. -/
theorem inOwnContext_iff {ctx : T → ThreadContext R} {events : List (Event T R)}
    (h : (system ctx).run events = some s) :
    (system ctx).Always State.InOwnContext (system ctx).init events ↔
      (system ctx).Guarded InContext (system ctx).init events :=
  System.always_iff_guarded (I := State.Inv) (fun _ hs θ => (hs θ).own)
    (fun _ _ _ hs he => (step_spec hs he).1) (fun _ _ _ hs he => (step_spec hs he).2)
    (fun _ => .of_nil rfl) h

/-- Two executors of the module `1`. -/
def ownExecutor : Executor := { idx := some 0, contextId := some 1 }

@[inherit_doc ownExecutor]
def otherExecutor : Executor := { idx := some 1, contextId := some 1 }

/-- Threads on the first executor. -/
def onOwnExecutor : Unit → ThreadContext Unit := fun _ => { ctxPtr := some 1, exe := ownExecutor }

/-- A coroutine that posts to the executor it runs on, awaits a task of its own and ends. -/
def postsToOwn : List (Event Unit Unit) :=
  let ctx : ThreadContext Unit := { ctxPtr := some 1, exe := ownExecutor }
  [.create (), .sync () ⟨0, ctx⟩, .post () ownExecutor, .create (), .await () ⟨2, ctx⟩,
    .finish (), .finish (), .return ()]

theorem guarded_postsToOwn :
    (system onOwnExecutor).Guarded InContext (system onOwnExecutor).init postsToOwn := by
  refine ⟨trivial, ?_⟩
  rintro _ ⟨⟩
  refine ⟨trivial, ?_⟩
  rintro _ ⟨⟩
  -- it posts to its own executor
  refine ⟨?_, ?_⟩
  · rintro c stack ⟨⟩
    exact ⟨rfl, rfl⟩
  rintro _ ⟨⟩
  refine ⟨trivial, ?_⟩
  rintro _ ⟨⟩
  refine ⟨trivial, ?_⟩
  rintro _ ⟨⟩
  -- the task goes on with the coroutine that awaits it
  refine ⟨?_, ?_⟩
  · rintro c stack ⟨⟩ hnone
    cases hnone
  rintro _ ⟨⟩
  -- and that one returns to the thread
  refine ⟨?_, ?_⟩
  · rintro c stack ⟨⟩ hnone top c stack ⟨⟩
  rintro _ ⟨⟩
  refine ⟨?_, ?_⟩
  · rintro top c stack ⟨⟩
  rintro _ ⟨⟩
  exact trivial

theorem inOwnContext_iff_sample : ∃ s, (system onOwnExecutor).run postsToOwn = some s ∧
    (system onOwnExecutor).Always State.InOwnContext (system onOwnExecutor).init postsToOwn :=
  ⟨_, rfl, (inOwnContext_iff rfl).mpr guarded_postsToOwn⟩

/-- A coroutine that posts to another executor goes on in the context of that one, and sleeps on it
from then on. -/
theorem post_leaves_other_context :
    ∃ s c stack, (system onOwnExecutor).run [.create (),
        .sync () ⟨0, { ctxPtr := some 1, exe := ownExecutor }⟩, .post () otherExecutor] = some s ∧
      (s.threads ()).stack = .body c :: stack ∧ (s.threads ()).ctx ≠ c.ctx ∧
      (s.threads ()).executor ≠ c.ctx.exe :=
  ⟨_, _, _, rfl, rfl, by decide, by decide⟩

end AimrtComm.Core
