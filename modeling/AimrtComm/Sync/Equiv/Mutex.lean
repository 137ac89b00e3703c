import AimrtComm.Sync.Equiv.MutexRel

/-!
# The mutex is a fair lock

`refines`: every step of the mutex is a step of a `FairLock` or none.  From the refinement follow
`safe_of_reachable`, that nothing ever goes wrong with the mutex, and `fair_of_reachable`, that
it is given to the coroutines in the order in which they queued up.
-/

namespace AimrtComm.Sync.Mutex

open Function

variable {Co Addr : Type*}

/-! ### The refinement -/

section Refinement

variable [DecidableEq Co] [DecidableEq Addr] {s s' : State Co Addr} {t : FairLock Co}
  {lifo fifo : List Addr} {c : Co} {a : Addr}

/-- The state `s` stands for the lock `t`. -/
def Related (s : State Co Addr) (t : FairLock Co) : Prop := ∃ lifo fifo, Rel s t lifo fifo

/-- `t'` is `t` or one step from it, and the state `s'` stands for `t'`. -/
def Matched (s' : State Co Addr) (t : FairLock Co) : Prop :=
  Related s' t ∨ ∃ d t', t.step d = some t' ∧ Related s' t'

omit [DecidableEq Co] [DecidableEq Addr] in
theorem Rel.matched (h : Rel s t lifo fifo) : Matched s t := .inl ⟨lifo, fifo, h⟩

/-- `TryLock` of a coroutine that holds no detached list in its hands. -/
theorem Rel.matched_tryLock (h : Rel s t lifo fifo)
    (hdetached : Detached s.next s.awaiter (s.pc c) [] ↔ Chain s.next s.awaiter []) {s₁}
    (hs : s.tryLock c = some s₁) :
    ∃ t', t.step (.acquire c) = some t' ∧ Rel s₁ t' [] [] ∧ s₁.pc = s.pc := by
  unfold State.tryLock at hs
  split_ifs at hs with hstate
  obtain ⟨hfree, hrel⟩ := h.acquire hstate hdetached
  cases hs
  exact ⟨_, by simp [FairLock.step, hfree], hrel, rfl⟩

theorem Rel.matched_popAndResume (h : Rel s t lifo fifo) (howns : s.owns c = true)
    (hstorage : (s.pc c).storage = none) (hchain : Chain s.next (some a) fifo) :
    Matched (s.popAndResume c a) t := by
  obtain ⟨d, queue, fifo', hqueue, -, -, hrel⟩ := h.popAndResume howns hstorage hchain
  refine .inr ⟨.handOver, _, ?_, _, _, hrel⟩
  simp [FairLock.step, h.owner_of_owns howns, hqueue]

/-- A coroutine in `Lock` takes a step. -/
theorem Rel.matched_lock {spurious : Bool} (h : Rel s t lifo fifo)
    (hstorage : (s.pc c).storage = some a) (hs : s.advance c spurious = some s') :
    Matched s' t := by
  cases hc : s.pc c with
  | awaitReady b =>
    -- `await_ready` tries the lock; when that fails, the awaiter gets the handle of the coroutine
    simp only [State.advance, hc] at hs
    split at hs
    · next s₁ htry =>
      cases hs
      obtain ⟨t', ht', hrel, hpc⟩ := h.matched_tryLock (c := c) (by rw [hc]; rfl) htry
      exact .inr ⟨_, t', ht', _, _, hrel.leave (by rw [hpc, hc]; rfl) (by simp [hpc, hc])
        (by rw [hpc, hc]; exact id)⟩
    · cases hs
      have hlive : s.live b = true := h.live_of_storage (c := c) (by rw [hc]; rfl)
      have hcont := h.setContinuation (a := b)
        (h.not_mem_of_storage (c := c) (by rw [hc]; rfl) (by simp [hc]))
        (fun d hd => by rw [h.storage_unique d c b hd (by rw [hc]; rfl), hc]) (some c)
      refine Rel.matched (hcont.gotoKeep ?_ ?_ (by simp) ⟨hlive, ?_⟩ ?_)
      · show _ = (s.pc c).storage
        rw [hc]
        rfl
      · exact fun d hd => by rw [show s.pc c = _ from hd] at hc; cases hc
      · exact update_self ..
      · show Detached s.next s.awaiter (s.pc c) fifo → _
        rw [hc]
        exact id
  | lockLoad b =>
    have hlocal := h.locals c
    rw [hc] at hlocal
    simp only [State.advance, hc] at hs
    split at hs
    · cases hs
      exact Rel.matched (h.gotoKeep (by rw [hc]; rfl) (by simp [hc]) (by simp)
        ⟨hlocal.1, hlocal.2, by simp⟩ (by rw [hc]; exact id))
    · next p hstate =>
      -- the awaiter is not in a list yet, so its link may be written
      cases hs
      have hnext := h.setNext (a := b)
        (h.not_mem_of_storage (c := c) (by rw [hc]; rfl) (by simp [hc]))
        (fun d old hd => by
          have hdc := h.storage_unique d c b (by rw [hd]; rfl) (by rw [hc]; rfl)
          rw [hdc, hc] at hd
          cases hd) p
      refine Rel.matched (hnext.gotoKeep ?_ ?_ (by simp) ⟨hlocal.1, hlocal.2, ?_⟩ ?_)
      · show _ = (s.pc c).storage
        rw [hc]
        rfl
      · exact fun d hd => by rw [show s.pc c = _ from hd] at hc; cases hc
      · rintro q ⟨⟩
        exact update_self ..
      · show Detached _ s.awaiter (s.pc c) fifo → _
        rw [hc]
        exact id
  | lockCas b old =>
    have hlocal := h.locals c
    rw [hc] at hlocal
    -- a compare-exchange that fails, for whatever reason, leaves the lock alone
    have hretry : Matched (s.goto c (.lockLoad b)) t :=
      Rel.matched (h.gotoKeep (by rw [hc]; rfl) (by simp [hc]) (by simp)
        ⟨hlocal.1, hlocal.2.1⟩ (by rw [hc]; exact id))
    cases old with
    | unlocked =>
      simp only [State.advance, hc] at hs
      split_ifs at hs with hcas
      · cases hs
        obtain ⟨hfree, hrel⟩ := h.acquire (c := c) hcas.1 (by rw [hc]; rfl)
        refine .inr ⟨.acquire c, _, by simp [FairLock.step, hfree], _, _, hrel.leave ?_ ?_ ?_⟩
        · show (s.pc c).storage = some b
          rw [hc]
          rfl
        · exact fun d hd => by rw [show s.pc c = _ from hd] at hc; cases hc
        · show Detached s.next s.awaiter (s.pc c) [] → _
          rw [hc]
          exact id
      · cases hs
        exact hretry
    | ptr p =>
      simp only [State.advance, hc] at hs
      split_ifs at hs with hcas
      · cases hs
        obtain ⟨howner, hrel⟩ := h.enqueue hc hcas.1
        exact .inr ⟨.enqueue c, _, by simp [FairLock.step, howner], _, _, hrel⟩
      · cases hs
        exact hretry
  | suspended b => simp [State.advance, hc] at hs
  | _ => simp [hc, Pc.storage] at hstorage

omit [DecidableEq Co] [DecidableEq Addr] in
/-- While somebody owns the mutex it is locked. -/
theorem Rel.exists_ptr (h : Rel s t lifo fifo) (howns : s.owns c = true) :
    ∃ p, s.state = .ptr p ∧ Chain s.next p lifo := by
  cases hs : s.state with
  | unlocked =>
    have hfree := h.unlocked hs
    rw [h.owner_of_owns howns] at hfree
    cases hfree
  | ptr p => exact ⟨p, rfl, (h.locked p hs).2⟩

omit [DecidableEq Addr] in
/-- A step inside `Unlock` that does not touch the lists. -/
theorem Rel.matched_goto {pc : Pc Addr} (h : Rel s t lifo fifo)
    (hstorage : (s.pc c).storage = none) (hpc : pc.storage = none) (hl : Local s lifo c pc)
    (hdetached : Detached s.next s.awaiter (s.pc c) fifo → Detached s.next s.awaiter pc fifo) :
    Matched (s.goto c pc) t := by
  refine Rel.matched (h.gotoKeep (by rw [hpc, hstorage]) ?_ ?_ hl hdetached)
  · intro b hb
    rw [hb] at hstorage
    cases hstorage
  · rintro b rfl
    cases hpc

/-- `Unlock` looks at `awaiter_`. -/
theorem Rel.matched_unlockBegin {spurious : Bool} (h : Rel s t lifo fifo) (hc : s.pc c = .unlock)
    (hs : s.advance c spurious = some s') : Matched s' t := by
  have hstorage : (s.pc c).storage = none := by rw [hc]; rfl
  have howns := h.locals c
  rw [hc] at howns
  simp only [State.advance, hc] at hs
  split at hs
  · next b hb =>
    cases hs
    have hdet := h.detached c (h.owner_of_owns howns)
    rw [hc] at hdet
    rw [hb] at hdet
    exact h.matched_popAndResume howns hstorage hdet
  · next hnone =>
    cases hs
    exact h.matched_goto hstorage rfl ⟨howns, hnone⟩ (by rw [hc]; exact id)

/-- `Unlock` looks at `state_`. -/
theorem Rel.matched_unlockLoad {spurious : Bool} (h : Rel s t lifo fifo)
    (hc : s.pc c = .unlockLoad) (hs : s.advance c spurious = some s') : Matched s' t := by
  have hstorage : (s.pc c).storage = none := by rw [hc]; rfl
  have hlocal := h.locals c
  rw [hc] at hlocal
  obtain ⟨p, hstate, hchain⟩ := h.exists_ptr hlocal.1
  cases p with
  | none =>
    simp only [State.advance, hc, hstate] at hs
    cases hs
    exact h.matched_goto hstorage rfl hlocal (by rw [hc]; exact id)
  | some b =>
    simp only [State.advance, hc, hstate] at hs
    cases hs
    refine h.matched_goto hstorage rfl ⟨hlocal.1, hlocal.2, ?_⟩ (by rw [hc]; exact id)
    rintro rfl
    cases hchain

/-- `Unlock` detaches the list that it has seen. -/
theorem Rel.matched_unlockExchange {spurious : Bool} (h : Rel s t lifo fifo)
    (hc : s.pc c = .unlockExchange) (hs : s.advance c spurious = some s') : Matched s' t := by
  have hlocal := h.locals c
  rw [hc] at hlocal
  obtain ⟨p, hstate, hchain⟩ := h.exists_ptr hlocal.1
  cases p with
  | none => exact absurd (Chain.none_iff.mp hchain) hlocal.2.2
  | some b =>
    simp only [State.advance, hc, hstate] at hs
    cases hs
    exact (h.detach hc hstate).matched

/-- A coroutine in `Unlock` takes a step. -/
theorem Rel.matched_unlock {spurious : Bool} (h : Rel s t lifo fifo)
    (hstorage : (s.pc c).storage = none) (hs : s.advance c spurious = some s') :
    Matched s' t := by
  cases hc : s.pc c with
  | unlock => exact h.matched_unlockBegin hc hs
  | unlockLoad => exact h.matched_unlockLoad hc hs
  | unlockCas =>
    have hlocal := h.locals c
    rw [hc] at hlocal
    simp only [State.advance, hc] at hs
    split_ifs at hs with hcas
    · cases hs
      obtain ⟨howner, hqueue, hrel⟩ := h.release hc hcas.1
      exact .inr ⟨.release, _, by simp [FairLock.step, howner, hqueue], _, _, hrel⟩
    · cases hs
      exact h.matched_goto hstorage rfl hlocal (by rw [hc]; exact id)
  | unlockExchange => exact h.matched_unlockExchange hc hs
  | reverse n curr =>
    have hrel := h.reverse hc
    simp only [State.advance, hc] at hs
    cases hnext : s.next curr with
    | none =>
      rw [hnext] at hs hrel
      cases hs
      exact hrel.matched
    | some b =>
      rw [hnext] at hs hrel
      cases hs
      exact hrel.matched
  | handOver n =>
    have hlocal := h.locals c
    rw [hc] at hlocal
    cases n with
    | none => exact absurd rfl hlocal.2
    | some b =>
      simp only [State.advance, hc] at hs
      cases hs
      have hdet := h.detached c (h.owner_of_owns hlocal.1)
      rw [hc] at hdet
      exact h.matched_popAndResume hlocal.1 hstorage hdet
  | idle => simp [State.advance, hc] at hs
  | failed => simp [State.advance, hc] at hs
  | _ => simp [hc, Pc.storage] at hstorage

/-- Every step of the mutex is matched by the lock it stands for. -/
theorem Rel.matched_step {e : Event Co Addr} (h : Rel s t lifo fifo) (hs : s.step e = some s') :
    Matched s' t := by
  cases e with
  | tryLock c =>
    simp only [State.step, Option.ite_none_right_eq_some] at hs
    obtain ⟨hc, hs⟩ := hs
    cases htry : s.tryLock c with
    | none =>
      rw [htry] at hs
      cases hs
      exact h.matched
    | some s₁ =>
      rw [htry] at hs
      cases hs
      obtain ⟨t', ht', hrel, -⟩ := h.matched_tryLock (c := c) (by rw [hc]; rfl) htry
      exact .inr ⟨_, t', ht', _, _, hrel⟩
  | lock c b =>
    simp only [State.step, Option.ite_none_right_eq_some] at hs
    obtain ⟨⟨hc, hlive⟩, hs⟩ := hs
    cases hs
    -- an awaiter is constructed in storage that nobody uses
    have hfresh : ∀ d, (s.pc d).storage ≠ some b := by
      intro d hd
      rw [h.live_of_storage hd] at hlive
      cases hlive
    have hnot := h.not_mem_of_not_live hlive
    have hlives : ∀ d x, (s.pc d).storage = some x → update s.live b true x = true := by
      intro d x hd
      have hlx : s.live x = true := h.live_of_storage hd
      by_cases hxb : x = b
      · simp [hxb]
      · simp [hxb, hlx]
    have hrel := ((h.setNext hnot (fun d old hd => hfresh d (by rw [hd]; rfl)) none).setContinuation
      hnot (fun d hd => absurd hd (hfresh d)) none).setLive hlives
    refine Rel.matched (hrel.goto ?_ ?_ (by simp) (update_self ..) ?_)
    · rintro x ⟨⟩ d hd
      exact absurd hd (hfresh d)
    · exact fun x hx => by rw [show s.pc c = _ from hx] at hc; cases hc
    · intro ho
      have hdet := hrel.detached c ho
      rw [show ({ s with next := _, continuation := _, live := _ } : State Co Addr).pc c = s.pc c
        from rfl, hc] at hdet
      exact hdet
  | unlock c =>
    simp only [State.step, Option.ite_none_right_eq_some] at hs
    obtain ⟨⟨hc, howns⟩, hs⟩ := hs
    cases hs
    exact Rel.matched (h.gotoKeep (by rw [hc]; rfl) (by simp [hc]) (by simp) howns
      (by rw [hc]; exact id))
  | next c spurious =>
    cases hst : (s.pc c).storage with
    | none => exact h.matched_unlock hst hs
    | some b => exact h.matched_lock hst hs

variable (Co Addr) in
/-- **The mutex is a fair lock.** -/
theorem refines : (system Co Addr).Refines (FairLock.system Co) Related where
  init := by
    refine ⟨[], [], ?_⟩
    constructor <;> simp [system, FairLock.system, Pc.storage, Local]
  step := fun _ _ _ _ ⟨_, _, h⟩ hs => h.matched_step hs

end Refinement

/-! ### What holds in every reachable state -/

section Results

variable {s s' : State Co Addr} {t : FairLock Co} {lifo fifo : List Addr} {d : Co}

/-- The queue of the lock is made of the suspended coroutines. -/
theorem Rel.mem_queue (h : Rel s t lifo fifo) : d ∈ t.queue ↔ ∃ a, s.pc d = .suspended a := by
  have hcont : ∀ {c a}, s.pc c = .suspended a → s.continuation a = some c := by
    intro c a hc
    have hlocal := h.locals c
    rw [hc] at hlocal
    exact hlocal.2
  have hmem : d ∈ t.queue ↔ some d ∈ (fifo ++ lifo.reverse).map s.continuation := by
    rw [← h.queue]
    simp
  have hlists : ∀ a, a ∈ fifo ++ lifo.reverse ↔ ∃ c, s.pc c = .suspended a := by
    intro a
    rw [← h.waiting]
    simp [or_comm]
  rw [hmem, List.mem_map]
  constructor
  · rintro ⟨a, ha, hda⟩
    obtain ⟨c, hc⟩ := (hlists a).mp ha
    rw [hcont hc] at hda
    exact ⟨a, Option.some.inj hda ▸ hc⟩
  · rintro ⟨a, ha⟩
    exact ⟨a, (hlists a).mpr ⟨d, ha⟩, hcont ha⟩

/-- No coroutine is queued twice. -/
theorem Rel.queue_nodup (h : Rel s t lifo fifo) : t.queue.Nodup := by
  have hlists : ∀ a ∈ fifo ++ lifo.reverse,
      ∃ c, s.pc c = .suspended a ∧ s.continuation a = some c := by
    intro a ha
    obtain ⟨c, hc⟩ := (h.waiting a).mp (by simpa [or_comm] using ha)
    have hlocal := h.locals c
    rw [hc] at hlocal
    exact ⟨c, hc, hlocal.2⟩
  have hnodup : (fifo ++ lifo.reverse).Nodup := by
    rw [List.nodup_append_comm, List.nodup_append', List.nodup_reverse]
    have := List.nodup_append'.mp h.nodup
    exact ⟨this.1, this.2.1, fun a ha => this.2.2 (List.mem_reverse.mp ha)⟩
  refine List.Nodup.of_map some ?_
  rw [h.queue]
  refine List.Nodup.map_on (fun a ha b hb hab => ?_) hnodup
  obtain ⟨c, hc, hca⟩ := hlists a ha
  obtain ⟨d, hd, hdb⟩ := hlists b hb
  rw [hca, hdb, Option.some.injEq] at hab
  rw [hab, hd, Pc.suspended.injEq] at hc
  exact hc.symm

theorem Rel.safe (h : Rel s t lifo fifo) : s.Safe where
  owner_unique c d hc hd := by
    have := h.owner_of_owns hc
    rw [h.owner_of_owns hd] at this
    exact (Option.some.inj this).symm
  waiting := by
    refine ⟨lifo, fifo, ?_, ?_, h.nodup, h.waiting⟩
    · unfold State.Lifo
      cases hs : s.state with
      | unlocked => exact (h.free (h.unlocked hs)).2.1
      | ptr p => exact (h.locked p hs).2
    · cases ho : t.owner with
      | none =>
        obtain ⟨hawaiter, -, rfl⟩ := h.free ho
        refine .inr ⟨fun c => ?_, hawaiter⟩
        have := h.owns_iff c
        rw [ho] at this
        simpa using this
      | some c => exact .inl ⟨c, (h.owns_iff c).mpr ho, h.detached c ho⟩
  continuation c a hc := by
    have hlocal := h.locals c
    rw [hc] at hlocal
    exact hlocal.2
  unlocked hs := by
    have ho := h.unlocked hs
    obtain ⟨-, rfl, rfl⟩ := h.free ho
    constructor
    · intro c
      have := h.owns_iff c
      rw [ho] at this
      simpa using this
    · intro c a hc
      have := (h.waiting a).mpr ⟨c, hc⟩
      simp at this
  not_failed c hc := by
    have hlocal := h.locals c
    rw [hc] at hlocal
    exact hlocal

/-- What a step does to the lock that the state stands for. -/
theorem Matched.cases (h : Matched s' t) : ∃ t', Related s' t' ∧ t.Steps t' := by
  rcases h with h | ⟨e, t', he, h⟩
  · exact ⟨t, h, .inl ⟨rfl, fun _ hd => hd, fun _ hd => .inl hd⟩⟩
  · exact ⟨t', h, FairLock.steps_of_step he⟩

variable [DecidableEq Co] [DecidableEq Addr]

/-- **The mutex is safe.**  In every state that any interleaving of the steps of any number of
coroutines leads to, at most one coroutine owns the mutex, the suspended coroutines are in the
lists, each exactly once, the mutex is unlocked only when nobody owns it or waits, and no
assertion has failed.  A step resumes only a coroutine that was suspended, which then is not
suspended any more and owns the mutex, and nothing else ends a suspension. -/
theorem safe_of_reachable (h : (system Co Addr).Reachable s) :
    s.Safe ∧ ∀ e s', s.step e = some s' →
      (∀ d, s'.granted = s.granted ++ [d] →
        (∃ a, s.pc d = .suspended a) ∧ (∀ a, s'.pc d ≠ .suspended a) ∧ s'.owns d = true) ∧
      ∀ d, (∃ a, s.pc d = .suspended a) → (∀ a, s'.pc d ≠ .suspended a) →
        s'.granted = s.granted ++ [d] ∧ s'.owns d = true := by
  obtain ⟨t, -, lifo, fifo, hrel⟩ := (refines Co Addr).reachable h
  refine ⟨hrel.safe, fun e s' hs => ?_⟩
  obtain ⟨t', ⟨lifo', fifo', hrel'⟩, hsteps⟩ := (hrel.matched_step hs).cases
  rw [← hrel.granted, ← hrel'.granted]
  constructor
  · intro d hd
    rcases hsteps with ⟨hgranted, -, -⟩ | ⟨c, queue, hqueue, hqueue', howner, hgranted⟩
    · rw [hgranted] at hd
      simp at hd
    · obtain rfl : c = d := by simpa [hgranted] using hd
      have hnodup := hrel.queue_nodup
      rw [hqueue, List.nodup_cons] at hnodup
      refine ⟨hrel.mem_queue.mp (by simp [hqueue]), fun a ha => ?_, (hrel'.owns_iff c).mpr howner⟩
      have := hrel'.mem_queue.mpr ⟨a, ha⟩
      rw [hqueue'] at this
      exact hnodup.1 this
  · intro d hd hd'
    have hmem : d ∈ t.queue := hrel.mem_queue.mpr hd
    have hmem' : d ∉ t'.queue := fun hq => by
      obtain ⟨a, ha⟩ := hrel'.mem_queue.mp hq
      exact hd' a ha
    rcases hsteps with ⟨-, hkeep, -⟩ | ⟨c, queue, hqueue, hqueue', howner, hgranted⟩
    · exact absurd (hkeep d hmem) hmem'
    · rw [hqueue] at hmem
      rw [hqueue'] at hmem'
      obtain rfl : d = c := (List.mem_cons.mp hmem).resolve_right hmem'
      exact ⟨hgranted, (hrel'.owns_iff d).mpr howner⟩

/-- **The mutex is fair.**  The coroutines that were resumed are, in their order, the first of
those that queued up, the rest of these are the ones that are suspended, and while one is
suspended a step gives the mutex only to the coroutine whose turn it is. -/
theorem fair_of_reachable (h : (system Co Addr).Reachable s) :
    ∃ queue : List Co, s.enqueued = s.granted ++ queue ∧ queue.Nodup ∧
      (∀ c, c ∈ queue ↔ ∃ a, s.pc c = .suspended a) ∧
      ∀ e s' d, s.step e = some s' → queue ≠ [] → s.owns d = false → s'.owns d = true →
        queue.head? = some d ∧ s'.granted = s.granted ++ [d] := by
  obtain ⟨t, ht, lifo, fifo, hrel⟩ := (refines Co Addr).reachable h
  obtain ⟨hfree, hhistory⟩ := FairLock.inv_of_reachable ht
  rw [hrel.enqueued, hrel.granted] at hhistory
  refine ⟨t.queue, hhistory, hrel.queue_nodup, fun c => hrel.mem_queue, ?_⟩
  intro e s' d hs hne hd hd'
  obtain ⟨t', ⟨lifo', fifo', hrel'⟩, hsteps⟩ := (hrel.matched_step hs).cases
  have howner' := hrel'.owner_of_owns hd'
  rw [← hrel.granted, ← hrel'.granted]
  rcases hsteps with ⟨-, -, howner⟩ | ⟨c, queue, hqueue, -, howner, hgranted⟩
  · -- only a free lock gets an owner, and nobody waits for it
    rcases howner d howner' with ho | ho
    · rw [(hrel.owns_iff d).mpr ho] at hd
      cases hd
    · exact absurd (hfree ho) hne
  · obtain rfl : c = d := Option.some.inj (howner.symm.trans howner')
    exact ⟨by rw [hqueue]; rfl, hgranted⟩

/-- Coroutine 0 takes the mutex, 1 and 2 queue up, and 0 has detached them. -/
def sampleEvents : List (Event ℕ ℕ) :=
  [.tryLock 0, .lock 1 10, .next 1 false, .next 1 false, .next 1 true, .next 1 false, .next 1 false,
    .lock 2 20, .next 2 false, .next 2 false, .next 2 false, .unlock 0, .next 0 false,
    .next 0 false, .next 0 false, .next 0 false]

theorem safe_of_reachable_sample :
    ∃ s : State ℕ ℕ, (system ℕ ℕ).run sampleEvents = some s ∧ s.Safe := by
  exact ⟨_, rfl, (safe_of_reachable (System.reachable_of_run sampleEvents rfl)).1⟩

/-- Coroutine 1 is resumed first, and 2 waits. -/
theorem fair_of_reachable_sample :
    ∃ s : State ℕ ℕ, (system ℕ ℕ).run (sampleEvents ++ [.next 0 false, .next 0 false]) = some s ∧
      s.granted = [1] ∧ s.enqueued = s.granted ++ [2] ∧ ∃ a, s.pc 2 = .suspended a := by
  obtain ⟨queue, hqueue, -, hsuspended, -⟩ := fair_of_reachable
    (System.reachable_of_run (sampleEvents ++ [.next 0 false, .next 0 false]) rfl)
  obtain rfl : [2] = queue := (List.cons.inj hqueue).2
  exact ⟨_, rfl, rfl, hqueue, (hsuspended 2).mp (List.mem_singleton_self 2)⟩

end Results

end AimrtComm.Sync.Mutex
