import AimrtComm.Sync.Equiv.Mutex

/-!
# Nobody waits for the mutex in vain

`Rel.ends`: an owner that calls `Unlock` and runs on its own passes the mutex on to the first of
the queue, or frees it when nobody waits, after a number of steps that the length of the queue
bounds.  So when no coroutine locks a mutex that it owns already, everyone who waits gets it as soon
as the owners before it unlock (`waiter_served`).
-/

namespace AimrtComm.Sync.Mutex

open Function

variable {Co Addr : Type*} [DecidableEq Co] [DecidableEq Addr] {s s' : State Co Addr}
  {t : FairLock Co} {lifo fifo : List Addr} {c d : Co} {a : Addr}

/-! ### The owner is not in `Lock` -/

/-- A coroutine locks only a mutex that it does not own. -/
def NotReentrant (s : State Co Addr) : Event Co Addr → Prop
  | .lock c _ => s.owns c = false
  | _ => True

instance (s : State Co Addr) : ∀ e : Event Co Addr, Decidable (NotReentrant s e)
  | .lock c _ => inferInstanceAs (Decidable (s.owns c = false))
  | .tryLock _ | .unlock _ | .next _ _ => .isTrue trivial

/-- The owner is outside of the mutex or in `Unlock`. -/
def OwnerOut (s : State Co Addr) : Prop := ∀ c, s.owns c = true → (s.pc c).storage = none

omit [DecidableEq Addr] in
theorem OwnerOut.goto (h : OwnerOut s) {pc : Pc Addr} (hc : s.owns c = true → pc.storage = none) :
    OwnerOut (s.goto c pc) := by
  intro d hd
  show (update s.pc c pc d).storage = none
  by_cases hdc : d = c
  · subst hdc
    rw [update_self]
    exact hc hd
  · rw [update_of_ne hdc]
    exact h d hd

omit [DecidableEq Addr] in
/-- A coroutine in `Lock` does not own the mutex, so wherever it goes there is right. -/
theorem OwnerOut.goto_of_storage (h : OwnerOut s) (ha : (s.pc c).storage = some a)
    (pc : Pc Addr) : OwnerOut (s.goto c pc) := by
  apply h.goto
  intro hc
  rw [h c hc] at ha
  cases ha

/-- The mutex is taken by a coroutine that leaves `Lock`. -/
theorem OwnerOut.take_leave (h : OwnerOut s) (w : Word Addr) :
    OwnerOut ({ s with state := w, owns := update s.owns c true }.leave c a) := by
  intro d hd
  show (update s.pc c .idle d).storage = none
  by_cases hdc : d = c
  · subst hdc
    rw [update_self]
    rfl
  · rw [update_of_ne hdc]
    apply h d
    have hd' : update s.owns c true d = true := hd
    rwa [update_of_ne hdc] at hd'

theorem OwnerOut.popAndResume (h : OwnerOut s) : OwnerOut (s.popAndResume c a) := by
  unfold State.popAndResume State.resume
  split
  · exact OwnerOut.goto (s := { s with awaiter := s.next a }) h fun _ => rfl
  · next e _ =>
    split_ifs
    · intro d hd
      have hd' : update (update s.owns c false) e true d = true := hd
      show (update (update s.pc c .idle) e .idle d).storage = none
      by_cases hde : d = e
      · subst hde
        rw [update_self]
        rfl
      · rw [update_of_ne hde] at hd' ⊢
        by_cases hdc : d = c
        · subst hdc
          rw [update_self] at hd'
          cases hd'
        · rw [update_of_ne hdc] at hd' ⊢
          exact h d hd'
    · exact OwnerOut.goto (s := { s with awaiter := s.next a }) h fun _ => rfl

theorem OwnerOut.advance (h : OwnerOut s) {spurious : Bool}
    (hs : s.advance c spurious = some s') : OwnerOut s' := by
  unfold State.advance at hs
  split at hs
  -- the cases are the places of the source in the order of `State.advance`: first those of
  -- `Lock`, then those of `Unlock`
  case h_1 b hc =>
    split at hs
    · next s₁ htry =>
      unfold State.tryLock at htry
      split_ifs at htry
      cases htry
      cases hs
      exact h.take_leave _
    · cases hs
      exact OwnerOut.goto_of_storage (a := b)
        (s := { s with continuation := update s.continuation b (some c) }) h (by rw [hc]; rfl) _
  case h_2 b hc =>
    have hst : (s.pc c).storage = some b := by rw [hc]; rfl
    split at hs
    · cases hs
      exact h.goto_of_storage hst _
    · next p _ =>
      cases hs
      exact OwnerOut.goto_of_storage (s := { s with next := update s.next b p }) h hst _
  case h_3 b hc =>
    have hst : (s.pc c).storage = some b := by rw [hc]; rfl
    split_ifs at hs
    · cases hs
      exact h.take_leave _
    · cases hs
      exact h.goto_of_storage hst _
  case h_4 b p hc =>
    have hst : (s.pc c).storage = some b := by rw [hc]; rfl
    split_ifs at hs
    · cases hs
      exact OwnerOut.goto_of_storage
        (s := { s with state := .ptr (some b), enqueued := s.enqueued ++ [c] }) h hst _
    · cases hs
      exact h.goto_of_storage hst _
  case h_5 =>
    split at hs
    · cases hs
      exact h.popAndResume
    · cases hs
      exact h.goto fun _ => rfl
  case h_6 =>
    split at hs
    all_goals
      cases hs
      exact h.goto fun _ => rfl
  case h_7 =>
    split_ifs at hs
    · cases hs
      refine OwnerOut.goto (s := { s with state := .unlocked, owns := update s.owns c false }) ?_
        fun _ => rfl
      intro d hd
      by_cases hdc : d = c
      · subst hdc
        simp at hd
      · exact h d (by simpa [hdc] using hd)
    · cases hs
      exact h.goto fun _ => rfl
  case h_8 =>
    split at hs
    · next b _ =>
      cases hs
      exact OwnerOut.goto (s := { s with state := .ptr none, awaiter := some b }) h fun _ => rfl
    · cases hs
      exact OwnerOut.goto (s := { s with state := .ptr none }) h fun _ => rfl
  case h_9 next curr _ =>
    dsimp only at hs
    split at hs
    all_goals
      cases hs
      exact OwnerOut.goto (s := { s with next := update s.next curr next }) h fun _ => rfl
  case h_10 =>
    cases hs
    exact h.popAndResume
  case h_11 =>
    cases hs
    exact h.goto fun _ => rfl
  all_goals cases hs

theorem OwnerOut.step (h : OwnerOut s) {e : Event Co Addr} (hguard : NotReentrant s e)
    (hs : s.step e = some s') : OwnerOut s' := by
  cases e with
  | tryLock c =>
    simp only [State.step, Option.ite_none_right_eq_some] at hs
    obtain ⟨hc, hs⟩ := hs
    unfold State.tryLock at hs
    split_ifs at hs
    · cases hs
      intro d hd
      by_cases hdc : d = c
      · subst hdc
        show (s.pc d).storage = none
        rw [hc]
        rfl
      · exact h d (by simpa [hdc] using hd)
    · cases hs
      exact h
  | lock c b =>
    simp only [State.step, Option.ite_none_right_eq_some] at hs
    cases hs.2
    refine OwnerOut.goto (s := { s with
      next := update s.next b none
      continuation := update s.continuation b none
      live := update s.live b true }) h fun hc => ?_
    have hfree : s.owns c = false := hguard
    rw [show s.owns c = true from hc] at hfree
    cases hfree
  | unlock c =>
    simp only [State.step, Option.ite_none_right_eq_some] at hs
    cases hs.2
    exact h.goto fun _ => rfl
  | next c spurious => exact h.advance hs

/-! ### An owner in `Unlock` on its own -/

/-- The owner passes the lock on or frees it. -/
def PassedOn (s' : State Co Addr) (t : FairLock Co) : Prop :=
  ∃ t', (t.step .handOver = some t' ∨ t.step .release = some t') ∧ Related s' t'

/-- The owner goes on to unlock. -/
def Unlocks (s : State Co Addr) : Event Co Addr → Prop
  | .unlock c | .next c false => s.owns c = true
  | _ => False

/-- After at most `n` more steps of the owner the lock is passed on or freed. -/
def Ends (s : State Co Addr) (t : FairLock Co) (n : ℕ) : Prop :=
  ∃ (events : List (Event Co Addr)) (s' : State Co Addr),
    events.foldlM (system Co Addr).step s = some s' ∧
    (system Co Addr).Guarded Unlocks s events ∧ events.length ≤ n ∧ PassedOn s' t

theorem ends_of_step {e : Event Co Addr} {u : State Co Addr} {n : ℕ}
    (hs : s.step e = some u) (he : Unlocks s e) (h : Ends u t n) : Ends s t (n + 1) := by
  obtain ⟨events, s', hrun, hunlocks, hlength, hpassed⟩ := h
  refine ⟨e :: events, s', ?_, ⟨he, fun s₂ hs₂ => ?_⟩, by rw [List.length_cons]; omega, hpassed⟩
  · rw [List.foldlM_cons]
    show (s.step e).bind _ = some s'
    rw [hs]
    exact hrun
  · obtain rfl : u = s₂ := Option.some.inj (hs.symm.trans hs₂)
    exact hunlocks

theorem ends_of_advance {u : State Co Addr} {n : ℕ} (howns : s.owns c = true)
    (hs : s.advance c false = some u) (h : Ends u t n) : Ends s t (n + 1) :=
  ends_of_step (e := .next c false) hs howns h

theorem ends_of_passedOn {u : State Co Addr} {n : ℕ} (howns : s.owns c = true)
    (hs : s.advance c false = some u) (h : PassedOn u t) : Ends s t (n + 1) :=
  ends_of_advance howns hs ⟨[], u, rfl, trivial, Nat.zero_le n, h⟩

theorem Ends.mono {m n : ℕ} (h : Ends s t m) (hmn : m ≤ n) : Ends s t n := by
  obtain ⟨events, s', hrun, hunlocks, hlength, hpassed⟩ := h
  exact ⟨events, s', hrun, hunlocks, hlength.trans hmn, hpassed⟩

theorem Rel.passedOn (h : Rel s t lifo fifo) (howns : s.owns c = true)
    (hstorage : (s.pc c).storage = none) (hchain : Chain s.next (some a) fifo) :
    PassedOn (s.popAndResume c a) t := by
  obtain ⟨d, queue, fifo', hqueue, -, -, hrel⟩ := h.popAndResume howns hstorage hchain
  refine ⟨_, .inl ?_, _, _, hrel⟩
  simp [FairLock.step, h.owner_of_owns howns, hqueue]

theorem Rel.ends_handOver (h : Rel s t lifo fifo) {n : Option Addr} (hc : s.pc c = .handOver n) :
    Ends s t 1 := by
  have hlocal := h.locals c
  rw [hc] at hlocal
  obtain ⟨howns, hn⟩ := hlocal
  obtain ⟨b, rfl⟩ := Option.ne_none_iff_exists'.mp hn
  have hdet := h.detached c (h.owner_of_owns howns)
  rw [hc] at hdet
  apply ends_of_passedOn (u := s.popAndResume c b) howns
  · unfold State.advance
    rw [hc]
  · exact h.passedOn howns (by rw [hc]; rfl) hdet

/-- The loop that reverses the detached list ends with it. -/
theorem Rel.ends_reverse {n : Option Addr} {todo : List Addr} (h : Rel s t lifo fifo)
    (hc : s.pc c = .reverse n a) (htodo : Chain s.next (some a) todo) (hnodup : todo.Nodup) :
    Ends s t (todo.length + 1) := by
  -- each turn moves one entry of the rest over, which `hrest` then describes behind the next one
  induction todo generalizing s n a with
  | nil => cases htodo
  | cons b todo ih =>
    obtain ⟨hab, hrest⟩ := htodo
    obtain rfl : a = b := Option.some.inj hab
    have hrel := h.reverse hc
    have howns : s.owns c = true := by
      have hlocal := h.locals c
      rw [hc] at hlocal
      exact hlocal
    cases hnext : s.next a with
    | none =>
      have hmove : s.advance c false =
          some ({ s with next := update s.next a n }.goto c (.handOver (some a))) := by
        unfold State.advance
        rw [hc]
        dsimp only
        rw [hnext]
      rw [hnext] at hrel
      exact (ends_of_advance howns hmove (hrel.ends_handOver (update_self ..))).mono
        (by rw [List.length_cons]; omega)
    | some b =>
      have hmove : s.advance c false =
          some ({ s with next := update s.next a n }.goto c (.reverse (some a) b)) := by
        unfold State.advance
        rw [hc]
        dsimp only
        rw [hnext]
      rw [hnext] at hrel hrest
      have hnot := (List.nodup_cons.mp hnodup).1
      exact ends_of_advance howns hmove
        (ih hrel (update_self ..) (hrest.update hnot n) (List.nodup_cons.mp hnodup).2)

omit [DecidableEq Co] [DecidableEq Addr] in
/-- What an owner in `Unlock` finds in `state_`. -/
theorem Rel.state_of_owns (h : Rel s t lifo fifo) (howns : s.owns c = true) :
    ∃ p, s.state = .ptr p ∧ Chain s.next p lifo := by
  cases hstate : s.state with
  | unlocked =>
    have hfree := h.unlocked hstate
    rw [h.owner_of_owns howns] at hfree
    cases hfree
  | ptr p => exact ⟨p, rfl, (h.locked p hstate).2⟩

theorem Rel.ends_unlockExchange (h : Rel s t lifo fifo) (hc : s.pc c = .unlockExchange) :
    Ends s t (lifo.length + 2) := by
  have hlocal := h.locals c
  rw [hc] at hlocal
  obtain ⟨howns, -, hne⟩ := hlocal
  obtain ⟨p, hstate, hchain⟩ := h.state_of_owns howns
  cases p with
  | none => exact absurd (Chain.none_iff.mp hchain) hne
  | some b =>
    have hrel := h.detach hc hstate
    have hnodup : lifo.Nodup := (List.nodup_append'.mp h.nodup).1
    apply ends_of_advance (u := { s with state := .ptr none, awaiter := some b }.goto c
      (.reverse none b)) howns
    · unfold State.advance
      rw [hc]
      dsimp only
      rw [hstate]
    · exact hrel.ends_reverse (update_self ..) hchain hnodup

omit [DecidableEq Addr] in
/-- An owner in `Unlock` moves on without touching the lists. -/
theorem Rel.move (h : Rel s t lifo fifo) {pc : Pc Addr} (hstorage : (s.pc c).storage = none)
    (hpc : pc.storage = none) (hlocal : Local s lifo c pc)
    (hdetached : Detached s.next s.awaiter (s.pc c) fifo → Detached s.next s.awaiter pc fifo) :
    Rel (s.goto c pc) t lifo fifo := by
  refine h.gotoKeep (hpc.trans hstorage.symm) ?_ ?_ hlocal hdetached
  · intro b hb
    rw [hb] at hstorage
    cases hstorage
  · rintro b rfl
    cases hpc

theorem Rel.ends_unlockCas_of_free (h : Rel s t lifo fifo) (hc : s.pc c = .unlockCas)
    (hstate : s.state = .ptr none) : Ends s t 1 := by
  obtain ⟨howner, hqueue, hrel⟩ := h.release hc hstate
  apply ends_of_passedOn (u := { s with state := .unlocked, owns := update s.owns c false }.goto c
    .idle) ((h.owns_iff c).mpr howner)
  · unfold State.advance
    rw [hc]
    dsimp only
    rw [if_pos ⟨hstate, rfl⟩]
  · exact ⟨_, .inr (by simp [FairLock.step, howner, hqueue]), _, _, hrel⟩

theorem Rel.ends_unlockLoad (h : Rel s t lifo fifo) (hc : s.pc c = .unlockLoad) :
    Ends s t (lifo.length + 3) := by
  have hlocal := h.locals c
  rw [hc] at hlocal
  obtain ⟨p, hstate, hchain⟩ := h.state_of_owns hlocal.1
  have hst : (s.pc c).storage = none := by rw [hc]; rfl
  cases p with
  | none =>
    have hrel : Rel (s.goto c .unlockCas) t lifo fifo :=
      h.move hst rfl hlocal (by rw [hc]; exact id)
    have hadvance : s.advance c false = some (s.goto c .unlockCas) := by
      unfold State.advance
      rw [hc]
      dsimp only
      rw [hstate]
    exact (ends_of_advance hlocal.1 hadvance
      (hrel.ends_unlockCas_of_free (update_self ..) hstate)).mono (by omega)
  | some b =>
    have hne : lifo ≠ [] := by
      rintro rfl
      cases hchain
    have hrel : Rel (s.goto c .unlockExchange) t lifo fifo :=
      h.move hst rfl ⟨hlocal.1, hlocal.2, hne⟩ (by rw [hc]; exact id)
    have hadvance : s.advance c false = some (s.goto c .unlockExchange) := by
      unfold State.advance
      rw [hc]
      dsimp only
      rw [hstate]
    exact ends_of_advance hlocal.1 hadvance (hrel.ends_unlockExchange (update_self ..))

theorem Rel.ends_unlockCas (h : Rel s t lifo fifo) (hc : s.pc c = .unlockCas) :
    Ends s t (lifo.length + 4) := by
  by_cases hstate : s.state = .ptr none
  · exact (h.ends_unlockCas_of_free hc hstate).mono (by omega)
  · have hlocal := h.locals c
    rw [hc] at hlocal
    have hst : (s.pc c).storage = none := by rw [hc]; rfl
    -- somebody has been enqueued since the load: the owner loads again
    have hrel : Rel (s.goto c .unlockLoad) t lifo fifo :=
      h.move hst rfl hlocal (by rw [hc]; exact id)
    apply ends_of_advance (u := s.goto c .unlockLoad) hlocal.1
    · unfold State.advance
      rw [hc]
      dsimp only
      rw [if_neg fun hcas => hstate hcas.1]
    · exact hrel.ends_unlockLoad (update_self ..)

theorem Rel.ends_unlock (h : Rel s t lifo fifo) (hc : s.pc c = .unlock) :
    Ends s t (lifo.length + 4) := by
  have howns := h.locals c
  rw [hc] at howns
  have hst : (s.pc c).storage = none := by rw [hc]; rfl
  have hdet := h.detached c (h.owner_of_owns howns)
  rw [hc] at hdet
  cases hawaiter : s.awaiter with
  | none =>
    -- no list is left from before: the one in `state_` is looked at
    have hrel : Rel (s.goto c .unlockLoad) t lifo fifo :=
      h.move hst rfl ⟨howns, hawaiter⟩ (by rw [hc]; exact id)
    apply ends_of_advance (u := s.goto c .unlockLoad) howns
    · unfold State.advance
      rw [hc]
      dsimp only
      rw [hawaiter]
    · exact hrel.ends_unlockLoad (update_self ..)
  | some b =>
    -- the first of the list that was reversed before gets the mutex
    rw [hawaiter] at hdet
    apply ends_of_passedOn (u := s.popAndResume c b) howns
    · unfold State.advance
      rw [hc]
      dsimp only
      rw [hawaiter]
    · exact h.passedOn howns hst hdet

/-- **`Unlock` ends**: an owner that goes on to unlock, wherever it is, passes the lock on or frees
it. -/
theorem Rel.ends (h : Rel s t lifo fifo) (howns : s.owns c = true)
    (hstorage : (s.pc c).storage = none) : Ends s t (t.queue.length + 5) := by
  have hlength : t.queue.length = fifo.length + lifo.length := by
    have := congrArg List.length h.queue
    simpa using this
  have hlocal := h.locals c
  cases hc : s.pc c with
  | idle =>
    have hstep : s.step (.unlock c) = some (s.goto c .unlock) := by
      show (if s.pc c = .idle ∧ s.owns c = true then _ else _) = _
      rw [if_pos ⟨hc, howns⟩]
    have hrel : Rel (s.goto c .unlock) t lifo fifo :=
      h.move hstorage rfl howns (by rw [hc]; exact id)
    exact (ends_of_step hstep howns (hrel.ends_unlock (update_self ..))).mono (by omega)
  | awaitReady | lockLoad | lockCas | suspended =>
    rw [hc] at hstorage
    cases hstorage
  | unlock => exact (h.ends_unlock hc).mono (by omega)
  | unlockLoad => exact (h.ends_unlockLoad hc).mono (by omega)
  | unlockCas => exact (h.ends_unlockCas hc).mono (by omega)
  | unlockExchange => exact (h.ends_unlockExchange hc).mono (by omega)
  | reverse n curr =>
    have hdet := h.detached c (h.owner_of_owns howns)
    rw [hc] at hdet
    obtain ⟨done, todo, -, htodo, hfifo⟩ := hdet
    have hnodup : todo.Nodup := by
      have hfifo' := (List.nodup_append'.mp h.nodup).2.1
      rw [hfifo] at hfifo'
      exact List.nodup_reverse.mp (List.nodup_append'.mp hfifo').1
    refine (h.ends_reverse hc htodo hnodup).mono ?_
    rw [hlength, hfifo, List.length_append, List.length_reverse]
    omega
  | handOver n => exact (h.ends_handOver hc).mono (by omega)
  | failed =>
    rw [hc] at hlocal
    exact absurd hlocal id

theorem OwnerOut.run (h : OwnerOut s) {events : List (Event Co Addr)}
    (hunlocks : (system Co Addr).Guarded Unlocks s events)
    (hs : events.foldlM (system Co Addr).step s = some s') : OwnerOut s' := by
  induction events generalizing s with
  | nil =>
    obtain rfl : s = s' := Option.some.inj hs
    exact h
  | cons e events ih =>
    rw [List.foldlM_cons, Option.bind_eq_bind, Option.bind_eq_some_iff] at hs
    obtain ⟨s₁, he, hs⟩ := hs
    have hguard : NotReentrant s e := by
      have hunlocks := hunlocks.1
      cases e with
      | lock c b => exact absurd hunlocks id
      | tryLock | unlock | next => exact trivial
    exact ih (h.step hguard he) (hunlocks.2 s₁ he) hs

/-! ### Everyone in the queue is served -/

omit [DecidableEq Co] [DecidableEq Addr] in
/-- Whoever is in the queue waits for an owner. -/
theorem Related.owner_of_queue (h : Related s t) (hqueue : t.queue ≠ []) :
    ∃ c, t.owner = some c ∧ s.owns c = true := by
  obtain ⟨lifo, fifo, hrel⟩ := h
  cases howner : t.owner with
  | none =>
    obtain ⟨-, rfl, rfl⟩ := hrel.free howner
    exact absurd (by simpa using hrel.queue) hqueue
  | some c => exact ⟨c, rfl, (hrel.owns_iff c).mpr howner⟩

/-- The owner passes the lock on when somebody waits. -/
theorem Related.passed_on (h : Related s t) (hout : OwnerOut s) {queue : List Co}
    (hqueue : t.queue = d :: queue) :
    ∃ (events : List (Event Co Addr)) (s' : State Co Addr) (t' : FairLock Co),
      events.foldlM (system Co Addr).step s = some s' ∧
      (system Co Addr).Guarded Unlocks s events ∧ events.length ≤ t.queue.length + 5 ∧
      OwnerOut s' ∧ Related s' t' ∧ t'.owner = some d ∧ t'.queue = queue := by
  obtain ⟨c, howner, howns⟩ := h.owner_of_queue (by rw [hqueue]; simp)
  obtain ⟨lifo, fifo, hrel⟩ := h
  obtain ⟨events, s', hrun, hunlocks, hlength, t', hpassed, hrel'⟩ := hrel.ends howns (hout c howns)
  simp only [FairLock.step, howner, hqueue, reduceCtorEq, or_false] at hpassed
  have ht' := Option.some.inj hpassed
  exact ⟨events, s', t', hrun, hunlocks, hlength, hout.run hunlocks hrun, hrel',
    by rw [← ht'], by rw [← ht']⟩

/-- The lock gets to the coroutine at any place of the queue. -/
theorem Related.served (h : Related s t) (hout : OwnerOut s) {k : ℕ}
    (hd : t.queue[k]? = some d) :
    ∃ (events : List (Event Co Addr)) (s' : State Co Addr),
      events.foldlM (system Co Addr).step s = some s' ∧
      (system Co Addr).Guarded Unlocks s events ∧
      events.length ≤ (k + 1) * (t.queue.length + 5) ∧ s'.owns d = true := by
  induction k generalizing s t with
  | zero =>
    cases hqueue : t.queue with
    | nil => rw [hqueue] at hd; cases hd
    | cons e queue =>
      obtain ⟨events, s', t', hrun, hunlocks, hlength, -, ⟨lifo, fifo, hrel⟩, howner, -⟩ :=
        h.passed_on hout hqueue
      -- the first of the queue is the one that the owner passes the mutex to
      obtain rfl : e = d := by simpa [hqueue] using hd
      refine ⟨events, s', hrun, hunlocks, by rw [hqueue] at hlength; omega, ?_⟩
      rw [hrel.owns_iff, howner]
  | succ k ih =>
    cases hqueue : t.queue with
    | nil => rw [hqueue] at hd; cases hd
    | cons e queue =>
      obtain ⟨events, s₁, t', hrun, hunlocks, hlength, hout₁, hrel, -, htail⟩ :=
        h.passed_on hout hqueue
      have hd' : t'.queue[k]? = some d := by
        rw [htail]
        simpa [hqueue] using hd
      -- one place further to the front, with an owner that can go on in the same way
      obtain ⟨events', s', hrun', hunlocks', hlength', howns'⟩ := ih hrel hout₁ hd'
      refine ⟨events ++ events', s', ?_, hunlocks.append hrun hunlocks', ?_, howns'⟩
      · rw [List.foldlM_append, hrun]
        exact hrun'
      · rw [htail] at hlength'
        rw [hqueue, List.length_cons] at hlength
        rw [List.length_append, List.length_cons, Nat.add_mul (k + 1) 1, Nat.one_mul]
        have hmono : (k + 1) * (queue.length + 5) ≤ (k + 1) * (queue.length + 1 + 5) :=
          Nat.mul_le_mul_left _ (by omega)
        omega

/-- **Everyone who waits is served.**  When no coroutine locks a mutex that it owns, there is from
every reachable state on, for every suspended coroutine, a run that gives it the mutex and in which
only the owners step, each going on to unlock; if `n` coroutines wait, of at most `n * (n + 5)`
steps. -/
theorem waiter_served (h : (system Co Addr).ReachableUnder NotReentrant s)
    (hd : s.pc d = .suspended a) :
    ∃ (queue : List Co) (events : List (Event Co Addr)) (s' : State Co Addr),
      queue.Nodup ∧ (∀ c, c ∈ queue ↔ ∃ a, s.pc c = .suspended a) ∧
      events.foldlM (system Co Addr).step s = some s' ∧
      (system Co Addr).Guarded Unlocks s events ∧
      events.length ≤ queue.length * (queue.length + 5) ∧ s'.owns d = true := by
  have hout : OwnerOut s :=
    h.invariant (I := OwnerOut) (fun _ _ => rfl) fun _ _ _ hs hguard he => hs.step hguard he
  obtain ⟨t, -, lifo, fifo, hrel⟩ := (refines Co Addr).reachable h.reachable
  have hmem : d ∈ t.queue := hrel.mem_queue.mpr ⟨a, hd⟩
  obtain ⟨k, hk, hget⟩ := List.mem_iff_getElem.mp hmem
  obtain ⟨events, s', hrun, hunlocks, hlength, howns⟩ :=
    Related.served ⟨lifo, fifo, hrel⟩ hout (List.getElem?_eq_some_iff.mpr ⟨hk, hget⟩)
  exact ⟨t.queue, events, s', hrel.queue_nodup, fun c => hrel.mem_queue, hrun, hunlocks,
    hlength.trans (Nat.mul_le_mul_right _ hk), howns⟩

theorem waiter_served_sample :
    ∃ s : State ℕ ℕ, (system ℕ ℕ).run sampleEvents = some s ∧
      ∃ (events : List (Event ℕ ℕ)) (s' : State ℕ ℕ),
        events.foldlM (system ℕ ℕ).step s = some s' ∧ s'.owns 2 = true := by
  have hs : (system ℕ ℕ).ReachableUnder NotReentrant _ :=
    System.reachableUnder_of_run sampleEvents (by decide) rfl
  obtain ⟨-, events, s', -, -, hrun, -, -, howns⟩ := waiter_served (d := 2) (a := 20) hs rfl
  exact ⟨_, rfl, events, s', hrun, howns⟩

end AimrtComm.Sync.Mutex
