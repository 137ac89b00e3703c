import AimrtComm.Sync.FairLock
import AimrtComm.Sync.Mutex

/-!
# The mutex and the lock it stands for

A state of the mutex stands for the lock whose queue is first the list that the owner serves and
then, reversed, the list that hangs from `state_` (`Rel`); what else is needed says where each
coroutine is (`Local`).  Here are the ways in which the relation is kept: memory that is in no
list may be written, one coroutine may move (`Rel.goto`), the mutex may be taken, queued for and
freed, and an owner in `Unlock` may detach a list, reverse it and hand over to its first element
(`Rel.detach`, `Rel.reverse`, `Rel.popAndResume`).
-/

namespace AimrtComm.Sync.Mutex

open Function

variable {Co Addr : Type*}

/-! ### The invariant -/

/-- The storage that a coroutine at this place uses for an awaiter. -/
def Pc.storage : Pc Addr → Option Addr
  | .awaitReady a | .lockLoad a | .lockCas a _ | .suspended a => some a
  | _ => none

/-- What is true of a coroutine `c` where it is, when `lifo` hangs from `state_`. -/
def Local (s : State Co Addr) (lifo : List Addr) (c : Co) : Pc Addr → Prop
  | .idle => True
  | .awaitReady a => s.live a = true
  | .lockLoad a => s.live a = true ∧ s.continuation a = some c
  | .lockCas a oldState => s.live a = true ∧ s.continuation a = some c ∧
    ∀ p, oldState = .ptr p → s.next a = p
  | .suspended a => s.live a = true ∧ s.continuation a = some c
  | .unlock => s.owns c = true
  | .unlockLoad | .unlockCas => s.owns c = true ∧ s.awaiter = none
  | .unlockExchange => s.owns c = true ∧ s.awaiter = none ∧ lifo ≠ []
  | .reverse _ _ => s.owns c = true
  | .handOver n => s.owns c = true ∧ n ≠ none
  | .failed => False

/-- The state `s`, with the awaiters `lifo` hanging from `state_` and the awaiters `fifo`
detached, stands for the lock `t`. -/
structure Rel (s : State Co Addr) (t : FairLock Co) (lifo fifo : List Addr) : Prop where
  owns_iff : ∀ c, s.owns c = true ↔ t.owner = some c
  queue : t.queue.map some = (fifo ++ lifo.reverse).map s.continuation
  enqueued : t.enqueued = s.enqueued
  granted : t.granted = s.granted
  unlocked : s.state = .unlocked → t.owner = none
  locked : ∀ p, s.state = .ptr p → t.owner ≠ none ∧ Chain s.next p lifo
  free : t.owner = none → s.awaiter = none ∧ lifo = [] ∧ fifo = []
  detached : ∀ c, t.owner = some c → Detached s.next s.awaiter (s.pc c) fifo
  nodup : (lifo ++ fifo).Nodup
  waiting : ∀ a, a ∈ lifo ++ fifo ↔ ∃ c, s.pc c = .suspended a
  storage_unique : ∀ c d a, (s.pc c).storage = some a → (s.pc d).storage = some a → c = d
  locals : ∀ c, Local s lifo c (s.pc c)

section

variable {s : State Co Addr} {t : FairLock Co} {lifo fifo : List Addr} {c d : Co} {a : Addr}

theorem Rel.live_of_storage (h : Rel s t lifo fifo) (ha : (s.pc c).storage = some a) :
    s.live a = true := by
  have hl := h.locals c
  cases hp : s.pc c <;> rw [hp] at hl ha <;>
    simp only [Pc.storage, reduceCtorEq, Option.some.injEq] at ha
    <;> subst ha
  · exact hl
  · exact hl.1
  · exact hl.1
  · exact hl.1

/-- Storage that a coroutine uses, other than for waiting, is in no list. -/
theorem Rel.not_mem_of_storage (h : Rel s t lifo fifo) (ha : (s.pc c).storage = some a)
    (hc : s.pc c ≠ .suspended a) : a ∉ lifo ++ fifo := by
  intro hmem
  obtain ⟨d, hd⟩ := (h.waiting a).mp hmem
  obtain rfl := h.storage_unique c d a ha (by rw [hd]; rfl)
  exact hc hd

theorem Rel.not_mem_of_not_live (h : Rel s t lifo fifo) (ha : s.live a = false) :
    a ∉ lifo ++ fifo := by
  intro hmem
  obtain ⟨d, hd⟩ := (h.waiting a).mp hmem
  have := h.live_of_storage (c := d) (a := a) (by rw [hd]; rfl)
  rw [ha] at this
  cases this

theorem Detached.congr {next next' : Addr → Option Addr} {awaiter : Option Addr} {pc : Pc Addr}
    {l : List Addr} (h : Detached next awaiter pc l) (heq : ∀ a ∈ l, next' a = next a) :
    Detached next' awaiter pc l := by
  cases pc with
  | reverse n curr =>
    obtain ⟨done, todo, hd, ht, rfl⟩ := h
    exact ⟨done, todo, hd.congr fun a ha => heq a (List.mem_append_right _ ha),
      ht.congr fun a ha => heq a (List.mem_append_left _ (List.mem_reverse.mpr ha)), rfl⟩
  | _ => exact Chain.congr h heq

end

/-- What is true of a coroutine stays true when its storage is not written to and, if it owns the
mutex, neither its ownership nor the lists it relies on change. -/
theorem Local.transfer {s s' : State Co Addr} {lifo lifo' : List Addr} {c : Co} {pc : Pc Addr}
    (h : Local s lifo c pc)
    (hstorage : ∀ a, pc.storage = some a → (s.live a = true → s'.live a = true) ∧
      s'.continuation a = s.continuation a ∧ s'.next a = s.next a)
    (howns : s.owns c = true → s'.owns c = true ∧ s'.awaiter = s.awaiter ∧
      (lifo ≠ [] → lifo' ≠ [])) : Local s' lifo' c pc := by
  cases pc with
  | idle => trivial
  | awaitReady a => exact (hstorage a rfl).1 h
  | lockLoad a =>
    obtain ⟨h1, h2, -⟩ := hstorage a rfl
    exact ⟨h1 h.1, h2.trans h.2⟩
  | lockCas a old =>
    obtain ⟨h1, h2, h3⟩ := hstorage a rfl
    exact ⟨h1 h.1, h2.trans h.2.1, fun p hp => h3.trans (h.2.2 p hp)⟩
  | suspended a =>
    obtain ⟨h1, h2, -⟩ := hstorage a rfl
    exact ⟨h1 h.1, h2.trans h.2⟩
  | unlock => exact (howns h).1
  | unlockLoad => exact ⟨(howns h.1).1, (howns h.1).2.1.trans h.2⟩
  | unlockCas => exact ⟨(howns h.1).1, (howns h.1).2.1.trans h.2⟩
  | unlockExchange =>
    obtain ⟨h1, h2, h3⟩ := howns h.1
    exact ⟨h1, h2.trans h.2.1, h3 h.2.2⟩
  | reverse n curr => exact (howns h).1
  | handOver n => exact ⟨(howns h.1).1, h.2⟩
  | failed => exact h

section Memory

variable {s : State Co Addr} {t : FairLock Co} {lifo fifo : List Addr} {c d : Co} {a : Addr}

/-- Storage that no coroutine uses may be given up, and any may be claimed. -/
theorem Rel.setLive (h : Rel s t lifo fifo) {live : Addr → Bool}
    (hl : ∀ d a, (s.pc d).storage = some a → live a = true) :
    Rel { s with live } t lifo fifo :=
  { h with
    locals := fun d => (h.locals d).transfer (fun a ha => ⟨fun _ => hl d a ha, rfl, rfl⟩)
      fun ho => ⟨ho, rfl, id⟩ }

/-- The fields of an awaiter that is in no list and not being enqueued may be written. -/
theorem Rel.setNext [DecidableEq Addr] (h : Rel s t lifo fifo) (ha : a ∉ lifo ++ fifo)
    (hcas : ∀ d old, s.pc d ≠ .lockCas a old) (v : Option Addr) :
    Rel { s with next := update s.next a v } t lifo fifo :=
  { h with
    locked := fun p hp =>
      ⟨(h.locked p hp).1, (h.locked p hp).2.update (fun hm => ha (List.mem_append_left _ hm)) v⟩
    detached := fun d hd => (h.detached d hd).congr fun b hb =>
      update_of_ne (ne_of_mem_of_not_mem (List.mem_append_right _ hb) ha) _ _
    locals := fun d => by
      have hd := h.locals d
      cases hp : s.pc d <;> rw [hp] at hd <;> try exact hd
      next b old =>
        refine ⟨hd.1, hd.2.1, fun p hold => ?_⟩
        have hb : b ≠ a := by
          rintro rfl
          exact hcas d old hp
        rw [← hd.2.2 p hold]
        exact update_of_ne hb _ _ }

theorem Rel.setContinuation [DecidableEq Addr] (h : Rel s t lifo fifo) (ha : a ∉ lifo ++ fifo)
    (hready : ∀ d, (s.pc d).storage = some a → s.pc d = .awaitReady a) (v : Option Co) :
    Rel { s with continuation := update s.continuation a v } t lifo fifo :=
  { h with
    queue := by
      rw [h.queue]
      refine List.map_congr_left fun b hb => (update_of_ne ?_ _ _).symm
      rintro rfl
      exact ha (by simpa [or_comm] using hb)
    locals := fun d => by
      have hne : ∀ b, (s.pc d).storage = some b → s.pc d ≠ .awaitReady b → b ≠ a := by
        rintro b hb hnot rfl
        exact hnot (hready d hb)
      have hd := h.locals d
      cases hp : s.pc d with
      | awaitReady b =>
        rw [hp] at hd
        exact hd
      | _ =>
        rw [hp] at hd hne
        exact hd.transfer (fun b hb => ⟨id, update_of_ne (hne b hb (by rintro ⟨⟩)) _ _, rfl⟩)
          fun ho => ⟨ho, rfl, id⟩ }

end Memory

section Moves

variable [DecidableEq Co] {s : State Co Addr} {t : FairLock Co} {lifo fifo : List Addr} {c d : Co}
  {a : Addr} {pc : Pc Addr}

/-- A coroutine that moves and keeps its storage. -/
theorem storage_update (hc : pc.storage = (s.pc c).storage) (d : Co) :
    (update s.pc c pc d).storage = (s.pc d).storage := by
  by_cases hdc : d = c
  · rw [hdc, update_self, hc]
  · rw [update_of_ne hdc]

/-- A coroutine that moves and does not wait, neither before nor after. -/
theorem exists_suspended_update_iff (hold : ∀ a, s.pc c ≠ .suspended a)
    (hnew : ∀ a, pc ≠ .suspended a) :
    (∃ d, update s.pc c pc d = .suspended a) ↔ ∃ d, s.pc d = .suspended a := by
  refine exists_congr fun d => ?_
  by_cases hdc : d = c
  · subst hdc
    simp [hold a, hnew a]
  · rw [update_of_ne hdc]

/-- **Moving one coroutine**: it is not suspended before or after, nobody else uses its storage,
and what has to be true where it is now is true. -/
theorem Rel.goto (h : Rel s t lifo fifo)
    (hstorage : ∀ a, pc.storage = some a → ∀ d, (s.pc d).storage = some a → d = c)
    (hold : ∀ a, s.pc c ≠ .suspended a) (hnew : ∀ a, pc ≠ .suspended a)
    (hlocal : Local s lifo c pc)
    (hdetached : t.owner = some c → Detached s.next s.awaiter pc fifo) :
    Rel (s.goto c pc) t lifo fifo :=
  { h with
    detached := fun d hd => by
      by_cases hdc : d = c
      · subst hdc
        simpa [State.goto] using hdetached hd
      · simpa [State.goto, hdc] using h.detached d hd
    waiting := fun a => (h.waiting a).trans (exists_suspended_update_iff hold hnew).symm
    storage_unique := fun d e a hd he => by
      by_cases hdc : d = c <;> by_cases hec : e = c
      · rw [hdc, hec]
      · subst hdc
        simp only [State.goto, update_self, ne_eq, hec, not_false_eq_true, update_of_ne] at hd he
        exact (hstorage a hd e he).symm
      · subst hec
        simp only [State.goto, update_self, ne_eq, hdc, not_false_eq_true, update_of_ne] at hd he
        exact hstorage a he d hd
      · simp only [State.goto, ne_eq, hdc, hec, not_false_eq_true, update_of_ne] at hd he
        exact h.storage_unique d e a hd he
    locals := (forall_update_iff s.pc fun d pc => Local _ lifo d pc).mpr
      ⟨hlocal.transfer (fun _ _ => ⟨id, rfl, rfl⟩) fun ho => ⟨ho, rfl, id⟩, fun d _ =>
        (h.locals d).transfer (fun _ _ => ⟨id, rfl, rfl⟩) fun ho => ⟨ho, rfl, id⟩⟩ }

/-- Moving a coroutine that keeps its storage and does not take part in `Unlock`. -/
theorem Rel.gotoKeep (h : Rel s t lifo fifo) (hstorage : pc.storage = (s.pc c).storage)
    (hold : ∀ a, s.pc c ≠ .suspended a) (hnew : ∀ a, pc ≠ .suspended a)
    (hlocal : Local s lifo c pc)
    (hdetached : Detached s.next s.awaiter (s.pc c) fifo → Detached s.next s.awaiter pc fifo) :
    Rel (s.goto c pc) t lifo fifo :=
  h.goto (fun a ha d hd => h.storage_unique d c a hd (hstorage ▸ ha)) hold hnew hlocal
    fun ho => hdetached (h.detached c ho)

/-- The `co_await` expression is over. -/
theorem Rel.leave [DecidableEq Addr] (h : Rel s t lifo fifo) (ha : (s.pc c).storage = some a)
    (hold : ∀ a, s.pc c ≠ .suspended a)
    (hdetached : Detached s.next s.awaiter (s.pc c) fifo → Chain s.next s.awaiter fifo) :
    Rel (s.leave c a) t lifo fifo := by
  have hgoto : Rel (s.goto c .idle) t lifo fifo :=
    h.goto (by simp [Pc.storage]) hold (by simp) trivial fun ho => hdetached (h.detached c ho)
  refine hgoto.setLive fun d b hb => ?_
  by_cases hdc : d = c
  · subst hdc
    simp [State.goto, Pc.storage] at hb
  · simp only [State.goto, ne_eq, hdc, not_false_eq_true, update_of_ne] at hb
    have hba : b ≠ a := by
      rintro rfl
      exact hdc (h.storage_unique d c b hb ha)
    rw [update_of_ne hba]
    exact h.live_of_storage hb

/-- Taking the free mutex. -/
theorem Rel.acquire (h : Rel s t lifo fifo) (hs : s.state = .unlocked)
    (hdetached : Detached s.next s.awaiter (s.pc c) [] ↔ Chain s.next s.awaiter []) :
    t.owner = none ∧ Rel { s with state := .ptr none, owns := update s.owns c true }
      { t with owner := some c } [] [] := by
  have hfree := h.unlocked hs
  obtain ⟨hawaiter, rfl, rfl⟩ := h.free hfree
  have howns : ∀ d, s.owns d = false := by
    intro d
    have := h.owns_iff d
    rw [hfree] at this
    simpa using this
  refine ⟨hfree, { h with
    owns_iff := fun d => ?_
    unlocked := by simp
    locked := fun p hp => ?_
    free := by simp
    detached := fun d hd => ?_
    locals := fun d => ?_ }⟩
  · by_cases hdc : d = c
    · simp [hdc]
    · simp [hdc, howns d, Ne.symm hdc]
  · cases hp
    simp
  · obtain rfl : c = d := Option.some.inj hd
    exact hdetached.mpr (by simp [hawaiter])
  · exact (h.locals d).transfer (fun _ _ => ⟨id, rfl, rfl⟩) fun ho => by simp [howns d] at ho

/-- Pushing an awaiter on the list that hangs from `state_`. -/
theorem Rel.enqueue {p : Option Addr} (h : Rel s t lifo fifo) (hc : s.pc c = .lockCas a (.ptr p))
    (hs : s.state = .ptr p) :
    t.owner.isSome = true ∧
      Rel ({ s with state := .ptr (some a), enqueued := s.enqueued ++ [c] }.goto c (.suspended a))
        { t with queue := t.queue ++ [c], enqueued := t.enqueued ++ [c] } (a :: lifo) fifo := by
  obtain ⟨howner, hchain⟩ := h.locked p hs
  -- the link of the awaiter is the head that the compare-exchange has found again
  have hlocal := h.locals c
  rw [hc] at hlocal
  obtain ⟨hlive, hcont, hnext⟩ := hlocal
  have hnot : a ∉ lifo ++ fifo := h.not_mem_of_storage (c := c) (by rw [hc]; rfl) (by simp [hc])
  have hpc : ∀ d, ((s.goto c (.suspended a)).pc d).storage = (s.pc d).storage :=
    storage_update (by rw [hc]; rfl)
  refine ⟨Option.isSome_iff_ne_none.mpr howner, { h with
    queue := ?_
    enqueued := by rw [h.enqueued]; rfl
    unlocked := by simp [State.goto]
    locked := fun q hq => ?_
    free := fun hn => absurd hn howner
    detached := fun d hd => ?_
    nodup := by simpa using ⟨by simpa using hnot, h.nodup⟩
    waiting := fun b => ?_
    storage_unique := fun d e b hd he =>
      h.storage_unique d e b (by rw [← hpc]; exact hd) (by rw [← hpc]; exact he)
    locals := (forall_update_iff s.pc fun d pc => Local _ (a :: lifo) d pc).mpr
      ⟨⟨hlive, hcont⟩, fun d _ => (h.locals d).transfer (fun _ _ => ⟨id, rfl, rfl⟩)
        fun ho => ⟨ho, rfl, fun _ => by simp⟩⟩ }⟩
  · simp only [State.goto, List.map_append, h.queue, List.reverse_cons, List.map_cons, List.map_nil,
      hcont, List.append_assoc]
  · cases hq
    refine ⟨howner, rfl, ?_⟩
    show Chain s.next (s.next a) lifo
    rw [hnext p rfl]
    exact hchain
  · have hdet := h.detached d hd
    by_cases hdc : d = c
    · subst hdc
      rw [hc] at hdet
      show Detached s.next s.awaiter (update s.pc d _ d) fifo
      rw [update_self]
      exact hdet
    · simpa [State.goto, hdc] using hdet
  · rw [List.cons_append, List.mem_cons, h.waiting]
    constructor
    · rintro (rfl | ⟨d, hd⟩)
      · exact ⟨c, by simp [State.goto]⟩
      · have hdc : d ≠ c := by
          rintro rfl
          simp [hc] at hd
        exact ⟨d, by simpa [State.goto, hdc] using hd⟩
    · rintro ⟨d, hd⟩
      by_cases hdc : d = c
      · subst hdc
        simp only [State.goto, update_self, Pc.suspended.injEq] at hd
        exact .inl hd.symm
      · exact .inr ⟨d, by simpa [State.goto, hdc] using hd⟩

omit [DecidableEq Co] in
theorem Rel.owner_of_owns (h : Rel s t lifo fifo) (ho : s.owns c = true) : t.owner = some c :=
  (h.owns_iff c).mp ho

omit [DecidableEq Co] in
/-- Only the owner relies on its ownership. -/
theorem Rel.not_owns_of_ne (h : Rel s t lifo fifo) (ho : s.owns c = true) (hdc : d ≠ c) :
    s.owns d = false := by
  by_contra hd
  have hd' := h.owner_of_owns (by simpa using hd)
  rw [h.owner_of_owns ho] at hd'
  exact hdc (Option.some.inj hd').symm

/-- Unlocking a mutex that nobody waits for. -/
theorem Rel.release (h : Rel s t lifo fifo) (hc : s.pc c = .unlockCas) (hs : s.state = .ptr none) :
    t.owner = some c ∧ t.queue = [] ∧
      Rel ({ s with state := .unlocked, owns := update s.owns c false }.goto c .idle)
        { t with owner := none } [] [] := by
  have hlocal := h.locals c
  rw [hc] at hlocal
  obtain ⟨howns, hawaiter⟩ := hlocal
  have howner := h.owner_of_owns howns
  obtain rfl : lifo = [] := Chain.none_iff.mp (h.locked none hs).2
  obtain rfl : fifo = [] := by
    have hdet := h.detached c howner
    rw [hc] at hdet
    rw [hawaiter] at hdet
    exact Chain.none_iff.mp hdet
  refine ⟨howner, by simpa using h.queue, ?_⟩
  have hrel : Rel
      { s with state := .unlocked, owns := update s.owns c false, pc := update s.pc c .idle }
      { t with owner := none } [] [] :=
    { h with
      owns_iff := fun d => by
        by_cases hdc : d = c
        · simp [hdc]
        · simp [hdc, h.not_owns_of_ne howns hdc]
      unlocked := fun _ => rfl
      locked := fun p hp => by cases hp
      free := fun _ => ⟨hawaiter, rfl, rfl⟩
      detached := fun d hd => by cases hd
      waiting := fun a =>
        (h.waiting a).trans (exists_suspended_update_iff (by simp [hc]) (by simp)).symm
      storage_unique := fun d e a hd he => by
        have hne : ∀ d, (update s.pc c .idle d).storage = some a →
            d ≠ c ∧ (s.pc d).storage = some a := by
          intro d hd
          by_cases hdc : d = c
          · subst hdc
            simp [Pc.storage] at hd
          · exact ⟨hdc, by simpa [hdc] using hd⟩
        exact h.storage_unique d e a (hne d hd).2 (hne e he).2
      locals := (forall_update_iff s.pc fun d pc => Local _ [] d pc).mpr
        ⟨trivial, fun d hdc => (h.locals d).transfer (fun _ _ => ⟨id, rfl, rfl⟩)
          fun ho => by simp [h.not_owns_of_ne howns hdc] at ho⟩ }
  exact hrel

/-- Detaching the list that hangs from `state_`. -/
theorem Rel.detach (h : Rel s t lifo fifo) (hc : s.pc c = .unlockExchange)
    (hs : s.state = .ptr (some a)) :
    Rel ({ s with state := .ptr none, awaiter := some a }.goto c (.reverse none a)) t []
      lifo.reverse := by
  have hlocal := h.locals c
  rw [hc] at hlocal
  obtain ⟨howns, hawaiter, -⟩ := hlocal
  have howner := h.owner_of_owns howns
  obtain ⟨-, hchain⟩ := h.locked _ hs
  -- the owner detaches only when the detached list is used up
  obtain rfl : fifo = [] := by
    have hdet := h.detached c howner
    rw [hc] at hdet
    rw [hawaiter] at hdet
    exact Chain.none_iff.mp hdet
  refine
    { h with
      queue := by simpa [State.goto] using h.queue
      unlocked := by simp [State.goto]
      locked := fun p hp => ?_
      free := fun hn => by rw [howner] at hn; cases hn
      detached := fun d hd => ?_
      nodup := by simpa using h.nodup
      waiting := fun b => ?_
      storage_unique := fun d e b hd he => ?_
      locals := (forall_update_iff s.pc fun d pc => Local _ [] d pc).mpr
        ⟨howns, fun d hdc => (h.locals d).transfer (fun _ _ => ⟨id, rfl, rfl⟩)
          fun ho => by simp [h.not_owns_of_ne howns hdc] at ho⟩ }
  · cases hp
    exact ⟨by simp [howner], by simp⟩
  · obtain rfl : c = d := Option.some.inj (howner.symm.trans hd)
    show Detached s.next (some a) (update s.pc c _ c) _
    rw [update_self]
    exact ⟨[], lifo, rfl, hchain, by simp⟩
  · rw [List.nil_append, List.mem_reverse]
    have hw := h.waiting b
    rw [List.append_nil] at hw
    exact hw.trans (exists_suspended_update_iff (by simp [hc]) (by simp)).symm
  · have hst : ∀ d, (update s.pc c (.reverse none a) d).storage = (s.pc d).storage :=
      storage_update (by rw [hc]; rfl)
    exact h.storage_unique d e b (by rw [← hst]; exact hd) (by rw [← hst]; exact he)

/-- One turn of the loop that reverses the detached list. -/
theorem Rel.reverse [DecidableEq Addr] {n : Option Addr} (h : Rel s t lifo fifo)
    (hc : s.pc c = .reverse n a) :
    Rel (match s.next a with
      | some b => { s with next := update s.next a n }.goto c (.reverse (some a) b)
      | none => { s with next := update s.next a n }.goto c (.handOver (some a))) t lifo fifo := by
  have howns : s.owns c = true := by
    have hlocal := h.locals c
    rw [hc] at hlocal
    exact hlocal
  have howner := h.owner_of_owns howns
  have hdet := h.detached c howner
  rw [hc] at hdet
  obtain ⟨done, todo, hdone, htodo, hfifo⟩ := hdet
  obtain ⟨rest, rfl, hrest⟩ := Chain.some_iff.mp htodo
  have hmem : a ∈ fifo := by rw [hfifo]; simp
  have hlifo : a ∉ lifo := fun ha => (List.disjoint_of_nodup_append h.nodup) ha hmem
  have hnd : (a :: rest).reverse.Nodup ∧ done.Nodup ∧ List.Disjoint (a :: rest).reverse done := by
    have := (List.nodup_append'.mp h.nodup).2.1
    rw [hfifo] at this
    exact List.nodup_append'.mp this
  have hadone : a ∉ done := fun ha => hnd.2.2 (by simp) ha
  have harest : a ∉ rest := (List.nodup_cons.mp (List.nodup_reverse.mp hnd.1)).1
  -- a suspended coroutine uses the storage of `a`
  obtain ⟨w, hw⟩ := (h.waiting a).mp (List.mem_append_right _ hmem)
  have hfresh : ∀ d b, (s.pc d).storage = some b → d ≠ w → b ≠ a := by
    rintro d b hb hdw rfl
    exact hdw (h.storage_unique d w b hb (by rw [hw]; rfl))
  have hdone' : Chain (update s.next a n) (some a) (a :: done) := by
    refine ⟨rfl, ?_⟩
    rw [update_self]
    exact hdone.update hadone n
  have hrest' := hrest.update harest n
  -- both ways out of a turn write the same link
  have hmove : ∀ pc : Pc Addr, pc.storage = none → Local s lifo c pc →
      Detached (update s.next a n) s.awaiter pc fifo →
      Rel ({ s with next := update s.next a n }.goto c pc) t lifo fifo := by
    intro pc hst hlocal hdet
    have hnot : ∀ b, pc ≠ .suspended b := by
      rintro b rfl
      simp [Pc.storage] at hst
    refine
      { h with
        locked := fun p hp => ⟨(h.locked p hp).1, (h.locked p hp).2.update hlifo n⟩
        detached := fun d hd => ?_
        waiting := fun b => ?_
        storage_unique := fun d e b hd he => ?_
        locals := ?_ }
    · obtain rfl : c = d := Option.some.inj (howner.symm.trans hd)
      show Detached (update s.next a n) s.awaiter (update s.pc c _ c) _
      rw [update_self]
      exact hdet
    · exact (h.waiting b).trans (exists_suspended_update_iff (by simp [hc]) hnot).symm
    · have hst' : ∀ d, (update s.pc c pc d).storage = (s.pc d).storage :=
        storage_update (by rw [hst, hc]; rfl)
      exact h.storage_unique d e b (by rw [← hst']; exact hd) (by rw [← hst']; exact he)
    · refine (forall_update_iff s.pc fun d pc => Local _ lifo d pc).mpr ⟨?_, fun d _ => ?_⟩
      · exact hlocal.transfer (fun b hb => by rw [hst] at hb; cases hb) fun ho => ⟨ho, rfl, id⟩
      · by_cases hdw : d = w
        · subst hdw
          have hlw := h.locals d
          rw [hw] at hlw ⊢
          exact hlw
        · exact (h.locals d).transfer
            (fun b hb => ⟨id, rfl, update_of_ne (hfresh d b hb hdw) _ _⟩) fun ho => ⟨ho, rfl, id⟩
  cases hnext : s.next a with
  | some b =>
    rw [hnext] at hrest'
    exact hmove _ rfl howns ⟨a :: done, rest, hdone', hrest', by rw [hfifo]; simp⟩
  | none =>
    rw [hnext] at hrest'
    obtain rfl : rest = [] := Chain.none_iff.mp hrest'
    refine hmove _ rfl ⟨howns, by simp⟩ ?_
    rw [hfifo]
    exact hdone'

omit [DecidableEq Co] in
/-- The first detached awaiter belongs to the first coroutine of the queue. -/
theorem Rel.queue_eq_cons (h : Rel s t lifo (a :: fifo)) :
    ∃ d queue, s.pc d = .suspended a ∧ s.continuation a = some d ∧ t.queue = d :: queue ∧
      queue.map some = (fifo ++ lifo.reverse).map s.continuation := by
  obtain ⟨d, hd⟩ := (h.waiting a).mp (by simp)
  have hcont : s.continuation a = some d := by
    have hlocal := h.locals d
    rw [hd] at hlocal
    exact hlocal.2
  have hq := h.queue
  rw [List.cons_append, List.map_cons, hcont] at hq
  cases hqt : t.queue with
  | nil => rw [hqt] at hq; cases hq
  | cons e queue =>
    rw [hqt, List.map_cons, List.cons.injEq, Option.some.injEq] at hq
    exact ⟨d, queue, hd, hcont, by rw [hq.1], hq.2⟩

/-- Two coroutines that become idle. -/
theorem update_idle_of_mem (hdc : d ≠ c) {e : Co} (he : e = c ∨ e = d) :
    update (update s.pc c .idle) d .idle e = .idle := by
  rcases he with rfl | rfl
  · rw [update_of_ne hdc.symm, update_self]
  · rw [update_self]

theorem update_idle_of_ne {e : Co} (hec : e ≠ c) (hed : e ≠ d) :
    update (update s.pc c .idle) d .idle e = s.pc e := by
  rw [update_of_ne hed, update_of_ne hec]

/-- Storage that is in use after two coroutines became idle is another one's. -/
theorem storage_update_idle (hdc : d ≠ c) {e : Co} {b : Addr}
    (hb : (update (update s.pc c .idle) d .idle e).storage = some b) :
    (e ≠ c ∧ e ≠ d) ∧ (s.pc e).storage = some b := by
  by_cases hcd : e = c ∨ e = d
  · rw [update_idle_of_mem hdc hcd] at hb
    cases hb
  · rw [not_or] at hcd
    exact ⟨hcd, by rwa [update_idle_of_ne hcd.1 hcd.2] at hb⟩

/-- `Unlock` resumes the first coroutine of the queue. -/
theorem Rel.popAndResume_eq [DecidableEq Addr] (h : Rel s t lifo (a :: fifo))
    (hstorage : (s.pc c).storage = none) :
    ∃ d queue, t.queue = d :: queue ∧ d ≠ c ∧ s.pc d = .suspended a ∧
      queue.map some = (fifo ++ lifo.reverse).map s.continuation ∧
      s.popAndResume c a =
        { s with
          awaiter := s.next a
          pc := update (update s.pc c .idle) d .idle
          live := update s.live a false
          owns := update (update s.owns c false) d true
          granted := s.granted ++ [d] } := by
  obtain ⟨d, queue, hd, hcont, hqueue, htail⟩ := h.queue_eq_cons
  refine ⟨d, queue, hqueue, ?_, hd, htail, ?_⟩
  · rintro rfl
    rw [hd] at hstorage
    cases hstorage
  · simp [State.popAndResume, State.resume, State.goto, State.leave, hcont, hd]

omit [DecidableEq Co] in
/-- Nobody else uses the storage that a coroutine waits in. -/
theorem Rel.ne_of_storage (h : Rel s t lifo fifo) (hd : s.pc d = .suspended a) {e : Co}
    {b : Addr} (hed : e ≠ d) (hb : (s.pc e).storage = some b) : b ≠ a := by
  rintro rfl
  exact hed (h.storage_unique e d b hb (by rw [hd]; rfl))

/-- The awaiter that is popped is the one that stops waiting. -/
theorem Rel.waiting_pop (h : Rel s t lifo (a :: fifo)) (hstorage : (s.pc c).storage = none)
    (hdc : d ≠ c) (hd : s.pc d = .suspended a) (b : Addr) :
    b ∈ lifo ++ fifo ↔ ∃ e, update (update s.pc c .idle) d .idle e = .suspended b := by
  have hnot : a ∉ lifo ++ fifo := (List.nodup_cons.mp (List.nodup_middle.mp h.nodup)).1
  constructor
  · intro hb
    obtain ⟨e, he⟩ := (h.waiting b).mp (List.mem_append.mpr
      ((List.mem_append.mp hb).imp_right (List.mem_cons_of_mem _)))
    have hba : b ≠ a := ne_of_mem_of_not_mem hb hnot
    have hec : e ≠ c := by
      rintro rfl
      rw [he] at hstorage
      cases hstorage
    have hed : e ≠ d := by
      rintro rfl
      exact hba (by simpa [he] using hd)
    exact ⟨e, (update_idle_of_ne hec hed).trans he⟩
  · rintro ⟨e, he⟩
    have hb := storage_update_idle hdc (e := e) (b := b) (by rw [he]; rfl)
    rw [update_idle_of_ne hb.1.1 hb.1.2] at he
    have hmem := (h.waiting b).mpr ⟨e, he⟩
    have hba : b ≠ a := h.ne_of_storage hd hb.1.2 hb.2
    simpa [hba] using hmem

/-- **Handing over.**  Popping the first detached awaiter and resuming its coroutine gives it the
mutex. -/
theorem Rel.popAndResume [DecidableEq Addr] (h : Rel s t lifo fifo) (howns : s.owns c = true)
    (hstorage : (s.pc c).storage = none) (hchain : Chain s.next (some a) fifo) :
    ∃ d queue fifo', t.queue = d :: queue ∧ s.pc d = .suspended a ∧ s.popAndResume c a =
        { s with
          awaiter := s.next a
          pc := update (update s.pc c .idle) d .idle
          live := update s.live a false
          owns := update (update s.owns c false) d true
          granted := s.granted ++ [d] } ∧
      Rel (s.popAndResume c a)
        { t with owner := some d, queue, granted := t.granted ++ [d] } lifo fifo' := by
  have howner := h.owner_of_owns howns
  obtain ⟨fifo', rfl, hchain'⟩ := Chain.some_iff.mp hchain
  obtain ⟨d, queue, hqueue, hdc, hd, htail, heq⟩ := h.popAndResume_eq hstorage
  refine ⟨d, queue, fifo', hqueue, hd, heq, ?_⟩
  rw [heq]
  have hst : ∀ e b, (update (update s.pc c .idle) d .idle e).storage = some b →
      (e ≠ c ∧ e ≠ d) ∧ (s.pc e).storage = some b := fun _ _ => storage_update_idle hdc
  refine
    { h with
      owns_iff := fun e => ?_
      queue := htail
      granted := by rw [h.granted]
      unlocked := fun hs => by rw [h.unlocked hs] at howner; cases howner
      locked := fun p hp => ⟨by simp, (h.locked p hp).2⟩
      free := by simp
      detached := fun e he => ?_
      nodup := (List.nodup_cons.mp (List.nodup_middle.mp h.nodup)).2
      waiting := h.waiting_pop hstorage hdc hd
      storage_unique := fun e f b he hf =>
        h.storage_unique e f b (hst e b he).2 (hst f b hf).2
      locals := fun e => ?_ }
  · by_cases hed : e = d
    · simp [hed]
    · by_cases hec : e = c
      · simp [hec, hdc.symm, hdc]
      · simp [hed, hec, h.not_owns_of_ne howns hec, Ne.symm hed]
  · obtain rfl : d = e := Option.some.inj he
    show Detached s.next (s.next a) (update (update s.pc c .idle) d .idle d) fifo'
    rw [update_idle_of_mem hdc (.inr rfl)]
    exact hchain'
  · show Local _ _ e (update (update s.pc c .idle) d .idle e)
    by_cases hcd : e = c ∨ e = d
    · rw [update_idle_of_mem hdc hcd]
      trivial
    · rw [not_or] at hcd
      rw [update_idle_of_ne hcd.1 hcd.2]
      refine (h.locals e).transfer (fun b hb => ⟨fun hl => ?_, rfl, rfl⟩)
        fun ho => by simp [h.not_owns_of_ne howns hcd.1] at ho
      show update s.live a false b = true
      rwa [update_of_ne (h.ne_of_storage hd hcd.2 hb)]

end Moves

end AimrtComm.Sync.Mutex
