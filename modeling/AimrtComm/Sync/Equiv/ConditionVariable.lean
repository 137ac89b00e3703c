import AimrtComm.Lib.Partition
import AimrtComm.Sync.ConditionVariable
import Mathlib.Data.Fintype.Basic

/-!
# Wake-ups of the condition variable

`sound_of_reachableUnder`: in every run in which no awaiter is constructed in storage whose
`next_` a thread is still going to use, no wake-up is lost or duplicated.  The invariant `Inv`
knows for every list, the one that hangs from `awaiter_` and the ones that the threads serve, the
awaiters in it.  Without the condition it does not hold: `rewait_loses_wakeup`.
-/

namespace AimrtComm.Sync.ConditionVariable

open Function

variable {Co Th Addr : Type*}

/-! ### The invariant -/

/-- The storage that a coroutine uses for an awaiter. -/
def WaitPc.storage : WaitPc Addr → Option Addr
  | .load a | .cas a | .suspended a => some a
  | .idle => none

/-- What a thread relies on where it is, when `queue` hangs from `awaiter_`. -/
def Local (s : State Co Th Addr) (queue : List Addr) : NotifyPc Addr → Prop
  | .readNext a => ∀ c, (s.waiter c).storage = some a → s.waiter c = .suspended a
  | .casOne a n => (∀ c, (s.waiter c).storage = some a → s.waiter c = .suspended a) ∧
    (a ∈ queue → s.next a = n)
  | .advance a => ∀ c, (s.waiter c).storage ≠ some a
  | _ => True

/-- The lists hold the awaiters of the suspended coroutines: `lists none` hangs from `awaiter_`,
`lists (some t)` is what the thread `t` serves. -/
structure Inv (s : State Co Th Addr) (lists : Option Th → List Addr) : Prop where
  head : Chain s.next s.head (lists none)
  queue : (lists none).map s.ticket = s.queue
  serves : ∀ t, Serves s.next (s.notifier t) (lists (some t))
  detached : ∀ t, s.detached t = s.woken t ++ (lists (some t)).map s.ticket
  nodup : ∀ i, (lists i).Nodup
  disjoint : ∀ i j a, a ∈ lists i → a ∈ lists j → i = j
  waiting : ∀ a, (∃ i, a ∈ lists i) ↔ ∃ c, s.waiter c = .suspended a
  storage_unique : ∀ c d a, (s.waiter c).storage = some a → (s.waiter d).storage = some a → c = d
  live : ∀ c a, (s.waiter c).storage = some a → s.live a = true ∧ s.continuation a = some c
  locals : ∀ t, Local s (lists none) (s.notifier t)
  ticket_fresh : ∀ c a, s.waiter c = .suspended a →
    s.ticket a < s.enqueued ∧ s.ticket a ∉ s.resumed
  ticket_unique : ∀ c d a b, s.waiter c = .suspended a → s.waiter d = .suspended b →
    s.ticket a = s.ticket b → a = b
  accounted : ∀ n < s.enqueued, n ∈ s.resumed ∨ ∃ c a, s.waiter c = .suspended a ∧ s.ticket a = n
  resumed_lt : ∀ n ∈ s.resumed, n < s.enqueued
  resumed_nodup : s.resumed.Nodup
  woken_resumed : ∀ t, ∀ n ∈ s.woken t, n ∈ s.resumed

section

variable {s : State Co Th Addr} {lists : Option Th → List Addr} {c : Co} {t : Th} {a : Addr}

/-- The lists share out the awaiters of the suspended coroutines. -/
theorem Inv.partition (h : Inv s lists) :
    Partition lists fun a => ∃ c, s.waiter c = .suspended a :=
  ⟨h.nodup, h.disjoint, h.waiting⟩

/-- **The invariant says that no wake-up was lost or duplicated.** -/
theorem Inv.sound (h : Inv s lists) : s.Sound where
  resumed_once := h.resumed_nodup
  queued := ⟨_, h.head, h.queue⟩
  served t := ⟨_, h.serves t, h.detached t⟩
  accounted n hn := by
    rcases h.accounted n hn with hr | ⟨c, a, hc, rfl⟩
    · exact .inl hr
    obtain ⟨i, hi⟩ := (h.waiting a).mpr ⟨c, hc⟩
    cases i with
    | none => exact .inr (.inl (h.queue ▸ List.mem_map_of_mem hi))
    | some t =>
      refine .inr (.inr ⟨t, ?_, fun hw => (h.ticket_fresh c a hc).2 (h.woken_resumed t _ hw)⟩)
      rw [h.detached t]
      exact List.mem_append_right _ (List.mem_map_of_mem hi)

/-- Storage that is not in use for waiting is in no list. -/
theorem Inv.not_mem (h : Inv s lists) (ha : (s.waiter c).storage = some a)
    (hc : s.waiter c ≠ .suspended a) (i : Option Th) : a ∉ lists i := by
  intro hi
  obtain ⟨d, hd⟩ := (h.waiting a).mp ⟨i, hi⟩
  obtain rfl := h.storage_unique c d a ha (by rw [hd]; rfl)
  exact hc hd

theorem Inv.not_mem_of_not_live (h : Inv s lists) (ha : s.live a = false) (i : Option Th) :
    a ∉ lists i := by
  intro hi
  obtain ⟨d, hd⟩ := (h.waiting a).mp ⟨i, hi⟩
  have := (h.live d a (by rw [hd]; rfl)).1
  rw [ha] at this
  cases this

/-- A coroutine that is about to enqueue an awaiter keeps the threads from using it. -/
theorem Inv.not_holds (h : Inv s lists) (ha : (s.waiter c).storage = some a)
    (hc : s.waiter c ≠ .suspended a) (t : Th) : ¬ (s.notifier t).Holds a := by
  intro hh
  have hl := h.locals t
  cases hp : s.notifier t <;> rw [hp] at hh hl <;> try exact hh
  · obtain rfl := hh
    exact hc (hl c ha)
  · obtain rfl := hh
    exact hc (hl.1 c ha)
  · obtain rfl := hh
    exact hl c ha

theorem Serves.congr {next next' : Addr → Option Addr} {pc : NotifyPc Addr} {l : List Addr}
    (h : Serves next pc l) (hl : ∀ b ∈ l, next' b = next b)
    (hadvance : ∀ b, pc = .advance b → next' b = next b) : Serves next' pc l := by
  cases pc with
  | resume b => exact Chain.congr h hl
  | advance b =>
    show Chain next' (next' b) l
    rw [hadvance b rfl]
    exact Chain.congr h hl
  | _ => exact h

end

variable [DecidableEq Co] [DecidableEq Th] [DecidableEq Addr]

section Moves

variable {s : State Co Th Addr} {lists : Option Th → List Addr} {c : Co} {t : Th} {a : Addr}

omit [DecidableEq Co] [DecidableEq Th] in
/-- The field `next_` of an awaiter that is in no list and that no thread uses may be written. -/
theorem Inv.setNext (h : Inv s lists) (ha : ∀ i, a ∉ lists i)
    (hholds : ∀ t, ¬ (s.notifier t).Holds a) (v : Option Addr) :
    Inv { s with next := update s.next a v } lists :=
  { h with
    head := h.head.update (ha none) v
    serves := fun t => (h.serves t).congr
      (fun b hb => update_of_ne (ne_of_mem_of_not_mem hb (ha _)) _ _)
      fun b hb => update_of_ne (fun he => hholds t (by rw [hb]; exact he)) _ _
    locals := fun t => by
      have hl := h.locals t
      cases hp : s.notifier t <;> rw [hp] at hl <;> try exact hl
      next b n =>
        refine ⟨hl.1, fun hb => ?_⟩
        rw [← hl.2 hb]
        exact update_of_ne (ne_of_mem_of_not_mem hb (ha none)) _ _ }

omit [DecidableEq Addr] [DecidableEq Co] in
/-- **Moving one thread** that serves the same awaiters where it is now. -/
theorem Inv.goto {pc : NotifyPc Addr} (h : Inv s lists)
    (hserves : Serves s.next pc (lists (some t)))
    (hlocal : Local s (lists none) pc) : Inv (s.goto t pc) lists :=
  { h with
    serves := (forall_update_iff s.notifier fun u pc => Serves s.next pc (lists (some u))).mpr
      ⟨hserves, fun u _ => h.serves u⟩
    locals := by
      refine (forall_update_iff s.notifier fun _ pc => Local _ (lists none) pc).mpr
        ⟨by cases pc <;> exact hlocal, fun u _ => ?_⟩
      have hl := h.locals u
      cases hp : s.notifier u <;> rw [hp] at hl <;> exact hl }

omit [DecidableEq Addr] [DecidableEq Th] in
/-- **Moving one coroutine** that is not suspended before or after, to storage that nobody else
uses. -/
theorem Inv.setWaiter {pc : WaitPc Addr} (h : Inv s lists) (hold : ∀ a, s.waiter c ≠ .suspended a)
    (hnew : ∀ a, pc ≠ .suspended a)
    (hstorage : ∀ a, pc.storage = some a → (∀ d, (s.waiter d).storage = some a → d = c) ∧
      (s.live a = true ∧ s.continuation a = some c) ∧ ∀ t, ¬ (s.notifier t).Holds a) :
    Inv { s with waiter := update s.waiter c pc } lists := by
  have hsusp : ∀ d a, update s.waiter c pc d = .suspended a ↔ s.waiter d = .suspended a := by
    intro d a
    by_cases hdc : d = c
    · subst hdc
      simp [hold a, hnew a]
    · rw [update_of_ne hdc]
  have hst : ∀ d a, (update s.waiter c pc d).storage = some a →
      d = c ∧ pc.storage = some a ∨ d ≠ c ∧ (s.waiter d).storage = some a := by
    intro d a hd
    by_cases hdc : d = c
    · subst hdc
      rw [update_self] at hd
      exact .inl ⟨rfl, hd⟩
    · rw [update_of_ne hdc] at hd
      exact .inr ⟨hdc, hd⟩
  exact
    { h with
      waiting := fun a => by
        rw [h.waiting]
        exact exists_congr fun d => (hsusp d a).symm
      storage_unique := fun d e a hd he => by
        rcases hst d a hd with ⟨rfl, hd'⟩ | ⟨-, hd'⟩ <;>
          rcases hst e a he with ⟨rfl, he'⟩ | ⟨-, he'⟩
        · rfl
        · exact ((hstorage a hd').1 e he').symm
        · exact (hstorage a he').1 d hd'
        · exact h.storage_unique d e a hd' he'
      live := fun d a hd => by
        rcases hst d a hd with ⟨rfl, hd'⟩ | ⟨-, hd'⟩
        · exact (hstorage a hd').2.1
        · exact h.live d a hd'
      locals := fun t => by
        have hl := h.locals t
        -- a thread that uses an awaiter keeps its storage from being used for another one
        have hread : ∀ b, (s.notifier t).Holds b →
            (∀ d, (s.waiter d).storage = some b → s.waiter d = .suspended b) →
            ∀ d, (update s.waiter c pc d).storage = some b →
              update s.waiter c pc d = .suspended b := by
          intro b hb hl d hd
          rcases hst d b hd with ⟨rfl, hd'⟩ | ⟨-, hd'⟩
          · exact absurd hb ((hstorage b hd').2.2 t)
          · exact (hsusp d b).mpr (hl d hd')
        cases hp : s.notifier t <;> rw [hp] at hl hread <;> try exact trivial
        · exact hread _ rfl hl
        · exact ⟨hread _ rfl hl.1, hl.2⟩
        · next b =>
          intro d hd
          rcases hst d b hd with ⟨rfl, hd'⟩ | ⟨-, hd'⟩
          · exact absurd rfl (hp ▸ (hstorage b hd').2.2 t)
          · exact hl d hd'
      ticket_fresh := fun d a hd => h.ticket_fresh d a ((hsusp d a).mp hd)
      ticket_unique := fun d e a b hd he =>
        h.ticket_unique d e a b ((hsusp d a).mp hd) ((hsusp e b).mp he)
      accounted := fun n hn => (h.accounted n hn).imp_right fun ⟨d, a, hd, ha⟩ =>
        ⟨d, a, (hsusp d a).mpr hd, ha⟩ }

omit [DecidableEq Th] in
/-- A new awaiter in storage that is not in use. -/
theorem Inv.construct (h : Inv s lists) (hc : s.waiter c = .idle) (ha : s.live a = false)
    (hholds : ∀ t, ¬ (s.notifier t).Holds a) :
    Inv { s with
      next := update s.next a none
      continuation := update s.continuation a (some c)
      live := update s.live a true
      waiter := update s.waiter c (.load a) } lists := by
  have hfree : ∀ d, (s.waiter d).storage ≠ some a := by
    intro d hd
    rw [(h.live d a hd).1] at ha
    cases ha
  have hnext := h.setNext (h.not_mem_of_not_live ha) hholds none
  have hcell : Inv { s with
      next := update s.next a none
      continuation := update s.continuation a (some c)
      live := update s.live a true } lists :=
    { hnext with
      live := fun d b hd => by
        have hba : b ≠ a := by
          rintro rfl
          exact hfree d hd
        simp only [ne_eq, hba, not_false_eq_true, update_of_ne]
        exact h.live d b hd }
  refine hcell.setWaiter (fun b hb => ?_) (by simp) ?_
  · rw [show s.waiter c = _ from hb] at hc
    cases hc
  · rintro b ⟨⟩
    exact ⟨fun d hd => absurd hd (hfree d), ⟨update_self .., update_self ..⟩, hholds⟩

end Moves

/-! ### Queueing an awaiter -/

section Enqueue

variable {s : State Co Th Addr} {lists : Option Th → List Addr} {c d e : Co} {a b b' : Addr}

/-- The state after a coroutine has queued its awaiter. -/
def State.enqueue (s : State Co Th Addr) (c : Co) (a : Addr) : State Co Th Addr :=
  { s with
    head := some a
    waiter := update s.waiter c (.suspended a)
    ticket := update s.ticket a s.enqueued
    enqueued := s.enqueued + 1
    queue := s.enqueued :: s.queue }

omit [DecidableEq Th] in
theorem storage_enqueue (hc : s.waiter c = .cas a) :
    ((s.enqueue c a).waiter d).storage = (s.waiter d).storage := by
  show (update s.waiter c (.suspended a) d).storage = _
  by_cases hdc : d = c
  · subst hdc
    rw [update_self, hc]
    rfl
  · rw [update_of_ne hdc]

omit [DecidableEq Th] in
/-- The coroutine is suspended, and the others wait where they did, not in its storage. -/
theorem Inv.suspended_enqueue_iff (h : Inv s lists) (hc : s.waiter c = .cas a) :
    (s.enqueue c a).waiter d = .suspended b ↔
      d = c ∧ b = a ∨ b ≠ a ∧ s.waiter d = .suspended b := by
  have hca : (s.waiter c).storage = some a := by rw [hc]; rfl
  show update s.waiter c (.suspended a) d = _ ↔ _
  by_cases hdc : d = c
  · subst hdc
    simp [hc, eq_comm]
  · have hba : s.waiter d = .suspended b → b ≠ a := by
      rintro hd rfl
      exact hdc (h.storage_unique d c b (by rw [hd]; rfl) hca)
    rw [update_of_ne hdc]
    simp only [hdc, false_and, false_or]
    exact ⟨fun hd => ⟨hba hd, hd⟩, And.right⟩

omit [DecidableEq Th] in
theorem ticket_enqueue_of_ne (hb : b ≠ a) : (s.enqueue c a).ticket b = s.ticket b :=
  update_of_ne hb _ _

omit [DecidableEq Th] in
theorem ticket_enqueue_self : (s.enqueue c a).ticket a = s.enqueued := update_self ..

omit [DecidableEq Th] in
/-- The tickets in the lists stay as they are. -/
theorem Inv.tickets_enqueue (h : Inv s lists) (hc : s.waiter c = .cas a) (i : Option Th) :
    (lists i).map (s.enqueue c a).ticket = (lists i).map s.ticket := by
  have hnot : a ∉ lists i := h.not_mem (c := c) (by rw [hc]; rfl) (by simp [hc]) i
  exact List.map_congr_left fun b hb => ticket_enqueue_of_ne (ne_of_mem_of_not_mem hb hnot)

/-- The awaiter is put before the list that hangs from `awaiter_`. -/
theorem Inv.partition_enqueue (h : Inv s lists) (hc : s.waiter c = .cas a) :
    Partition (update lists none (a :: lists none)) fun b =>
      ∃ d, (s.enqueue c a).waiter d = .suspended b := by
  have hnot : ¬∃ d, s.waiter d = .suspended a := fun ⟨d, hd⟩ => by
    have hmem := (h.waiting a).mpr ⟨d, hd⟩
    exact hmem.elim fun i => h.not_mem (c := c) (by rw [hc]; rfl) (by simp [hc]) i
  refine h.partition.cons hnot (fun b => ?_) none
  simp only [h.suspended_enqueue_iff hc]
  constructor
  · rintro ⟨d, ⟨-, hb⟩ | ⟨-, hd⟩⟩
    · exact .inl hb
    · exact .inr ⟨d, hd⟩
  · rintro (hb | ⟨d, hd⟩)
    · exact ⟨c, .inl ⟨rfl, hb⟩⟩
    · refine ⟨d, .inr ⟨?_, hd⟩⟩
      rintro rfl
      exact hnot ⟨d, hd⟩

omit [DecidableEq Th] in
/-- What the threads rely on stays true, since none of them uses the awaiter. -/
theorem Inv.local_enqueue (h : Inv s lists) (hc : s.waiter c = .cas a) (t : Th) :
    Local (s.enqueue c a) (a :: lists none) (s.notifier t) := by
  have hread : ∀ b, (∀ d, (s.waiter d).storage = some b → s.waiter d = .suspended b) →
      ∀ d, ((s.enqueue c a).waiter d).storage = some b →
        (s.enqueue c a).waiter d = .suspended b := by
    intro b hb d hd
    rw [storage_enqueue hc] at hd
    have hdb := hb d hd
    by_cases hba : b = a
    · subst hba
      have hcb := hb c (by rw [hc]; rfl)
      rw [hc] at hcb
      cases hcb
    · exact (h.suspended_enqueue_iff hc).mpr (.inr ⟨hba, hdb⟩)
  have hl := h.locals t
  have hholds := h.not_holds (c := c) (a := a) (by rw [hc]; rfl) (by simp [hc]) t
  cases hp : s.notifier t <;> rw [hp] at hl hholds <;> try exact trivial
  · exact hread _ hl
  · exact ⟨hread _ hl.1, fun hb => hl.2 ((List.mem_cons.mp hb).resolve_left hholds)⟩
  · intro d
    rw [storage_enqueue hc]
    exact hl d

omit [DecidableEq Th] in
/-- The ticket of the awaiter is new, and the others have kept theirs. -/
theorem Inv.ticket_unique_enqueue (h : Inv s lists) (hc : s.waiter c = .cas a)
    (hd : (s.enqueue c a).waiter d = .suspended b) (he : (s.enqueue c a).waiter e = .suspended b')
    (hbb : (s.enqueue c a).ticket b = (s.enqueue c a).ticket b') : b = b' := by
  rcases (h.suspended_enqueue_iff hc).mp hd with ⟨-, rfl⟩ | ⟨hb, hd'⟩ <;>
    rcases (h.suspended_enqueue_iff hc).mp he with ⟨-, hb'⟩ | ⟨hb', he'⟩
  · exact hb'.symm
  · rw [ticket_enqueue_self, ticket_enqueue_of_ne hb'] at hbb
    -- one of the two is new: its ticket is later than all tickets so far
    exact absurd hbb.symm (h.ticket_fresh e b' he').1.ne
  · rw [hb', ticket_enqueue_self, ticket_enqueue_of_ne hb] at hbb
    exact absurd hbb (h.ticket_fresh d b hd').1.ne
  · rw [ticket_enqueue_of_ne hb, ticket_enqueue_of_ne hb'] at hbb
    exact h.ticket_unique d e b b' hd' he' hbb

/-- **Queueing an awaiter.** -/
theorem Inv.enqueue (h : Inv s lists) (hc : s.waiter c = .cas a) (hs : s.head = s.next a) :
    Inv (s.enqueue c a) (update lists none (a :: lists none)) :=
  { h with
    head := by
      refine ⟨rfl, ?_⟩
      show Chain s.next (s.next a) (lists none)
      rw [← hs]
      exact h.head
    queue := by
      rw [update_self, List.map_cons, ticket_enqueue_self, h.tickets_enqueue hc, h.queue]
      rfl
    serves := fun t => h.serves t
    detached := fun t => by
      rw [update_of_ne (by simp), h.tickets_enqueue hc]
      exact h.detached t
    nodup := (h.partition_enqueue hc).nodup
    disjoint := (h.partition_enqueue hc).disjoint
    waiting := (h.partition_enqueue hc).mem
    storage_unique := fun d e b hd he => h.storage_unique d e b
      ((storage_enqueue hc).symm.trans hd) ((storage_enqueue hc).symm.trans he)
    live := fun d b hd => h.live d b ((storage_enqueue hc).symm.trans hd)
    locals := fun t => h.local_enqueue hc t
    ticket_fresh := fun d b hd => by
      rcases (h.suspended_enqueue_iff hc).mp hd with ⟨-, rfl⟩ | ⟨hb, hd'⟩
      · rw [ticket_enqueue_self]
        exact ⟨Nat.lt_succ_self _, fun hr => Nat.lt_irrefl _ (h.resumed_lt _ hr)⟩
      · rw [ticket_enqueue_of_ne hb]
        exact ⟨Nat.lt_succ_of_lt (h.ticket_fresh d b hd').1, (h.ticket_fresh d b hd').2⟩
    ticket_unique := fun d e b b' hd he hbb => h.ticket_unique_enqueue hc hd he hbb
    accounted := fun n hn => by
      rcases Nat.lt_succ_iff_lt_or_eq.mp hn with hn | rfl
      · refine (h.accounted n hn).imp_right fun ⟨d, b, hd, hb⟩ => ?_
        have hba : b ≠ a := by
          rintro rfl
          exact h.not_mem (c := c) (by rw [hc]; rfl) (by simp [hc]) _
            ((h.waiting b).mpr ⟨d, hd⟩).choose_spec
        exact ⟨d, b, (h.suspended_enqueue_iff hc).mpr (.inr ⟨hba, hd⟩),
          (ticket_enqueue_of_ne hba).trans hb⟩
      -- the new ticket is that of the coroutine that suspends here
      · exact .inr ⟨c, a, (h.suspended_enqueue_iff hc).mpr (.inl ⟨rfl, rfl⟩), ticket_enqueue_self⟩
    resumed_lt := fun n hn => Nat.lt_succ_of_lt (h.resumed_lt n hn) }

end Enqueue

/-! ### Taking awaiters off the list -/

section Detach

variable {s : State Co Th Addr} {lists : Option Th → List Addr} {c : Co} {t : Th} {a : Addr}

omit [DecidableEq Co] [DecidableEq Addr] in
/-- `NotifyAll` takes the whole list. -/
theorem Inv.detachAll (h : Inv s lists) (ht : s.notifier t = .casAll a) (hs : s.head = some a) :
    Inv { s.goto t (.resume a) with
      head := none
      queue := []
      detached := update s.detached t s.queue
      woken := update s.woken t [] } (lists ∘ Equiv.swap none (some t)) := by
  have hempty : lists (some t) = [] := by
    have := h.serves t
    rw [ht] at this
    exact this
  have hother : ∀ u, u ≠ t → (lists ∘ Equiv.swap none (some t)) (some u) = lists (some u) := by
    intro u hut
    rw [comp_apply, Equiv.swap_apply_of_ne_of_ne (by simp) (by simpa using hut)]
  have hnone : (lists ∘ Equiv.swap none (some t)) none = [] := by
    rw [comp_apply, Equiv.swap_apply_left, hempty]
  have hself : (lists ∘ Equiv.swap none (some t)) (some t) = lists none := by
    rw [comp_apply, Equiv.swap_apply_right]
  have hpart := h.partition.comp (Equiv.swap none (some t))
  exact
    { h with
      head := by rw [hnone]; rfl
      queue := by rw [hnone]; rfl
      serves := by
        refine (forall_update_iff s.notifier fun u pc => Serves s.next pc _).mpr
          ⟨?_, fun u hut => ?_⟩
        · have hhead := h.head
          rw [hs] at hhead
          rw [hself]
          exact hhead
        · rw [hother u hut]
          exact h.serves u
      detached := fun u => by
        dsimp only
        by_cases hut : u = t
        · subst hut
          rw [update_self, update_self, hself, List.nil_append]
          exact h.queue.symm
        · rw [update_of_ne hut, update_of_ne hut, hother u hut]
          exact h.detached u
      nodup := hpart.nodup
      disjoint := hpart.disjoint
      waiting := hpart.mem
      locals := by
        refine (forall_update_iff s.notifier fun _ pc => Local _ _ pc).mpr
          ⟨trivial, fun u _ => ?_⟩
        have hl := h.locals u
        cases hp : s.notifier u <;> rw [hp] at hl <;> try exact hl
        exact ⟨hl.1, fun hb => by rw [hnone] at hb; cases hb⟩
      woken_resumed := (forall_update_iff s.woken fun _ ws => ∀ n ∈ ws, n ∈ s.resumed).mpr
        ⟨by simp, fun u _ => h.woken_resumed u⟩ }

omit [DecidableEq Co] [DecidableEq Th] [DecidableEq Addr] in
/-- The compare-exchange of `NotifyOne` has found the head that it read before, and with it the link
that it read. -/
theorem Inv.casOne {n : Option Addr} (h : Inv s lists) (ht : s.notifier t = .casOne a n)
    (hs : s.head = some a) :
    ∃ l, lists none = a :: l ∧ Chain s.next n l ∧ lists (some t) = [] := by
  obtain ⟨l, hl, hchain⟩ := Chain.some_iff.mp (hs ▸ h.head)
  have hserves := h.serves t
  have hlocal := h.locals t
  rw [ht] at hserves hlocal
  -- `a` is still queued, so nobody has written its link since it was read
  rw [hlocal.2 (by simp [hl])] at hchain
  exact ⟨l, hl, hchain, hserves⟩

omit [DecidableEq Co] [DecidableEq Addr] in
/-- `NotifyOne` takes the first element of the list. -/
theorem Inv.detachOne {n : Option Addr} (h : Inv s lists) (ht : s.notifier t = .casOne a n)
    (hs : s.head = some a) :
    Inv { s.goto t (.clear a) with
      head := n
      queue := s.queue.erase (s.ticket a)
      detached := update s.detached t [s.ticket a]
      woken := update s.woken t [] }
      (update (update lists none (lists none).tail) (some t) [a]) := by
  obtain ⟨l, hl, hchain, hempty⟩ := h.casOne ht hs
  have hpart := h.partition.move hl (j := some t) (by simp)
  rw [hempty] at hpart
  rw [hl, List.tail_cons]
  have hnone : update (update lists none l) (some t) [a] none = l := by simp
  have hself : update (update lists none l) (some t) [a] (some t) = [a] := by simp
  have hother : ∀ u, u ≠ t →
      update (update lists none l) (some t) [a] (some u) = lists (some u) := by
    intro u hut
    simp [hut]
  exact
    { h with
      head := by
        rw [hnone]
        exact hchain
      queue := by
        dsimp only
        rw [hnone, ← h.queue, hl, List.map_cons, List.erase_cons_head]
        rfl
      serves := by
        refine (forall_update_iff s.notifier fun u pc => Serves s.next pc _).mpr
          ⟨?_, fun u hut => ?_⟩
        · rw [hself]
          rfl
        · rw [hother u hut]
          exact h.serves u
      detached := fun u => by
        dsimp only
        by_cases hut : u = t
        · subst hut
          rw [update_self, update_self, hself]
          rfl
        · rw [update_of_ne hut, update_of_ne hut, hother u hut]
          exact h.detached u
      nodup := hpart.nodup
      disjoint := hpart.disjoint
      waiting := hpart.mem
      locals := by
        refine (forall_update_iff s.notifier fun _ pc => Local _ _ pc).mpr
          ⟨trivial, fun u _ => ?_⟩
        have hlu := h.locals u
        cases hp : s.notifier u <;> rw [hp] at hlu <;> try exact hlu
        refine ⟨hlu.1, fun hb => hlu.2 ?_⟩
        rw [hnone] at hb
        rw [hl]
        exact List.mem_cons_of_mem _ hb
      woken_resumed := (forall_update_iff s.woken fun _ ws => ∀ n ∈ ws, n ∈ s.resumed).mpr
        ⟨by simp, fun u _ => h.woken_resumed u⟩ }

omit [DecidableEq Co] in
/-- `NotifyOne` clears the link of the element that it took. -/
theorem Inv.clear (h : Inv s lists) (ht : s.notifier t = .clear a) :
    Inv ({ s with next := update s.next a none }.goto t (.resume a)) lists := by
  have hlist : lists (some t) = [a] := by
    have := h.serves t
    rw [ht] at this
    exact this
  have hmem : a ∈ lists (some t) := by simp [hlist]
  -- no other list runs through `a`
  have hnot : ∀ i, i ≠ some t → a ∉ lists i := fun i hi ha => hi (h.disjoint _ _ a ha hmem)
  obtain ⟨c, hc⟩ := (h.waiting a).mp ⟨_, hmem⟩
  exact
    { h with
      head := h.head.update (hnot none (by simp)) none
      serves := fun u => by
        show Serves (update s.next a none) (update s.notifier t _ u) _
        by_cases hut : u = t
        · subst hut
          rw [update_self, hlist]
          exact ⟨rfl, update_self ..⟩
        · rw [update_of_ne hut]
          refine (h.serves u).congr (fun b hb => update_of_ne ?_ _ _) fun b hb =>
            update_of_ne ?_ _ _
          · exact ne_of_mem_of_not_mem hb (hnot _ (by simpa using hut))
          · rintro rfl
            have hl := h.locals u
            rw [hb] at hl
            exact hl c (by rw [hc]; rfl)
      locals := by
        refine (forall_update_iff s.notifier fun _ pc => Local _ _ pc).mpr
          ⟨trivial, fun u _ => ?_⟩
        have hl := h.locals u
        cases hp : s.notifier u <;> rw [hp] at hl <;> try exact hl
        refine ⟨hl.1, fun hb => ?_⟩
        rw [← hl.2 hb]
        exact update_of_ne (ne_of_mem_of_not_mem hb (hnot none (by simp))) _ _ }

end Detach

/-! ### Resuming -/

section Resume

variable {s : State Co Th Addr} {lists : Option Th → List Addr} {c : Co} {t : Th} {a : Addr}

omit [DecidableEq Th] [DecidableEq Addr] in
/-- A coroutine that goes on is the only one that stops waiting. -/
theorem Inv.suspended_update_idle (h : Inv s lists) (hc : s.waiter c = .suspended a) (d : Co)
    (b : Addr) :
    update s.waiter c .idle d = .suspended b ↔ s.waiter d = .suspended b ∧ b ≠ a := by
  by_cases hdc : d = c
  · subst hdc
    simp only [update_self, reduceCtorEq, hc, WaitPc.suspended.injEq, ne_eq, false_iff, not_and,
      not_not]
    exact Eq.symm
  · rw [update_of_ne hdc]
    refine ⟨fun hd => ⟨hd, ?_⟩, fun hd => hd.1⟩
    rintro rfl
    exact hdc (h.storage_unique d c b (by rw [hd]; rfl) (by rw [hc]; rfl))

omit [DecidableEq Th] [DecidableEq Addr] in
/-- The storage that a coroutine has given up is not in use. -/
theorem Inv.storage_update_idle (h : Inv s lists) (hc : (s.waiter c).storage = some a) {d : Co}
    {b : Addr} (hd : (update s.waiter c .idle d).storage = some b) :
    (s.waiter d).storage = some b ∧ b ≠ a := by
  by_cases hdc : d = c
  · subst hdc
    rw [update_self] at hd
    cases hd
  · rw [update_of_ne hdc] at hd
    refine ⟨hd, ?_⟩
    rintro rfl
    exact hdc (h.storage_unique d c b hd hc)

/-- What a thread resumes: the coroutine of the first awaiter of its list. -/
theorem Inv.resume_eq (h : Inv s lists) (ht : s.notifier t = .resume a) :
    ∃ c l, s.waiter c = .suspended a ∧ lists (some t) = a :: l ∧ Chain s.next (s.next a) l ∧
      s.resume t a = { s.goto t (.advance a) with
        waiter := update s.waiter c .idle
        live := update s.live a false
        resumed := s.resumed ++ [s.ticket a]
        woken := update s.woken t (s.woken t ++ [s.ticket a]) } := by
  have hserves : Chain s.next (some a) (lists (some t)) := by
    have := h.serves t
    rw [ht] at this
    exact this
  obtain ⟨l, hl, hchain⟩ := Chain.some_iff.mp hserves
  obtain ⟨c, hc⟩ := (h.waiting a).mp ⟨some t, by simp [hl]⟩
  have hcont := (h.live c a (by rw [hc]; rfl)).2
  exact ⟨c, l, hc, hl, hchain, by simp [State.resume, hcont, hc]⟩

omit [DecidableEq Th] [DecidableEq Addr] in
/-- What a thread has read of an awaiter stays true unless it is the one that is resumed. -/
theorem Inv.suspended_of_storage_update_idle (h : Inv s lists) (hc : s.waiter c = .suspended a)
    {b : Addr} (hb : ∀ d, (s.waiter d).storage = some b → s.waiter d = .suspended b) (d : Co)
    (hd : (update s.waiter c .idle d).storage = some b) :
    update s.waiter c .idle d = .suspended b := by
  obtain ⟨hd', hba⟩ := h.storage_update_idle (by rw [hc]; rfl) hd
  exact (h.suspended_update_idle hc d b).mpr ⟨hb d hd', hba⟩

omit [DecidableEq Th] [DecidableEq Addr] in
/-- What another thread relies on, in a state in which the coroutine is not suspended any more. -/
theorem Inv.local_resume {s' : State Co Th Addr} (h : Inv s lists)
    (hc : s.waiter c = .suspended a) (hnext : s'.next = s.next)
    (hwaiter : s'.waiter = update s.waiter c .idle) (u : Th) :
    Local s' (lists none) (s.notifier u) := by
  have hread := fun {b} => h.suspended_of_storage_update_idle hc (b := b)
  have hl := h.locals u
  cases hp : s.notifier u <;> rw [hp] at hl <;> try exact trivial
  · unfold Local
    rw [hwaiter]
    exact hread hl
  · unfold Local
    rw [hwaiter, hnext]
    exact ⟨hread hl.1, hl.2⟩
  · unfold Local
    rw [hwaiter]
    exact fun d hd => hl d (h.storage_update_idle (by rw [hc]; rfl) hd).1

/-- **Resuming the first awaiter that a thread serves.** -/
theorem Inv.resume (h : Inv s lists) (ht : s.notifier t = .resume a) :
    Inv (s.resume t a) (update lists (some t) (lists (some t)).tail) := by
  obtain ⟨c, l, hc, hl, hchain, heq⟩ := h.resume_eq ht
  have hca : (s.waiter c).storage = some a := by rw [hc]; rfl
  have hst : ∀ d b, (update s.waiter c .idle d).storage = some b →
      (s.waiter d).storage = some b ∧ b ≠ a := fun _ _ => h.storage_update_idle hca
  have hsusp := h.suspended_update_idle hc
  -- only `a` leaves the lists, and only `c` stops waiting
  have hpart : Partition (update lists (some t) l) fun b =>
      ∃ d, update s.waiter c .idle d = .suspended b :=
    h.partition.tail hl fun b => by simp only [hsusp, exists_and_right]
  have hother : ∀ i, i ≠ some t → update lists (some t) l i = lists i :=
    fun i hi => update_of_ne hi _ _
  rw [heq, hl, List.tail_cons]
  exact
    { h with
      head := by
        rw [hother none (by simp)]
        exact h.head
      queue := by
        rw [hother none (by simp)]
        exact h.queue
      serves := by
        refine (forall_update_iff s.notifier fun u pc => Serves s.next pc _).mpr
          ⟨?_, fun u hut => ?_⟩
        · rw [update_self]
          exact hchain
        · rw [hother _ (by simpa using hut)]
          exact h.serves u
      detached := fun u => by
        show s.detached u = update s.woken t _ u ++ List.map s.ticket _
        by_cases hut : u = t
        · subst hut
          rw [update_self, update_self, h.detached u, hl, List.map_cons, List.append_assoc]
          rfl
        · rw [update_of_ne hut, hother _ (by simpa using hut)]
          exact h.detached u
      nodup := hpart.nodup
      disjoint := hpart.disjoint
      waiting := hpart.mem
      storage_unique := fun d e b hd he =>
        h.storage_unique d e b (hst d b hd).1 (hst e b he).1
      live := fun d b hd => by
        obtain ⟨hd', hba⟩ := hst d b hd
        refine ⟨?_, (h.live d b hd').2⟩
        show update s.live a false b = true
        rw [update_of_ne hba]
        exact (h.live d b hd').1
      locals := by
        rw [hother none (by simp)]
        refine (forall_update_iff s.notifier fun _ pc => Local _ _ pc).mpr
          ⟨fun d hd => (hst d a hd).2 rfl, fun u _ => ?_⟩
        refine h.local_resume hc ?_ ?_ u <;> rfl
      ticket_fresh := fun d b hd => by
        obtain ⟨hd', hba⟩ := (hsusp d b).mp hd
        refine ⟨(h.ticket_fresh d b hd').1, fun hr => ?_⟩
        rcases List.mem_append.mp hr with hr | hr
        · exact (h.ticket_fresh d b hd').2 hr
        · exact hba (h.ticket_unique d c b a hd' hc (List.mem_singleton.mp hr))
      ticket_unique := fun d e b b' hd he =>
        h.ticket_unique d e b b' ((hsusp d b).mp hd).1 ((hsusp e b').mp he).1
      accounted := fun n hn => by
        rcases h.accounted n hn with hr | ⟨d, b, hd, rfl⟩
        · exact .inl (List.mem_append_left _ hr)
        · by_cases hba : b = a
          · exact .inl (by rw [hba]; simp)
          · exact .inr ⟨d, b, (hsusp d b).mpr ⟨hd, hba⟩, rfl⟩
      resumed_lt := fun n hn => by
        rcases List.mem_append.mp hn with hn | hn
        · exact h.resumed_lt n hn
        · rw [List.mem_singleton.mp hn]
          exact (h.ticket_fresh c a hc).1
      resumed_nodup := by
        refine List.nodup_append.mpr ⟨h.resumed_nodup, List.nodup_singleton _, ?_⟩
        rintro n hn m hm rfl
        exact (h.ticket_fresh c a hc).2 (List.mem_singleton.mp hm ▸ hn)
      woken_resumed := (forall_update_iff s.woken fun _ ws =>
          ∀ n ∈ ws, n ∈ s.resumed ++ [s.ticket a]).mpr
        ⟨fun n hn => List.mem_append.mpr ((List.mem_append.mp hn).imp_left (h.woken_resumed t n)),
          fun u _ n hn => List.mem_append_left _ (h.woken_resumed u n hn)⟩ }

end Resume

/-! ### The steps -/

section Steps

variable {s s' : State Co Th Addr} {lists : Option Th → List Addr} {c : Co} {t : Th}

theorem Inv.waitNext {spurious : Bool} (h : Inv s lists) (hs : s.waitNext c spurious = some s') :
    ∃ lists', Inv s' lists' := by
  cases hc : s.waiter c with
  | idle => simp [State.waitNext, hc] at hs
  | suspended a => simp [State.waitNext, hc] at hs
  | load a =>
    have hca : (s.waiter c).storage = some a := by rw [hc]; rfl
    -- the awaiter is in no list yet, so its link is the coroutine's own
    have hne : s.waiter c ≠ .suspended a := by simp [hc]
    simp only [State.waitNext, hc] at hs
    cases hs
    have hnext := h.setNext (h.not_mem hca hne) (h.not_holds hca hne) s.head
    refine ⟨lists, hnext.setWaiter (fun b hb => ?_) (by simp) ?_⟩
    · rw [show s.waiter c = _ from hb] at hc
      cases hc
    · rintro b ⟨⟩
      exact ⟨fun d hd => h.storage_unique d c a hd hca, h.live c a hca, h.not_holds hca hne⟩
  | cas a =>
    have hca : (s.waiter c).storage = some a := by rw [hc]; rfl
    have hne : s.waiter c ≠ .suspended a := by simp [hc]
    simp only [State.waitNext, hc] at hs
    split_ifs at hs with hcas
    · cases hs
      exact ⟨_, h.enqueue hc hcas.1⟩
    · cases hs
      exact ⟨lists, h.setNext (h.not_mem hca hne) (h.not_holds hca hne) s.head⟩

omit [DecidableEq Co] [DecidableEq Addr] in
/-- The head of the first loop of `Notify`. -/
theorem Inv.checkHead {all : Bool} (h : Inv s lists) (ht : lists (some t) = []) :
    Inv (s.checkHead t all) lists := by
  unfold State.checkHead
  cases hs : s.head with
  | none => exact h.goto ht trivial
  | some a =>
    obtain ⟨l, hl, -⟩ := Chain.some_iff.mp (hs ▸ h.head)
    cases all with
    | true => exact h.goto ht trivial
    | false =>
      -- the head is in the list, so a coroutine is suspended in its storage
      refine h.goto ht fun c hca => ?_
      obtain ⟨d, hd⟩ := (h.waiting a).mp ⟨none, by simp [hl]⟩
      rw [h.storage_unique c d a hca (by rw [hd]; rfl)]
      exact hd

theorem Inv.notifyNext {spurious : Bool} (h : Inv s lists)
    (hs : s.notifyNext t spurious = some s') : ∃ lists', Inv s' lists' := by
  have hserves := h.serves t
  have hlocal := h.locals t
  cases ht : s.notifier t with
  | idle => simp [State.notifyNext, ht] at hs
  | failed => simp [State.notifyNext, ht] at hs
  | load all =>
    rw [ht] at hserves
    simp only [State.notifyNext, ht] at hs
    cases hs
    exact ⟨lists, h.checkHead hserves⟩
  | readNext a =>
    rw [ht] at hserves hlocal
    simp only [State.notifyNext, ht] at hs
    cases hs
    exact ⟨lists, h.goto hserves ⟨hlocal, fun _ => rfl⟩⟩
  | casAll a =>
    rw [ht] at hserves
    simp only [State.notifyNext, ht] at hs
    split_ifs at hs with hcas
    · cases hs
      exact ⟨_, h.detachAll ht hcas.1⟩
    · cases hs
      exact ⟨lists, h.checkHead hserves⟩
  | casOne a n =>
    rw [ht] at hserves
    simp only [State.notifyNext, ht] at hs
    split_ifs at hs with hcas
    · cases hs
      exact ⟨_, h.detachOne ht hcas.1⟩
    · cases hs
      exact ⟨lists, h.checkHead hserves⟩
  | clear a =>
    simp only [State.notifyNext, ht] at hs
    cases hs
    exact ⟨lists, h.clear ht⟩
  | resume a =>
    simp only [State.notifyNext, ht] at hs
    cases hs
    exact ⟨_, h.resume ht⟩
  | advance a =>
    rw [ht] at hserves
    replace hserves : Chain s.next (s.next a) (lists (some t)) := hserves
    simp only [State.notifyNext, ht] at hs
    cases hnext : s.next a with
    | none =>
      rw [hnext] at hs hserves
      cases hs
      exact ⟨lists, h.goto (Chain.none_iff.mp hserves) trivial⟩
    | some b =>
      rw [hnext] at hs hserves
      cases hs
      exact ⟨lists, h.goto hserves trivial⟩

/-- Every step that reuses no storage keeps the invariant. -/
theorem Inv.step {e : Event Co Th Addr} (h : Inv s lists) (hg : NoReuse s e)
    (hs : s.step e = some s') : ∃ lists', Inv s' lists' := by
  cases e with
  | wait c a =>
    simp only [State.step, Option.ite_none_right_eq_some] at hs
    obtain ⟨⟨hc, ha⟩, hs⟩ := hs
    cases hs
    exact ⟨lists, h.construct hc ha hg⟩
  | waitNext c spurious => exact h.waitNext hs
  | notify t all =>
    simp only [State.step, Option.ite_none_right_eq_some] at hs
    obtain ⟨ht, hs⟩ := hs
    cases hs
    have hserves := h.serves t
    rw [ht] at hserves
    exact ⟨lists, h.goto hserves trivial⟩
  | notifyNext t spurious => exact h.notifyNext hs

/-- **No wake-up is lost or duplicated** in a run in which no awaiter is constructed in storage
whose `next_` a thread is still going to use. -/
theorem sound_of_reachableUnder (h : (system Co Th Addr).ReachableUnder NoReuse s) : s.Sound := by
  have hinv : ∃ lists, Inv s lists := by
    refine h.invariant (I := fun s => ∃ lists, Inv s lists) ⟨fun _ => [], ?_⟩
      fun _ _ _ ⟨_, hi⟩ hg hs => hi.step hg hs
    constructor <;> simp [system, Serves, Local, WaitPc.storage]
  obtain ⟨lists, hi⟩ := hinv
  exact hi.sound

end Steps

/-! ### Storage that is used again too soon -/

/-- Coroutines 1 and 2 wait, thread 0 notifies all and resumes 2, and 2 waits again in the same
storage before the thread goes on to the next awaiter. -/
def rewaitEvents : List (Event ℕ ℕ ℕ) :=
  [.wait 1 10, .waitNext 1 false, .waitNext 1 false, .wait 2 20, .waitNext 2 false,
    .waitNext 2 false, .notify 0 true, .notifyNext 0 false, .notifyNext 0 false,
    .notifyNext 0 false, .wait 2 20, .waitNext 2 false, .waitNext 2 false, .notifyNext 0 false]

/-- The thread is done, and has not resumed coroutine 1, whose wait it took off the list. -/
theorem rewait_loses_wakeup :
    ∃ s : State ℕ ℕ ℕ, (system ℕ ℕ ℕ).run rewaitEvents = some s ∧ s.notifier 0 = .idle ∧
      s.detached 0 = [1, 0] ∧ s.woken 0 = [1] ∧ s.waiter 1 = .suspended 10 ∧
      s.head = some 20 ∧ s.next 20 = none ∧ ¬ s.Sound := by
  refine ⟨_, rfl, rfl, rfl, rfl, rfl, rfl, rfl, fun h => ?_⟩
  obtain ⟨l, hl, hdetached⟩ := h.served 0
  obtain rfl : l = [] := hl
  exact absurd hdetached (by decide)

/-- Coroutines 1 and 2 wait, a thread notifies all and resumes both, and 2 waits again in other
storage before the thread has ended its loop. -/
def waitElsewhereEvents : List (Event ℕ Unit ℕ) :=
  [.wait 1 10, .waitNext 1 false, .waitNext 1 false, .wait 2 20, .waitNext 2 false,
    .waitNext 2 false, .notify () true, .notifyNext () false, .notifyNext () false,
    .notifyNext () false, .notifyNext () false, .notifyNext () false, .wait 2 30]

theorem sound_of_reachableUnder_sample :
    ∃ s : State ℕ Unit ℕ, (system ℕ Unit ℕ).run waitElsewhereEvents = some s ∧ s.woken () = [1, 0] ∧
      s.Sound :=
  ⟨_, rfl, rfl, sound_of_reachableUnder
    (System.reachableUnder_of_run waitElsewhereEvents (by decide) rfl)⟩

end AimrtComm.Sync.ConditionVariable
