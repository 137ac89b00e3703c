import AimrtComm.Core.Context
import AimrtComm.Lib.Owners
import AimrtComm.Lib.Transition
import Mathlib.Tactic.ByContra

/-!
# An initialisation is all or nothing

A session runs a context and writes down beside it which entries belong to the resources it has
returned.  In every session each resource designates its own entry (`sound_of_reachable`).  An
initialisation either raises and leaves the tables as they are, or adds one entry, except that a
server function whose registration fails leaves its entry behind (`allOrNothing_iff`).
-/

namespace AimrtComm.Core

open Owners

/-! ### Sessions -/

/-- An initialisation. -/
inductive Init where
  | pub (topicName : String)
  | pubByConverter (topicName : String)
  | pubMock (topicName : String)
  | sub (topicName : String)
  | subByConverter (topicName : String)
  | subMock (topicName : String)
  | cli (serviceName : String)
  | cliMock (serviceName : String)
  | cliFunc (type : RawType) (funcName : String)
  | cliFuncByConverter (type : RawType) (funcName : String)
  | srv (serviceName : String)
  | srvMock (serviceName : String)
  | srvFunc (type : RawType) (funcName : String)
  | srvFuncByConverter (type : RawType) (funcName : String)

namespace Init

/-- The operation. -/
def run (core : Registry) (ctx : Context) : Init → Except String Resource × Context
  | pub topicName => OpPub.init core ctx topicName
  | pubByConverter topicName => OpPub.initByConverter core ctx topicName
  | pubMock topicName => OpPub.initMock ctx topicName
  | sub topicName => OpSub.init core ctx topicName
  | subByConverter topicName => OpSub.initByConverter core ctx topicName
  | subMock topicName => OpSub.initMock ctx topicName
  | cli serviceName => OpCli.init ctx serviceName
  | cliMock serviceName => OpCli.initMock ctx serviceName
  | cliFunc type funcName => OpCli.initFunc type core ctx funcName
  | cliFuncByConverter type funcName => OpCli.initFuncByConverter type core ctx funcName
  | srv serviceName => OpSrv.init ctx serviceName
  | srvMock serviceName => OpSrv.initMock ctx serviceName
  | srvFunc type funcName => OpSrv.initFunc type core ctx funcName
  | srvFuncByConverter type funcName => OpSrv.initFuncByConverter type core ctx funcName

/-- It is about a channel. -/
def isChannel : Init → Bool
  | pub _ | pubByConverter _ | pubMock _ | sub _ | subByConverter _ | subMock _ => true
  | _ => false

/-- It is about a server function that AimRT refuses to register. -/
def serverRefused (core : Registry) : Init → Bool
  | srvFunc type funcName | srvFuncByConverter type funcName =>
    !core.registerServiceFunc (wrapRpcFuncName type funcName)
  | _ => false

end Init

/-- What can be done with the resource of a service that changes its entry. -/
inductive Use where
  | cliInitService
  | srvInitService
  | serve (exe : Executor) (exeName : String)

/-- The context after the operation. -/
def Use.run (ctx : Context) (srv : Resource) : Use → Context
  | cliInitService => (OpCli.initService ctx srv).2
  | srvInitService => (OpSrv.initService ctx srv).2
  | serve exe exeName => (OpSrv.doServe ctx srv exe exeName).2

/-- What the operation does to the entry of the resource. -/
def Use.change (srvCtx : ServiceContext) : Use → ServiceContext
  | cliInitService => { srvCtx with callF := srvCtx.callF.map .byConverter }
  | srvInitService =>
    if srvCtx.serveF.isSome then srvCtx else { srvCtx with serverInvokeF := some .byConverter }
  | serve exe _ =>
    if srvCtx.serveF.isSome ∨ srvCtx.registerServerF then srvCtx
    else { srvCtx with serveF := some exe }

/-- A context, with the resources that were returned and the entry of each of them. -/
structure Session where
  ctx : Context
  channels : List (Resource × ChannelContext) := []
  services : List (Resource × ServiceContext) := []

/-- What happens in a session. -/
inductive SessionEvent where
  | init (core : Registry) (i : Init)
  | use (srv : Resource) (u : Use)

/-- The session after an event.  The entries that an initialisation adds belong to the resource it
returns. -/
def Session.step (s : Session) : SessionEvent → Option Session
  | .init core i =>
    match i.run core s.ctx with
    | (.error _, ctx) => some { s with ctx := ctx }
    | (.ok res, ctx) =>
      let chCtxs := ctx.channelContexts.drop s.ctx.channelContexts.length
      let srvCtxs := ctx.serviceContexts.drop s.ctx.serviceContexts.length
      some
        { ctx := ctx
          channels := s.channels ++ chCtxs.map fun chCtx => (res, chCtx)
          services := s.services ++ srvCtxs.map fun srvCtx => (res, srvCtx) }
  | .use srv u =>
    if srv ∈ s.services.map Prod.fst then
      some { s with ctx := u.run s.ctx srv, services := change srv u.change s.services }
    else none

/-- The sessions of the context with this id. -/
def sessions (id : ℕ) : System Session SessionEvent where
  init := { ctx := { id := id } }
  step := Session.step

/-- An initialisation does all of its work or nothing. -/
structure AllOrNothing (s : Session) (core : Registry) (i : Init) : Prop where
  raised : ∀ msg ctx, i.run core s.ctx = (.error msg, ctx) →
    ctx.channelContexts = s.ctx.channelContexts ∧ ctx.serviceContexts = s.ctx.serviceContexts
  returned_channel : ∀ res ctx, i.isChannel = true → i.run core s.ctx = (.ok res, ctx) →
    ctx.serviceContexts = s.ctx.serviceContexts ∧
      ∃ chCtx, ctx.channelContexts = s.ctx.channelContexts ++ [chCtx] ∧
        res.idx = some s.ctx.channelContexts.length ∧
        ctx.getChannelContext res = .ok (some chCtx)
  returned_service : ∀ res ctx, i.isChannel = false → i.run core s.ctx = (.ok res, ctx) →
    ctx.channelContexts = s.ctx.channelContexts ∧
      ∃ srvCtx, ctx.serviceContexts = s.ctx.serviceContexts ++ [srvCtx] ∧
        res.idx = some s.ctx.serviceContexts.length ∧
        ctx.getServiceContext res = .ok (some srvCtx)
  earlier_channels : ∀ p ∈ s.channels, (i.run core s.ctx).2.getChannelContext p.1 = .ok (some p.2)
  earlier_services : ∀ p ∈ s.services, (i.run core s.ctx).2.getServiceContext p.1 = .ok (some p.2)

/-! ### What an operation can do -/

theorem modify_back {α : Type} (table : List α) (a : α) (f : α → α) :
    (table ++ [a]).modify ((table ++ [a]).length - 1) f = table ++ [f a] := by
  induction table with
  | nil => rfl
  | cons b table ih =>
    have hlen : (b :: table ++ [a]).length - 1 = (table ++ [a]).length - 1 + 1 := by simp
    rw [hlen]
    show b :: (table ++ [a]).modify ((table ++ [a]).length - 1) f = _
    rw [ih]
    rfl

@[simp] theorem modifyBackChannel_pushChannel (ctx : Context) (chCtx : ChannelContext)
    (f : ChannelContext → ChannelContext) :
    (ctx.pushChannel chCtx).modifyBackChannel f = ctx.pushChannel (f chCtx) := by
  unfold Context.modifyBackChannel Context.pushChannel
  dsimp only
  rw [modify_back]

@[simp] theorem modifyBackService_pushService (ctx : Context) (srvCtx : ServiceContext)
    (f : ServiceContext → ServiceContext) :
    (ctx.pushService srvCtx).modifyBackService f = ctx.pushService (f srvCtx) := by
  unfold Context.modifyBackService Context.pushService
  dsimp only
  rw [modify_back]

/-- A resource for an entry at the end of a table. -/
structure ForNext (ctx : Context) (table : List α) (res : Resource) : Prop where
  idx : res.idx = some table.length
  contextId : res.contextId = some ctx.id

/-- What an initialisation can do. -/
inductive Outcome (core : Registry) (ctx : Context) (i : Init) :
    Except String Resource × Context → Prop where
  | raised (msg : String) (h : i.serverRefused core = false) : Outcome core ctx i (.error msg, ctx)
  | channel (res : Resource) (chCtx : ChannelContext) (h : i.serverRefused core = false)
      (hkind : i.isChannel = true) (hres : ForNext ctx ctx.channelContexts res) :
      Outcome core ctx i (.ok res, ctx.pushChannel chCtx)
  | service (res : Resource) (srvCtx : ServiceContext) (h : i.serverRefused core = false)
      (hkind : i.isChannel = false) (hres : ForNext ctx ctx.serviceContexts res) :
      Outcome core ctx i (.ok res, ctx.pushService srvCtx)
  | left (msg : String) (srvCtx : ServiceContext) (h : i.serverRefused core = true) :
      Outcome core ctx i (.error msg, ctx.pushService srvCtx)

section Outcomes

variable {core : Registry} {ctx : Context} {i : Init}

theorem forNext_backChannel (chCtx : ChannelContext) (name : String) :
    ForNext ctx ctx.channelContexts ((ctx.pushChannel chCtx).backChannel name) := by
  refine ⟨?_, rfl⟩
  show some ((ctx.channelContexts ++ [chCtx]).length - 1) = _
  simp

theorem forNext_backService (srvCtx : ServiceContext) (name : String) :
    ForNext ctx ctx.serviceContexts ((ctx.pushService srvCtx).backService name) := by
  refine ⟨?_, rfl⟩
  show some ((ctx.serviceContexts ++ [srvCtx]).length - 1) = _
  simp

theorem outcome_pub (h : i.serverRefused core = false) (hkind : i.isChannel = true)
    (pubF : ChannelFunction) (topicName : String) :
    Outcome core ctx i (OpPub.initWith pubF core ctx topicName) := by
  unfold OpPub.initWith OpPub.doInit
  cases core.getPublisher topicName with
  | none => exact .raised _ h
  | some pub =>
    by_cases hreg : core.registerPublishType pub = true
    · simp only [hreg, if_true, modifyBackChannel_pushChannel]
      exact .channel _ _ h hkind (forNext_backChannel _ topicName)
    · simp only [hreg]
      exact .raised _ h

theorem outcome_sub (h : i.serverRefused core = false) (hkind : i.isChannel = true)
    (subF : ChannelFunction) (topicName : String) :
    Outcome core ctx i (OpSub.initWith subF core ctx topicName) := by
  unfold OpSub.initWith OpSub.doInit
  cases core.getSubscriber topicName with
  | none => exact .raised _ h
  | some sub =>
    simp only [modifyBackChannel_pushChannel]
    exact .channel _ _ h hkind (forNext_backChannel _ topicName)

theorem outcome_cli (h : i.serverRefused core = false) (hkind : i.isChannel = false)
    (callF : String → Client) (type : RawType) (funcName : String) :
    Outcome core ctx i (OpCli.initFuncWith callF type core ctx funcName) := by
  unfold OpCli.initFuncWith OpCli.doInit
  by_cases hreg : core.registerClientFunc (wrapRpcFuncName type funcName) = true
  · simp only [hreg, if_true, modifyBackService_pushService]
    exact .service _ _ h hkind ⟨rfl, rfl⟩
  · simp only [hreg]
    exact .raised _ h

theorem outcome_srv
    (h : i.serverRefused core = !core.registerServiceFunc (wrapRpcFuncName type funcName))
    (hkind : i.isChannel = false) (serverInvokeF : ServerInvoker) :
    Outcome core ctx i (OpSrv.initFuncWith serverInvokeF type core ctx funcName) := by
  unfold OpSrv.initFuncWith OpSrv.doInitFunc
  by_cases hreg : core.registerServiceFunc (wrapRpcFuncName type funcName) = true
  · rw [hreg] at h
    simp only [hreg, if_true, modifyBackService_pushService]
    exact .service _ _ h hkind ⟨rfl, rfl⟩
  · -- the entry was pushed before the registration failed
    rw [Bool.not_eq_true] at hreg
    rw [hreg] at h
    simp only [hreg]
    exact .left _ _ h

/-- Every initialisation has one of these outcomes. -/
theorem run_outcome (core : Registry) (ctx : Context) (i : Init) :
    Outcome core ctx i (i.run core ctx) := by
  cases i with
  | pub topicName => exact outcome_pub rfl rfl .direct topicName
  | pubByConverter topicName => exact outcome_pub rfl rfl .byConverter topicName
  | pubMock topicName => exact .channel _ _ rfl rfl (forNext_backChannel _ topicName)
  | sub topicName => exact outcome_sub rfl rfl .direct topicName
  | subByConverter topicName => exact outcome_sub rfl rfl .byConverter topicName
  | subMock topicName => exact .channel _ _ rfl rfl (forNext_backChannel _ topicName)
  | cli serviceName => exact .service _ _ rfl rfl (forNext_backService _ serviceName)
  | cliMock serviceName => exact .service _ _ rfl rfl (forNext_backService _ serviceName)
  | cliFunc type funcName => exact outcome_cli rfl rfl .invoke type funcName
  | cliFuncByConverter type funcName =>
    exact outcome_cli rfl rfl (fun funcName => .byConverter (.invoke funcName)) type funcName
  | srv serviceName => exact .service _ _ rfl rfl (forNext_backService _ serviceName)
  | srvMock serviceName => exact .service _ _ rfl rfl (forNext_backService _ serviceName)
  | srvFunc type funcName => exact outcome_srv rfl rfl .direct
  | srvFuncByConverter type funcName => exact outcome_srv rfl rfl .byConverter

end Outcomes

/-! ### Each resource designates its own entry -/

/-- Every resource that was returned designates its own entry, and nobody else does. -/
structure Session.Sound (s : Session) : Prop where
  channels : Owns Resource.idx s.channels s.ctx.channelContexts
  channels_apart : Apart Resource.idx s.channels
  channels_contextId : ∀ p ∈ s.channels, p.1.contextId = some s.ctx.id
  services : Owns Resource.idx s.services s.ctx.serviceContexts
  services_apart : Apart Resource.idx s.services
  services_contextId : ∀ p ∈ s.services, p.1.contextId = some s.ctx.id

namespace Session.Sound

variable {s : Session}

theorem getChannelContext (h : s.Sound) {p : Resource × ChannelContext} (hp : p ∈ s.channels)
    (rest : List ChannelContext) (ctx : Context) (hid : ctx.id = s.ctx.id)
    (htable : ctx.channelContexts = s.ctx.channelContexts ++ rest) :
    ctx.getChannelContext p.1 = .ok (some p.2) := by
  obtain ⟨j, hidx, hget⟩ := h.channels.append rest p hp
  unfold Context.getChannelContext
  rw [h.channels_contextId p hp, hid, if_pos rfl, hidx, htable, Option.bind_some, hget]

theorem getServiceContext (h : s.Sound) {p : Resource × ServiceContext} (hp : p ∈ s.services)
    (rest : List ServiceContext) (ctx : Context) (hid : ctx.id = s.ctx.id)
    (htable : ctx.serviceContexts = s.ctx.serviceContexts ++ rest) :
    ctx.getServiceContext p.1 = .ok (some p.2) := by
  obtain ⟨j, hidx, hget⟩ := h.services.append rest p hp
  unfold Context.getServiceContext
  rw [h.services_contextId p hp, hid, if_pos rfl, hidx, htable, Option.bind_some, hget]

theorem pushChannel (h : s.Sound) (res : Resource) (chCtx : ChannelContext)
    (hres : ForNext s.ctx s.ctx.channelContexts res) :
    Session.Sound
      { s with ctx := s.ctx.pushChannel chCtx, channels := s.channels ++ [(res, chCtx)] } where
  channels := h.channels.push hres.idx chCtx
  channels_apart := h.channels_apart.push h.channels hres.idx chCtx
  channels_contextId := by
    intro p hp
    obtain hp | hp := List.mem_append.mp hp
    · exact h.channels_contextId p hp
    · obtain rfl := List.mem_singleton.mp hp
      exact hres.contextId
  services := h.services
  services_apart := h.services_apart
  services_contextId := h.services_contextId

theorem pushService (h : s.Sound) (res : Resource) (srvCtx : ServiceContext)
    (hres : ForNext s.ctx s.ctx.serviceContexts res) :
    Session.Sound
      { s with ctx := s.ctx.pushService srvCtx, services := s.services ++ [(res, srvCtx)] } where
  channels := h.channels
  channels_apart := h.channels_apart
  channels_contextId := h.channels_contextId
  services := h.services.push hres.idx srvCtx
  services_apart := h.services_apart.push h.services hres.idx srvCtx
  services_contextId := by
    intro p hp
    obtain hp | hp := List.mem_append.mp hp
    · exact h.services_contextId p hp
    · obtain rfl := List.mem_singleton.mp hp
      exact hres.contextId

/-- The entry of a server function that was refused belongs to nobody. -/
theorem leave (h : s.Sound) (srvCtx : ServiceContext) :
    Session.Sound { s with ctx := s.ctx.pushService srvCtx } where
  channels := h.channels
  channels_apart := h.channels_apart
  channels_contextId := h.channels_contextId
  services := h.services.append [srvCtx]
  services_apart := h.services_apart
  services_contextId := h.services_contextId

/-- Initialisations keep it. -/
theorem init (h : s.Sound) (core : Registry) (i : Init) {s' : Session}
    (hstep : s.step (.init core i) = some s') : s'.Sound := by
  have hout := run_outcome core s.ctx i
  unfold Session.step at hstep
  dsimp only at hstep
  generalize i.run core s.ctx = outcome at hout hstep
  cases hout with
  | raised msg =>
    obtain rfl := Option.some.inj hstep
    exact h
  | channel res chCtx _ _ hres =>
    obtain rfl := Option.some.inj hstep
    simpa [Context.pushChannel] using h.pushChannel res chCtx hres
  | service res srvCtx _ _ hres =>
    obtain rfl := Option.some.inj hstep
    simpa [Context.pushService] using h.pushService res srvCtx hres
  | left msg srvCtx =>
    obtain rfl := Option.some.inj hstep
    exact h.leave srvCtx

end Session.Sound

/-- A change of an entry depends on this entry only. -/
theorem modify_congr {α : Type} {table : List α} {j : ℕ} {a : α} {f g : α → α}
    (hget : table[j]? = some a) (h : f a = g a) : table.modify j f = table.modify j g := by
  apply List.ext_getElem?
  intro n
  rw [List.getElem?_modify, List.getElem?_modify]
  by_cases hn : j = n
  · subst hn
    simp [hget, h]
  · simp [hn]

theorem modify_of_fixed {α : Type} {table : List α} {j : ℕ} {a : α} {f : α → α}
    (hget : table[j]? = some a) (h : f a = a) : table.modify j f = table := by
  rw [modify_congr (g := id) hget h, List.modify_id]

/-- An operation with a resource changes its entry. -/
theorem Use.run_eq {ctx : Context} {srv : Resource} {j : ℕ} {srvCtx : ServiceContext}
    (hid : srv.contextId = some ctx.id) (hidx : srv.idx = some j)
    (hget : ctx.serviceContexts[j]? = some srvCtx) (u : Use) :
    u.run ctx srv = { ctx with
      serviceContexts := ctx.serviceContexts.modify j fun srvCtx => u.change srvCtx } := by
  have hlookup : ctx.getServiceContext srv = .ok (some srvCtx) := by
    unfold Context.getServiceContext
    rw [hid, if_pos rfl, hidx, Option.bind_some, hget]
  have hmodify : ∀ f : ServiceContext → ServiceContext, ctx.modifyService srv f =
      { ctx with serviceContexts := ctx.serviceContexts.modify j f } := by
    intro f
    unfold Context.modifyService
    rw [hidx]
  cases u with
  | cliInitService =>
    show (OpCli.initService ctx srv).2 = _
    unfold OpCli.initService
    rw [hlookup]
    exact hmodify _
  | srvInitService =>
    show (OpSrv.initService ctx srv).2 = _
    unfold OpSrv.initService
    rw [hlookup]
    -- a service that is served already is left as it is
    by_cases hserve : srvCtx.serveF.isSome = true
    · rw [modify_of_fixed hget (by simp [Use.change, hserve])]
      simp [hserve]
    · rw [modify_congr hget
        (g := fun srvCtx => { srvCtx with serverInvokeF := some .byConverter })
        (by simp [Use.change, hserve])]
      simp [hserve, hmodify]
  | serve exe exeName =>
    show (OpSrv.doServe ctx srv exe exeName).2 = _
    unfold OpSrv.doServe
    rw [hlookup]
    -- it is served once only, and a mock registers the server with itself
    by_cases hserve : srvCtx.serveF.isSome = true
    · rw [modify_of_fixed hget (by simp [Use.change, hserve])]
      simp [hserve]
    · by_cases hmock : srvCtx.registerServerF = true
      · rw [modify_of_fixed hget (by simp [Use.change, hmock])]
        simp [hserve, hmock]
      · rw [modify_congr hget (g := fun srvCtx => { srvCtx with serveF := some exe })
          (by simp [Use.change, hserve, hmock])]
        simp [hserve, hmock, hmodify]

/-- A change of the entry of a resource is no change for the others. -/
theorem Session.Sound.change {s : Session} (h : s.Sound) {owner : Resource}
    {srvCtx : ServiceContext} (howner : (owner, srvCtx) ∈ s.services) {j : ℕ}
    (hidx : owner.idx = some j) (f : ServiceContext → ServiceContext) :
    Session.Sound
      { s with
        ctx := { s.ctx with serviceContexts := s.ctx.serviceContexts.modify j f }
        services := Owners.change owner f s.services } where
  channels := h.channels
  channels_apart := h.channels_apart
  channels_contextId := h.channels_contextId
  services := h.services.modify h.services_apart howner hidx
  services_apart := h.services_apart.change
  services_contextId := by
    intro p hp
    obtain ⟨q, hq, hfst⟩ := exists_of_mem_change hp
    rw [← hfst]
    exact h.services_contextId q hq

/-- Operations with resources keep it. -/
theorem Session.Sound.use {s s' : Session} (h : s.Sound) (srv : Resource) (u : Use)
    (hstep : s.step (.use srv u) = some s') : s'.Sound := by
  unfold Session.step at hstep
  dsimp only at hstep
  by_cases hmem : srv ∈ s.services.map Prod.fst
  · rw [if_pos hmem] at hstep
    obtain rfl := Option.some.inj hstep
    obtain ⟨⟨owner, srvCtx⟩, howner, rfl⟩ := List.mem_map.mp hmem
    obtain ⟨j, hidx, hget⟩ := h.services _ howner
    rw [u.run_eq (h.services_contextId _ howner) hidx hget]
    exact h.change howner hidx u.change
  · rw [if_neg hmem] at hstep
    cases hstep

/-- **In every session each resource designates its own entry.** -/
theorem sound_of_reachable {id : ℕ} {s : Session} (hs : (sessions id).Reachable s) : s.Sound := by
  induction hs with
  | init =>
    exact ⟨owns_nil _, List.nodup_nil, by simp [sessions], owns_nil _, List.nodup_nil,
      by simp [sessions]⟩
  | @step s s' e _ hstep ih =>
    cases e with
    | init core i => exact ih.init core i hstep
    | use srv u => exact ih.use srv u hstep

/-! ### All or nothing -/

theorem Session.Sound.earlier_of_prefix {s : Session} (h : s.Sound) {ctx : Context}
    (chCtxs : List ChannelContext) (srvCtxs : List ServiceContext)
    (hctx : ctx =
      { s.ctx with
        channelContexts := s.ctx.channelContexts ++ chCtxs
        serviceContexts := s.ctx.serviceContexts ++ srvCtxs }) :
    (∀ p ∈ s.channels, ctx.getChannelContext p.1 = .ok (some p.2)) ∧
      ∀ p ∈ s.services, ctx.getServiceContext p.1 = .ok (some p.2) := by
  subst hctx
  exact ⟨fun p hp => h.getChannelContext hp chCtxs _ rfl rfl,
    fun p hp => h.getServiceContext hp srvCtxs _ rfl rfl⟩

/-- What was returned earlier designates its own entry whatever the outcome. -/
theorem Session.Sound.earlier {s : Session} (h : s.Sound) (core : Registry) (i : Init) :
    (∀ p ∈ s.channels, (i.run core s.ctx).2.getChannelContext p.1 = .ok (some p.2)) ∧
      ∀ p ∈ s.services, (i.run core s.ctx).2.getServiceContext p.1 = .ok (some p.2) := by
  have hout := run_outcome core s.ctx i
  generalize i.run core s.ctx = outcome at hout
  cases hout with
  | raised msg => exact h.earlier_of_prefix [] [] (by simp)
  | channel res chCtx => exact h.earlier_of_prefix [chCtx] [] (by simp [Context.pushChannel])
  | service res srvCtx => exact h.earlier_of_prefix [] [srvCtx] (by simp [Context.pushService])
  | left msg srvCtx => exact h.earlier_of_prefix [] [srvCtx] (by simp [Context.pushService])

theorem ForNext.getChannelContext {ctx : Context} {res : Resource}
    (hres : ForNext ctx ctx.channelContexts res) (chCtx : ChannelContext) :
    (ctx.pushChannel chCtx).getChannelContext res = .ok (some chCtx) := by
  unfold Context.getChannelContext Context.pushChannel
  dsimp only
  rw [hres.contextId, if_pos rfl, hres.idx, Option.bind_some, List.getElem?_concat_length]

theorem ForNext.getServiceContext {ctx : Context} {res : Resource}
    (hres : ForNext ctx ctx.serviceContexts res) (srvCtx : ServiceContext) :
    (ctx.pushService srvCtx).getServiceContext res = .ok (some srvCtx) := by
  unfold Context.getServiceContext Context.pushService
  dsimp only
  rw [hres.contextId, if_pos rfl, hres.idx, Option.bind_some, List.getElem?_concat_length]

/-- A server function that is refused leaves its entry. -/
theorem not_allOrNothing_of_refused {s : Session} {core : Registry} {i : Init}
    (hrefused : i.serverRefused core = true) : ¬ AllOrNothing s core i := by
  intro hall
  have hout := run_outcome core s.ctx i
  have hraised := hall.raised
  generalize i.run core s.ctx = outcome at hout hraised
  cases hout with
  | raised msg h => simp [hrefused] at h
  | channel res chCtx h => simp [hrefused] at h
  | service res srvCtx h => simp [hrefused] at h
  | left msg srvCtx =>
    have hlen := congrArg List.length (hraised msg _ rfl).2
    simp [Context.pushService] at hlen

theorem allOrNothing_of_not_refused {s : Session} (hs : s.Sound) {core : Registry} {i : Init}
    (hrefused : i.serverRefused core = false) : AllOrNothing s core i := by
  obtain ⟨hchannels, hservices⟩ := hs.earlier core i
  have hout := run_outcome core s.ctx i
  refine ⟨?_, ?_, ?_, hchannels, hservices⟩
  · intro msg ctx hrun
    rw [hrun] at hout
    cases hout with
    | raised => exact ⟨rfl, rfl⟩
    | left _ _ h => simp [hrefused] at h
  · intro res ctx hkind hrun
    rw [hrun] at hout
    cases hout with
    | channel _ chCtx _ _ hres =>
      exact ⟨rfl, chCtx, rfl, hres.idx, hres.getChannelContext chCtx⟩
    | service _ _ _ h => simp [hkind] at h
  · intro res ctx hkind hrun
    rw [hrun] at hout
    cases hout with
    | channel _ _ _ h => simp [hkind] at h
    | service _ srvCtx _ _ hres =>
      exact ⟨rfl, srvCtx, rfl, hres.idx, hres.getServiceContext srvCtx⟩

/-- **All or nothing, unless the registration of a server function fails.** -/
theorem allOrNothing_iff {id : ℕ} {s : Session} (hs : (sessions id).Reachable s)
    (core : Registry) (i : Init) : AllOrNothing s core i ↔ i.serverRefused core = false := by
  constructor
  · intro hall
    by_contra hrefused
    exact not_allOrNothing_of_refused (by simpa using hrefused) hall
  · intro hrefused
    exact allOrNothing_of_not_refused (sound_of_reachable hs) hrefused

/-- AimRT with every name in use already. -/
def refuseAll : Registry where
  getPublisher _ := none
  registerPublishType _ := false
  getSubscriber _ := none
  registerClientFunc _ := false
  registerServiceFunc _ := false

/-- AimRT with every name free. -/
def acceptAll : Registry where
  getPublisher _ := some { handle := 0 }
  registerPublishType _ := true
  getSubscriber _ := some { handle := 0 }
  registerClientFunc _ := true
  registerServiceFunc _ := true

/-- A session with a refused server function between a publisher and a client that is passed on. -/
def refusedBetween : List SessionEvent :=
  [.init acceptAll (.pub "topic"), .init refuseAll (.srvFunc .protobuf "get"),
    .init acceptAll (.cliFunc .protobuf "get"),
    .use { name := "pb:/get", idx := some 1, contextId := some 1 } .cliInitService]

theorem allOrNothing_iff_sample :
    ∃ s, (sessions 1).run refusedBetween = some s ∧
      s.channels.length = 1 ∧ s.services.length = 1 ∧ s.ctx.serviceContexts.length = 2 ∧
      AllOrNothing s acceptAll (.srvFunc .protobuf "set") ∧
      ¬AllOrNothing s refuseAll (.srvFunc .protobuf "set") := by
  obtain ⟨s, hs, hlengths⟩ : ∃ s, (sessions 1).run refusedBetween = some s ∧
      s.channels.length = 1 ∧ s.services.length = 1 ∧ s.ctx.serviceContexts.length = 2 :=
    ⟨_, rfl, rfl, rfl, rfl⟩
  have hreach := System.reachable_of_run refusedBetween hs
  refine ⟨s, hs, hlengths.1, hlengths.2.1, hlengths.2.2, ?_, fun hall => ?_⟩
  · exact (allOrNothing_iff hreach acceptAll (.srvFunc .protobuf "set")).mpr rfl
  · exact absurd ((allOrNothing_iff hreach refuseAll (.srvFunc .protobuf "set")).mp hall)
      (by decide)

/-- The first server function of a context is refused. -/
theorem refused_server_stays :
    ¬ ∀ (id : ℕ) (s : Session) (core : Registry) (i : Init), (sessions id).Reachable s →
      AllOrNothing s core i := fun hall =>
  not_allOrNothing_of_refused (i := .srvFunc .protobuf "get") rfl
    (hall 1 _ refuseAll (.srvFunc .protobuf "get") .init)

end AimrtComm.Core
