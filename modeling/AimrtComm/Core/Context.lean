import AimrtComm.Core.Coroutine

/-!
# The resources of `core::Context`

The context keeps what belongs to its channels and services in two tables, and hands out resources
that say where.  An operation returns or raises, and leaves a context either way.  What AimRT
answers to a registration is an argument, and what is written to the log is left out.
-/

namespace AimrtComm.Core

/-- `res::Channel` and `res::Service`, where `none` stands for the `-1` of a resource that was not
initialised. -/
structure Resource where
  name : String := ""
  idx : Option ℕ := none
  contextId : Option ℕ := none
  deriving DecidableEq, Repr

/-- `PublisherRef`, not null. -/
structure PublisherRef where
  handle : ℕ
  deriving DecidableEq, Repr

/-- `SubscriberRef`, not null. -/
structure SubscriberRef where
  handle : ℕ
  deriving DecidableEq, Repr

/-- What AimRT answers. -/
structure Registry where
  getPublisher : String → Option PublisherRef
  registerPublishType : PublisherRef → Bool
  getSubscriber : String → Option SubscriberRef
  registerClientFunc : String → Bool
  registerServiceFunc : String → Bool

/-- The types that AimRT supports directly. -/
inductive RawType where
  | rosMessage
  | protobuf
  deriving DecidableEq, Repr

/-- `GetSerializationType`. -/
def RawType.serializationType : RawType → String
  | .rosMessage => "ros2"
  | .protobuf => "pb"

/-- `WrapRpcFuncName`. -/
def wrapRpcFuncName (type : RawType) (name : String) : String :=
  if name.toList.head? = some '/' then type.serializationType ++ ":" ++ name
  else type.serializationType ++ ":/" ++ name

/-- `PublishFunction` and `SubscribeFunction`. -/
inductive ChannelFunction where
  | direct
  | byConverter
  | mocked
  deriving DecidableEq, Repr

/-- `Client`. -/
inductive Client where
  /-- A client of the user. -/
  | given
  | mocked
  /-- `Invoke` of this function. -/
  | invoke (funcName : String)
  | byConverter (raw : Client)
  deriving DecidableEq, Repr

/-- `ServerInvoker`. -/
inductive ServerInvoker where
  | direct
  | byConverter
  deriving DecidableEq, Repr

/-- `ChannelContext`. -/
structure ChannelContext where
  pub : Option PublisherRef := none
  sub : Option SubscriberRef := none
  pubF : Option ChannelFunction := none
  subF : Option ChannelFunction := none
  deriving DecidableEq, Repr

/-- `ServiceContext`. -/
structure ServiceContext where
  callF : Option Client := none
  /-- The executor of the server of the user. -/
  serveF : Option Executor := none
  serverInvokeF : Option ServerInvoker := none
  /-- There is one, of a mock. -/
  registerServerF : Bool := false
  /-- The resource that the callback looks its server up with. -/
  rawServerHolder : Option Resource := none
  funcName : String := ""
  deriving DecidableEq, Repr

/-- `Context`. -/
structure Context where
  id : ℕ
  channelContexts : List ChannelContext := []
  serviceContexts : List ServiceContext := []
  deriving DecidableEq, Repr

namespace Context

/-- `channel_contexts_.push_back`. -/
def pushChannel (ctx : Context) (chCtx : ChannelContext) : Context :=
  { ctx with channelContexts := ctx.channelContexts ++ [chCtx] }

/-- `service_contexts_.emplace_back`. -/
def pushService (ctx : Context) (srvCtx : ServiceContext) : Context :=
  { ctx with serviceContexts := ctx.serviceContexts ++ [srvCtx] }

/-- A change through the reference to `channel_contexts_.back()`. -/
def modifyBackChannel (ctx : Context) (f : ChannelContext → ChannelContext) : Context :=
  { ctx with channelContexts := ctx.channelContexts.modify (ctx.channelContexts.length - 1) f }

/-- A change through the reference to `service_contexts_.back()`. -/
def modifyBackService (ctx : Context) (f : ServiceContext → ServiceContext) : Context :=
  { ctx with serviceContexts := ctx.serviceContexts.modify (ctx.serviceContexts.length - 1) f }

/-- A change through the reference that `GetServiceContext` gives. -/
def modifyService (ctx : Context) (srv : Resource) (f : ServiceContext → ServiceContext) :
    Context :=
  match srv.idx with
  | none => ctx
  | some idx => { ctx with serviceContexts := ctx.serviceContexts.modify idx f }

/-- The resource of the last channel. -/
def backChannel (ctx : Context) (name : String) : Resource where
  name := name
  idx := some (ctx.channelContexts.length - 1)
  contextId := some ctx.id

/-- The resource of the last service. -/
def backService (ctx : Context) (name : String) : Resource where
  name := name
  idx := some (ctx.serviceContexts.length - 1)
  contextId := some ctx.id

/-- How an id is written, the one of no context as `-1`. -/
def showId : Option ℕ → String
  | none => "-1"
  | some id => toString id

/-- `GetChannelContext`, with `none` for an index that is not in the table. -/
def getChannelContext (ctx : Context) (ch : Resource) : Except String (Option ChannelContext) :=
  if ch.contextId = some ctx.id then .ok (ch.idx.bind (ctx.channelContexts[·]?))
  else .error ("Wrong use of res::Channel [" ++ ch.name ++ "], current context is [" ++
    showId (some ctx.id) ++ "], but yours is [" ++ showId ch.contextId ++ "].")

/-- `GetServiceContext`, with `none` for an index that is not in the table. -/
def getServiceContext (ctx : Context) (srv : Resource) : Except String (Option ServiceContext) :=
  if srv.contextId = some ctx.id then .ok (srv.idx.bind (ctx.serviceContexts[·]?))
  else .error ("Wrong use of res::Service [" ++ srv.name ++ "], current context is [" ++
    showId (some ctx.id) ++ "], but yours is [" ++ showId srv.contextId ++ "].")

end Context

/-! ### Publishers -/

namespace OpPub

/-- `DoInit`. -/
def doInit (core : Registry) (ctx : Context) (topicName : String) :
    Except String Resource × Context :=
  match core.getPublisher topicName with
  | none => (.error ("Get publisher for topic [" ++ topicName ++ "] failed."), ctx)
  | some pub =>
    if core.registerPublishType pub then
      let ctx := ctx.pushChannel { pub := some pub }
      (.ok (ctx.backChannel topicName), ctx)
    else (.error ("Register publish type for topic [" ++ topicName ++ "] failed."), ctx)

/-- `DoInit` and then `pub_f`. -/
def initWith (pubF : ChannelFunction) (core : Registry) (ctx : Context) (topicName : String) :
    Except String Resource × Context :=
  match doInit core ctx topicName with
  | (.error msg, ctx) => (.error msg, ctx)
  | (.ok ch, ctx) => (.ok ch, ctx.modifyBackChannel fun chCtx => { chCtx with pubF := some pubF })

/-- `Init` of a type that is supported directly. -/
def init : Registry → Context → String → Except String Resource × Context := initWith .direct

/-- `Init` of a type with a converter. -/
def initByConverter : Registry → Context → String → Except String Resource × Context :=
  initWith .byConverter

/-- `InitMock`. -/
def initMock (ctx : Context) (topicName : String) : Except String Resource × Context :=
  let ctx := ctx.pushChannel { pubF := some .mocked }
  (.ok (ctx.backChannel topicName), ctx)

end OpPub

/-! ### Subscribers -/

namespace OpSub

/-- `DoInit`. -/
def doInit (core : Registry) (ctx : Context) (topicName : String) :
    Except String Resource × Context :=
  match core.getSubscriber topicName with
  | none => (.error ("Get subscribe for topic [" ++ topicName ++ "] failed."), ctx)
  | some sub =>
    let ctx := ctx.pushChannel { sub := some sub }
    (.ok (ctx.backChannel topicName), ctx)

/-- `DoInit` and then `sub_f`. -/
def initWith (subF : ChannelFunction) (core : Registry) (ctx : Context) (topicName : String) :
    Except String Resource × Context :=
  match doInit core ctx topicName with
  | (.error msg, ctx) => (.error msg, ctx)
  | (.ok ch, ctx) => (.ok ch, ctx.modifyBackChannel fun chCtx => { chCtx with subF := some subF })

/-- `Init` of a type that is supported directly. -/
def init : Registry → Context → String → Except String Resource × Context := initWith .direct

/-- `Init` of a type with a converter. -/
def initByConverter : Registry → Context → String → Except String Resource × Context :=
  initWith .byConverter

/-- `InitMock`. -/
def initMock (ctx : Context) (topicName : String) : Except String Resource × Context :=
  let ctx := ctx.pushChannel { subF := some .mocked }
  (.ok (ctx.backChannel topicName), ctx)

end OpSub

/-! ### Clients -/

namespace OpCli

/-- `Init`. -/
def init (ctx : Context) (serviceName : String) : Except String Resource × Context :=
  let ctx := ctx.pushService { callF := some .given }
  (.ok (ctx.backService serviceName), ctx)

/-- `InitMock`. -/
def initMock (ctx : Context) (serviceName : String) : Except String Resource × Context :=
  let ctx := ctx.pushService { callF := some .mocked }
  (.ok (ctx.backService serviceName), ctx)

/-- `InitService`, which passes the resource on under other types. -/
def initService (ctx : Context) (srv : Resource) : Except String Resource × Context :=
  match ctx.getServiceContext srv with
  | .error msg => (.error msg, ctx)
  | .ok _ =>
    (.ok { srv with contextId := some ctx.id },
      ctx.modifyService srv fun srvCtx => { srvCtx with callF := srvCtx.callF.map .byConverter })

/-- `DoInit`: the function is registered first. -/
def doInit (type : RawType) (core : Registry) (ctx : Context) (funcName : String) :
    Except String Resource × Context :=
  let res : Resource :=
    { name := wrapRpcFuncName type funcName
      idx := some ctx.serviceContexts.length
      contextId := some ctx.id }
  if core.registerClientFunc res.name then (.ok res, ctx.pushService {})
  else (.error ("Failed to register client func [" ++ res.name ++ "]."), ctx)

/-- `DoInit` and then `call_f`. -/
def initFuncWith (callF : String → Client) (type : RawType) (core : Registry) (ctx : Context)
    (funcName : String) : Except String Resource × Context :=
  match doInit type core ctx funcName with
  | (.error msg, ctx) => (.error msg, ctx)
  | (.ok srv, ctx) =>
    (.ok srv, ctx.modifyBackService fun srvCtx =>
      { srvCtx with callF := some (callF (wrapRpcFuncName type funcName)) })

/-- `InitFunc` of types that are supported directly. -/
def initFunc : RawType → Registry → Context → String → Except String Resource × Context :=
  initFuncWith .invoke

/-- `InitFunc` of types with converters. -/
def initFuncByConverter :
    RawType → Registry → Context → String → Except String Resource × Context :=
  initFuncWith fun funcName => .byConverter (.invoke funcName)

end OpCli

/-! ### Servers -/

namespace OpSrv

/-- `Init`. -/
def init (ctx : Context) (serviceName : String) : Except String Resource × Context :=
  let ctx := ctx.pushService { serverInvokeF := some .direct }
  (.ok (ctx.backService serviceName), ctx)

/-- `InitMock`. -/
def initMock (ctx : Context) (serviceName : String) : Except String Resource × Context :=
  let ctx := ctx.pushService { registerServerF := true }
  (.ok (ctx.backService serviceName), ctx)

/-- `InitService`, which passes the resource on under other types. -/
def initService (ctx : Context) (srv : Resource) : Except String Resource × Context :=
  match ctx.getServiceContext srv with
  | .error msg => (.error msg, ctx)
  | .ok srvCtx =>
    if (srvCtx.bind (·.serveF)).isSome then
      (.error ("Init service [" ++ srv.name ++ "] failed, because a user server is set."), ctx)
    else
      (.ok { srv with contextId := some ctx.id },
        ctx.modifyService srv fun srvCtx => { srvCtx with serverInvokeF := some .byConverter })

/-- `DoInitFunc`: AimRT is given a name and a callback that the new entry holds, so it is made
before they are registered. -/
def doInitFunc (type : RawType) (core : Registry) (ctx : Context) (funcName : String) :
    Except String Resource × Context :=
  let res : Resource :=
    { name := wrapRpcFuncName type funcName
      idx := some ctx.serviceContexts.length
      contextId := some ctx.id }
  let ctx := ctx.pushService { rawServerHolder := some res, funcName := res.name }
  if core.registerServiceFunc res.name then (.ok res, ctx)
  else (.error ("Failed to register server func [" ++ res.name ++ "]."), ctx)

/-- `DoInitFunc` and then `server_invoke_f`. -/
def initFuncWith (serverInvokeF : ServerInvoker) (type : RawType) (core : Registry)
    (ctx : Context) (funcName : String) : Except String Resource × Context :=
  match doInitFunc type core ctx funcName with
  | (.error msg, ctx) => (.error msg, ctx)
  | (.ok srv, ctx) =>
    (.ok srv, ctx.modifyBackService fun srvCtx =>
      { srvCtx with serverInvokeF := some serverInvokeF })

/-- `InitFunc` of types that are supported directly. -/
def initFunc : RawType → Registry → Context → String → Except String Resource × Context :=
  initFuncWith .direct

/-- `InitFunc` of types with converters. -/
def initFuncByConverter :
    RawType → Registry → Context → String → Except String Resource × Context :=
  initFuncWith .byConverter

/-- `DoServe`, on an executor of this name, or in the thread of the call when `exe` is not valid. -/
def doServe (ctx : Context) (srv : Resource) (exe : Executor) (exeName : String) :
    Except String Unit × Context :=
  let exeMsg := if exe.isValid then "on executor [" ++ exeName ++ "]" else "inline"
  match ctx.getServiceContext srv with
  | .error msg => (.error msg, ctx)
  | .ok srvCtx =>
    if (srvCtx.bind (·.serveF)).isSome then
      (.error ("Serve [" ++ srv.name ++ "] " ++ exeMsg ++
        " failed. You CANNOT serve twice on the same res::Service !"), ctx)
    else if srvCtx.any (·.registerServerF) then (.ok (), ctx)
    else (.ok (), ctx.modifyService srv fun srvCtx => { srvCtx with serveF := some exe })

end OpSrv

end AimrtComm.Core
