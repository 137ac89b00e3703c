import AimrtComm.Cfg.Defaults
import AimrtComm.Lib.Assoc
import AimrtComm.Monitor.Registry

/-!
# The settings of record and playback

`ChannelSetting` and `RecordPlaybackSetting` (`record_playback/src/util.h`) turn the enabled actions
into plugins, executors and options for topics of the configuration object; the bags and the
metadata of the actions go to the options of the plugin only and are left out.  The monitor reads
the options of topics as rules (`rulesOf`), in which it looks a topic up.
-/

namespace AimrtComm.RecordPlayback

open Cfg

/-- What `RecordPlaybackSetting` reads of an `Action`.  `backendAndTopics` has the topics with their
backends in the order in which the hash map yields them. -/
structure Action where
  isEnable : Bool
  method : String
  backendAndTopics : List (String × List String)
  distinct : (Assoc.keys backendAndTopics).Nodup

/-- The order in which a hash map yields its entries. -/
structure HashOrder (α : Type*) where
  order : List α → List α
  perm : ∀ entries, (order entries).Perm entries

/-- The lambda `Transfer`. -/
def transfer (channel : String) : Ch :=
  if channel = "mqtt" then .mqtt
  else if channel = "ros2" then .ros2
  else if channel = "http" then .http
  else if channel = "tcp" then .tcp
  else if channel = "udp" then .udp
  else if channel = "zenoh" then .zenoh
  else if channel = "iceoryx" then .iceoryx
  else .local

/-- The map `channels_map` that `ChannelSetting` builds. -/
def channelsMap (backendAndTopics : List (String × List String)) : List (String × List Ch) :=
  backendAndTopics.foldl
    (fun channels entry => entry.2.foldl
      (fun channels backend =>
        Assoc.upsert [] entry.1 (fun value => value ++ [transfer backend]) channels)
      channels)
    []

/-- `ChannelSetting`. -/
def channelSetting (hash : HashOrder (String × List Ch)) (cfg : AimRTConfig) (method : String)
    (backendAndTopics : List (String × List String)) : AimRTConfig :=
  (hash.order (channelsMap backendAndTopics)).foldl
    (fun cfg entry => cfg.setBackendTopic method entry.1 entry.2) cfg

/-- `PluginSetting`. -/
def pluginSetting (cfg : AimRTConfig) (channelBackend : String) : AimRTConfig :=
  -- mqtt, ros2 and the net backends are set up elsewhere
  if channelBackend = "zenoh" then cfg.withDefaultZenoh
  else if channelBackend = "iceoryx" then cfg.withDefaultIceoryx
  else cfg

/-- The loop with `backend_map`: every backend of the action gets its plugin once. -/
def pluginSettings (cfg : AimRTConfig) (backendAndTopics : List (String × List String)) :
    AimRTConfig :=
  (backendAndTopics.flatMap Prod.snd).eraseDups.foldl pluginSetting cfg

/-- The loop body of `RecordPlaybackSetting`. -/
def actionSetting (hash : HashOrder (String × List Ch)) (cfg : AimRTConfig) (action : Action) :
    AimRTConfig :=
  if !action.isEnable then cfg
  else if action.method = "record" ∨ action.method = "playback" then
    channelSetting hash (pluginSettings cfg action.backendAndTopics) action.method
      action.backendAndTopics
  else cfg

/-- `RecordPlaybackSetting`. -/
def recordPlaybackSetting (hash : HashOrder (String × List Ch)) (cfg : AimRTConfig)
    (actions : List Action) : AimRTConfig :=
  let cfg := actions.foldl (actionSetting hash) cfg
  { cfg with
    plugins := assign .recordPlayback cfg.plugins
    executors := assign (.asioThread "playback_thread_pool" (some { threadNum := some 2 }))
      (assign (.asioThread "storage_executor" (some { threadNum := some 2 }))
        (assign (.simpleThread "record_thread" (some ⟨some 100000⟩)) cfg.executors)) }

/-- The name of an enumerator, by which the options write a channel. -/
def backendName : Ch → String
  | .default => "Default"
  | .ros2 => "ros2"
  | .mqtt => "mqtt"
  | .http => "http"
  | .tcp => "tcp"
  | .udp => "udp"
  | .local => "local"
  | .monitor => "monitor"
  | .zenoh => "zenoh"
  | .iceoryx => "iceoryx"

/-- The rules that the monitor reads in the options. -/
def rulesOf (options : List PubOption) : Monitor.Rules :=
  options.map fun option => (option.topicName, option.enableBackends.map backendName)

end AimrtComm.RecordPlayback
