import AimrtComm.Cfg.AimRTConfig
import AimrtComm.Yaml.Basic

/-!
# The network options of a deployment

`Cfg::GetNetworkPluginOptions` (`cfg.cpp`) reads the options of the net plugin from the entry of
this process in the deployment file.  For each protocol it takes the first item that is meant for
the net plugin and whose constraint on the environment variables holds.

The environment, and the conversions `as<bool>` and `as<int>` of the YAML library, none where a
conversion fails, are parameters.
-/

namespace AimrtComm.Cfg

open Yaml

section

variable (getenv : String → Option String) (asBool : Yaml → Option Bool) (asInt : Yaml → Option ℤ)

/-! ### The constraint of an item -/

/-- The loop over the allowed values of a variable. -/
def findAllowed (actualValue : String) : List Yaml → Except Error Bool
  | [] => .ok false
  | allowedValue :: rest => do
    if (← allowedValue.asString) = actualValue then return true
    else findAllowed actualValue rest

/-- The value of a variable is allowed. -/
def isAllowed (actualValue : String) (envValues : Yaml) : Except Error Bool :=
  match envValues with
  | .seq _ items => findAllowed actualValue items
  | .scalar _ text => .ok (text = actualValue)
  | _ => .ok true

/-- The loop over the variables of a constraint. -/
def checkEnv : List (String × Yaml) → Except Error Bool
  | [] => .ok true
  | (envName, envValues) :: rest =>
    match getenv envName with
    | none => .ok false
    | some actualValue => do
      if ← isAllowed actualValue envValues then checkEnv rest else return false

/-- The lambda `check_env_constraint`. -/
def checkEnvConstraint (constraintNode : Yaml) : Except Error Bool := do
  if IsUndefined constraintNode then return true
  else
    let envNode ← constraintNode.get "env"
    if envNode.isMap then checkEnv getenv envNode.fields else return true

/-! ### The options -/

/-- The loop of `find_net_plugin_config`. -/
def findItemForNet : List Yaml → Except Error Yaml
  | [] => .ok .null
  | item :: rest => do
    let isNetPlugin ← item.get "is_net_plugin"
    if isNetPlugin.isDefined && (asBool isNetPlugin).getD false then
      if ← checkEnvConstraint getenv (← item.get "constraint") then return item
      else findItemForNet rest
    else findItemForNet rest

/-- The lambda `find_net_plugin_config`. -/
def findNetPluginConfig (nodeArray : Yaml) : Except Error Yaml :=
  if nodeArray.isSequence then findItemForNet getenv asBool nodeArray.items else .ok .null

/-- `option.listen_port` and `option.listen_ip`. -/
def listenOption (config : Yaml) : Except Error ListenOption := do
  let port ← config.get "listen_port"
  let ip ← config.get "listen_ip"
  return {
    listenIp := if ip.isDefined then ip.asStringOr "" else "0.0.0.0"
    listenPort := if port.isDefined then (asInt port).getD 0 else 0 }

/-- The options of a `UdpOption`. -/
def udpOption (config : Yaml) : Except Error UdpOption := do
  let listen ← listenOption asInt config
  let maxPkgSize ← config.get "max_pkg_size"
  return {
    listenIp := listen.listenIp
    listenPort := listen.listenPort
    maxPkgSize := if maxPkgSize.isDefined then some ((asInt maxPkgSize).getD 0) else none }

/-- The lambda `configure_network_option`.  The node that `find_net_plugin_config` returns counts as
true also when it has found nothing. -/
def configureNetworkOption {α : Type} (makeOption : Yaml → Except Error α) (netNode : Yaml)
    (protocolName : String) : Except Error (Option α) := do
  let node ← netNode.get protocolName
  if node.isDefined then
    return some (← makeOption (← findNetPluginConfig getenv asBool node))
  else return none

/-- `Cfg::GetNetworkPluginOptions`, of the node that `GetModuleDeploymentInfo` returns. -/
def getNetworkPluginOptions (deploymentInfo : Yaml) : Except Error NetOptions := do
  let netNode ← deploymentInfo.get "net"
  if netNode.isDefined then
    let httpOptions ←
      configureNetworkOption getenv asBool (listenOption asInt) netNode "http"
    let tcpOptions ← configureNetworkOption getenv asBool (listenOption asInt) netNode "tcp"
    let udpOptions ← configureNetworkOption getenv asBool (udpOption asInt) netNode "udp"
    return { httpOptions, tcpOptions, udpOptions }
  else return {}

end

end AimrtComm.Cfg
