import AimrtComm.RecordPlayback.Switch

/-!
## When the tool mirrors the switches of the plugin

The two copies of a switch start from different defaults when the key `record_enabled` is missing or
no truth value (`recordEnabled_eq_now_iff`), and an accepted update changes the tool's copy of the
first action of the name only, while the plugin has all of them (`toolSwitches_set_iff`).  Apart
from that they go together: `mirrored_iff`.
-/

namespace AimrtComm.RecordPlayback

open Cfg

variable {asBool : Yaml → Option Bool}

/-! ### The start -/

/-- The names and actual switches of the record actions. -/
def toolSwitches (actions : List SwitchAction) : List (String × Bool) :=
  (actions.filter SwitchAction.isRecorded).map fun action =>
    (action.actionName, action.recordEnabledNow)

/-- The tool's switches of all record actions are those of the plugin. -/
def Mirrors (s : Switches) : Prop := toolSwitches s.actions = s.plugin

instance (s : Switches) : Decidable (Mirrors s) :=
  inferInstanceAs (Decidable (toolSwitches s.actions = s.plugin))

theorem switches_of_parseAction {node : Yaml} {action : SwitchAction}
    (h : parseAction asBool node = .ok action) :
    action.recordEnabled = (asBool (node.child "record_enabled")).getD true ∧
      action.recordEnabledNow = (asBool (node.child "record_enabled")).getD false := by
  cases node with
  | scalar => cases h
  | _ =>
    obtain rfl := Except.ok.inj h
    exact ⟨rfl, rfl⟩

/-- The two copies are read alike exactly when there is a truth value to read. -/
theorem recordEnabled_eq_now_iff {node : Yaml} {action : SwitchAction}
    (h : parseAction asBool node = .ok action) :
    action.recordEnabledNow = action.recordEnabled ↔
      (asBool (node.child "record_enabled")).isSome := by
  obtain ⟨hfile, hnow⟩ := switches_of_parseAction h
  rw [hfile, hnow]
  cases asBool (node.child "record_enabled") <;> simp

/-- Every action that is loaded was parsed from a node. -/
theorem mem_loadActions_iff {nodes : List Yaml} {action : SwitchAction} :
    action ∈ loadActions asBool nodes ↔ ∃ node ∈ nodes, parseAction asBool node = .ok action := by
  unfold loadActions
  rw [List.mem_filterMap]
  refine exists_congr fun node => and_congr_right fun _ => ?_
  cases parseAction asBool node <;> simp

/-- The key `record_enabled` of every record action has a truth value. -/
def SwitchesReadable (asBool : Yaml → Option Bool) (nodes : List Yaml) : Prop :=
  ∀ node ∈ nodes, ∀ action, parseAction asBool node = .ok action → action.isRecorded = true →
    (asBool (node.child "record_enabled")).isSome

theorem mirrors_init_iff (nodes : List Yaml) :
    Mirrors (switchSystem (loadActions asBool nodes)).init ↔ SwitchesReadable asBool nodes := by
  have hall : Mirrors (switchSystem (loadActions asBool nodes)).init ↔
      ∀ action ∈ loadActions asBool nodes, action.isRecorded = true →
        action.recordEnabledNow = action.recordEnabled := by
    show toolSwitches (loadActions asBool nodes) = recordActionses (loadActions asBool nodes) ↔ _
    unfold toolSwitches recordActionses
    rw [List.map_inj_left]
    simp only [List.mem_filter, and_imp, Prod.mk.injEq, true_and]
  rw [hall]
  constructor
  · intro h node hnode action hparse hrecorded
    rw [← recordEnabled_eq_now_iff hparse]
    exact h action (mem_loadActions_iff.mpr ⟨node, hnode, hparse⟩) hrecorded
  · intro h action haction hrecorded
    obtain ⟨node, hnode, hparse⟩ := mem_loadActions_iff.mp haction
    rw [recordEnabled_eq_now_iff hparse]
    exact h node hnode action hparse hrecorded

/-! ### One update -/

/-- The record actions of a name behind the first action of that name. -/
def shadowed (actionName : String) (actions : List SwitchAction) : List SwitchAction :=
  ((actions.dropWhile fun action => action.actionName ≠ actionName).drop 1).filter fun action =>
    action.isRecorded && action.actionName = actionName

/-- The plugin's switches after it has accepted a value for a name. -/
def setAll (actionName : String) (recordEnabled : Bool) (plugin : List (String × Bool)) :
    List (String × Bool) :=
  plugin.map fun entry => if entry.1 = actionName then (entry.1, recordEnabled) else entry

theorem toolSwitches_cons (action : SwitchAction) (actions : List SwitchAction) :
    toolSwitches (action :: actions) =
      (if action.isRecorded then [(action.actionName, action.recordEnabledNow)] else []) ++
        toolSwitches actions := by
  unfold toolSwitches
  rw [List.filter_cons]
  split_ifs <;> rfl

/-- All switches of a name have a value already. -/
theorem setAll_toolSwitches_iff (actionName : String) (recordEnabled : Bool)
    (actions : List SwitchAction) :
    toolSwitches actions = setAll actionName recordEnabled (toolSwitches actions) ↔
      ∀ action ∈ actions, action.isRecorded = true → action.actionName = actionName →
        action.recordEnabledNow = recordEnabled := by
  induction actions with
  | nil => simp [toolSwitches, setAll]
  | cons action actions ih =>
    have hsplit : setAll actionName recordEnabled (toolSwitches (action :: actions)) =
        (if action.isRecorded then [(action.actionName, if action.actionName = actionName then
            recordEnabled else action.recordEnabledNow)] else []) ++
          setAll actionName recordEnabled (toolSwitches actions) := by
      rw [toolSwitches_cons, setAll, List.map_append]
      split_ifs <;> simp_all [setAll]
    rw [hsplit, toolSwitches_cons, List.forall_mem_cons, ← ih]
    split_ifs with hrecorded hname
    · simp [hrecorded, hname]
    · simp [hname]
    · simp [hrecorded]

theorem setAll_cons (actionName : String) (recordEnabled : Bool) (entry : String × Bool)
    (plugin : List (String × Bool)) :
    setAll actionName recordEnabled (entry :: plugin) =
      (if entry.1 = actionName then (entry.1, recordEnabled) else entry) ::
        setAll actionName recordEnabled plugin := rfl

/-- **After an accepted update** the copies are the same when no record action of the name is
shadowed, or those that are have the value already. -/
theorem toolSwitches_set_iff (actionName : String) (recordEnabled : Bool)
    (actions : List SwitchAction) :
    toolSwitches ((setRecordEnabledNow actionName recordEnabled actions).getD actions) =
        setAll actionName recordEnabled (toolSwitches actions) ↔
      ∀ action ∈ shadowed actionName actions, action.recordEnabledNow = recordEnabled := by
  induction actions with
  | nil => simp [toolSwitches, setAll, shadowed, setRecordEnabledNow]
  | cons action actions ih =>
    by_cases hname : action.actionName = actionName
    · -- `find_if` stops here, and all the others of the name are shadowed
      have hshadowed : shadowed actionName (action :: actions) =
          actions.filter fun action => action.isRecorded && action.actionName = actionName := by
        simp [shadowed, hname]
      have hset : setRecordEnabledNow actionName recordEnabled (action :: actions) =
          some ({ action with recordEnabledNow := recordEnabled } :: actions) := if_pos hname
      have hrest := setAll_toolSwitches_iff actionName recordEnabled actions
      have hrecorded : ({ action with recordEnabledNow := recordEnabled } :
          SwitchAction).isRecorded = action.isRecorded := rfl
      rw [hset, hshadowed, Option.getD_some, toolSwitches_cons, toolSwitches_cons, hrecorded]
      simp only [List.mem_filter, Bool.and_eq_true, decide_eq_true_eq, and_imp]
      rw [← hrest]
      split_ifs
      · simp [setAll_cons, hname]
      · simp
    · -- the first action has another name
      have hshadowed : shadowed actionName (action :: actions) = shadowed actionName actions := by
        simp [shadowed, hname]
      have hset : (setRecordEnabledNow actionName recordEnabled (action :: actions)).getD
          (action :: actions) =
            action :: (setRecordEnabledNow actionName recordEnabled actions).getD actions := by
        rw [setRecordEnabledNow, if_neg hname]
        cases setRecordEnabledNow actionName recordEnabled actions <;> rfl
      rw [hset, hshadowed, ← ih, toolSwitches_cons, toolSwitches_cons]
      split_ifs
      · simp [setAll_cons, hname]
      · simp

/-! ### All updates -/

/-- An accepted value is the one that the shadowed record actions of the name have already. -/
def Follows (s : Switches) (e : UpdateCall × RpcOutcome) : Prop :=
  e.2.accepted = true → ∀ action ∈ shadowed e.1.request.actionName s.actions,
    action.recordEnabledNow = e.1.request.recordEnabled

/-- Both functions do the same. -/
theorem perform_eq (call : UpdateCall) (outcome : RpcOutcome) (actions : List SwitchAction) :
    call.perform outcome actions =
      updateSwitch outcome call.request.actionName call.request.recordEnabled actions := by
  cases call <;> rfl

theorem updateSwitch_of_accepted {outcome : RpcOutcome} (h : outcome.accepted = true)
    (actionName : String) (recordEnabled : Bool) (actions : List SwitchAction) :
    (updateSwitch outcome actionName recordEnabled actions).2 =
      (setRecordEnabledNow actionName recordEnabled actions).getD actions := by
  cases outcome with
  | answered code =>
    have hcode : code = 0 := by simpa [RpcOutcome.accepted] using h
    rw [updateSwitch, if_neg (not_not.mpr hcode)]
    cases setRecordEnabledNow actionName recordEnabled actions <;> rfl
  | _ => cases h

theorem updateSwitch_of_not_accepted {outcome : RpcOutcome} (h : outcome.accepted = false)
    (actionName : String) (recordEnabled : Bool) (actions : List SwitchAction) :
    updateSwitch outcome actionName recordEnabled actions = (false, actions) := by
  cases outcome with
  | answered code =>
    have hcode : code ≠ 0 := by simpa [RpcOutcome.accepted] using h
    exact if_pos hcode
  | _ => rfl

/-- A call that returns false changes no action. -/
theorem actions_of_perform_false {call : UpdateCall} {outcome : RpcOutcome}
    {actions : List SwitchAction} (h : (call.perform outcome actions).1 = false) :
    (call.perform outcome actions).2 = actions := by
  rw [perform_eq] at h ⊢
  cases haccepted : outcome.accepted with
  | false => rw [updateSwitch_of_not_accepted haccepted]
  | true =>
    rw [updateSwitch_of_accepted haccepted]
    cases outcome with
    | answered code =>
      have hcode : code = 0 := by simpa [RpcOutcome.accepted] using haccepted
      rw [updateSwitch, if_neg (not_not.mpr hcode)] at h
      cases hset : setRecordEnabledNow call.request.actionName call.request.recordEnabled
        actions with
      | none => rfl
      | some actions' =>
        rw [hset] at h
        cases h
    | _ => cases haccepted

/-- **One call keeps the mirror exactly under the condition.** -/
theorem mirrors_step_iff {initial : List SwitchAction} {s s' : Switches}
    {e : UpdateCall × RpcOutcome} (hs : Mirrors s) (h : (switchSystem initial).step s e = some s') :
    Mirrors s' ↔ Follows s e := by
  obtain rfl := Option.some.inj h
  unfold Mirrors at hs ⊢
  unfold Follows pluginUpdate
  rw [perform_eq]
  cases haccepted : e.2.accepted with
  | false =>
    rw [updateSwitch_of_not_accepted haccepted]
    exact iff_of_true hs fun hfalse => Bool.noConfusion hfalse
  | true =>
    rw [updateSwitch_of_accepted haccepted, ← hs, if_pos rfl]
    have hiff := toolSwitches_set_iff e.1.request.actionName e.1.request.recordEnabled s.actions
    exact hiff.trans ⟨fun hshadowed _ => hshadowed, fun hshadowed => hshadowed rfl⟩

/-- Calls never stop. -/
theorem exists_foldlM_step (initial : List SwitchAction) (s : Switches)
    (events : List (UpdateCall × RpcOutcome)) :
    ∃ s', events.foldlM (switchSystem initial).step s = some s' := by
  induction events generalizing s with
  | nil => exact ⟨s, rfl⟩
  | cons e events ih =>
    rw [List.foldlM_cons]
    exact ih _

/-- The tool mirrors the plugin from the start through all calls, and calls that return false change
nothing. -/
def Mirrored (asBool : Yaml → Option Bool) (nodes : List Yaml)
    (events : List (UpdateCall × RpcOutcome)) : Prop :=
  let system := switchSystem (loadActions asBool nodes)
  system.Always Mirrors system.init events ∧
    ∀ (call : UpdateCall) (outcome : RpcOutcome) (actions : List SwitchAction),
      (call.perform outcome actions).1 = false → (call.perform outcome actions).2 = actions

/-- **The tool's switches mirror those of the plugin exactly when each record action has a truth
value for `record_enabled` in its yaml, and each accepted value is one that the shadowed record
actions of its name have already.** -/
theorem mirrored_iff (asBool : Yaml → Option Bool) (nodes : List Yaml)
    (events : List (UpdateCall × RpcOutcome)) :
    Mirrored asBool nodes events ↔
      SwitchesReadable asBool nodes ∧
        (switchSystem (loadActions asBool nodes)).Guarded Follows
          (switchSystem (loadActions asBool nodes)).init events := by
  unfold Mirrored
  rw [and_iff_left fun call outcome actions => actions_of_perform_false, ← mirrors_init_iff]
  generalize loadActions asBool nodes = actions
  obtain ⟨s', hrun⟩ := exists_foldlM_step actions (switchSystem actions).init events
  have hrest : Mirrors (switchSystem actions).init →
      ((switchSystem actions).Always Mirrors (switchSystem actions).init events ↔
        (switchSystem actions).Guarded Follows (switchSystem actions).init events) :=
    fun hinit => System.always_iff_guarded (fun _ hs => hs)
      (fun _ _ _ hs hstep => (mirrors_step_iff hs hstep).mp)
      (fun _ _ _ hs hstep => (mirrors_step_iff hs hstep).mpr) hinit hrun
  constructor
  · intro halways
    have hinit : Mirrors (switchSystem actions).init := by
      cases events with
      | nil => exact halways
      | cons => exact halways.1
    exact ⟨hinit, (hrest hinit).mp halways⟩
  · rintro ⟨hinit, hguarded⟩
    exact (hrest hinit).mpr hguarded

/-- A record action without the key `record_enabled`. -/
def actionSample : Yaml :=
  .map "" [("action_name", .scalar "" "a"), ("method", .scalar "" "record"),
    ("is_enable", .scalar "" "true")]

/-- The plugin starts with the switch on, the tool with the switch off. -/
theorem missing_switch_not_mirrored :
    let asBool := fun node : Yaml => if node = .scalar "" "true" then some true else none
    (switchSystem (loadActions asBool [actionSample])).init.plugin = [("a", true)] ∧
      toolSwitches (loadActions asBool [actionSample]) = [("a", false)] ∧
      ¬ Mirrored asBool [actionSample] [] := by
  intro asBool
  refine ⟨by decide, by decide, fun hmirrored => ?_⟩
  have hinit : Mirrors (switchSystem (loadActions asBool [actionSample])).init := hmirrored.1
  revert hinit
  decide

end AimrtComm.RecordPlayback
