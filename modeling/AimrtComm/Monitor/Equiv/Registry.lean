import AimrtComm.Monitor.Registry
import Mathlib.Data.String.Basic

/-!
# What the lists of the monitor show

The comparison of topics is lexicographic, so every topic that was registered is in its list once
(`mem_topics_iff`).  That of rpc functions asks for all three names to be less, which is no order
that sets are made for: functions that share the type of a request or of a response exclude each
other, and nothing is left out only if any two functions can be compared (`rpcStart_shows`).
-/

namespace AimrtComm.Monitor

open SearchTree

/-! ### The comparisons -/

instance : IsTrans TopicInfo TopicInfo.Less where
  trans x y z := by
    rintro (hxy | ⟨hxy, hxy'⟩) (hyz | ⟨hyz, hyz'⟩)
    · exact .inl (lt_trans hxy hyz)
    · exact .inl (hyz ▸ hxy)
    · exact .inl (hxy ▸ hyz)
    · exact .inr ⟨hxy.trans hyz, lt_trans hxy' hyz'⟩

instance : IsTrans RpcFuncInfo RpcFuncInfo.Less where
  trans _ _ _ hxy hyz :=
    ⟨lt_trans hxy.1 hyz.1, lt_trans hxy.2.1 hyz.2.1, lt_trans hxy.2.2 hyz.2.2⟩

/-- What tells topics from each other. -/
def TopicInfo.key (info : TopicInfo) : TopicKey := ⟨info.topicName, info.msgType⟩

theorem TopicInfo.incomparable_iff (x y : TopicInfo) :
    ¬ x.Less y ∧ ¬ y.Less x ↔ x.key = y.key := by
  rw [TopicInfo.key, TopicInfo.key, TopicKey.mk.injEq, TopicInfo.Less, TopicInfo.Less]
  constructor
  · rintro ⟨hxy, hyx⟩
    rw [not_or, not_and] at hxy hyx
    have hname : x.topicName = y.topicName := le_antisymm (not_lt.mp hyx.1) (not_lt.mp hxy.1)
    exact ⟨hname, le_antisymm (not_lt.mp (hyx.2 hname.symm)) (not_lt.mp (hxy.2 hname))⟩
  · rintro ⟨hname, htype⟩
    simp [hname, htype]

/-! ### Topics -/

variable {regexMatch : String → String → Option Bool} {rules : Rules}

/-- **Every topic is listed, with the backends of its rule.** -/
theorem mem_topics_iff {keys : List TopicKey} {info : TopicInfo} :
    info ∈ chainOf TopicInfo.Less (keys.map (topicInfo regexMatch rules)) ↔
      ∃ key ∈ keys, topicInfo regexMatch rules key = info := by
  rw [mem_chainOf_iff_find? TopicInfo.incomparable_iff, ← List.mem_map]
  constructor
  · exact List.mem_of_find?_eq_some
  · intro hmem
    obtain ⟨key, -, rfl⟩ := List.mem_map.mp hmem
    cases hfind : (keys.map (topicInfo regexMatch rules)).find? fun y =>
        y.key = (topicInfo regexMatch rules key).key with
    | none => simpa using List.find?_eq_none.mp hfind _ hmem
    | some other =>
      obtain ⟨key', -, rfl⟩ := List.mem_map.mp (List.mem_of_find?_eq_some hfind)
      have hsome := List.find?_some hfind
      have hkey : key' = key := of_decide_eq_true hsome
      rw [hkey]

/-- And once. -/
theorem nodup_keys_topics (infos : List TopicInfo) :
    ((chainOf TopicInfo.Less infos).map TopicInfo.key).Nodup := by
  rw [List.Nodup, List.pairwise_map]
  refine (pairwise_chainOf infos).imp fun {x y} hxy hkey => ?_
  exact ((TopicInfo.incomparable_iff x y).mpr hkey).1 hxy

/-! ### Rpc functions -/

/-- What a list of functions shows of those that were registered. -/
structure Shows (regexMatch : String → String → Option Bool) (rules : Rules)
    (wrappers : List FuncWrapper) (list : List RpcFuncInfo) : Prop where
  /-- Nothing is made up. -/
  registered : ∀ info ∈ list, ∃ wrapper ∈ wrappers, rpcFuncInfo regexMatch rules wrapper = info
  /-- Functions of one request or response type exclude each other. -/
  reqTypes : (list.map RpcFuncInfo.reqType).Nodup
  rspTypes : (list.map RpcFuncInfo.rspType).Nodup
  /-- What is left out cannot be compared with something that is shown. -/
  excluded : ∀ wrapper ∈ wrappers, rpcFuncInfo regexMatch rules wrapper ∉ list →
    ∃ info ∈ list, ¬ (rpcFuncInfo regexMatch rules wrapper).Less info ∧
      ¬ info.Less (rpcFuncInfo regexMatch rules wrapper)
  /-- All functions are shown only if any two of them can be compared. -/
  all_iff : (∀ wrapper ∈ wrappers, rpcFuncInfo regexMatch rules wrapper ∈ list) ↔
    ∀ wrapper ∈ wrappers, ∀ wrapper' ∈ wrappers, wrapper ≠ wrapper' →
      (rpcFuncInfo regexMatch rules wrapper).Less (rpcFuncInfo regexMatch rules wrapper') ∨
        (rpcFuncInfo regexMatch rules wrapper').Less (rpcFuncInfo regexMatch rules wrapper)
  /-- However the set keeps its tree balanced. -/
  tree : ∀ t, InsertedAll RpcFuncInfo.Less (wrappers.map (rpcFuncInfo regexMatch rules)) t →
    t.toList = list

theorem rpcFuncInfo_injective : Function.Injective (rpcFuncInfo regexMatch rules) := by
  intro wrapper wrapper' h
  rw [rpcFuncInfo, rpcFuncInfo, RpcFuncInfo.mk.injEq] at h
  cases wrapper
  cases wrapper'
  rw [FuncWrapper.mk.injEq]
  exact ⟨h.1, h.2.1, h.2.2.1⟩

/-- Two elements of a chain can be compared. -/
theorem comparable_of_pairwise {list : List RpcFuncInfo} (h : list.Pairwise RpcFuncInfo.Less)
    {x y : RpcFuncInfo} (hx : x ∈ list) (hy : y ∈ list) (hne : x ≠ y) : x.Less y ∨ y.Less x := by
  induction h with
  | nil => cases hx
  | cons hlt _ ih =>
    rcases List.mem_cons.mp hx with rfl | hx'
    · rcases List.mem_cons.mp hy with rfl | hy'
      · exact absurd rfl hne
      · exact .inl (hlt y hy')
    · rcases List.mem_cons.mp hy with rfl | hy'
      · exact .inr (hlt x hx')
      · exact ih hx' hy'

theorem shows_chainOf (wrappers : List FuncWrapper) :
    Shows regexMatch rules wrappers
      (chainOf RpcFuncInfo.Less (wrappers.map (rpcFuncInfo regexMatch rules))) := by
  have hchain := pairwise_chainOf (r := RpcFuncInfo.Less)
    (wrappers.map (rpcFuncInfo regexMatch rules))
  have hexcluded : ∀ wrapper ∈ wrappers, rpcFuncInfo regexMatch rules wrapper ∉
      chainOf RpcFuncInfo.Less (wrappers.map (rpcFuncInfo regexMatch rules)) →
      ∃ info ∈ chainOf RpcFuncInfo.Less (wrappers.map (rpcFuncInfo regexMatch rules)),
        ¬ (rpcFuncInfo regexMatch rules wrapper).Less info ∧
          ¬ info.Less (rpcFuncInfo regexMatch rules wrapper) :=
    fun wrapper hw hnot => exists_incomparable_of_not_mem (List.mem_map_of_mem hw) hnot
  refine ⟨fun info h => List.mem_map.mp (mem_of_mem_chainOf h), ?_, ?_, hexcluded, ?_,
    fun t ht => toList_of_insertedAll ht⟩
  · rw [List.Nodup, List.pairwise_map]
    exact hchain.imp fun h => ne_of_lt h.2.1
  · rw [List.Nodup, List.pairwise_map]
    exact hchain.imp fun h => ne_of_lt h.2.2
  · constructor
    · intro hall wrapper hw wrapper' hw' hne
      exact comparable_of_pairwise hchain (hall wrapper hw) (hall wrapper' hw')
        fun h => hne (rpcFuncInfo_injective h)
    · intro hcomp wrapper hw
      by_contra hnot
      obtain ⟨info, hinfo, hless, hless'⟩ := hexcluded wrapper hw hnot
      obtain ⟨wrapper', hw', rfl⟩ := List.mem_map.mp (mem_of_mem_chainOf hinfo)
      have hne : wrapper ≠ wrapper' := by
        rintro rfl
        exact hnot hinfo
      exact (hcomp wrapper hw wrapper' hw' hne).elim hless hless'

/-- **What the rpc lists of the monitor show.**  Whatever was registered, no two functions in a list
share the type of their requests or of their responses.  A function is left out exactly because it
cannot be compared with one that is shown, and nothing is left out only if in any two functions all
three names compare alike. -/
theorem rpcStart_shows {aimrtConfig : Yaml} {services clients : List FuncWrapper}
    {rpcServiceList rpcClientList : List RpcFuncInfo}
    (h : rpcStart regexMatch aimrtConfig services clients = .ok (rpcServiceList, rpcClientList)) :
    ∃ serverRules clientRules,
      readRules aimrtConfig "rpc" "servers_options" "func_name" = .ok serverRules ∧
      readRules aimrtConfig "rpc" "clients_options" "func_name" = .ok clientRules ∧
      Shows regexMatch serverRules services rpcServiceList ∧
      Shows regexMatch clientRules clients rpcClientList := by
  rw [rpcStart] at h
  cases hserver : readRules aimrtConfig "rpc" "servers_options" "func_name" with
  | error error =>
    rw [hserver] at h
    cases h
  | ok serverRules =>
    cases hclient : readRules aimrtConfig "rpc" "clients_options" "func_name" with
    | error error =>
      rw [hserver, hclient] at h
      cases h
    | ok clientRules =>
      rw [hserver, hclient] at h
      cases h
      exact ⟨serverRules, clientRules, rfl, rfl, shows_chainOf services, shows_chainOf clients⟩

/-- Two services of one request type: the second one is not shown. -/
theorem rpcStart_shows_sample :
    ∃ serverRules, Shows (fun _ _ => some true) serverRules
      [⟨"/a", "Empty", "A"⟩, ⟨"/b", "Empty", "B"⟩] [⟨"/a", "Empty", "A", []⟩] := by
  have hstart : rpcStart (fun _ _ => some true) .undefined
      [⟨"/a", "Empty", "A"⟩, ⟨"/b", "Empty", "B"⟩] [] = .ok ([⟨"/a", "Empty", "A", []⟩], []) := by
    decide +kernel
  obtain ⟨serverRules, -, -, -, h, -⟩ := rpcStart_shows hstart
  exact ⟨serverRules, h⟩

end AimrtComm.Monitor
