import Sharerr.Gluetun.Endpoint
import Sharerr.Process.Pool
import Sharerr.Table.Recency
import Sharerr.Torrent.Metainfo

/-!
# What is advertised

The endpoint is changed by observations, by a configuration and when all that
was observed is forgotten.  Whatever changes were made, it keeps the most
recent of the bases that were observed since the last forgetting, each with
the time it was observed last, and what it advertises is read off these.
-/

namespace Sharerr

namespace Gluetun

namespace AdvertisedEndpoint

open Process (afterLast)

inductive Change where
  | observe (base : Url) (now : Int)
  | setStatic (staticBase : Option Url)
  | forgetDynamic
deriving DecidableEq

namespace Change

def apply : Change → AdvertisedEndpoint → AdvertisedEndpoint
  | .observe base now, endpoint => (endpoint.observe base now).2
  | .setStatic staticBase, endpoint => endpoint.setStatic staticBase
  | .forgetDynamic, endpoint => endpoint.forgetDynamic

def forgets : Change → Bool
  | .forgetDynamic => true
  | _ => false

def observed : Change → Option ObservedBase
  | .observe base now => some ⟨base, now⟩
  | _ => none

def configured : Change → Option (Option Url)
  | .setStatic staticBase => some staticBase
  | _ => none

end Change

def after (staticBase : Option Url) (changes : List Change) :
    AdvertisedEndpoint :=
  changes.foldl (fun endpoint change => change.apply endpoint) (new staticBase)

/-- What was observed since the last forgetting, in the order of the calls. -/
def observedSince (changes : List Change) : List ObservedBase :=
  (afterLast Change.forgets changes).filterMap Change.observed

/-- The base that was configured last. -/
def configuredLast (staticBase : Option Url) (changes : List Change) :
    Option Url :=
  ((changes.filterMap Change.configured).getLast?).getD staticBase

/-- The most recent of what was observed. -/
abbrev IsObserved (observed : List ObservedBase)
    (endpoint : AdvertisedEndpoint) : Prop :=
  Recency.IsHistory maxDynamicHistory (·.base) observed endpoint.dynamic

section Calls

variable {observed : List ObservedBase} {endpoint : AdvertisedEndpoint}

theorem after_concat (staticBase : Option Url) (changes : List Change)
    (change : Change) : after staticBase (changes ++ [change]) =
      change.apply (after staticBase changes) := by
  rw [after, List.foldl_append]
  rfl

theorem observedSince_concat (changes : List Change) (change : Change) :
    observedSince (changes ++ [change]) =
      if change.forgets then []
      else observedSince changes ++ change.observed.toList := by
  rw [observedSince, Process.afterLast_concat]
  split
  · rfl
  · rw [List.filterMap_append]
    cases change <;> rfl

theorem observe_changes (endpoint : AdvertisedEndpoint) (base : Url)
    (now : Int) : (endpoint.observe base now).1 = true ↔
      endpoint.lastObserved.map (·.base) ≠ some base := by
  rw [observe, lastObserved]
  split
  case h_1 front rest there =>
      rw [there]
      by_cases same : front.base = base
      · simp [same]
      · simp [same]
  case h_2 there =>
      rw [there]
      simp

@[simp] theorem staticBase_observe (endpoint : AdvertisedEndpoint)
    (base : Url) (now : Int) :
    (endpoint.observe base now).2.staticBase = endpoint.staticBase := by
  rw [observe]
  split
  · split <;> rfl
  · rfl

theorem IsObserved.observe (isObserved : IsObserved observed endpoint)
    (base : Url) (now : Int) :
    IsObserved (observed ++ [⟨base, now⟩]) (endpoint.observe base now).2 := by
  have promoted := Recency.IsHistory.push isObserved ⟨base, now⟩
  rw [AdvertisedEndpoint.observe]
  split
  case h_1 front rest there =>
      split
      case isTrue same =>
          rw [IsObserved, there] at isObserved
          subst same
          exact Recency.IsHistory.renew isObserved rfl
      case isFalse => exact promoted
  case h_2 => exact promoted

theorem IsObserved.lastObserved (isObserved : IsObserved observed endpoint) :
    endpoint.lastObserved = observed.getLast? :=
  Recency.IsHistory.head?_eq isObserved

end Calls

/-- Whatever changes were made, the endpoint keeps the most recent of what was
observed since the last forgetting. -/
theorem isObserved_after (staticBase : Option Url) (changes : List Change) :
    IsObserved (observedSince changes) (after staticBase changes) := by
  induction changes using List.reverseRecOn with
  | nil => exact Recency.IsHistory.empty _ _
  | append_singleton changes change ih =>
    rw [after_concat, observedSince_concat]
    cases change with
    | observe base now => exact ih.observe base now
    | setStatic staticBase =>
      rw [show Change.observed (.setStatic staticBase) = none from rfl,
        Option.toList_none, List.append_nil]
      exact ih
    | forgetDynamic => exact Recency.IsHistory.empty _ _

theorem staticBase_after (staticBase : Option Url) (changes : List Change) :
    (after staticBase changes).staticBase =
      configuredLast staticBase changes := by
  induction changes using List.reverseRecOn with
  | nil => rfl
  | append_singleton changes change ih =>
    rw [after_concat, configuredLast, List.filterMap_append]
    cases change with
    | observe base now =>
      rw [Change.apply, staticBase_observe, ih, configuredLast]
      simp [Change.configured]
    | setStatic staticBase => simp [Change.apply, setStatic,
        Change.configured]
    | forgetDynamic =>
      rw [Change.apply, forgetDynamic, ih, configuredLast]
      simp [Change.configured]

section Readers

variable (endpoint : AdvertisedEndpoint)

theorem recent_eq : endpoint.recent = endpoint.dynamic.map (·.base) ++
    endpoint.staticBase.toList.filter
      (· ∉ endpoint.dynamic.map (·.base)) := by
  rw [recent]
  split
  case h_1 base there =>
      rw [there, Option.toList_some]
      by_cases listed : base ∈ endpoint.dynamic.map (·.base)
      · rw [if_pos listed, List.filter_cons_of_neg (by simpa using listed),
          List.filter_nil, List.append_nil]
      · rw [if_neg listed, List.filter_cons_of_pos (by simpa using listed),
          List.filter_nil]
  case h_2 there =>
      rw [there, Option.toList_none, List.filter_nil, List.append_nil]

theorem nodup_recent (distinct : (endpoint.dynamic.map (·.base)).Nodup) :
    endpoint.recent.Nodup := by
  rw [recent_eq]
  refine List.Nodup.append distinct ?_ ?_
  · refine List.Nodup.filter _ ?_
    cases endpoint.staticBase with
    | none => exact List.nodup_nil
    | some base => exact List.nodup_singleton base
  · intro base observed configured
    exact of_decide_eq_true (List.mem_filter.mp configured).2 observed

theorem current_eq : endpoint.current = endpoint.recent.head? := by
  rw [current, recent_eq]
  cases endpoint.dynamic with
  | nil => cases endpoint.staticBase <;> rfl
  | cons front rest => rfl

theorem primary_of_announceSetFor {urls : Urls} {print : Url → String}
    {token : Option String} {announce : AnnounceSet}
    (built : announceSetFor urls (endpoint.recent.map print) token =
      .ok announce) :
    announce.tiers.head? = some announce.primary ∧
      ∃ base, endpoint.current = some base ∧
        announceUrl urls (print base) token = .ok announce.primary := by
  refine ⟨(List.head_eq_iff_head?_eq_some announce.nonempty).mp rfl, ?_⟩
  rw [current_eq]
  obtain ⟨base, same, built⟩ := Sharerr.primary_of_announceSetFor built
  obtain ⟨front, head, rfl⟩ := Option.map_eq_some_iff.mp
    (List.head?_map ▸ same)
  exact ⟨front, head, built⟩

end Readers

/-- What an endpoint advertises, of what was observed and what is configured.
-/
structure Advertises (endpoint : AdvertisedEndpoint)
    (observed : List ObservedBase) (configured : Option Url) : Prop where
  dynamic : IsObserved observed endpoint
  recent : endpoint.recent = endpoint.dynamic.map (·.base) ++
    configured.toList.filter (· ∉ endpoint.dynamic.map (·.base))
  distinct : endpoint.recent.Nodup
  current : endpoint.current = endpoint.recent.head?
  lastObserved : endpoint.lastObserved = observed.getLast?
  primary : ∀ (urls : Urls) (print : Url → String) (token : Option String)
    (announce : AnnounceSet),
    announceSetFor urls (endpoint.recent.map print) token = .ok announce →
      announce.tiers.head? = some announce.primary ∧
      ∃ base, endpoint.current = some base ∧
        announceUrl urls (print base) token = .ok announce.primary

/-- Whatever changes were made, what is advertised are the most recent bases
observed since the last forgetting and the one configured last; and an
observation says whether another base is the most recent one after it. -/
theorem advertises_recent (staticBase : Option Url) (changes : List Change) :
    (after staticBase changes).Advertises (observedSince changes)
        (configuredLast staticBase changes) ∧
      ∀ (base : Url) (now : Int),
        ((after staticBase changes).observe base now).1 = true ↔
          (observedSince (changes ++ [.observe base now])).getLast?.map
              (·.base) ≠
            (observedSince changes).getLast?.map (·.base) := by
  have isObserved := isObserved_after staticBase changes
  refine ⟨⟨isObserved, ?_, ?_, current_eq _, isObserved.lastObserved, ?_⟩, ?_⟩
  · rw [recent_eq, staticBase_after]
  · exact nodup_recent _ (Recency.IsHistory.distinct isObserved)
  · intro urls print token announce built
    exact primary_of_announceSetFor _ built
  · intro base now
    rw [observe_changes, isObserved.lastObserved, observedSince_concat,
      if_neg (by simp [Change.forgets]), Change.observed,
      Option.toList_some, List.getLast?_concat, Option.map_some]
    exact ne_comm

end AdvertisedEndpoint

end Gluetun

end Sharerr
