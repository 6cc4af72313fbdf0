import Sharerr.Rust.Basic
import Sharerr.Rust.IpAddr

/-!
# The advertised endpoint

The base that is configured and the ones that were observed, the most recent
first.  An observation is an address and a port that gluetun's control server
gave, or the port of the last observation where it gave none.
-/

namespace Sharerr

namespace Gluetun

inductive Host where
  | ip (address : Rust.IpAddr)
  | domain (name : String)
deriving DecidableEq, Repr

/-- A URL with a host.  The port its scheme stands for is not kept. -/
structure Url where
  scheme : String
  host : Host
  port : Option UInt16
  path : String
deriving DecidableEq

namespace Url

/-- `http://` and a socket address, parsed. -/
def ofSocket (address : Rust.IpAddr) (port : UInt16) : Url where
  scheme := "http"
  host := .ip address
  port := if port = 80 then none else some port
  path := "/"

def portOrKnownDefault (url : Url) : Option UInt16 :=
  url.port.or
    (if url.scheme = "http" then some 80
    else if url.scheme = "https" then some 443
    else none)

@[simp] theorem portOrKnownDefault_ofSocket (address : Rust.IpAddr)
    (port : UInt16) :
    (ofSocket address port).portOrKnownDefault = some port := by
  by_cases known : port = 80
  · simp [ofSocket, portOrKnownDefault, known]
  · simp [ofSocket, portOrKnownDefault, known]

theorem portOrKnownDefault_of_port {url : Url} {port : UInt16}
    (named : url.port = some port) : url.portOrKnownDefault = some port := by
  rw [portOrKnownDefault, named, Option.some_or]

end Url

def maxDynamicHistory : Nat := 4

structure ObservedBase where
  base : Url
  observedAt : Int
deriving DecidableEq

structure AdvertisedEndpoint where
  staticBase : Option Url
  /-- Most recent first. -/
  dynamic : List ObservedBase
deriving DecidableEq

namespace AdvertisedEndpoint

def new (staticBase : Option Url) : AdvertisedEndpoint := ⟨staticBase, []⟩

def setStatic (endpoint : AdvertisedEndpoint) (staticBase : Option Url) :
    AdvertisedEndpoint :=
  { endpoint with staticBase := staticBase }

def current (endpoint : AdvertisedEndpoint) : Option Url :=
  (endpoint.dynamic.head?.map (·.base)).or endpoint.staticBase

def lastObserved (endpoint : AdvertisedEndpoint) : Option ObservedBase :=
  endpoint.dynamic.head?

/-- Records an observed base, and says whether it is another than before. -/
def observe (endpoint : AdvertisedEndpoint) (base : Url) (now : Int) :
    Bool × AdvertisedEndpoint :=
  let promoted := (⟨base, now⟩ ::
    endpoint.dynamic.filter fun observed => observed.base ≠ base).take
      maxDynamicHistory
  match endpoint.dynamic with
  | front :: rest =>
    if front.base = base then
      (false, { endpoint with dynamic := ⟨front.base, now⟩ :: rest })
    else (true, { endpoint with dynamic := promoted })
  | [] => (true, { endpoint with dynamic := promoted })

def forgetDynamic (endpoint : AdvertisedEndpoint) : AdvertisedEndpoint :=
  { endpoint with dynamic := [] }

/-- The bases to announce on. -/
def recent (endpoint : AdvertisedEndpoint) : List Url :=
  let bases := endpoint.dynamic.map (·.base)
  match endpoint.staticBase with
  | some base => if base ∈ bases then bases else bases ++ [base]
  | none => bases

theorem mem_observe {endpoint : AdvertisedEndpoint} {base : Url} {now : Int}
    {observed : ObservedBase}
    (member : observed ∈ (endpoint.observe base now).2.dynamic) :
    observed.base = base ∨ observed ∈ endpoint.dynamic := by
  rw [observe] at member
  have promoted : ∀ {entries : List ObservedBase},
      observed ∈ (⟨base, now⟩ :: entries.filter fun observed =>
        observed.base ≠ base).take maxDynamicHistory →
      observed.base = base ∨ observed ∈ entries := by
    intro entries taken
    rcases List.mem_cons.mp (List.mem_of_mem_take taken) with rfl | kept
    · exact Or.inl rfl
    · exact Or.inr (List.mem_filter.mp kept).1
  split at member
  case h_1 front rest there =>
      split at member
      case isTrue same =>
          rcases List.mem_cons.mp member with rfl | later
          · exact Or.inl same
          · rw [there]
            exact Or.inr (List.mem_cons_of_mem _ later)
      case isFalse => exact promoted member
  case h_2 => exact promoted member

/-- The current base and the recent ones were observed, or are configured. -/
theorem observed_of_advertised {endpoint : AdvertisedEndpoint} {base : Url}
    (advertised : endpoint.current = some base ∨ base ∈ endpoint.recent) :
    endpoint.staticBase = some base ∨
      ∃ observed ∈ endpoint.dynamic, observed.base = base := by
  rcases advertised with front | listed
  · rcases Option.or_eq_some_iff.mp front with observed | ⟨_, configured⟩
    · obtain ⟨observed, first, same⟩ := Option.map_eq_some_iff.mp observed
      exact Or.inr ⟨observed, List.mem_of_mem_head? first, same⟩
    · exact Or.inl configured
  · rw [recent] at listed
    split at listed
    case h_1 configured there =>
        split at listed
        case isTrue => exact Or.inr (List.mem_map.mp listed)
        case isFalse =>
            rcases List.mem_append.mp listed with observed | last
            · exact Or.inr (List.mem_map.mp observed)
            · rw [List.mem_singleton.mp last]
              exact Or.inl there
    case h_2 => exact Or.inr (List.mem_map.mp listed)

end AdvertisedEndpoint

inductive GluetunError where
  | noForwardedPort
  | malformed (text : String)
  /-- A request that failed, or was refused. -/
  | request (detail : String)
deriving DecidableEq, Repr

/-- The answers to the two requests: the text of the exit address, and the
port, which is 0 where the provider granted none. -/
structure Answers where
  publicIp : Except GluetunError String
  forwardedPort : Except GluetunError UInt16

namespace Answers

def address (answers : Answers) : Except GluetunError Rust.IpAddr := do
  let text ← answers.publicIp
  match Rust.IpAddr.parse text with
  | some address => .ok address
  | none => .error (.malformed text)

def port (answers : Answers) : Except GluetunError UInt16 := do
  let port ← answers.forwardedPort
  if port = 0 then .error .noForwardedPort else .ok port

/-- A port that could not be looked up is the last known one. -/
def portOr (answers : Answers) (fallbackPort : Option UInt16) :
    Except GluetunError UInt16 :=
  match answers.port, fallbackPort with
  | .ok port, _ => .ok port
  | .error _, some fallback => .ok fallback
  | .error err, none => .error err

/-- The base friends reach this instance on. -/
def resolveBase (answers : Answers) (fallbackPort : Option UInt16) :
    Except GluetunError Url := do
  let address ← answers.address
  let port ← answers.portOr fallbackPort
  pure (.ofSocket address port)

end Answers

end Gluetun

end Sharerr
