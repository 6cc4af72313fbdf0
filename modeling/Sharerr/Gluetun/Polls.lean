import Sharerr.Gluetun.Endpoint
import Sharerr.Process.History

/-!
# Polling gluetun

The poller of one target, the calls that say its port is gone, and the saving
of settings, as programs over the endpoint they share.  The endpoint's lock
covers one call; the round trip to the control server is two, and anything may
happen before, between and after them.
-/

namespace Sharerr

namespace Gluetun

open Process (Prog Perform Condition Pool)

structure World where
  endpoint : AdvertisedEndpoint
  /-- A nudge that no poller has taken yet. -/
  refreshRequested : Bool

inductive Call where
  /-- Whether the settings name a control server, and there is a key. -/
  | ready
  | lastObserved
  /-- The requests to the control server are made. -/
  | send
  /-- Both of their answers are there. -/
  | receive
  | observe (base : Url)
  | forgetDynamic
  | nudge
  | setStatic (base : Option Url)
  /-- The wait between two polls. -/
  | wait
deriving DecidableEq

abbrev Answer : Call → Type
  | .ready => Bool
  | .lastObserved => Option ObservedBase
  | .send => Unit
  | .receive => Answers
  -- the time, and whether the endpoint changed
  | .observe _ => Int × Bool
  | .forgetDynamic => Unit
  | .nudge => Unit
  | .setStatic _ => Unit
  -- whether it was ended by a nudge
  | .wait => Bool

abbrev Event := Process.Event Nat Call Answer

abbrev Moment := Process.Moment Nat World Call Answer

/-- Only what the endpoint answers is fixed; a poll may hear anything. -/
def perform : Perform Nat World Call Answer := fun _ world request answer =>
  match request, answer with
  | .ready, _ => some world
  | .lastObserved, observed =>
    if observed = world.endpoint.lastObserved then some world else none
  | .send, _ => some world
  | .receive, _ => some world
  | .observe base, (now, changed) =>
    let observed := world.endpoint.observe base now
    if changed = observed.1 then some { world with endpoint := observed.2 }
    else none
  | .forgetDynamic, _ =>
    some { world with endpoint := world.endpoint.forgetDynamic }
  | .nudge, _ => some { world with refreshRequested := true }
  | .setStatic base, _ =>
    some { world with endpoint := world.endpoint.setStatic base }
  | .wait, nudged =>
    if nudged then
      if world.refreshRequested then
        some { world with refreshRequested := false }
      else none
    else some world

/-- The port of the last observation, which stands in for one that cannot be
looked up. -/
def fallbackPort (observed : Option ObservedBase) : Option UInt16 :=
  observed.bind fun observed => observed.base.port

/-- One poll. -/
def pollOnce : Prog Call Answer Unit :=
  .call .ready fun ready =>
    if ready then
      .call .lastObserved fun observed =>
        .call .send fun _ =>
          .call .receive fun answers =>
            match Answers.resolveBase answers (fallbackPort observed) with
            | .ok base => .call (.observe base) fun _ => .done ()
            | .error _ => .done ()
    else .done ()

/-- The poller never returns; it has got as far as some number of rounds. -/
def pollLoop : Nat → Prog Call Answer Unit
  | 0 => .done ()
  | rounds + 1 => pollOnce.bind fun _ => .call .wait fun _ => pollLoop rounds

def gluetunDown : Prog Call Answer Unit :=
  .call .forgetDynamic fun _ => .call .nudge fun _ => .done ()

def gluetunRefresh : Prog Call Answer Unit := .call .nudge fun _ => .done ()

inductive Job where
  | idle
  | poll (rounds : Nat)
  | down
  | refresh
  | saved (staticBase : Option Url)

def Job.program : Job → Prog Call Answer Unit
  | .idle => .done ()
  | .poll rounds => pollLoop rounds
  | .down => gluetunDown
  | .refresh => gluetunRefresh
  | .saved staticBase => .call (.setStatic staticBase) fun _ => .done ()

def World.new (staticBase : Option Url) : World := ⟨.new staticBase, false⟩

def pool (staticBase : Option Url) (jobs : Nat → Job) :
    Pool Nat World Call Answer Unit where
  world := World.new staticBase
  threads := fun thread => (jobs thread).program

end Gluetun

end Sharerr
