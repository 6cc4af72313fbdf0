import Sharerr.Friends.Calls

/-!
# Pairing, editing, deleting and importing friends

The handlers of the Friends page and the importer of `[[peers]]` entries, each
a program over single statements and single vault operations.
-/

namespace Sharerr

namespace Friends

open Process (Prog)
open Gossip (peerGossipKey)
open Settings (PeerImport present)

inductive Response where
  /-- The Friends page, with the name of the friend just paired. -/
  | page (paired : String)
  /-- The page that says what was refused. -/
  | rejected (message : String)
  | redirect (location : String)
  | unavailable (reason : String)
  /-- What the pair endpoint answers. -/
  | returned (response : Gossip.Response)
  /-- The end of something that answers nobody. -/
  | finished
deriving DecidableEq, Repr

/-- The facts one side needs about the other, as the invite string carries
them. -/
structure Invite extends Gossip.Invite where
  v : Nat
  issuedAt : Int
  inReplyTo : Option String
deriving DecidableEq, Repr

/-- What belongs to other crates: unpadded URL-safe base64, and `serde_json`'s
reading of an invite. -/
structure Crates extends Gossip.Crates where
  decodeBase64 : String → Option (List UInt8)
  parseInvite : List UInt8 → Option Invite

/-- `PREFIX`. -/
def inviteHead : String := "sharerr-invite:"

def version : Nat := 1

def inviteTtlSecs : Int := 7 * 24 * 60 * 60

def isAsciiHexdigit (character : Char) : Bool :=
  ('0' ≤ character && character ≤ '9') ||
    ('a' ≤ character && character ≤ 'f') ||
    ('A' ≤ character && character ≤ 'F')

def isHex32Bytes (value : String) : Bool :=
  value.utf8ByteSize = 64 && value.toList.all isAsciiHexdigit

/-- The checks of a parsed invite against the clock. -/
def Invite.checkDates (invite : Invite) (now : Int) : Except String Unit :=
  if Rust.saturatingAdd now maxFutureSkewSecs < invite.issuedAt then
    .error ("that invite is dated in the future; check the clock on the " ++
      "instance that made it")
  else if inviteTtlSecs < Rust.saturatingSub now invite.issuedAt then
    .error ("that invite is more than seven days old; have them delete and " ++
      "re-add you on their Friends page for a fresh one")
  else .ok ()

/-- The checks of what a parsed invite carries. -/
def Invite.checkFacts (crates : Crates) (invite : Invite) :
    Except String Unit := do
  Gossip.validateUrl crates.toCrates invite.url
  Gossip.validateKey invite.key
  if invite.pubkey.any fun pubkey => !isHex32Bytes pubkey then
    throw "that invite carries an identity key of the wrong shape"
  if invite.inReplyTo.any fun hash => !isHex32Bytes hash then
    throw "that reply names a key hash of the wrong shape"

/-- `Invite::decode` up to the reading of the clock. -/
def readInvite (crates : Crates) (text : String) : Except String Invite :=
  match Rust.stripPrefix inviteHead (Rust.trim text) with
  | none => .error ("that is not a sharerr invite: it should start with \"" ++
      inviteHead ++ "\"")
  | some encoded =>
    match crates.decodeBase64 (Rust.trim encoded) with
    | none => .error "that invite is damaged: part of it did not paste"
    | some json =>
      match crates.parseInvite json with
      | none => .error "that invite is damaged: its contents do not parse"
      | some invite =>
        if invite.v = version then .ok invite
        else .error ("that invite was made by a newer sharerr (format " ++
          s!"{invite.v}); update this one first")

/-- `Invite::decode`. -/
def decode (crates : Crates) (text : String) :
    Program (Except String Invite) :=
  match readInvite crates text with
  | .error reason => .done (.error reason)
  | .ok invite => .call (.gossip .nowEpoch) fun now =>
    .done do
      invite.checkDates now
      invite.checkFacts crates
      return invite

def validateLabel (label : String) : Except String String :=
  let trimmed := Rust.trim label
  if trimmed = "" then .error "a peer needs a name"
  else if 64 < trimmed.length then
    .error "a peer name must be 64 characters or fewer"
  else .ok trimmed

def createPeer (crates : Crates) (label key : String) (scope : PeerScope) :
    Program (Except StoreError Peer) :=
  match validateLabel label with
  | .error message => .done (.error (.invalidUser message))
  | .ok label => .call (.gossip .nowEpoch) fun now =>
    .call (.createPeer label (crates.hashKey key) scope now) .done

def setPeerGossipUrl (crates : Crates) (id : Nat) (url : Option String) :
    Program (Except StoreError Bool) :=
  match Gossip.gossipUrl crates.toCrates url with
  | .error reason => .done (.error reason)
  | .ok url => .call (.gossip (.setPeerGossipUrl id url)) .done

structure PairForm where
  invite : String
  label : String
  scope : PeerScope
deriving DecidableEq

/-- Why `mint_peer` could not add a friend. -/
def mintFailure : StoreError → String
  | .userExists username =>
    s!"There is already a friend called {username.quote}."
  | .invalidUser message => message
  | reason => s!"could not add that friend: {reason.text}"

def mintPeer (crates : Crates) (label : String) (scope : PeerScope) :
    Program (Except String Peer) :=
  .call .randomHex fun key => Prog.proceed key fun key =>
    (createPeer crates label key scope).bind fun created =>
      .done (created.mapError mintFailure)

/-- `apply_invite`, and the page it ends in. -/
def applied (crates : Crates) (peer : Peer) (invite : Invite) :
    Program Response :=
  (gossip (Gossip.applyInvite crates.toCrates peer invite.toInvite)).bind fun
    | .error reason => .done (.rejected reason)
    | .ok _ => .done (.page peer.label)

/-- The branch of `pair` for a reply: the invite fills the row it names. -/
def applyReply (crates : Crates) (invite : Invite) (hash : String) :
    Program Response :=
  .call (.peerByKeyHash hash) fun
    | .error reason =>
      .done (.rejected s!"could not look that up: {reason.text}")
    | .ok none =>
      .done (.rejected ("that reply answers a key this instance never " ++
        "issued, or one since revoked"))
    | .ok (some peer) => applied crates peer invite

/-- The branch of `pair` for a fresh invite.  What follows a success, sending
this instance's side back, is left out. -/
def applyFresh (crates : Crates) (form : PairForm) (invite : Invite) :
    Program Response :=
  let label := Rust.trim form.label
  if label = "" then
    .done (.rejected "give this friend a name before pairing")
  else (mintPeer crates label form.scope).bind fun
    | .error reason => .done (.rejected reason)
    | .ok peer => applied crates peer invite

/-- `pair` of the Friends page. -/
def pair (crates : Crates) (form : PairForm) : Program Response :=
  .call .openStore fun
    | .error reason => .done (.unavailable reason)
    | .ok _ => (decode crates form.invite).bind fun
        | .error reason => .done (.rejected reason)
        | .ok invite => .call (.gossip .openVault) fun
            | .error reason =>
              .done (.rejected ("the vault must be open to store the key " ++
                s!"they issued: {reason.text}"))
            | .ok _ =>
              match invite.inReplyTo with
              | some hash => applyReply crates invite hash
              | none => applyFresh crates form invite

structure GossipForm where
  url : String
  key : String
  clearKey : Bool
deriving DecidableEq, Repr

/-- The write of `set_gossip` to the vault. -/
def storeKey (id : Nat) (form : GossipForm) :
    Program (Except VaultError Unit) :=
  if form.clearKey then
    .call (.vaultRemove (peerGossipKey id)) fun answer =>
      .done (answer.map fun _ => ())
  else .call (.gossip (.vaultPut (peerGossipKey id) (Rust.trim form.key))) .done

/-- The second half of `set_gossip`: the key, where the form has one. -/
def setGossipKey (id : Nat) (form : GossipForm) : Program Response :=
  if Rust.trim form.key ≠ "" ∨ form.clearKey then
    .call (.gossip .openVault) fun
      | .error reason => .done (.rejected reason.text)
      | .ok _ => (storeKey id form).bind fun
          | .error reason =>
            .done (.rejected s!"could not store the key: {reason.text}")
          | .ok _ => .done (.redirect "/peers")
  else .done (.redirect "/peers")

/-- The address first; the key follows only for a friend who is there. -/
def setGossip (crates : Crates) (id : Nat) (form : GossipForm) :
    Program Response :=
  .call .openStore fun
    | .error reason => .done (.unavailable reason)
    | .ok _ => (setPeerGossipUrl crates id (some form.url)).bind fun
        | .ok true => setGossipKey id form
        | .ok false =>
          .done (.rejected "there is no friend with that id any more")
        | .error reason =>
          .done (.rejected s!"could not save that: {reason.text}")

/-- The row goes first; the key kept for it follows where the vault opens. -/
def delete (id : Nat) : Program Response :=
  .call .openStore fun
    | .error reason => .done (.unavailable reason)
    | .ok _ => .call (.gossip (.deletePeer id)) fun
        | .error reason =>
          .done (.rejected s!"could not delete that friend: {reason.text}")
        | .ok _ => .call (.gossip .openVault) fun
            | .error _ => .done (.redirect "/peers")
            | .ok _ => .call (.vaultRemove (peerGossipKey id)) fun _ =>
              .done (.redirect "/peers")

/-- The steps of the importer of friends. -/
def Crates.steps (crates : Crates) : Settings.ImportSteps Call Answer where
  openStore := .call .openStore .done
  openVault := .call (.gossip .openVault) fun answer =>
    .done ((answer.map fun _ => ()).mapError VaultError.text)
  randomHex := .call .randomHex .done
  createPeer label key scope :=
    (createPeer crates label key (PeerScope.parse scope)).bind fun answer =>
      .done ((answer.map fun created => created.id).mapError StoreError.text)
  setPeerLimits id maxSizeBytes maxHeight :=
    .call (.setPeerLimits id maxSizeBytes maxHeight) fun answer =>
      .done ((answer.map fun _ => ()).mapError StoreError.text)
  setPeerGossipUrl id url :=
    (setPeerGossipUrl crates id (some url)).bind fun answer =>
      .done ((answer.map fun _ => ()).mapError StoreError.text)
  vaultPut key value := .call (.gossip (.vaultPut key value)) fun answer =>
    .done (answer.mapError VaultError.text)
  recordPeerEndpoint id addr := .call (.gossip .nowEpoch) fun now =>
    .call (.gossip (.recordPeerEndpoint now id .api addr none .restored none))
      fun answer => .done (answer.mapError StoreError.text)
  stripPeersBlock := .call .stripPeersBlock fun _ => .done ()

theorem importOnePeer_eq (crates : Crates) (hasVault : Bool)
    (peer : PeerImport) : crates.steps.importOnePeer hasVault peer =
      .call .randomHex fun key => Prog.proceed key fun key =>
        (createPeer crates peer.label key (PeerScope.parse peer.scope)).bind fun
          | .error reason => .done (.error reason.text)
          | .ok created =>
            crates.steps.importHalves hasVault created.id peer := by
  refine congrArg (Prog.call Call.randomHex) (funext fun key => ?_)
  cases key with
  | error reason => rfl
  | ok key =>
    refine (Prog.bind_assoc ..).trans ?_
    congr 1
    funext answer
    cases answer <;> rfl

def importPeers (crates : Crates) (peers : List PeerImport) : Program Unit :=
  crates.steps.importPeers peers

/-- What an instance can be asked to do. -/
inductive Job where
  | idle
  | pair (form : PairForm)
  | setGossip (id : Nat) (form : GossipForm)
  | delete (id : Nat)
  /-- `POST /api/gossip/pair`. -/
  | returnHalf (callerId : Nat) (request : Gossip.PairRequest)
  | importPeers (peers : List PeerImport)

def Job.program (crates : Crates) : Job → Program Response
  | .idle => .done .finished
  | .pair form => Friends.pair crates form
  | .setGossip id form => Friends.setGossip crates id form
  | .delete id => Friends.delete id
  | .returnHalf callerId request =>
    (gossip (Gossip.pair crates.toCrates callerId request)).bind
      fun response => .done (.returned response)
  | .importPeers peers =>
    (Friends.importPeers crates peers).bind fun _ => .done .finished

/-- Any number of requests to one instance, none of them begun. -/
def pool (crates : Crates) (world : World) (jobs : Nat → Job) :
    Process.Pool Nat World Call Answer Response where
  world := world
  threads thread := (jobs thread).program crates

/-- The invite Alex sends. -/
def alexInvite : Invite :=
  ⟨⟨"http://alex.example/", "alex-key", none⟩, 1, 1000, none⟩

def alexJson : List UInt8 :=
  ("\x7b\"v\":1,\"url\":\"http://alex.example/\",\"key\":\"alex-key\"," ++
    "\"issued_at\":1000\x7d").toList.map fun character =>
      UInt8.ofNat character.toNat

/-- `alexJson` as it is sent. -/
def alexPaste : String :=
  "sharerr-invite:eyJ2IjoxLCJ1cmwiOiJodHRwOi8vYWxleC5leGFtcGxlLyIsImtleSI6" ++
    "ImFsZXgta2V5IiwiaXNzdWVkX2F0IjoxMDAwfQ"

/-- Crates that know the texts that come up below. -/
def knownCrates : Crates where
  verify _ := .ok ()
  parseUrl url :=
    if url = "http://alex.example/" ∨ url = "http://alex.example" then
      .ok ("http", "http://alex.example/")
    else .error "relative URL without a base"
  hashKey key := "hash of " ++ key
  decodeBase64 text :=
    if inviteHead ++ text = alexPaste then some alexJson else none
  parseInvite json := if json = alexJson then some alexInvite else none

def emptyWorld : World := ⟨.empty, fun _ => ⟨.all, none, none⟩⟩

/-- Alex's row as it is first inserted. -/
def alex : Peer :=
  ⟨1, "Alex", 1000, none, none, none, "hash of our-key"⟩

theorem alex_below : ∀ row ∈ [(⟨alex, none⟩ : PeerRow)], row.id < 2 := by
  simp [alex]

/-- The instance once Alex was added, before an address is known. -/
def alexWorld : World :=
  emptyWorld.withPeers
    { rows := [⟨alex, none⟩]
      nextId := 2
      below := alex_below
      ids := by simp
      labels := by simp
      keyHashes := by simp }

def alexEntry : PeerImport :=
  ⟨"Alex", "tv", none, none, none, some "http://alex.example",
    some "alex-key"⟩

end Friends

end Sharerr
