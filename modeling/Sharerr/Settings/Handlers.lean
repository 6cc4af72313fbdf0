import Sharerr.Rust.Text
import Sharerr.Settings.Importer

/-!
# The handlers of the settings pages

`prepare_config` opens, edits and validates `sharerr.toml` without writing it
and returns with `config_write` held; `commit_config` writes the text, adopts
the configuration and lets go of the lock.  What touches the vault runs in
between, or without the lock.
-/

namespace Sharerr

namespace Settings

open Process (Prog)
open Tracker (trackerToken trackerTokenPrevious)

inductive Response where
  | redirect (location : String)
  /-- The page that says why nothing was saved. -/
  | rejected (message : String)
  /-- The page that shows a generated secret. -/
  | revealed (secret : String)
  /-- The end of something that answers nobody. -/
  | finished
deriving DecidableEq, Repr

/-- `sanitize_next`. -/
def sanitizeNext (next : Option String) : Option String :=
  next.filter fun path =>
    path.startsWith "/" && !path.startsWith "//" &&
      path.toList.all fun character =>
        '!' ≤ character && character ≤ '~' && character ≠ '\\'

/-- An edited and validated document that has not been written yet. -/
structure PendingConfig (Rest : Type) where
  recovered : Bool
  text : String
  config : Config Rest

section Configuration

variable {Doc Rest : Type} (documents : Documents Doc Rest)

/-- A save given up with `config_write` held. -/
def abandon {α : Type} (reason : String) : Program Rest (Except String α) :=
  .call .unlockConfigWrite fun _ => .done (.error reason)

/-- The end of `prepare_config`: edit, print and validate. -/
def prepareDocument (recovered : Bool) (document : Doc)
    (edit : Doc → Except String Doc) :
    Program Rest (Except String (PendingConfig Rest)) :=
  match edit document with
  | .error reason => abandon reason
  | .ok edited =>
    match documents.validate (documents.print edited) with
    | .error reason => abandon reason
    | .ok config =>
      .done (.ok ⟨recovered, documents.print edited, config⟩)

/-- The lock is taken here and kept until the commit. -/
def prepareConfig (edit : Doc → Except String Doc) :
    Program Rest (Except String (PendingConfig Rest)) :=
  .call .lockConfigWrite fun _ => .call .readConfigError fun
    | some _ => .call .readConfig fun config =>
      prepareDocument documents true (documents.replacement config) edit
    | none => .call .readFile fun
        | .error reason => abandon reason
        | .ok text =>
          match documents.parse text with
          | .error reason => abandon reason
          | .ok document => prepareDocument documents false document edit

def replaceConfig (config : Config Rest) : Program Rest Unit :=
  .call (.writeConfig config) fun _ => .call .clearConfigError fun _ =>
    .call (.invalidate "configuration changed") fun _ => .done ()

def commitConfig (location : String) (next : Option String)
    (pending : PendingConfig Rest) : Program Rest Response :=
  .call (.writeFile pending.recovered pending.text) fun
    | .error failure => .call .unlockConfigWrite fun _ =>
      .done (.rejected failure.message)
    | .ok _ => (replaceConfig pending.config).bind fun _ =>
      .call .unlockConfigWrite fun _ =>
        .done (.redirect ((sanitizeNext next).getD "/settings" ++
          "?saved=" ++ location))

def writeConfig (location : String) (next : Option String)
    (edit : Doc → Except String Doc) : Program Rest Response :=
  (prepareConfig documents edit).bind fun
    | .error reason => .done (.rejected reason)
    | .ok pending => commitConfig location next pending

end Configuration

section Credentials

variable {Rest : Type}

/-- `ServeState::open_vault`. -/
def openVault : Program Rest (Except String Unit) :=
  .call (.vault .open) fun answered =>
    .done ((answered.2.map fun _ => ()).mapError VaultError.display)

/-- A put or a removal whose failure is told with its purpose. -/
def mutateVault (mutation : Vault.Mutation) (purpose : String) :
    Program Rest (Except String Unit) :=
  .call (.vault (.mutate mutation)) fun answered =>
    .done ((answered.2.map fun _ => ()).mapError fun reason =>
      purpose ++ ": " ++ reason.display)

/-- Whether the vault changed. -/
def applySecret (key value : String) (clear : Bool) :
    Program Rest (Except String Bool) :=
  let value := Rust.trim value
  if !clear && value = "" then .done (.ok false)
  else
    openVault.attempt fun _ =>
      (if clear then mutateVault (.remove key) ("removing " ++ key)
        else mutateVault (.put key value) ("storing " ++ key)).attempt fun _ =>
          .done (.ok true)

/-- The value of a `get`. -/
def readValue : Vault.Answer → Option String
  | .got value => value
  | _ => none

/-- What a rotation does with the token it replaces. -/
def preservePrevious (current : Option String) (new : String) :
    Program Rest (Except String Unit) :=
  match current with
  | none => .done (.ok ())
  | some current =>
    if current = new then .done (.ok ())
    else mutateVault (.put trackerTokenPrevious current)
      "preserving the previous announce token"

def rotateTrackerTokenIn (new : String) : Program Rest (Except String Unit) :=
  .call (.vault (.get trackerToken)) fun answered =>
    match answered.2 with
    | .error reason => .done (.error
        ("reading the current announce token: " ++ reason.display))
    | .ok answer => (preservePrevious (readValue answer) new).attempt fun _ =>
      mutateVault (.put trackerToken new) "storing the announce token"

def clearTrackerTokenIn : Program Rest (Except String Unit) :=
  (mutateVault (.remove trackerToken) "removing the announce token").attempt
    fun _ => mutateVault (.remove trackerTokenPrevious)
      "removing the previous announce token"

def finalizeTrackerTokenIn : Program Rest (Except String Unit) :=
  mutateVault (.remove trackerTokenPrevious)
    "removing the previous announce token"

/-- `mutate_tracker_token`: nothing is dropped unless all of it went well. -/
def mutateTrackerToken (reason : String)
    (mutation : Program Rest (Except String Unit)) :
    Program Rest (Except String Unit) :=
  openVault.attempt fun _ => mutation.attempt fun _ =>
    .call (.invalidate reason) fun _ => .call .resetLegacyTokenStatus fun _ =>
      .done (.ok ())

def rotateTrackerToken (new : String) : Program Rest (Except String Unit) :=
  mutateTrackerToken "the tracker token rotated" (rotateTrackerTokenIn new)

def clearTrackerToken : Program Rest (Except String Unit) :=
  mutateTrackerToken "the tracker token was cleared" clearTrackerTokenIn

def finalizeTrackerToken : Program Rest (Except String Unit) :=
  mutateTrackerToken "the tracker rotation was finalized"
    finalizeTrackerTokenIn

def generateSecret (field : String) : Program Rest Response :=
  if field ≠ "tracker" then
    .done (.rejected "There is no such secret to generate.")
  else
    .call .randomHex fun
      | .error reason => .done (.rejected reason)
      | .ok generated => (rotateTrackerToken generated).bind fun
          | .error reason => .done (.rejected reason)
          | .ok _ => .done (.revealed generated)

def finalizeTracker : Program Rest Response :=
  finalizeTrackerToken.bind fun
    | .error reason => .done (.rejected reason)
    | .ok _ => .done (.redirect "/settings?saved=tracker")

end Credentials

section Saves

variable {Doc Rest : Type} (documents : Documents Doc Rest)

def isRedirection : Response → Bool
  | .redirect _ => true
  | _ => false

/-- A page refused while a prepared save still holds `config_write`. -/
def refuse (reason : String) : Program Rest Response :=
  .call .unlockConfigWrite fun _ => .done (.rejected reason)

def invalidateUnlessCommitted (changed : Bool) (response : Response) :
    Program Rest Response :=
  if changed && !isRedirection response then
    .call (.invalidate "a credential changed") fun _ => .done response
  else .done response

def writeConfigAndSecret (location : String) (next : Option String)
    (edit : Doc → Except String Doc) (key value : String) (clear : Bool) :
    Program Rest Response :=
  (prepareConfig documents edit).bind fun
    | .error reason => .done (.rejected reason)
    | .ok pending => (applySecret key value clear).bind fun
        | .error reason => refuse reason
        | .ok changed => (commitConfig location next pending).bind
            (invalidateUnlessCommitted changed)

/-- What `save_notifications` reads of its form outside its edit. -/
structure NotificationsForm where
  webhookUrl : String
  clearWebhookUrl : Bool
  heartbeatUrl : String
  clearHeartbeatUrl : Bool
  heartbeatSecs : String
deriving DecidableEq, Repr

def notificationsWebhookUrl : String := "notifications.webhook_url"

def notificationsHeartbeatUrl : String := "notifications.heartbeat_url"

/-- The interval of a form; a blank one stays as it is. -/
def heartbeatInterval (typed : String) : Except String (Option Nat) :=
  let text := Rust.trim typed
  if text = "" then .ok none
  else match Rust.parseU64 text with
    | some secs => .ok (some secs)
    | none => .error
        "The heartbeat interval must be a whole number of seconds."

/-- `save_notifications`, for the edit it makes with an interval.  The heartbeat
URL is stored before the configuration is prepared. -/
def saveNotifications (isUrl : String → Bool) (form : NotificationsForm)
    (edit : Option Nat → Doc → Except String Doc) : Program Rest Response :=
  let webhook := Rust.trim form.webhookUrl
  let heartbeat := Rust.trim form.heartbeatUrl
  if webhook ≠ "" ∧ isUrl webhook = false then
    .done (.rejected "That does not look like a valid webhook URL.")
  else if heartbeat ≠ "" ∧ isUrl heartbeat = false then
    .done (.rejected "That does not look like a valid heartbeat push URL.")
  else match heartbeatInterval form.heartbeatSecs with
    | .error reason => .done (.rejected reason)
    | .ok secs =>
      (applySecret notificationsHeartbeatUrl heartbeat
          form.clearHeartbeatUrl).bind fun
        | .error reason => .done (.rejected reason)
        | .ok changed =>
          (writeConfigAndSecret documents "notifications" none (edit secs)
            notificationsWebhookUrl webhook form.clearWebhookUrl).bind
              (invalidateUnlessCommitted changed)

/-- The token step of `save_tracker`. -/
def saveTrackerToken (token : String) (clearToken : Bool) :
    Program Rest (Except String Unit) :=
  if clearToken then clearTrackerToken
  else if token ≠ "" then rotateTrackerToken token
  else .done (.ok ())

/-- The token is stored between the check of the config and its commit. -/
def saveTracker (next : Option String) (edit : Doc → Except String Doc)
    (token : String) (clearToken : Bool) : Program Rest Response :=
  (prepareConfig documents edit).bind fun
    | .error reason => .done (.rejected reason)
    | .ok pending =>
      let token := Rust.trim token
      match validateValue trackerToken token with
      | .error reason => refuse reason
      | .ok _ => (saveTrackerToken token clearToken).bind fun
          | .error reason => refuse reason
          | .ok _ => commitConfig "tracker" next pending

end Saves

section Imports

variable {Doc Rest : Type} (documents : Documents Doc Rest)

/-- `strip_peers_block`. -/
def stripPeersBlock : Program Rest (Except String Unit) :=
  .call .lockConfigWrite fun _ => .call .readFile fun
    | .error reason => abandon reason
    | .ok text =>
      match documents.parse text with
      | .error reason => abandon reason
      | .ok document =>
        let text := documents.print (documents.clearPeers document)
        match documents.validate text with
        | .error reason => abandon reason
        | .ok _ => .call (.writeFile false text) fun
            | .error failure => abandon failure.message
            | .ok _ => .call .unlockConfigWrite fun _ => .done (.ok ())

/-- The steps of the importer that began with this configuration.  Without the
block it is installed once the block is removed. -/
def importSteps (config : Config Rest) : ImportSteps (Call Rest) Answer where
  openStore := .call .openStore .done
  openVault := Settings.openVault
  randomHex := .call .randomHex .done
  createPeer label key scope := .call (.createPeer label key scope) .done
  setPeerLimits id maxSizeBytes maxHeight :=
    .call (.setPeerLimits id maxSizeBytes maxHeight) .done
  setPeerGossipUrl id url := .call (.setPeerGossipUrl id url) .done
  vaultPut key value :=
    .call (.vault (.mutate (.put key value))) fun answered =>
      .done ((answered.2.map fun _ => ()).mapError VaultError.display)
  recordPeerEndpoint id addr := .call (.recordPeerEndpoint id addr) .done
  stripPeersBlock := (Settings.stripPeersBlock documents).bind fun
    | .error _ => .done ()
    | .ok _ => replaceConfig config.withoutPeers

def importPeers : Program Rest Unit :=
  .call .readConfig fun config =>
    (importSteps documents config).importPeers config.peers

def importConfig (text : String) : Program Rest Response :=
  match documents.validate text with
  | .error reason => .done (.rejected reason)
  | .ok config =>
    .call .lockConfigWrite fun _ =>
      (commitConfig "config" none ⟨true, text, config⟩).bind fun response =>
        if isRedirection response then
          (importPeers documents).bind fun _ => .done response
        else .done response

end Imports

/-- What an instance can be asked to do. -/
inductive Job (Doc : Type) where
  | idle
  | writeConfig (location : String) (next : Option String)
      (edit : Doc → Except String Doc)
  | writeConfigAndSecret (location : String) (next : Option String)
      (edit : Doc → Except String Doc) (key value : String) (clear : Bool)
  | saveNotifications (isUrl : String → Bool) (form : NotificationsForm)
      (edit : Option Nat → Doc → Except String Doc)
  | saveTracker (next : Option String) (edit : Doc → Except String Doc)
      (token : String) (clearToken : Bool)
  | generateSecret (field : String)
  | finalizeTracker
  | importConfig (text : String)
  | importPeers

def Job.program {Doc Rest : Type} (documents : Documents Doc Rest) :
    Job Doc → Program Rest Response
  | .idle => .done .finished
  | .writeConfig location next edit =>
    Settings.writeConfig documents location next edit
  | .writeConfigAndSecret location next edit key value clear =>
    Settings.writeConfigAndSecret documents location next edit key value
      clear
  | .saveNotifications isUrl form edit =>
    Settings.saveNotifications documents isUrl form edit
  | .saveTracker next edit token clearToken =>
    Settings.saveTracker documents next edit token clearToken
  | .generateSecret field => Settings.generateSecret field
  | .finalizeTracker => Settings.finalizeTracker
  | .importConfig text => Settings.importConfig documents text
  | .importPeers =>
    (Settings.importPeers documents).bind fun _ => .done .finished

/-- Any number of requests to one instance, none of them begun. -/
def pool {Cipher Doc Rest : Type} (documents : Documents Doc Rest)
    (world : World Cipher Rest) (jobs : Nat → Job Doc) :
    Process.Pool Nat (World Cipher Rest) (Call Rest) Answer Response where
  world := world
  threads thread := (jobs thread).program documents

end Settings

end Sharerr
