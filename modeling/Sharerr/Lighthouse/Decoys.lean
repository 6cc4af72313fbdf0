import Sharerr.Lighthouse.Table
import Sharerr.Torrent.Metainfo

/-!
# What a lookup gives away

A key hash nobody has reported is answered with a record made up from a keyed
hash.  It is to look like a genuine one, and to stay the same from one probe to
the next.
-/

namespace Sharerr

namespace Lighthouse

/-- `Sha256::digest`. -/
abbrev Sha256 := Bytes → Fin 32 → UInt8

structure LighthouseState where
  records : Records
  decoySecret : Fin 32 → UInt8

section Lookups

variable (sha256 : Sha256)

def derive (decoySecret : Fin 32 → UInt8) (label keyHash : String) :
    Fin 32 → UInt8 :=
  sha256 (List.ofFn decoySecret ++ Vault.toUtf8 label ++ Vault.toUtf8 keyHash)

/-- An octet that none of the reserved networks begins with. -/
def octet (byte : UInt8) : Nat :=
  if byte = 0 ∨ byte = 10 ∨ byte = 127 ∨ byte = 255 then 1 else byte.toNat

def decoyAddr (bytes : Fin 32 → UInt8) : String :=
  toString (octet (bytes 0)) ++ "." ++ toString (bytes 1).toNat ++ "." ++
    toString (bytes 2).toNat ++ "." ++ toString (bytes 3).toNat ++ ":" ++
    toString (1024 + ((bytes 4).toNat * 256 + (bytes 5).toNat) %
      (65535 - 1024))

/-- How long ago a decoy says that it was signed: less than a day. -/
def decoyOffset (bytes : Fin 32 → UInt8) : Nat :=
  ((((bytes 0).toNat * 256 + (bytes 1).toNat) * 256 + (bytes 2).toNat) * 256 +
    (bytes 3).toNat) % 86400

def decoy (decoySecret : Fin 32 → UInt8) (keyHash : String) (now : Nat) :
    EndpointRecord :=
  let bytes := derive sha256 decoySecret
  let signedAt : Int := now - decoyOffset (bytes "signed_at" keyHash)
  { pubkey := Tracker.hexEncode (List.ofFn (bytes "pubkey" keyHash))
    endpoints := [⟨"tracker", decoyAddr (bytes "addr" keyHash), signedAt⟩]
    signedAt
    signature := Tracker.hexEncode (List.ofFn (bytes "sig-a" keyHash) ++
      List.ofFn (bytes "sig-b" keyHash)) }

/-- `LighthouseState::lookup`. -/
def LighthouseState.lookup (state : LighthouseState) (keyHash : String)
    (now : Nat) : EndpointRecord :=
  match state.records.map.get keyHash with
  | some stored => stored
  | none => decoy sha256 state.decoySecret keyHash now

variable {sha256} {records : Records} {decoySecret : Fin 32 → UInt8}
variable {keyHash : String} {now : Nat}

theorem lookup_of_some {stored : EndpointRecord}
    (held : records.map.get keyHash = some stored) :
    LighthouseState.lookup sha256 ⟨records, decoySecret⟩ keyHash now =
      stored := by
  rw [LighthouseState.lookup, held]

theorem lookup_of_none (absent : records.map.get keyHash = none) :
    LighthouseState.lookup sha256 ⟨records, decoySecret⟩ keyHash now =
      decoy sha256 decoySecret keyHash now := by
  rw [LighthouseState.lookup, absent]

end Lookups

variable {keyHash : String} {verify : Verify} {decoySecret : Fin 32 → UInt8}
  {sha256 : Sha256} {record : EndpointRecord}

theorem get_of_unreported {reports : List Report}
    (unreported : ∀ report ∈ reports, report.slot ≠ keyHash) :
    (Records.after verify reports).map.get keyHash = none := by
  cases found : (Records.after verify reports).map.get keyHash with
  | none => rfl
  | some record =>
    obtain ⟨report, member, slot, -⟩ :=
      ((sound_after verify reports).filed _ _ found).reported
    exact absurd slot (unreported report member)

theorem decoy_eq_iff {first second : Nat} :
    decoy sha256 decoySecret keyHash first =
      decoy sha256 decoySecret keyHash second ↔ first = second := by
  constructor
  · intro same
    have signed := congrArg EndpointRecord.signedAt same
    simp only [decoy] at signed
    omega
  · rintro rfl
    rfl

/-- Two lookups of a key hash that nobody reports are answered alike if and
only if the clock has not moved. -/
theorem decoy_stable_iff (sha256 : Sha256) (decoySecret : Fin 32 → UInt8)
    (verify : Verify) (earlier between : List Report) (keyHash : String)
    (unreported : ∀ report ∈ earlier ++ between, report.slot ≠ keyHash)
    (first second : Nat) :
    LighthouseState.lookup sha256 ⟨Records.after verify earlier, decoySecret⟩
        keyHash first =
      LighthouseState.lookup sha256
        ⟨Records.after verify (earlier ++ between), decoySecret⟩ keyHash
        second ↔
      first = second := by
  have before : (Records.after verify earlier).map.get keyHash = none :=
    get_of_unreported fun report member =>
      unreported report (List.mem_append_left between member)
  have after :
      (Records.after verify (earlier ++ between)).map.get keyHash = none :=
    get_of_unreported unreported
  rw [lookup_of_none before, lookup_of_none after]
  exact decoy_eq_iff

/-- A key hash, and another one that is reported between two probes. -/
def probed : String :=
  "9f86d081884c7d659a2feaa0c55ad015a3bf4f1b2b0b822cd15d6c15b0f00a08"

def reportedBetween : Report :=
  ⟨"60303ae22b998861bce3b28f33eec1be758a213c86c93c076dbe9f558c11c752",
    ⟨"3b6a27bcceb6a42d62a3a8d02a6f0d73653215771de243a63ac048a18b59da29", [],
      1700000000, ""⟩, 1700000000⟩

theorem decoy_same_second :
    LighthouseState.lookup (fun _ _ => 0)
        ⟨Records.after (fun _ => .ok ()) [], fun _ => 7⟩ probed 1700000000 =
      LighthouseState.lookup (fun _ _ => 0)
        ⟨Records.after (fun _ => .ok ()) ([] ++ [reportedBetween]),
          fun _ => 7⟩ probed 1700000000 :=
  (decoy_stable_iff (fun _ _ => 0) (fun _ => 7) (fun _ => .ok ()) []
    [reportedBetween] probed (by decide +kernel) 1700000000 1700000000).mpr rfl

/-- A minute later the decoy is another one, whatever the hash is. -/
theorem decoy_moves : ¬ ∃ sha256 : Sha256,
    LighthouseState.lookup sha256 ⟨Records.new, fun _ => 7⟩ probed
        1700000000 =
      LighthouseState.lookup sha256 ⟨Records.new, fun _ => 7⟩ probed
        1700000060 := by
  rintro ⟨sha256, same⟩
  rw [lookup_of_none rfl, lookup_of_none rfl, decoy_eq_iff] at same
  cases same

/-- A gossip identity: its public key, and what it signs records with. -/
structure Identity where
  pubkeyHex : String
  sign : String → List RecordEndpoint → Int → Except String String

def Identity.signRecord (identity : Identity)
    (endpoints : List RecordEndpoint) (signedAt : Int) :
    Except String EndpointRecord :=
  match identity.sign identity.pubkeyHex endpoints signedAt with
  | .error reason => .error ("serialising the record: " ++ reason)
  | .ok signature =>
    .ok ⟨identity.pubkeyHex, endpoints, signedAt, signature⟩

/-- The endpoints of a self-record: the advertised base twice, as tracker and
as API, and the torrent client's where it is known. -/
def selfEndpoints (endpoint clientEndpoint : Option String) (now : Nat) :
    List RecordEndpoint :=
  (match endpoint with
    | none => []
    | some base => [⟨"tracker", baseString base, now⟩,
        ⟨"api", baseString base, now⟩]) ++
    match clientEndpoint with
    | none => []
    | some base => [⟨"client", baseString base, now⟩]

/-- `self_record`; `None` without an identity. -/
def selfRecord (identity : Option Identity)
    (endpoint clientEndpoint : Option String) (now : Nat) :
    Option EndpointRecord :=
  identity.bind fun identity =>
    (identity.signRecord (selfEndpoints endpoint clientEndpoint now)
      now).toOption

/-- A record that some instance made of itself. -/
def Genuine (record : EndpointRecord) : Prop :=
  ∃ identity endpoint clientEndpoint now,
    selfRecord identity endpoint clientEndpoint now = some record

theorem kinds_of_genuine (genuine : Genuine record) :
    record.endpoints.map (·.kind) ≠ ["tracker"] := by
  obtain ⟨identity, endpoint, clientEndpoint, now, made⟩ := genuine
  cases identity with
  | none => cases made
  | some identity =>
    simp only [selfRecord, Option.bind_some, Identity.signRecord] at made
    split at made
    · cases made
    · cases made
      cases endpoint <;> cases clientEndpoint <;>
        simp [selfEndpoints]

/-- What a prober can read off an answer on its own: whether it verifies, how
many endpoints it has, of which kinds, whether their addresses are URLs, and
how long before the signing each was observed. -/
structure Reading where
  verifies : Bool
  endpoints : Nat
  kinds : List String
  areUrls : List Bool
  ages : List Int
deriving DecidableEq, Repr

def read (verify : Verify) (record : EndpointRecord) : Reading where
  verifies := (verify record).toBool
  endpoints := record.endpoints.length
  kinds := record.endpoints.map (·.kind)
  areUrls := record.endpoints.map fun endpoint =>
    endpoint.addr.toList.any (· = '/')
  ages := record.endpoints.map fun endpoint =>
    record.signedAt - endpoint.observedAt

/-- No test of a prober can come out for the reported key hash as it cannot
come out for the unreported one. -/
def Undetectable (sha256 : Sha256) (verify : Verify) (state : LighthouseState)
    (reported unreported : String) (now : Nat) : Prop :=
  ∀ test : Reading → Bool, ∃ decoySecret now',
    test (read verify (LighthouseState.lookup sha256
        ⟨state.records, decoySecret⟩ unreported now')) =
      test (read verify (state.lookup sha256 reported now))

theorem detectable_of_kinds {records : Records} {reported unreported : String}
    {now : Nat} (held : records.map.get reported = some record)
    (absent : records.map.get unreported = none)
    (kinds : record.endpoints.map (·.kind) ≠ ["tracker"]) :
    ¬ Undetectable sha256 verify ⟨records, decoySecret⟩ reported unreported
        now := by
  intro undetectable
  obtain ⟨decoySecret, now', same⟩ :=
    undetectable fun reading => reading.kinds = ["tracker"]
  rw [lookup_of_none absent, lookup_of_some held] at same
  simp only [read, decoy, List.map, kinds, decide_true, decide_false] at same
  cases same

/-- A lighthouse that instances have reported themselves to tells every key
hash of theirs from one that was never reported. -/
theorem reported_told_apart (sha256 : Sha256) (verify : Verify)
    (decoySecret : Fin 32 → UInt8) (reports : List Report)
    (genuine : ∀ report ∈ reports, Genuine report.record)
    (reported unreported : String)
    (held : (Records.after verify reports).map.get reported ≠ none)
    (absent : (Records.after verify reports).map.get unreported = none)
    (now : Nat) :
    ¬ Undetectable sha256 verify ⟨Records.after verify reports, decoySecret⟩
        reported unreported now := by
  obtain ⟨record, found⟩ := Option.ne_none_iff_exists'.mp held
  obtain ⟨report, member, -, same, -⟩ :=
    ((sound_after verify reports).filed _ _ found).reported
  have own := genuine report member
  rw [same] at own
  exact detectable_of_kinds found absent (kinds_of_genuine own)

/-- An instance that knows its own address and nothing of its client's. -/
def sam : Identity :=
  ⟨"3b6a27bcceb6a42d62a3a8d02a6f0d73653215771de243a63ac048a18b59da29",
    fun _ _ _ => .ok "00"⟩

def samRecord : EndpointRecord :=
  ⟨sam.pubkeyHex,
    [⟨"tracker", "http://203.0.113.7:41234", 1700000000⟩,
      ⟨"api", "http://203.0.113.7:41234", 1700000000⟩], 1700000000, "00"⟩

def samReport : Report := ⟨reportedBetween.keyHash, samRecord, 1700000000⟩

theorem genuine_samRecord : Genuine samRecord :=
  ⟨some sam, some "http://203.0.113.7:41234/", none, 1700000000,
    by decide +kernel⟩

theorem sam_told_apart : ¬ ∃ sha256 : Sha256,
    Undetectable sha256 (fun _ => .ok ())
      ⟨Records.after (fun _ => .ok ()) [samReport], fun _ => 7⟩
      samReport.keyHash probed 1700000060 := by
  rintro ⟨sha256, undetectable⟩
  refine reported_told_apart sha256 (fun _ => .ok ()) (fun _ => 7) [samReport]
    ?_ samReport.keyHash probed (by decide +kernel) (by decide +kernel)
    1700000060 undetectable
  intro report member
  rw [List.mem_singleton.mp member]
  exact genuine_samRecord

theorem sam_has_two_endpoints : ¬ ∃ sha256 : Sha256,
    Undetectable sha256 (fun _ => .ok ())
      ⟨Records.after (fun _ => .ok ()) [samReport], fun _ => 7⟩
      samReport.keyHash probed 1700000000 := by
  rintro ⟨sha256, undetectable⟩
  obtain ⟨decoySecret, now', same⟩ :=
    undetectable fun reading => reading.endpoints = 2
  have held : (Records.after (fun _ => .ok ()) [samReport]).map.get
      samReport.keyHash = some samRecord := by decide +kernel
  have absent : (Records.after (fun _ => .ok ()) [samReport]).map.get
      probed = none := by decide +kernel
  rw [lookup_of_none absent, lookup_of_some held] at same
  have one : (read (fun _ => .ok ())
      (decoy sha256 decoySecret probed now')).endpoints = 1 := rfl
  have two : (read (fun _ => .ok ()) samRecord).endpoints = 2 := rfl
  rw [one, two] at same
  exact absurd same (by decide)

end Lighthouse

end Sharerr
