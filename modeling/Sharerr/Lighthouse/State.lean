import Sharerr.Friends.Handlers
import Sharerr.Rust.HashMap
import Sharerr.Tracker.Download

/-!
# The lighthouse

A map of key hash to latest record.  A report files a signed record under the
hash of a key; whoever holds the key looks it up under the same hash, and a
hash nobody has reported is answered with a fabricated record.
-/

namespace Sharerr

namespace Lighthouse

inductive ReportOutcome where
  | accepted
  | stale
deriving DecidableEq, Repr

inductive ReportError where
  | badKeyHash
  | invalidRecord
  | futureTimestamp
  | full
  | pubkeyMismatch
deriving DecidableEq, Repr

def maxFutureSkewSecs : Int := 5 * 60

def recordTtlSecs : Int := 30 * 24 * 60 * 60

def maxRecords : Nat := 10000

def sweepIntervalSecs : Int := 60

/-- The check of a record's signature against the key it names. -/
abbrev Verify := EndpointRecord → Except String Unit

structure Records where
  map : Rust.HashMap String EndpointRecord
  lastSweepAt : Int

/-- One call of `LighthouseState::report`, with the reading of the clock that
it takes. -/
structure Report where
  keyHash : String
  record : EndpointRecord
  now : Nat
deriving DecidableEq, Repr

/-- The key hash that a report is filed under. -/
def Report.slot (report : Report) : String :=
  Rust.toAsciiLowercase report.keyHash

namespace Records

def new : Records := ⟨.empty, 0⟩

def expired (now : Nat) (record : EndpointRecord) : Bool :=
  recordTtlSecs ≤ Rust.saturatingSub now record.signedAt

/-- The sweep of a full table. -/
def sweep (records : Records) (now : Nat) : Records :=
  ⟨records.map.retain fun entry => !expired now entry.2, now⟩

def insert (records : Records) (keyHash : String) (record : EndpointRecord) :
    Records :=
  { records with map := records.map.insert keyHash record }

/-- What is left of `report` once the table is locked. -/
def file (records : Records) (keyHash : String) (record : EndpointRecord)
    (now : Nat) : Except ReportError ReportOutcome × Records :=
  match records.map.get keyHash with
  | some existing =>
    if !expired now existing &&
        !Rust.eqIgnoreAsciiCase existing.pubkey record.pubkey then
      (.error .pubkeyMismatch, records)
    else if record.signedAt ≤ existing.signedAt then (.ok .stale, records)
    else (.ok .accepted, records.insert keyHash record)
  | none =>
    if maxRecords ≤ records.map.len then
      if Rust.saturatingSub now records.lastSweepAt < sweepIntervalSecs then
        (.error .full, records)
      else
        let swept := records.sweep now
        if maxRecords ≤ swept.map.len then (.error .full, swept)
        else (.ok .accepted, swept.insert keyHash record)
    else (.ok .accepted, records.insert keyHash record)

/-- A record is verified before its date is looked at. -/
def report (verify : Verify) (records : Records) (report : Report) :
    Except ReportError ReportOutcome × Records :=
  if !Friends.isHex32Bytes report.slot then (.error .badKeyHash, records)
  else
    match verify report.record with
    | .error _ => (.error .invalidRecord, records)
    | .ok _ =>
      if Rust.saturatingAdd report.now maxFutureSkewSecs <
          report.record.signedAt then
        (.error .futureTimestamp, records)
      else records.file report.slot report.record report.now

/-- The table after a run of reports. -/
def after (verify : Verify) (reports : List Report) : Records :=
  reports.foldl (fun records each => (records.report verify each).2) new

theorem after_append (verify : Verify) (reports : List Report)
    (last : Report) : after verify (reports ++ [last]) =
      ((after verify reports).report verify last).2 := by
  simp [after]

end Records

/-- A report that gets as far as the table. -/
structure Admissible (verify : Verify) (report : Report) : Prop where
  isHash : Friends.isHex32Bytes report.slot = true
  verified : verify report.record = .ok ()
  notFuture : report.record.signedAt ≤
    Rust.saturatingAdd report.now maxFutureSkewSecs

/-- Every way a report can go. -/
inductive Reported (verify : Verify) (records : Records) (report : Report) :
    Except ReportError ReportOutcome × Records → Prop where
  | refused {reason : ReportError} (notFull : reason ≠ .full)
      (inadmissible : ¬ Admissible verify report) :
      Reported verify records report (.error reason, records)
  | pinned {existing : EndpointRecord}
      (held : records.map.get report.slot = some existing)
      (valid : Records.expired report.now existing = false)
      (other : Rust.eqIgnoreAsciiCase existing.pubkey
        report.record.pubkey = false) :
      Reported verify records report (.error .pubkeyMismatch, records)
  | stale {existing : EndpointRecord}
      (held : records.map.get report.slot = some existing)
      (older : report.record.signedAt ≤ existing.signedAt) :
      Reported verify records report (.ok .stale, records)
  | renewed {existing : EndpointRecord} (admissible : Admissible verify report)
      (held : records.map.get report.slot = some existing)
      (mayReplace : Records.expired report.now existing = true ∨
        Rust.eqIgnoreAsciiCase existing.pubkey report.record.pubkey = true)
      (newer : existing.signedAt < report.record.signedAt) :
      Reported verify records report
        (.ok .accepted, records.insert report.slot report.record)
  | full (absent : records.map.get report.slot = none)
      (wasFull : maxRecords ≤ records.map.len)
      (throttled : Rust.saturatingSub report.now records.lastSweepAt <
        sweepIntervalSecs) :
      Reported verify records report (.error .full, records)
  | sweptFull (absent : records.map.get report.slot = none)
      (wasFull : maxRecords ≤ records.map.len)
      (still : maxRecords ≤ (records.sweep report.now).map.len) :
      Reported verify records report
        (.error .full, records.sweep report.now)
  | added (admissible : Admissible verify report)
      (absent : records.map.get report.slot = none)
      (room : records.map.len < maxRecords) :
      Reported verify records report
        (.ok .accepted, records.insert report.slot report.record)
  | sweptAdded (admissible : Admissible verify report)
      (absent : records.map.get report.slot = none)
      (wasFull : maxRecords ≤ records.map.len)
      (due : sweepIntervalSecs ≤
        Rust.saturatingSub report.now records.lastSweepAt)
      (room : (records.sweep report.now).map.len < maxRecords) :
      Reported verify records report (.ok .accepted,
        (records.sweep report.now).insert report.slot report.record)

theorem reported_of_file {verify : Verify} {records : Records}
    {report : Report} (admissible : Admissible verify report) :
    Reported verify records report
      (records.file report.slot report.record report.now) := by
  unfold Records.file
  cases held : records.map.get report.slot with
  | some existing =>
    dsimp only
    split
    · rename_i refuses
      simp only [Bool.and_eq_true, Bool.not_eq_true'] at refuses
      exact .pinned held refuses.1 refuses.2
    · rename_i mayReplace
      split
      · rename_i older
        exact .stale held older
      · rename_i newer
        refine .renewed admissible held ?_ (not_le.mp newer)
        cases lapsed : Records.expired report.now existing with
        | true => exact .inl rfl
        | false => exact .inr (by simpa [lapsed] using mayReplace)
  | none =>
    dsimp only
    split
    · rename_i wasFull
      split
      · rename_i throttled
        exact .full held wasFull throttled
      · rename_i due
        split
        · rename_i still
          exact .sweptFull held wasFull still
        · rename_i room
          exact .sweptAdded admissible held wasFull (not_lt.mp due)
            (not_le.mp room)
    · rename_i room
      exact .added admissible held (not_le.mp room)

theorem reported (verify : Verify) (records : Records) (report : Report) :
    Reported verify records report (records.report verify report) := by
  unfold Records.report
  split
  · rename_i bad
    refine .refused nofun fun admissible => ?_
    rw [admissible.isHash] at bad
    cases bad
  · rename_i isHash
    cases verified : verify report.record with
    | error reason =>
      refine .refused nofun fun admissible => ?_
      rw [admissible.verified] at verified
      cases verified
    | ok =>
      dsimp only
      split
      · rename_i future
        exact .refused nofun fun admissible =>
          absurd admissible.notFuture (not_le.mpr future)
      · rename_i notFuture
        exact reported_of_file
          ⟨by simpa using isHash, verified, not_lt.mp notFuture⟩

/-- An admissible report is decided by the table. -/
theorem report_of_admissible {verify : Verify} {records : Records}
    {report : Report} (admissible : Admissible verify report) :
    records.report verify report =
      records.file report.slot report.record report.now := by
  rw [Records.report, admissible.isHash, admissible.verified]
  simp [not_lt.mpr admissible.notFuture]

end Lighthouse

end Sharerr
