import Sharerr.Lighthouse.State
import Sharerr.Rust.Text

/-!
# What the table of a lighthouse keeps

It never outgrows its bound, holds verified records under key hashes only, and
gives up a record, or the key that a slot is pinned to, only once the record
has expired.
-/

namespace Sharerr

namespace Lighthouse

/-- 64 lowercase hex digits. -/
structure IsKeyHash (text : String) : Prop where
  length : text.length = 64
  digits : ∀ character ∈ text.toList,
    '0' ≤ character ∧ character ≤ '9' ∨ 'a' ≤ character ∧ character ≤ 'f'

variable {character : Char}

theorem isAsciiHexdigit_iff :
    Friends.isAsciiHexdigit character = true ↔
      '0' ≤ character ∧ character ≤ '9' ∨ 'a' ≤ character ∧ character ≤ 'f' ∨
        'A' ≤ character ∧ character ≤ 'F' := by
  simp [Friends.isAsciiHexdigit, or_assoc]

theorem ascii_of_isAsciiHexdigit
    (digit : Friends.isAsciiHexdigit character = true) :
    character.toNat < 128 := by
  rcases isAsciiHexdigit_iff.mp digit with ⟨-, le⟩ | ⟨-, le⟩ | ⟨-, le⟩
  · exact Nat.lt_of_le_of_lt (show character.toNat ≤ '9'.toNat from le)
      (by decide)
  · exact Nat.lt_of_le_of_lt (show character.toNat ≤ 'f'.toNat from le)
      (by decide)
  · exact Nat.lt_of_le_of_lt (show character.toNat ≤ 'F'.toNat from le)
      (by decide)

theorem not_upper_of_lowercase {text : String}
    (member : character ∈ (Rust.toAsciiLowercase text).toList) :
    ¬ ('A' ≤ character ∧ character ≤ 'Z') := by
  rw [Rust.toAsciiLowercase, String.toList_ofList, List.mem_map] at member
  obtain ⟨before, -, rfl⟩ := member
  split
  · rename_i upper
    intro again
    have atLeast : 65 ≤ before.toNat := upper.1
    have atMost : before.toNat ≤ 90 := upper.2
    have lowered : (Char.ofNat (before.toNat + 32)).toNat ≤ 90 := again.2
    rw [Rust.toNat_ofNat (by omega)] at lowered
    omega
  · rename_i lower
    exact lower

theorem isKeyHash_of_slot {report : Report}
    (isHash : Friends.isHex32Bytes report.slot = true) :
    IsKeyHash report.slot := by
  simp only [Friends.isHex32Bytes, Bool.and_eq_true, decide_eq_true_eq]
    at isHash
  obtain ⟨size, digits⟩ := isHash
  constructor
  · rw [← String.length_toList, ← Rust.utf8ByteSize_of_ascii fun _ member =>
      ascii_of_isAsciiHexdigit (List.all_eq_true.mp digits _ member),
      String.ofList_toList, size]
  · intro character member
    rcases isAsciiHexdigit_iff.mp (List.all_eq_true.mp digits _ member) with
      digit | lower | ⟨le, ge⟩
    · exact .inl digit
    · exact .inr lower
    · exact absurd ⟨le, le_trans ge (by decide)⟩ (not_upper_of_lowercase member)

/-- A record stands in the table since a report that filed it. -/
structure Filed (verify : Verify) (reports : List Report) (keyHash : String)
    (record : EndpointRecord) : Prop where
  isKeyHash : IsKeyHash keyHash
  verified : verify record = .ok ()
  reported : ∃ report ∈ reports, report.slot = keyHash ∧
    report.record = record ∧
      record.signedAt ≤ report.now + maxFutureSkewSecs

structure Sound (verify : Verify) (reports : List Report)
    (records : Records) : Prop where
  bounded : records.map.len ≤ maxRecords
  filed : ∀ keyHash record, records.map.get keyHash = some record →
    Filed verify reports keyHash record

section Steps

variable {verify : Verify} {reports : List Report} {records : Records}
variable {report : Report} {keyHash : String} {record : EndpointRecord}

theorem Filed.later (filed : Filed verify reports keyHash record)
    (last : Report) : Filed verify (reports ++ [last]) keyHash record := by
  obtain ⟨report, member, rest⟩ := filed.reported
  exact ⟨filed.isKeyHash, filed.verified, report,
    List.mem_append_left _ member, rest⟩

theorem filed_of_admissible (admissible : Admissible verify report) :
    Filed verify (reports ++ [report]) report.slot report.record := by
  refine ⟨isKeyHash_of_slot admissible.isHash, admissible.verified, report,
    List.mem_append_right _ (List.mem_singleton.mpr rfl), rfl, rfl, ?_⟩
  have notFuture := admissible.notFuture
  simp only [Rust.saturatingAdd, Rust.i64Min, maxFutureSkewSecs] at *
  omega

variable {now : Nat}

theorem get_sweep : (records.sweep now).map.get keyHash =
    (records.map.get keyHash).filter fun record =>
      !Records.expired now record :=
  Rust.HashMap.get_retain

theorem get_insert :
    (records.insert report.slot report.record).map.get keyHash =
    if keyHash = report.slot then some report.record
    else records.map.get keyHash :=
  Rust.HashMap.get_insert

/-- What a sweep leaves was there before. -/
theorem get_of_get_sweep
    (found : (records.sweep now).map.get keyHash = some record) :
    records.map.get keyHash = some record ∧
      Records.expired now record = false := by
  rw [get_sweep, Option.filter_eq_some_iff] at found
  exact ⟨found.1, by simpa using found.2⟩

theorem Sound.later (sound : Sound verify reports records) (last : Report) :
    Sound verify (reports ++ [last]) records :=
  ⟨sound.bounded, fun _ _ found => (sound.filed _ _ found).later last⟩

theorem Sound.swept (sound : Sound verify reports records) (now : Nat) :
    Sound verify reports (records.sweep now) :=
  ⟨le_trans Rust.HashMap.len_retain_le sound.bounded,
    fun _ _ found => sound.filed _ _ (get_of_get_sweep found).1⟩

theorem Sound.inserted (sound : Sound verify reports records)
    (admissible : Admissible verify report)
    (bounded : (records.insert report.slot report.record).map.len ≤
      maxRecords) :
    Sound verify (reports ++ [report])
      (records.insert report.slot report.record) := by
  refine ⟨bounded, fun keyHash record found => ?_⟩
  rw [get_insert] at found
  split at found
  · rename_i same
    cases found
    rw [same]
    exact filed_of_admissible admissible
  · exact (sound.filed _ _ found).later report

theorem sound_report (sound : Sound verify reports records)
    (report : Report) :
    Sound verify (reports ++ [report]) (records.report verify report).2 := by
  have went := reported verify records report
  generalize records.report verify report = answered at went ⊢
  cases went with
  | refused | pinned | stale | full => exact sound.later report
  | renewed admissible held =>
    apply sound.inserted admissible
    rw [Records.insert, Rust.HashMap.len_insert_of_some held]
    exact sound.bounded
  | sweptFull => exact (sound.swept report.now).later report
  | added admissible absent room =>
    apply sound.inserted admissible
    rw [Records.insert, Rust.HashMap.len_insert_of_none absent]
    exact room
  | sweptAdded admissible absent _ _ room =>
    apply (sound.swept report.now).inserted admissible
    have gone : (records.sweep report.now).map.get report.slot = none := by
      rw [get_sweep, absent]
      rfl
    rw [Records.insert, Rust.HashMap.len_insert_of_none gone]
    exact room

theorem sound_after (verify : Verify) (reports : List Report) :
    Sound verify reports (Records.after verify reports) := by
  induction reports using List.reverseRecOn with
  | nil => exact ⟨Nat.zero_le _, fun _ _ found => nomatch found⟩
  | append_singleton reports report ih =>
    rw [Records.after_append]
    exact sound_report ih report

/-- The slot has gone, or passed to another key. -/
def Displaced (later : Records) (keyHash : String)
    (record : EndpointRecord) : Prop :=
  later.map.get keyHash = none ∨ ∃ other, later.map.get keyHash = some other ∧
    Rust.eqIgnoreAsciiCase record.pubkey other.pubkey = false

theorem not_displaced_of_same
    (same : records.map.get keyHash = some record) :
    ¬ Displaced records keyHash record := by
  rintro (gone | ⟨other, found, different⟩)
  · rw [same] at gone
    cases gone
  · rw [same] at found
    cases found
    simp [Rust.eqIgnoreAsciiCase] at different

theorem ttl_of_expired (lapsed : Records.expired now record = true) :
    recordTtlSecs ≤ now - record.signedAt := by
  have late := of_decide_eq_true lapsed
  simp only [Rust.saturatingSub, recordTtlSecs, Rust.i64Min, Rust.i64Max] at *
  omega

theorem expired_of_swept (held : records.map.get keyHash = some record)
    (displaced : Displaced (records.sweep now) keyHash record) :
    Records.expired now record = true := by
  cases lapsed : Records.expired now record with
  | true => rfl
  | false =>
    refine absurd displaced (not_displaced_of_same ?_)
    rw [get_sweep, held]
    simp [lapsed]

theorem Displaced.of_insert (other : keyHash ≠ report.slot)
    (displaced : Displaced (records.insert report.slot report.record) keyHash
      record) : Displaced records keyHash record := by
  simpa only [Displaced, get_insert, if_neg other] using displaced

/-- Whatever a report takes away had expired. -/
theorem expired_of_displaced
    (held : records.map.get keyHash = some record)
    (displaced : Displaced (records.report verify report).2 keyHash record) :
    Records.expired report.now record = true := by
  have kept := not_displaced_of_same held
  have went := reported verify records report
  generalize records.report verify report = answered at went displaced
  revert displaced
  cases went with
  | refused | pinned | stale | full =>
    exact fun displaced => absurd displaced kept
  | renewed _ present mayReplace =>
    intro displaced
    by_cases own : keyHash = report.slot
    · subst own
      rw [present] at held
      cases held
      rcases mayReplace with lapsed | same
      · exact lapsed
      · rcases displaced with gone | ⟨other, found, different⟩
        · simp [get_insert] at gone
        · rw [get_insert, if_pos rfl] at found
          cases found
          rw [same] at different
          cases different
    · exact absurd (displaced.of_insert own) kept
  | sweptFull => exact fun displaced => expired_of_swept held displaced
  | added _ absent =>
    intro displaced
    refine absurd (displaced.of_insert ?_) kept
    rintro rfl
    rw [held] at absent
    cases absent
  | sweptAdded _ absent =>
    intro displaced
    refine expired_of_swept held (displaced.of_insert ?_)
    rintro rfl
    rw [held] at absent
    cases absent

theorem map_of_refused
    (refused : (records.report verify report).1 = .ok .stale ∨
      ∃ reason, reason ≠ .full ∧
        (records.report verify report).1 = .error reason) :
    (records.report verify report).2.map = records.map := by
  have went := reported verify records report
  generalize records.report verify report = answered at went refused ⊢
  revert refused
  cases went with
  | refused | pinned | stale | full => exact fun _ => rfl
  | renewed | added | sweptAdded =>
    rintro (accepted | ⟨reason, -, accepted⟩)
    · cases accepted
    · cases accepted
  | sweptFull =>
    rintro (full | ⟨reason, notFull, full⟩)
    · cases full
    · cases full
      exact absurd rfl notFull

/-- The table in every reachable state, and every report that may come
next. -/
theorem table_kept (verify : Verify) (reports : List Report)
    (report : Report) :
    let records := Records.after verify reports
    let answered := records.report verify report
    Sound verify reports records ∧
      (∀ keyHash record, records.map.get keyHash = some record →
        Displaced answered.2 keyHash record →
          recordTtlSecs ≤ report.now - record.signedAt) ∧
        (answered.1 = .ok .stale ∨
            (∃ reason, reason ≠ .full ∧ answered.1 = .error reason) →
          answered.2.map = records.map) :=
  ⟨sound_after verify reports,
    fun _ _ held displaced =>
      ttl_of_expired (expired_of_displaced held displaced),
    map_of_refused⟩

end Steps

end Lighthouse

end Sharerr
