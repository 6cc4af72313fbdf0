import Sharerr.Lighthouse.Table
import Mathlib.Data.List.Induction

/-!
# Whether a record ever goes back

Under one key hash every accepted record is newer than the one before, as long
as that one is still in the table.  A sweep of the full table forgets how new
the records it removed were.
-/

namespace Sharerr

namespace Lighthouse

/-- The table with its past: the reports it accepted, in their order, and what
its sweeps removed. -/
structure History where
  records : Records
  accepted : List Report
  swept : List (String × EndpointRecord)

namespace History

def new : History := ⟨Records.new, [], []⟩

def step (verify : Verify) (history : History) (report : Report) : History :=
  let answered := history.records.report verify report
  { records := answered.2
    accepted := history.accepted ++
      if answered.1 = .ok .accepted then [report] else []
    swept := history.swept ++ history.records.map.entries.filter fun entry =>
      (answered.2.map.get entry.1).isNone }

def after (verify : Verify) (reports : List Report) : History :=
  reports.foldl (step verify) new

theorem after_append (verify : Verify) (reports : List Report)
    (last : Report) :
    after verify (reports ++ [last]) =
      (after verify reports).step verify last := by
  simp [after]

theorem records_after (verify : Verify) (reports : List Report) :
    (after verify reports).records = Records.after verify reports := by
  induction reports using List.reverseRecOn with
  | nil => rfl
  | append_singleton reports last ih =>
    rw [after_append, Records.after_append, ← ih]
    rfl

/-- The `signed_at` values accepted under a key hash. -/
def signedAts (history : History) (keyHash : String) : List Int :=
  (history.accepted.filter fun report => report.slot = keyHash).map
    (·.record.signedAt)

/-- Every record accepted under a key hash is newer than those before. -/
def Advancing (history : History) : Prop :=
  ∀ keyHash, (history.signedAts keyHash).Pairwise (· < ·)

end History

/-- There is room for another key hash, if need be after a sweep. -/
def Records.HasRoom (records : Records) (now : Nat) : Prop :=
  records.map.len < maxRecords ∨
    sweepIntervalSecs ≤ Rust.saturatingSub now records.lastSweepAt ∧
      (records.sweep now).map.len < maxRecords

/-- A record that is taken in where a sweep has removed one is newer than
that. -/
def Renews (verify : Verify) (history : History) (report : Report) : Prop :=
  Admissible verify report → history.records.HasRoom report.now →
    history.records.map.get report.slot = none →
      ∀ removed, (report.slot, removed) ∈ history.swept →
        removed.signedAt < report.record.signedAt

/-- The last record accepted under a key hash stands in the table, or a sweep
has removed it. -/
structure Recorded (history : History) (keyHash : String) : Prop where
  standing : ∀ record, history.records.map.get keyHash = some record →
    (history.signedAts keyHash).getLast? = some record.signedAt
  removed : ∀ record, (keyHash, record) ∈ history.swept →
    record.signedAt ∈ history.signedAts keyHash
  gone : history.records.map.get keyHash = none →
    ∀ last, (history.signedAts keyHash).getLast? = some last →
      ∃ record, (keyHash, record) ∈ history.swept ∧ record.signedAt = last

section Steps

variable {verify : Verify} {history : History} {report : Report}
variable {keyHash : String} {record : EndpointRecord}

theorem signedAts_step : (history.step verify report).signedAts keyHash =
    history.signedAts keyHash ++
      if (history.records.report verify report).1 = .ok .accepted ∧
        report.slot = keyHash then [report.record.signedAt] else [] := by
  simp only [History.signedAts, History.step, List.filter_append,
    List.map_append]
  congr 1
  by_cases accepted :
      (history.records.report verify report).1 = .ok .accepted
  · by_cases own : report.slot = keyHash
    · simp [accepted, own]
    · simp [accepted, own]
  · simp [accepted]

theorem mem_swept_step : (keyHash, record) ∈
    (history.step verify report).swept ↔ (keyHash, record) ∈ history.swept ∨
      history.records.map.get keyHash = some record ∧
        (history.step verify report).records.map.get keyHash = none := by
  simp only [History.step, List.mem_append, List.mem_filter,
    Option.isNone_iff_eq_none, Rust.HashMap.mem_entries_iff]

variable {records : Records}

theorem get_of_accepted
    (accepted : (records.report verify report).1 = .ok .accepted) :
    (records.report verify report).2.map.get report.slot =
      some report.record := by
  have went := reported verify records report
  generalize records.report verify report = answered at went accepted ⊢
  cases went with
  | refused | pinned | stale | full | sweptFull => cases accepted
  | renewed | added | sweptAdded => rw [get_insert, if_pos rfl]

theorem get_of_report
    (kept : (records.report verify report).1 ≠ .ok .accepted ∨
      keyHash ≠ report.slot)
    (found : (records.report verify report).2.map.get keyHash = some record) :
    records.map.get keyHash = some record := by
  have went := reported verify records report
  generalize records.report verify report = answered at went kept found
  cases went with
  | refused | pinned | stale | full => exact found
  | sweptFull => exact (get_of_get_sweep found).1
  | renewed | added =>
    rcases kept with notAccepted | other
    · exact absurd rfl notAccepted
    · rwa [get_insert, if_neg other] at found
  | sweptAdded =>
    rcases kept with notAccepted | other
    · exact absurd rfl notAccepted
    · rw [get_insert, if_neg other] at found
      exact (get_of_get_sweep found).1

theorem Recorded.kept (recorded : Recorded history keyHash)
    (kept : (history.records.report verify report).1 ≠ .ok .accepted ∨
      keyHash ≠ report.slot) :
    Recorded (history.step verify report) keyHash := by
  have same : (history.step verify report).signedAts keyHash =
      history.signedAts keyHash := by
    rw [signedAts_step, if_neg, List.append_nil]
    rintro ⟨accepted, own⟩
    exact kept.elim (fun notAccepted => notAccepted accepted)
      fun other => other own.symm
  constructor
  · intro record found
    rw [same]
    exact recorded.standing record (get_of_report kept found)
  · intro record member
    rw [same]
    rcases mem_swept_step.mp member with old | ⟨held, -⟩
    · exact recorded.removed record old
    · exact List.mem_of_getLast? (recorded.standing record held)
  · intro absent last ends
    rw [same] at ends
    cases before : history.records.map.get keyHash with
    | none =>
      obtain ⟨record, member, signed⟩ := recorded.gone before last ends
      exact ⟨record, mem_swept_step.mpr (.inl member), signed⟩
    | some record =>
      -- this very report has swept it
      refine ⟨record, mem_swept_step.mpr (.inr ⟨before, absent⟩), ?_⟩
      have stood := recorded.standing record before
      rw [stood] at ends
      exact Option.some.inj ends

theorem Recorded.accepted (recorded : Recorded history report.slot)
    (accepted : (history.records.report verify report).1 = .ok .accepted) :
    Recorded (history.step verify report) report.slot := by
  have grown : (history.step verify report).signedAts report.slot =
      history.signedAts report.slot ++ [report.record.signedAt] := by
    rw [signedAts_step, if_pos ⟨accepted, rfl⟩]
  have stands := get_of_accepted accepted
  constructor
  · intro record found
    rw [grown, List.getLast?_concat]
    cases stands.symm.trans found
    rfl
  · intro record member
    rw [grown]
    rcases mem_swept_step.mp member with old | ⟨-, absent⟩
    · exact List.mem_append_left _ (recorded.removed record old)
    · cases stands.symm.trans absent
  · intro absent
    cases stands.symm.trans absent

theorem recorded_after (verify : Verify) (reports : List Report)
    (keyHash : String) :
    Recorded (History.after verify reports) keyHash := by
  induction reports using List.reverseRecOn with
  | nil =>
    exact ⟨fun _ found => (nomatch found), fun _ member => (nomatch member),
      fun _ _ ends => (nomatch ends)⟩
  | append_singleton reports report ih =>
    rw [History.after_append]
    by_cases accepted : ((History.after verify reports).records.report verify
        report).1 = .ok .accepted
    · by_cases own : keyHash = report.slot
      · subst own
        exact ih.accepted accepted
      · exact ih.kept (.inr own)
    · exact ih.kept (.inl accepted)

/-- The report is newer than everything accepted under its key hash. -/
def Newest (history : History) (report : Report) : Prop :=
  ∀ signedAt ∈ history.signedAts report.slot,
    signedAt < report.record.signedAt

theorem advancing_step : (history.step verify report).Advancing ↔
    history.Advancing ∧
      ((history.records.report verify report).1 = .ok .accepted →
        Newest history report) := by
  constructor
  · intro advancing
    refine ⟨fun keyHash => ?_, fun accepted => ?_⟩
    · have whole := advancing keyHash
      rw [signedAts_step, List.pairwise_append] at whole
      exact whole.1
    · have whole := advancing report.slot
      rw [signedAts_step, if_pos ⟨accepted, rfl⟩, List.pairwise_append] at whole
      exact fun signedAt member =>
        whole.2.2 signedAt member _ (List.mem_singleton.mpr rfl)
  · rintro ⟨advancing, newest⟩ keyHash
    rw [signedAts_step]
    split
    · rename_i taken
      obtain ⟨accepted, rfl⟩ := taken
      refine List.pairwise_append.mpr
        ⟨advancing report.slot, List.pairwise_singleton _ _, ?_⟩
      intro signedAt member next isNew
      rw [List.mem_singleton.mp isNew]
      exact newest accepted signedAt member
    · rw [List.append_nil]
      exact advancing keyHash

theorem le_last_of_pairwise {values : List Int} {last value : Int}
    (rising : values.Pairwise (· < ·)) (ends : values.getLast? = some last)
    (member : value ∈ values) : value ≤ last := by
  obtain ⟨front, rfl⟩ := List.getLast?_eq_some_iff.mp ends
  rcases List.mem_append.mp member with earlier | same
  · have below := (List.pairwise_append.mp rising).2.2 value earlier last
      (List.mem_singleton.mpr rfl)
    exact Int.le_of_lt below
  · exact Int.le_of_eq (List.mem_singleton.mp same)

/-- A record that still stands is only replaced by a newer one. -/
theorem newest_of_standing (recorded : Recorded history report.slot)
    (rising : (history.signedAts report.slot).Pairwise (· < ·))
    (held : history.records.map.get report.slot = some record)
    (newer : record.signedAt < report.record.signedAt) :
    Newest history report := by
  intro signedAt member
  have last := recorded.standing record held
  exact Int.lt_of_le_of_lt (le_last_of_pairwise rising last member) newer

theorem newest_iff_of_absent (recorded : Recorded history report.slot)
    (rising : (history.signedAts report.slot).Pairwise (· < ·))
    (absent : history.records.map.get report.slot = none) :
    Newest history report ↔
      ∀ removed, (report.slot, removed) ∈ history.swept →
        removed.signedAt < report.record.signedAt := by
  constructor
  · intro newest removed member
    exact newest _ (recorded.removed removed member)
  · intro newer signedAt member
    cases ends : (history.signedAts report.slot).getLast? with
    | none =>
      rw [List.getLast?_eq_none_iff.mp ends] at member
      cases member
    | some last =>
      obtain ⟨removed, swept, rfl⟩ := recorded.gone absent last ends
      exact Int.lt_of_le_of_lt (le_last_of_pairwise rising ends member)
        (newer removed swept)

theorem hasRoom_of_accepted
    (accepted : (records.report verify report).1 = .ok .accepted)
    (absent : records.map.get report.slot = none) :
    Admissible verify report ∧ records.HasRoom report.now := by
  have went := reported verify records report
  generalize records.report verify report = answered at went accepted
  cases went with
  | refused | pinned | stale | full | sweptFull => cases accepted
  | renewed _ held =>
    rw [absent] at held
    cases held
  | added admissible _ room => exact ⟨admissible, .inl room⟩
  | sweptAdded admissible _ _ due room => exact ⟨admissible, .inr ⟨due, room⟩⟩

theorem accepted_of_hasRoom (admissible : Admissible verify report)
    (room : records.HasRoom report.now)
    (absent : records.map.get report.slot = none) :
    (records.report verify report).1 = .ok .accepted := by
  rw [report_of_admissible admissible, Records.file, absent]
  dsimp only
  split
  · rename_i wasFull
    obtain ⟨due, freed⟩ := room.resolve_left (not_lt.mpr wasFull)
    rw [if_neg (not_lt.mpr due), if_neg (not_le.mpr freed)]
  · rfl

/-- One report more. -/
theorem renews_iff (recorded : Recorded history report.slot)
    (rising : (history.signedAts report.slot).Pairwise (· < ·)) :
    ((history.records.report verify report).1 = .ok .accepted →
        Newest history report) ↔
      Renews verify history report := by
  constructor
  · intro newest admissible room absent
    exact (newest_iff_of_absent recorded rising absent).mp
      (newest (accepted_of_hasRoom admissible room absent))
  · intro renews accepted
    cases held : history.records.map.get report.slot with
    | none =>
      obtain ⟨admissible, room⟩ := hasRoom_of_accepted accepted held
      exact (newest_iff_of_absent recorded rising held).mpr
        (renews admissible room held)
    | some record =>
      apply newest_of_standing recorded rising held
      have went := reported verify history.records report
      generalize history.records.report verify report = answered at *
      cases went with
      | refused | pinned | stale | full | sweptFull => cases accepted
      | renewed _ present _ newer =>
        cases held.symm.trans present
        exact newer
      | added _ absent | sweptAdded _ absent => cases held.symm.trans absent

/-- Over a whole run the records accepted under each key hash get newer and
newer, if and only if whatever is taken in for a record that a sweep removed
is newer than that. -/
theorem advancing_iff_renews (verify : Verify) (reports : List Report) :
    (History.after verify reports).Advancing ↔
      ∀ past report future, reports = past ++ report :: future →
        Renews verify (History.after verify past) report := by
  induction reports using List.reverseRecOn with
  | nil =>
    constructor
    · intro _ past report future split
      simp at split
    · exact fun _ keyHash => List.Pairwise.nil
  | append_singleton reports last ih =>
    have recorded := recorded_after verify reports last.slot
    rw [History.after_append, advancing_step]
    constructor
    · rintro ⟨advancing, newest⟩ past report future split
      rcases List.eq_nil_or_concat future with rfl | ⟨front, final, rfl⟩
      · obtain ⟨rfl, same⟩ := List.append_inj' split rfl
        cases List.singleton_inj.mp same
        exact (renews_iff recorded (advancing _)).mp newest
      · apply ih.mp advancing past report front
        have whole : reports ++ [last] =
            (past ++ report :: front) ++ [final] := by
          rw [split]
          simp
        exact (List.append_inj' whole rfl).1
    · intro renews
      have advancing := ih.mpr fun past report future split =>
        renews past report (future ++ [last]) (by rw [split]; simp)
      exact ⟨advancing, (renews_iff recorded (advancing _)).mpr
        (renews reports last [] rfl)⟩

end Steps

theorem isHex32Bytes_hexEncode {bytes : Bytes} (length : bytes.length = 32) :
    Friends.isHex32Bytes (Tracker.hexEncode bytes) = true := by
  have digits : ∀ value, value < 16 →
      Friends.isAsciiHexdigit (Tracker.hexDigit value) = true := by decide
  rw [Friends.isHex32Bytes, Tracker.utf8ByteSize_hexEncode, length]
  simp only [decide_true, Bool.true_and, List.all_eq_true]
  intro character member
  obtain ⟨value, small, rfl⟩ := Tracker.mem_hexEncode member
  exact digits value small

theorem toAsciiLowercase_hexEncode (bytes : Bytes) :
    Rust.toAsciiLowercase (Tracker.hexEncode bytes) =
      Tracker.hexEncode bytes := by
  have lower : ∀ value, value < 16 →
      ¬ ('A' ≤ Tracker.hexDigit value ∧ Tracker.hexDigit value ≤ 'Z') := by
    decide
  have fixed : ∀ character ∈ (Tracker.hexEncode bytes).toList,
      (if 'A' ≤ character ∧ character ≤ 'Z' then
        Char.ofNat (character.toNat + 32) else character) = id character := by
    intro character member
    obtain ⟨value, small, rfl⟩ := Tracker.mem_hexEncode member
    exact if_neg (lower value small)
  rw [Rust.toAsciiLowercase, List.map_congr_left fixed, List.map_id,
    String.ofList_toList]

/-- A key hash for each number. -/
def keyHashOf (number : Nat) : String :=
  Tracker.hexEncode (List.replicate 30 0 ++
    [UInt8.ofNat (number / 256), UInt8.ofNat (number % 256)])

theorem keyHashOf_injective {left right : Nat} (leftSmall : left < 65536)
    (rightSmall : right < 65536) (same : keyHashOf left = keyHashOf right) :
    left = right := by
  have pairs := congrArg (fun text => Tracker.hexPairs text.toList) same
  simp only [keyHashOf, Tracker.hexPairs_hexEncode, Option.some.injEq,
    List.append_cancel_left_eq, List.cons.injEq, and_true] at pairs
  have high := congrArg UInt8.toNat pairs.1
  have low := congrArg UInt8.toNat pairs.2
  simp only [UInt8.toNat_ofNat'] at high low
  omega

/-- A report of one instance under the key hash of a number. -/
def reportOf (number signedAt now : Nat) : Report :=
  ⟨keyHashOf number,
    ⟨"3b6a27bcceb6a42d62a3a8d02a6f0d73653215771de243a63ac048a18b59da29", [],
      signedAt, ""⟩, now⟩

theorem slot_reportOf (number signedAt now : Nat) :
    (reportOf number signedAt now).slot = keyHashOf number :=
  toAsciiLowercase_hexEncode _

/-- A lighthouse that has every record verify. -/
def lenient : Verify := fun _ => .ok ()

theorem admissible_reportOf {number signedAt now : Nat}
    (past : signedAt ≤ now) (small : now < 9223372036854775000) :
    Admissible lenient (reportOf number signedAt now) := by
  refine ⟨?_, rfl, ?_⟩
  · rw [slot_reportOf]
    exact isHex32Bytes_hexEncode rfl
  · simp only [reportOf, Rust.saturatingAdd, Rust.i64Min, Rust.i64Max,
      maxFutureSkewSecs]
    omega

/-- While there is room, reports under different key hashes are all kept. -/
theorem entries_of_room {verify : Verify} {reports : List Report}
    (admissible : ∀ report ∈ reports, Admissible verify report)
    (different : (reports.map (·.slot)).Nodup)
    (room : reports.length ≤ maxRecords) :
    (Records.after verify reports).map.entries =
        reports.map (fun report => (report.slot, report.record)) ∧
      (Records.after verify reports).lastSweepAt = 0 := by
  induction reports using List.reverseRecOn with
  | nil => exact ⟨rfl, rfl⟩
  | append_singleton reports last ih =>
    rw [List.length_append, List.length_singleton] at room
    rw [List.map_append, List.nodup_append] at different
    obtain ⟨entries, swept⟩ := ih
      (fun report member => admissible report (List.mem_append_left _ member))
      different.1 (by omega)
    have absent :
        (Records.after verify reports).map.get last.slot = none := by
      rw [Rust.HashMap.get_eq_none_iff, entries]
      intro entry member
      obtain ⟨report, among, rfl⟩ := List.mem_map.mp member
      exact different.2.2 _ (List.mem_map.mpr ⟨report, among, rfl⟩) _
        (List.mem_singleton.mpr rfl)
    have free : (Records.after verify reports).map.len < maxRecords := by
      rw [Rust.HashMap.len, entries, List.length_map]
      omega
    have filed : (Records.after verify reports).report verify last =
        (.ok .accepted, (Records.after verify reports).insert last.slot
          last.record) := by
      rw [report_of_admissible (admissible last (by simp)), Records.file,
        absent]
      exact if_neg (not_le.mpr free)
    rw [Records.after_append, filed]
    refine ⟨?_, swept⟩
    simp only [Records.insert, Rust.HashMap.insert,
      Rust.HashMap.remove_of_get_eq_none absent, entries, List.map_append,
      List.map_singleton]

/-- When the records of 1970 have expired. -/
def later : Nat := 100 + 30 * 24 * 60 * 60

def firstTwo : List Report := [reportOf 0 100 100, reportOf 1 100 100]

def others : List Report :=
  (List.range 9998).map fun number => reportOf (number + 2) later later

def newcomer : Report := reportOf 10000 later later

/-- The first record once more. -/
def replay : Report := reportOf 0 100 later

theorem mem_filling {report : Report} (member : report ∈ firstTwo ++ others) :
    ∃ number signedAt now, report = reportOf number signedAt now ∧
      number < 10000 ∧ signedAt ≤ now ∧ now ≤ later := by
  rcases List.mem_append.mp member with early | other
  · simp only [firstTwo, List.mem_cons, List.not_mem_nil, or_false] at early
    rcases early with rfl | rfl
    · exact ⟨0, 100, 100, rfl, by decide⟩
    · exact ⟨1, 100, 100, rfl, by decide⟩
  · obtain ⟨number, among, rfl⟩ := List.mem_map.mp other
    have below := List.mem_range.mp among
    exact ⟨_, _, _, rfl, by omega, le_rfl, le_rfl⟩

theorem range_add_two (count : Nat) : List.range (count + 2) =
    0 :: 1 :: (List.range count).map fun number => number + 2 := by
  rw [List.range_succ_eq_map, List.range_succ_eq_map]
  simp [Function.comp_def]

theorem slots_filling : (firstTwo ++ others).map (·.slot) =
    (List.range 10000).map keyHashOf := by
  have whole : List.range 10000 =
      0 :: 1 :: (List.range 9998).map fun number => number + 2 :=
    range_add_two 9998
  rw [whole]
  simp [firstTwo, others, slot_reportOf, Function.comp_def]

theorem filled : (Records.after lenient (firstTwo ++ others)).map.entries =
      (firstTwo ++ others).map (fun report => (report.slot, report.record)) ∧
    (Records.after lenient (firstTwo ++ others)).lastSweepAt = 0 := by
  apply entries_of_room
  · intro report member
    obtain ⟨number, signedAt, now, rfl, -, past, upTo⟩ := mem_filling member
    exact admissible_reportOf past (lt_of_le_of_lt upTo (by decide))
  · rw [slots_filling]
    refine List.Nodup.map_on ?_ List.nodup_range
    intro left leftMember right rightMember
    rw [List.mem_range] at leftMember rightMember
    exact keyHashOf_injective (by omega) (by omega)
  · simp [firstTwo, others, maxRecords]

theorem entries_sweep (records : Records) (now : Nat) :
    (records.sweep now).map.entries =
      records.map.entries.filter fun entry => !Records.expired now entry.2 :=
  rfl

/-- The sweep takes the two old records, and the newcomer leaves room for one
more. -/
theorem swept_table :
    ((Records.after lenient (firstTwo ++ others)).sweep later).map.entries =
      others.map fun report => (report.slot, report.record) := by
  have early : (firstTwo.map fun report => (report.slot, report.record)).filter
      (fun entry => !Records.expired later entry.2) = [] := by
    rw [List.filter_eq_nil_iff]
    intro entry member
    simp only [firstTwo, List.map_cons, List.map_nil, List.mem_cons,
      List.not_mem_nil, or_false] at member
    rcases member with rfl | rfl
    · decide
    · decide
  have late : (others.map fun report => (report.slot, report.record)).filter
      (fun entry => !Records.expired later entry.2) =
        others.map fun report => (report.slot, report.record) := by
    rw [List.filter_eq_self]
    intro entry member
    obtain ⟨report, among, rfl⟩ := List.mem_map.mp member
    obtain ⟨number, -, rfl⟩ := List.mem_map.mp among
    have fresh : (!Records.expired later (reportOf 0 later later).record) =
        true := by decide
    exact fresh
  rw [entries_sweep, filled.1, List.map_append, List.filter_append, early, late,
    List.nil_append]

theorem absent_of_entries {records : Records} {reports : List Report}
    (entries : records.map.entries =
      reports.map fun report => (report.slot, report.record))
    {number signedAt now : Nat} (small : number < 65536)
    (absent : ∀ report ∈ reports, ∃ other signedAt now, other ≠ number ∧
      other < 65536 ∧ report = reportOf other signedAt now) :
    records.map.get (reportOf number signedAt now).slot = none := by
  rw [Rust.HashMap.get_eq_none_iff, entries]
  intro entry member same
  obtain ⟨report, among, rfl⟩ := List.mem_map.mp member
  obtain ⟨other, signedAt, now, different, bound, rfl⟩ := absent report among
  simp only [slot_reportOf] at same
  exact different (keyHashOf_injective bound small same)

theorem mem_others {report : Report} (member : report ∈ others) :
    ∃ number, report = reportOf number later later ∧ 2 ≤ number ∧
      number < 10000 := by
  obtain ⟨number, among, rfl⟩ := List.mem_map.mp member
  have below := List.mem_range.mp among
  exact ⟨_, rfl, by omega, by omega⟩

theorem report_newcomer :
    (Records.after lenient (firstTwo ++ others)).report lenient newcomer =
      (.ok .accepted, ((Records.after lenient (firstTwo ++ others)).sweep
        later).insert newcomer.slot newcomer.record) := by
  have absent : (Records.after lenient (firstTwo ++ others)).map.get
      newcomer.slot = none := by
    apply absent_of_entries filled.1 (by decide)
    intro report member
    obtain ⟨number, signedAt, now, rfl, small, -⟩ := mem_filling member
    exact ⟨number, signedAt, now, by omega, by omega, rfl⟩
  have wasFull : maxRecords ≤
      (Records.after lenient (firstTwo ++ others)).map.len := by
    rw [Rust.HashMap.len, filled.1]
    simp [firstTwo, others, maxRecords]
  have freed : ¬ maxRecords ≤
      ((Records.after lenient (firstTwo ++ others)).sweep later).map.len := by
    rw [Rust.HashMap.len, swept_table]
    simp [others, maxRecords]
  have admissible : Admissible lenient newcomer :=
    admissible_reportOf le_rfl (by decide)
  rw [report_of_admissible admissible, Records.file, absent]
  dsimp only
  rw [if_pos wasFull, filled.2, if_neg (by decide)]
  exact if_neg freed

/-- The record of the first report is taken in again, and its slot goes back
to where it was. -/
theorem replay_accepted_after_sweep :
    ¬ (History.after lenient
        (firstTwo ++ others ++ [newcomer] ++ [replay])).Advancing := by
  intro advancing
  have renews := (advancing_iff_renews lenient _).mp advancing
    (firstTwo ++ others ++ [newcomer]) replay [] rfl
  have records : (History.after lenient
      (firstTwo ++ others ++ [newcomer])).records =
        ((Records.after lenient (firstTwo ++ others)).sweep later).insert
          newcomer.slot newcomer.record := by
    rw [History.records_after, Records.after_append, report_newcomer]
  have gone : (((Records.after lenient (firstTwo ++ others)).sweep later).insert
      newcomer.slot newcomer.record).map.get replay.slot = none := by
    have different : replay.slot ≠ newcomer.slot := by
      intro same
      rw [replay, newcomer, slot_reportOf, slot_reportOf] at same
      exact absurd (keyHashOf_injective (by decide) (by decide) same)
        (by decide)
    rw [get_insert, if_neg different]
    apply absent_of_entries swept_table (by decide)
    intro report member
    obtain ⟨number, rfl, atLeast, small⟩ := mem_others member
    exact ⟨number, later, later, by omega, by omega, rfl⟩
  have first : (Records.after lenient (firstTwo ++ others)).map.get
      replay.slot = some (reportOf 0 100 100).record := by
    rw [← Rust.HashMap.mem_entries_iff, filled.1]
    refine List.mem_map.mpr ⟨reportOf 0 100 100, ?_, ?_⟩
    · exact List.mem_append_left _ List.mem_cons_self
    · rw [replay, slot_reportOf, slot_reportOf]
  have swept : (replay.slot, (reportOf 0 100 100).record) ∈
      (History.after lenient (firstTwo ++ others ++ [newcomer])).swept := by
    rw [History.after_append, mem_swept_step, ← History.after_append, records,
      History.records_after]
    exact .inr ⟨first, gone⟩
  have room : (History.after lenient
      (firstTwo ++ others ++ [newcomer])).records.HasRoom replay.now := by
    left
    rw [records]
    refine lt_of_le_of_lt Rust.HashMap.len_insert_le ?_
    rw [Rust.HashMap.len, swept_table]
    simp [others, maxRecords]
  have newer := renews (admissible_reportOf (by decide) (by decide)) room
    (by rw [records]; exact gone) _ swept
  exact absurd newer (by decide)

end Lighthouse

end Sharerr
