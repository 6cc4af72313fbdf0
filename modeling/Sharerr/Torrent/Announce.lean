import Sharerr.Rust.Traverse
import Sharerr.Torrent.Info
import Sharerr.Torrent.Reading
import Sharerr.Vault.Format

/-!
# Rewriting where a file announces

The announce fields stand outside the info dictionary.  A rewrite decodes the
file, puts other ones in and encodes what it has again, so that everything else
comes out as it went in.
-/

namespace Sharerr

namespace Metainfo

open Bencode (Value maxDepth writeDict)
open Bencode.Value (string)
open Rust (u64Bound BTreeMap.get BTreeMap.insert BTreeMap.remove
  BTreeMap.collect BTreeMap.Sorted)

namespace Torrent

variable (torrent : Torrent)

/-- The announce fields as values. -/
def tiersValue (tiers : List (List String)) : Value :=
  .list (tiers.map fun tier => .list (tier.map string))

/-- `BTreeMap::insert` where there is something to put in. -/
def insertSome (key : Bytes) (value : Option Value)
    (top : List (Bytes × Value)) : List (Bytes × Value) :=
  match value with
  | none => top
  | some value => BTreeMap.insert key value top

/-- The dictionary `encode` writes. -/
def top : List (Bytes × Value) :=
  BTreeMap.insert (Vault.toUtf8 "info") (.dict torrent.info)
    (insertSome (Vault.toUtf8 "announce-list")
      (torrent.announceList.map tiersValue)
      (insertSome (Vault.toUtf8 "announce") (torrent.announce.map string)
        (BTreeMap.collect torrent.extra)))

def encode : Bytes := writeDict torrent.top

/-- The torrent, announcing to `announce`. -/
def announcingTo (announce : AnnounceSet) : Torrent :=
  { torrent with
    announce := some announce.primary
    announceList := announce.tierList }

end Torrent

def rewriteAnnounce (data : Bytes) (announce : AnnounceSet) :
    Except MetainfoError Bytes := do
  let torrent ← Torrent.readFromBytes data
  return (torrent.announcingTo announce).encode

inductive Retargeted where
  | current (torrent : Torrent)
  | updated (previous : Option String) (torrent : Torrent) (data : Bytes)

def retargetAnnounce (data : Bytes) (announce : AnnounceSet) :
    Except MetainfoError Retargeted := do
  let torrent ← Torrent.readFromBytes data
  let previous := torrent.announce
  if previous = some announce.primary then return .current torrent
  else
    let torrent := torrent.announcingTo announce
    return .updated previous torrent torrent.encode

/-- The keys read apart from the rest. -/
def ownKeys : List Bytes :=
  [Vault.toUtf8 "info", Vault.toUtf8 "announce", Vault.toUtf8 "announce-list"]

/-- A value of no more than so many levels. -/
structure Within (levels : Nat) (value : Value) : Prop where
  wellFormed : value.WellFormed
  shallow : value.levels ≤ levels

/-- One that may stand in the dictionary at the top. -/
abbrev Fits (value : Value) : Prop := Within maxDepth value

/-- What holds of every torrent that was read. -/
structure Torrent.Lawful (torrent : Torrent) : Prop where
  info : Fits (.dict torrent.info)
  sorted : BTreeMap.Sorted torrent.extra
  keys : ∀ entry ∈ torrent.extra, entry.1.length < u64Bound
  extra : ∀ entry ∈ torrent.extra, Fits entry.2
  apart : ∀ key ∈ ownKeys, BTreeMap.get torrent.extra key = none

/-- A text that fits in memory. -/
def InMemory (text : String) : Prop := (Vault.toUtf8 text).length < u64Bound

structure Torrent.Announces (torrent : Torrent) : Prop where
  announce : ∀ url ∈ torrent.announce, InMemory url
  tiers : ∀ tiers ∈ torrent.announceList, ∀ tier ∈ tiers, ∀ url ∈ tier,
    InMemory url

section Read

variable {bytes : Bytes} {torrent : Torrent}

theorem level_le_entryLevels {entries : List (Bytes × Value)}
    {entry : Bytes × Value} (member : entry ∈ entries) :
    entry.2.levels ≤ Bencode.entryLevels entries := by
  induction entries with
  | nil => cases member
  | cons first rest ih =>
    rw [Bencode.entryLevels]
    rcases List.mem_cons.mp member with same | later
    · rw [same]
      exact Nat.le_max_left _ _
    · exact Nat.le_trans (ih later) (Nat.le_max_right _ _)

/-- The entries of a dictionary, their values of no more than so many
levels. -/
structure AllWithin (levels : Nat) (entries : List (Bytes × Value)) :
    Prop where
  sorted : BTreeMap.Sorted entries
  each : ∀ entry ∈ entries, entry.1.length < u64Bound ∧
    Within levels entry.2

/-- The entries of the dictionary at the top. -/
abbrev AllFit (entries : List (Bytes × Value)) : Prop :=
  AllWithin maxDepth entries

theorem allFit_of_decode {top : List (Bytes × Value)}
    (decoded : Value.decode bytes = .ok (.dict top)) : AllFit top := by
  obtain ⟨wellFormed, shallow⟩ := Bencode.wellFormed_of_decode decoded
  cases wellFormed with
  | dict sorted fits all =>
    refine ⟨sorted, fun entry member => ⟨fits entry member,
      all entry member, ?_⟩⟩
    have below := level_le_entryLevels member
    rw [Value.levels] at shallow
    omega

variable {entries : List (Bytes × Value)} {levels : Nat} {key : Bytes}

/-- A dictionary is a level above its entries. -/
theorem AllWithin.dict (allWithin : AllWithin levels entries) :
    Within (levels + 1) (.dict entries) :=
  ⟨.dict allWithin.sorted
    (fun entry member => (allWithin.each entry member).1)
    fun entry member => (allWithin.each entry member).2.wellFormed,
   Nat.succ_le_succ (Bencode.entryLevels_le fun entry member =>
    (allWithin.each entry member).2.shallow)⟩

theorem AllFit.decode (allFit : AllFit entries) :
    Value.decode (writeDict entries) = .ok (.dict entries) := by
  obtain ⟨wellFormed, shallow⟩ := AllWithin.dict allFit
  have text : writeDict entries = (Value.dict entries).encode := by
    rw [Value.encode, Value.write, writeDict]
  rw [text, Bencode.decode_encode wellFormed, if_pos shallow]

theorem AllWithin.remove (allWithin : AllWithin levels entries) (key : Bytes) :
    AllWithin levels (BTreeMap.remove entries key) :=
  ⟨Rust.BTreeMap.sorted_remove allWithin.sorted, fun entry member =>
    allWithin.each entry (List.mem_filter.mp member).1⟩

theorem AllWithin.insert (allWithin : AllWithin levels entries) {value : Value}
    (short : key.length < u64Bound) (within : Within levels value) :
    AllWithin levels (BTreeMap.insert key value entries) := by
  refine ⟨Rust.BTreeMap.sorted_insert allWithin.sorted,
    fun entry member => ?_⟩
  rcases Rust.BTreeMap.mem_insert member with rfl | old
  · exact ⟨short, within⟩
  · exact allWithin.each entry old

theorem lawful_of_read (read : Torrent.readFromBytes bytes = .ok torrent) :
    torrent.Lawful := by
  obtain ⟨top, decoded, info, -, -, extra⟩ := read_inversion_full read
  have allFit := allFit_of_decode decoded
  have extraFit : AllFit torrent.extra := by
    rw [extra]
    exact ((allFit.remove _).remove _).remove _
  refine ⟨(allFit.each _ (Rust.BTreeMap.mem_of_get info)).2,
    extraFit.sorted, fun entry member => (extraFit.each entry member).1,
    fun entry member => (extraFit.each entry member).2, fun key own => ?_⟩
  rw [extra]
  simp only [Rust.BTreeMap.get_remove]
  simp only [ownKeys, List.mem_cons, List.not_mem_nil, or_false] at own
  rcases own with same | same | same
  · rw [if_pos same, ite_self, ite_self]
  · rw [if_pos same, ite_self]
  · rw [if_pos same]

theorem keys_apart :
    Vault.toUtf8 "announce" ≠ Vault.toUtf8 "info" ∧
      Vault.toUtf8 "announce-list" ≠ Vault.toUtf8 "info" ∧
      Vault.toUtf8 "announce-list" ≠ Vault.toUtf8 "announce" := by
  decide +kernel

theorem keys_short : ∀ key ∈ ownKeys, key.length < u64Bound := by
  decide +kernel

theorem get_insertSome {other : Bytes} {value : Option Value} :
    BTreeMap.get (Torrent.insertSome key value entries) other =
      if other = key then value.or (BTreeMap.get entries key)
      else BTreeMap.get entries other := by
  cases value with
  | none =>
    by_cases same : other = key
    · rw [if_pos same, same]
      rfl
    · rw [if_neg same]
      rfl
  | some value => exact Rust.BTreeMap.get_insert

theorem Within.mono {more : Nat} {value : Value} (within : Within levels value)
    (below : levels ≤ more) :
    Within more value :=
  ⟨within.wellFormed, Nat.le_trans within.shallow below⟩

theorem AllWithin.mono {more : Nat} (allWithin : AllWithin levels entries)
    (below : levels ≤ more) :
    AllWithin more entries :=
  ⟨allWithin.sorted, fun entry member => ⟨(allWithin.each entry member).1,
    (allWithin.each entry member).2.mono below⟩⟩

theorem within_string {text : String} (inMemory : InMemory text) :
    Within 1 (string text) :=
  ⟨.bytes inMemory, Nat.le_refl 1⟩

theorem fits_string {text : String} (inMemory : InMemory text) :
    Fits (string text) :=
  (within_string inMemory).mono (by decide)

theorem valueLevels_le_of_each {items : List Value}
    (each : ∀ item ∈ items, item.levels ≤ levels) :
    (Value.list items).levels ≤ levels + 1 :=
  Nat.succ_le_succ (Bencode.valueLevels_le each)

theorem fits_tiersValue {tiers : List (List String)}
    (inMemory : ∀ tier ∈ tiers, ∀ url ∈ tier, InMemory url) :
    Fits (Torrent.tiersValue tiers) := by
  constructor
  · refine .list (List.forall_mem_map.mpr fun tier among => .list
      (List.forall_mem_map.mpr fun url member => ?_))
    exact (fits_string (inMemory tier among url member)).wellFormed
  · have deep : (Torrent.tiersValue tiers).levels ≤ 3 :=
      valueLevels_le_of_each (List.forall_mem_map.mpr fun tier _ =>
        valueLevels_le_of_each (List.forall_mem_map.mpr fun url _ =>
          Nat.le_refl 1))
    exact Nat.le_trans deep (by decide)

theorem AllFit.insertSome (allFit : AllFit entries) {value : Option Value}
    (short : key.length < u64Bound) (fits : ∀ found ∈ value, Fits found) :
    AllFit (Torrent.insertSome key value entries) := by
  cases value with
  | none => exact allFit
  | some value => exact allFit.insert short (fits value rfl)

theorem asStr_string (text : String) : (string text).asStr = some text :=
  Vault.fromUtf8_toUtf8 text

theorem parseAnnounceList_tiersValue (tiers : List (List String)) :
    parseAnnounceList (Torrent.tiersValue tiers) = .ok tiers := by
  simp only [parseAnnounceList, Torrent.tiersValue, Value.asList]
  refine Rust.mapM_map_eq_ok (fun tier => ?_) tiers
  refine Rust.mapM_map_eq_ok (fun url => ?_) tier
  simp only [asStr_string]
  rfl

theorem allFit_top (lawful : torrent.Lawful) (announces : torrent.Announces) :
    AllFit torrent.top := by
  have start : AllFit (BTreeMap.collect torrent.extra) := by
    rw [Rust.BTreeMap.collect_of_sorted lawful.sorted]
    exact ⟨lawful.sorted, fun entry member =>
      ⟨lawful.keys entry member, lawful.extra entry member⟩⟩
  have announce : ∀ value ∈ torrent.announce.map string, Fits value := by
    intro value found
    obtain ⟨url, given, rfl⟩ := Option.map_eq_some_iff.mp found
    exact fits_string (announces.announce url given)
  have tiers : ∀ value ∈ torrent.announceList.map Torrent.tiersValue,
      Fits value := by
    intro value found
    obtain ⟨tiers, given, rfl⟩ := Option.map_eq_some_iff.mp found
    exact fits_tiersValue (announces.tiers tiers given)
  have short {key : Bytes} (own : key ∈ ownKeys) := keys_short key own
  exact ((start.insertSome (short (by simp [ownKeys])) announce).insertSome
    (short (by simp [ownKeys])) tiers).insert
      (short (by simp [ownKeys])) lawful.info

theorem get_top (lawful : torrent.Lawful) (key : Bytes) :
    BTreeMap.get torrent.top key =
      if key = Vault.toUtf8 "info" then some (.dict torrent.info)
      else if key = Vault.toUtf8 "announce-list" then
        torrent.announceList.map Torrent.tiersValue
      else if key = Vault.toUtf8 "announce" then torrent.announce.map string
      else BTreeMap.get torrent.extra key := by
  obtain ⟨-, -, apart⟩ := keys_apart
  have noTiers := lawful.apart (Vault.toUtf8 "announce-list")
    (by simp [ownKeys])
  have noAnnounce := lawful.apart (Vault.toUtf8 "announce")
    (by simp [ownKeys])
  rw [Torrent.top, Rust.BTreeMap.get_insert, get_insertSome, get_insertSome,
    get_insertSome, Rust.BTreeMap.collect_of_sorted lawful.sorted,
    if_neg apart, noTiers, noAnnounce, Option.or_none, Option.or_none]

/-- What was written of a torrent is read again as it was. -/
theorem read_encode (lawful : torrent.Lawful) (announces : torrent.Announces) :
    Torrent.readFromBytes torrent.encode = .ok torrent := by
  obtain ⟨apart, apart_, apart'⟩ := keys_apart
  have allFit := allFit_top lawful announces
  have decoded := allFit.decode
  have gets := get_top lawful
  have info := gets (Vault.toUtf8 "info")
  rw [if_pos rfl] at info
  have announce : Torrent.readAnnounce
      (BTreeMap.remove torrent.top (Vault.toUtf8 "info")) =
        .ok torrent.announce := by
    rw [Torrent.readAnnounce, Rust.BTreeMap.get_remove, if_neg apart, gets,
      if_neg apart, if_neg (Ne.symm apart'), if_pos rfl]
    cases torrent.announce with
    | none => rfl
    | some url =>
      simp only [Option.map_some, asStr_string]
  have tiers : Torrent.readAnnounceList (BTreeMap.remove
      (BTreeMap.remove torrent.top (Vault.toUtf8 "info"))
        (Vault.toUtf8 "announce")) = .ok torrent.announceList := by
    rw [Torrent.readAnnounceList, Rust.BTreeMap.get_remove, if_neg apart',
      Rust.BTreeMap.get_remove, if_neg apart_, gets, if_neg apart_,
      if_pos rfl]
    cases torrent.announceList with
    | none => rfl
    | some tiers =>
      simp only [Option.map_some, parseAnnounceList_tiersValue]
      rfl
  have extra : BTreeMap.remove (BTreeMap.remove
      (BTreeMap.remove torrent.top (Vault.toUtf8 "info"))
        (Vault.toUtf8 "announce")) (Vault.toUtf8 "announce-list") =
          torrent.extra := by
    refine Rust.BTreeMap.eq_of_get
      (((allFit.remove _).remove _).remove _).sorted lawful.sorted
      (funext fun key => ?_)
    simp only [Rust.BTreeMap.get_remove, gets]
    by_cases own : key ∈ ownKeys
    · rw [lawful.apart key own]
      simp only [ownKeys, List.mem_cons, List.not_mem_nil, or_false] at own
      rcases own with same | same | same
      · rw [if_pos same, ite_self, ite_self]
      · rw [if_pos same, ite_self]
      · rw [if_pos same]
    · simp only [ownKeys, List.mem_cons, List.not_mem_nil, or_false,
        not_or] at own
      obtain ⟨noInfo, noAnnounce, noTiers⟩ := own
      simp only [if_neg noInfo, if_neg noAnnounce, if_neg noTiers]
  simp only [Torrent.readFromBytes, Torrent.encode, decoded, Except.mapError,
    bind, Except.bind, info, announce, tiers, extra]
  rfl

end Read

/-- The URLs of a set are texts in memory. -/
def InMemorySet (announce : AnnounceSet) : Prop :=
  ∀ url ∈ announce.tiers, InMemory url

section Rewrite

variable {data : Bytes} {torrent : Torrent} {announce : AnnounceSet}

theorem lawful_announcingTo (lawful : torrent.Lawful)
    (announce : AnnounceSet) : (torrent.announcingTo announce).Lawful :=
  ⟨lawful.info, lawful.sorted, lawful.keys, lawful.extra, lawful.apart⟩

theorem announces_announcingTo (inMemory : InMemorySet announce)
    (torrent : Torrent) : (torrent.announcingTo announce).Announces := by
  constructor
  · intro url given
    cases given
    exact inMemory _ announce.primary_mem
  · intro tiers given tier among url member
    rw [Torrent.announcingTo, AnnounceSet.tierList] at given
    split at given
    · cases given
    · cases given
      obtain ⟨listed, mine, rfl⟩ := List.mem_map.mp among
      rw [List.mem_singleton.mp member]
      exact inMemory listed mine

theorem rewriteAnnounce_of_read
    (read : Torrent.readFromBytes data = .ok torrent) :
    rewriteAnnounce data announce =
      .ok (torrent.announcingTo announce).encode := by
  rw [rewriteAnnounce, read]
  rfl

theorem retargetAnnounce_of_read
    (read : Torrent.readFromBytes data = .ok torrent) :
    retargetAnnounce data announce =
      .ok (if torrent.announce = some announce.primary then .current torrent
        else .updated torrent.announce (torrent.announcingTo announce)
          (torrent.announcingTo announce).encode) := by
  rw [retargetAnnounce, read]
  simp only [bind, Except.bind]
  split <;> rfl

/-- What a rewrite writes is read as the same torrent, announcing to the
set. -/
theorem read_rewritten (read : Torrent.readFromBytes data = .ok torrent)
    (inMemory : InMemorySet announce) :
    Torrent.readFromBytes (torrent.announcingTo announce).encode =
      .ok (torrent.announcingTo announce) :=
  read_encode (lawful_announcingTo (lawful_of_read read) announce)
    (announces_announcingTo inMemory torrent)

/-- A rewrite of an accepted file succeeds and changes nothing but the announce
fields; a second one leaves the bytes the first would have left; and where
retargeting rewrites it writes the same. -/
theorem rewrite_announce_preserves (data : Bytes) (torrent : Torrent)
    (read : Torrent.readFromBytes data = .ok torrent)
    (announce : AnnounceSet) (inMemory : InMemorySet announce) :
    (∃ rewritten again, rewriteAnnounce data announce = .ok rewritten ∧
      Torrent.readFromBytes rewritten = .ok again ∧
      again.info = torrent.info ∧ again.extra = torrent.extra ∧
      (∀ sha1, again.infoHash sha1 = torrent.infoHash sha1) ∧
      (∀ sha256, again.infoHashV2 sha256 = torrent.infoHashV2 sha256) ∧
      again.announce = some announce.primary ∧
      again.announceList = announce.tierList ∧
      ∀ other : AnnounceSet,
        rewriteAnnounce rewritten other = rewriteAnnounce data other) ∧
    ∀ previous retargeted rewritten,
      retargetAnnounce data announce =
          .ok (.updated previous retargeted rewritten) →
        rewriteAnnounce data announce = .ok rewritten ∧
          Torrent.readFromBytes rewritten = .ok retargeted := by
  have again := read_rewritten read inMemory
  have rewritten : rewriteAnnounce data announce = _ :=
    rewriteAnnounce_of_read read
  refine ⟨⟨_, _, rewritten, again, rfl, rfl, fun _ => rfl, fun _ => rfl, rfl,
    rfl, fun other => ?_⟩, fun previous retargeted bytes updated => ?_⟩
  · rw [rewriteAnnounce_of_read again, rewriteAnnounce_of_read read]
    rfl
  · rw [retargetAnnounce_of_read read] at updated
    split at updated
    · cases updated
    · cases updated
      exact ⟨rewritten, again⟩

/-- A file with one tracker, moved to two. -/
def movedSet : AnnounceSet := ⟨["http://b/announce", "http://c/announce"],
  List.cons_ne_nil _ _⟩

def oneTracker : Bytes :=
  Vault.toUtf8 "d8:announce17:http://a/announce4:infod4:name5:a.mkvee"

theorem one_tracker_moved :
    ∃ torrent rewritten again,
      Torrent.readFromBytes oneTracker = .ok torrent ∧
      rewriteAnnounce oneTracker movedSet = .ok rewritten ∧
      rewritten = Vault.toUtf8 ("d8:announce17:http://b/announce13:" ++
        "announce-listll17:http://b/announceel17:http://c/announceee" ++
        "4:infod4:name5:a.mkvee") ∧
      Torrent.readFromBytes rewritten = .ok again ∧
      again.info = torrent.info := by
  have inMemory : InMemorySet movedSet := by
    unfold InMemorySet InMemory
    decide +kernel
  obtain ⟨⟨rewritten, again, written, read, info, -⟩, -⟩ :=
    rewrite_announce_preserves oneTracker _ rfl movedSet inMemory
  refine ⟨_, rewritten, again, rfl, written, ?_, read, info⟩
  have computed : rewriteAnnounce oneTracker movedSet =
      .ok (Vault.toUtf8 ("d8:announce17:http://b/announce13:" ++
        "announce-listll17:http://b/announceel17:http://c/announceee" ++
        "4:infod4:name5:a.mkvee")) := by
    decide +kernel
  rw [computed] at written
  exact (Except.ok.inj written).symm

end Rewrite

end Metainfo

end Sharerr
