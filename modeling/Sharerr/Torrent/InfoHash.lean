import Sharerr.Torrent.Decoding
import Sharerr.Tracker.Download

/-!
# The info hash of a file

A torrent is known by the hash of its info dictionary.  Who loads the file
hashes the bytes that are there; here the dictionary is decoded and written
again, and that is hashed.  SHA-1 belongs to another crate.
-/

namespace Sharerr

namespace Metainfo

open Bencode (Value BencodeError Written WrittenBytes)
open Rust (BTreeMap.get BTreeMap.remove)

/-- A parsed `.torrent`; the dictionaries are the entries of `BTreeMap`s. -/
structure Torrent where
  announce : Option String
  announceList : Option (List (List String))
  info : List (Bytes × Value)
  extra : List (Bytes × Value)

inductive MetainfoError where
  | bencode (reason : BencodeError)
  | notADictionary
  | missingInfo
  | announceNotAString
  | announceListMalformed
deriving DecidableEq, Repr

def parseAnnounceList (value : Value) :
    Except MetainfoError (List (List String)) := do
  let some tiers := value.asList | throw .announceListMalformed
  tiers.mapM fun tier => do
    let some urls := tier.asList | throw .announceListMalformed
    urls.mapM fun url => do
      let some url := url.asStr | throw .announceListMalformed
      return url

namespace Torrent

def readAnnounce (top : List (Bytes × Value)) :
    Except MetainfoError (Option String) :=
  match BTreeMap.get top (Vault.toUtf8 "announce") with
  | none => .ok none
  | some value =>
    match value.asStr with
    | none => .error .announceNotAString
    | some announce => .ok (some announce)

def readAnnounceList (top : List (Bytes × Value)) :
    Except MetainfoError (Option (List (List String))) :=
  match BTreeMap.get top (Vault.toUtf8 "announce-list") with
  | none => .ok none
  | some value => (parseAnnounceList value).map some

def readFromBytes (bytes : Bytes) : Except MetainfoError Torrent := do
  let .dict top ← (Value.decode bytes).mapError .bencode
    | throw .notADictionary
  let some (.dict info) := BTreeMap.get top (Vault.toUtf8 "info")
    | throw .missingInfo
  let top := BTreeMap.remove top (Vault.toUtf8 "info")
  let announce ← readAnnounce top
  let top := BTreeMap.remove top (Vault.toUtf8 "announce")
  let announceList ← readAnnounceList top
  let extra := BTreeMap.remove top (Vault.toUtf8 "announce-list")
  return ⟨announce, announceList, info, extra⟩

def infoHash (torrent : Torrent) (sha1 : Bytes → Bytes) : String :=
  Tracker.hexEncode (sha1 (Bencode.writeDict torrent.info))

end Torrent

/-- What a written dictionary gives for a key; the last entry counts. -/
def field (written : Written) (key : Bytes) : Option Written :=
  match written with
  | .dict entries => Rust.collected
      (entries.map fun entry => (entry.1.content, entry.2)) key
  | _ => none

section Read

variable {bytes : Bytes} {torrent : Torrent}

theorem read_inversion_full (read : Torrent.readFromBytes bytes = .ok torrent) :
    ∃ top, Value.decode bytes = .ok (.dict top) ∧
      BTreeMap.get top (Vault.toUtf8 "info") = some (.dict torrent.info) ∧
      Torrent.readAnnounce (BTreeMap.remove top (Vault.toUtf8 "info")) =
        .ok torrent.announce ∧
      Torrent.readAnnounceList (BTreeMap.remove
        (BTreeMap.remove top (Vault.toUtf8 "info"))
          (Vault.toUtf8 "announce")) = .ok torrent.announceList ∧
      torrent.extra = BTreeMap.remove (BTreeMap.remove
        (BTreeMap.remove top (Vault.toUtf8 "info"))
          (Vault.toUtf8 "announce")) (Vault.toUtf8 "announce-list") := by
  obtain ⟨value, decoded, read⟩ := Rust.bind_eq_ok read
  have decoded := Rust.eq_ok_of_mapError decoded
  cases value with
  | dict top =>
    refine ⟨top, decoded, ?_⟩
    cases found : BTreeMap.get top (Vault.toUtf8 "info") with
    | none => simp only [found] at read; cases read
    | some value =>
      cases value with
      | dict info =>
        simp only [found] at read
        obtain ⟨announce, first, read⟩ := Rust.bind_eq_ok read
        obtain ⟨announceList, second, read⟩ := Rust.bind_eq_ok read
        cases read
        exact ⟨rfl, first, second, rfl⟩
      | _ => simp only [found] at read; cases read
  | _ => cases read

theorem read_inversion (read : Torrent.readFromBytes bytes = .ok torrent) :
    ∃ top, Value.decode bytes = .ok (.dict top) ∧
      BTreeMap.get top (Vault.toUtf8 "info") = some (.dict torrent.info) := by
  obtain ⟨top, decoded, info, -⟩ := read_inversion_full read
  exact ⟨top, decoded, info⟩

variable {key : Bytes}

theorem get_collect_valueEntries {entries : List (WrittenBytes × Written)} :
    BTreeMap.get (Rust.BTreeMap.collect (Bencode.valueEntries entries)) key =
      (field (.dict entries) key).map (·.value) := by
  rw [Rust.BTreeMap.get_collect, Bencode.valueEntries_eq, field]
  induction entries using List.reverseRecOn with
  | nil => rfl
  | append_singleton entries last ih =>
    rw [List.map_append, List.map_append, List.map_singleton,
      List.map_singleton, Rust.collected_concat, Rust.collected_concat,
      Rust.insert, Rust.insert, ih]
    split <;> rfl

/-- What a dictionary gives for a key is a slice of its text. -/
theorem slice_of_field {file value : Written}
    (found : field file key = some value) :
    ∃ before after, file.text = before ++ value.text ++ after := by
  cases file with
  | dict entries =>
    obtain ⟨⟨name, item⟩, among, same⟩ :=
      List.mem_map.mp (Rust.mem_of_collected_eq_some found)
    cases same
    obtain ⟨front, back, rfl⟩ := List.append_of_mem among
    have split : ∀ front : List (WrittenBytes × Written),
        ∃ before after, Bencode.textEntries
          (front ++ (name, item) :: back) =
            before ++ item.text ++ after := by
      intro front
      induction front with
      | nil => exact ⟨name.text, _, by
          rw [List.nil_append, Bencode.textEntries]⟩
      | cons entry front ih =>
        obtain ⟨before, after, whole⟩ := ih
        refine ⟨entry.1.text ++ entry.2.text ++ before, after, ?_⟩
        rw [List.cons_append, Bencode.textEntries, whole]
        simp only [List.append_assoc]
    obtain ⟨before, after, whole⟩ := split front
    refine ⟨100 :: before, after ++ [101], ?_⟩
    rw [Written.text, whole]
    simp only [List.cons_append, List.append_assoc]
  | _ => cases found

theorem readable_of_field {file value : Written} (readable : file.Readable)
    (found : field file key = some value) :
    value.Readable := by
  cases readable with
  | dict _ all =>
    obtain ⟨entry, among, same⟩ :=
      List.mem_map.mp (Rust.mem_of_collected_eq_some found)
    cases same
    exact all entry among
  | _ => cases found

theorem hexEncode_injective : Function.Injective Tracker.hexEncode := by
  intro left right same
  have read := Tracker.hexPairs_hexEncode left
  rw [same, Tracker.hexPairs_hexEncode] at read
  exact (Option.some.inj read).symm

end Read

/-- Whatever file is accepted: it can be read in one way, and the info hash is
that of the bytes of its info dictionary exactly where these are canonical. -/
theorem infoHash_eq_iff (sha1 : Bytes → Bytes)
    (injective : Function.Injective sha1) (bytes : Bytes) (torrent : Torrent)
    (read : Torrent.readFromBytes bytes = .ok torrent) :
    ∃ file info : Written,
      (∀ other : Written, other.Readable ∧ other.text = bytes ↔
        other = file) ∧
      field file (Vault.toUtf8 "info") = some info ∧
      (∃ before after, bytes = before ++ info.text ++ after) ∧
      (torrent.infoHash sha1 = Tracker.hexEncode (sha1 info.text) ↔
        info.Canonical) := by
  obtain ⟨top, decoded, found⟩ := read_inversion read
  obtain ⟨file, readable, same, whole⟩ := Bencode.decode_sound decoded
  have unique : ∀ other : Written, other.Readable ∧ other.text = bytes ↔
      other = file := by
    intro other
    constructor
    · rintro ⟨readable_, text⟩
      have texts : other.text ++ [] = file.text ++ [] := by rw [text, whole]
      exact (Written.unique readable_ readable texts).1
    · rintro rfl
      exact ⟨readable, whole⟩
  cases file with
  | dict entries =>
    rw [Written.value, Value.dict.injEq] at same
    rw [← same, get_collect_valueEntries, Option.map_eq_some_iff] at found
    obtain ⟨info, given, value⟩ := found
    have slice := slice_of_field given
    rw [whole] at slice
    have written : Bencode.writeDict torrent.info = info.value.write := by
      rw [value, Value.write, Bencode.writeDict]
    refine ⟨_, info, unique, given, slice, ?_⟩
    rw [Torrent.infoHash, hexEncode_injective.eq_iff, injective.eq_iff,
      written]
    exact Bencode.write_value_iff (readable_of_field readable given)
  | int digits => cases same
  | bytes content => cases same
  | list items => cases same

def plainInfo : Bytes := Vault.toUtf8 "d6:lengthi3e4:name5:a.mkve"

/-- The same dictionary with a zero in front of a length. -/
def paddedInfo : Bytes := Vault.toUtf8 "d6:lengthi3e4:name05:a.mkve"

def fileOf (info : Bytes) : Bytes :=
  Vault.toUtf8 "d4:info" ++ info ++ Vault.toUtf8 "e"

/-- SHA-1 as far as it is known of one dictionary. -/
def knownSha1 (bytes : Bytes) : Bytes :=
  if bytes = plainInfo then
    [96, 52, 76, 186, 49, 10, 232, 17, 91, 38, 160, 54, 38, 212, 163, 169, 25,
      213, 46, 169]
  else 0 :: bytes

theorem knownSha1_injective : Function.Injective knownSha1 := by
  intro left right same
  unfold knownSha1 at same
  split at same
  · rename_i plain
    split at same
    · rename_i plain_
      rw [plain, plain_]
    · cases same
  · split at same
    · cases same
    · exact (List.cons.inj same).2

theorem plain_info_hashed :
    ∃ torrent, Torrent.readFromBytes (fileOf plainInfo) = .ok torrent ∧
      torrent.infoHash knownSha1 =
        "60344cba310ae8115b26a03626d4a3a919d52ea9" ∧
      ∃ file info : Written, field file (Vault.toUtf8 "info") = some info ∧
        file.text = fileOf plainInfo ∧
        (torrent.infoHash knownSha1 =
            Tracker.hexEncode (knownSha1 info.text) ↔ info.Canonical) := by
  refine ⟨_, rfl, by decide +kernel, ?_⟩
  obtain ⟨file, info, unique, given, -, hashed⟩ :=
    infoHash_eq_iff knownSha1 knownSha1_injective (fileOf plainInfo) _ rfl
  exact ⟨file, info, given, ((unique file).mpr rfl).2, hashed⟩

/-- The file is accepted and known by another hash than that of the bytes of
its info dictionary. -/
theorem padded_length_hashed_otherwise :
    ∃ torrent, Torrent.readFromBytes (fileOf paddedInfo) = .ok torrent ∧
      ∀ sha1 : Bytes → Bytes, Function.Injective sha1 →
        torrent.infoHash sha1 ≠ Tracker.hexEncode (sha1 paddedInfo) := by
  refine ⟨_, rfl, ?_⟩
  intro sha1 injective same
  have bytes := injective (hexEncode_injective same)
  exact absurd bytes (by decide +kernel)

end Metainfo

end Sharerr
