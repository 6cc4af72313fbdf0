import Sharerr.Rust.Chunks
import Sharerr.Rust.IpText
import Sharerr.Torrent.Info
import Sharerr.Torrent.Reading
import Sharerr.Tracker.Swarms
import Sharerr.Vault.Format

/-!
# The tracker's answer on the wire

The answer is streamed: the keys stand in order because they are written in
order, and the peers are packed behind a length that was counted before.  What
comes out is what the encoder makes of a dictionary.
-/

namespace Sharerr

namespace Announce

open Bencode (Value writeInt writeLen writeBytes)

/-- A `usize` cast to an `i64`. -/
def asI64 (number : Nat) : Int :=
  if number < 9223372036854775808 then number
  else (number : Int) - 18446744073709551616

/-- Thirty minutes. -/
def interval : Nat := 1800

def minInterval : Nat := 900

def putInt (key : String) (value : Int) : Bytes :=
  writeBytes (Vault.toUtf8 key) ++ writeInt value

namespace SocketAddr

def isIpv4 (addr : SocketAddr) : Bool :=
  match addr.ip with
  | .v4 _ => true
  | .v6 _ => false

def isIpv6 (addr : SocketAddr) : Bool :=
  match addr.ip with
  | .v4 _ => false
  | .v6 _ => true

end SocketAddr

/-- `to_be_bytes`, by the width in bytes. -/
def beBytes (width value : Nat) : Bytes := (Vault.leBytes width value).reverse

/-- `pack_compact`: the octets, then the port. -/
def packCompact (addr : SocketAddr) : Bytes :=
  (match addr.ip with
    | .v4 bits => beBytes 4 bits.toNat
    | .v6 bits => beBytes 16 bits.toNat) ++ beBytes 2 addr.port

/-- One peer of the list form. -/
def putPeer (addr : SocketAddr) : Bytes :=
  100 :: (writeBytes (Vault.toUtf8 "ip") ++ writeBytes addr.ip.text ++
    writeBytes (Vault.toUtf8 "port") ++ writeInt addr.port) ++ [101]

namespace AnnounceResponse

variable (response : AnnounceResponse)

def v4 : List SocketAddr := response.peers.filter SocketAddr.isIpv4

def v6 : List SocketAddr := response.peers.filter SocketAddr.isIpv6

/-- The keys in order, and `peers6` only when compact. -/
def toBencode (compact : Bool) : Bytes :=
  let v6Count := response.v6.length
  let v4Count := response.peers.length - v6Count
  100 :: (putInt "complete" (asI64 response.complete) ++
    putInt "incomplete" (asI64 response.incomplete) ++
    putInt "interval" interval ++
    putInt "min interval" minInterval ++
    writeBytes (Vault.toUtf8 "peers") ++
    (if compact then
      writeLen (v4Count * 6) ++ response.v4.flatMap packCompact
    else
      108 :: (response.v4 ++ response.v6).flatMap putPeer ++ [101]) ++
    (if compact ∧ 0 < v6Count then
      writeBytes (Vault.toUtf8 "peers6") ++ writeLen (v6Count * 18) ++
        response.v6.flatMap packCompact
    else [])) ++ [101]

/-- What holds of every response: the ports are `u16`s, the counts are below
`2^63`, and the peers are as many as memory holds. -/
structure InMemory : Prop where
  ports : ∀ addr ∈ response.peers, addr.port < 65536
  complete : response.complete < 9223372036854775808
  incomplete : response.incomplete < 9223372036854775808
  peers : response.peers.length * 18 < Rust.u64Bound

def peerValue (addr : SocketAddr) : Value :=
  .dict [(Vault.toUtf8 "ip", .bytes addr.ip.text),
    (Vault.toUtf8 "port", .int addr.port)]

def peersValue (compact : Bool) : Value :=
  if compact then .bytes (response.v4.flatMap packCompact)
  else .list ((response.v4 ++ response.v6).map peerValue)

/-- The entries of the answer. -/
def fields (compact : Bool) : List (Bytes × Value) :=
  [(Vault.toUtf8 "complete", .int response.complete),
    (Vault.toUtf8 "incomplete", .int response.incomplete),
    (Vault.toUtf8 "interval", .int interval),
    (Vault.toUtf8 "min interval", .int minInterval),
    (Vault.toUtf8 "peers", response.peersValue compact)] ++
  if compact ∧ response.v6 ≠ [] then
    [(Vault.toUtf8 "peers6", .bytes (response.v6.flatMap packCompact))]
  else []

end AnnounceResponse

def fromBe (bytes : Bytes) : Nat := Vault.littleEndian bytes.reverse

/-- The records of a packed list: so many octets, and the port. -/
def unpack (width : Nat) (ip : Nat → Rust.IpAddr) (packed : Bytes) :
    List SocketAddr :=
  (Rust.chunks (width + 2) packed).map fun record =>
    ⟨ip (fromBe (record.take width)), fromBe (record.drop width)⟩

/-- The six-byte records of `peers`. -/
def unpackV4 : Bytes → List SocketAddr :=
  unpack 4 fun octets => .v4 (BitVec.ofNat 32 octets)

/-- The eighteen-byte records of `peers6`. -/
def unpackV6 : Bytes → List SocketAddr :=
  unpack 16 fun octets => .v6 (BitVec.ofNat 128 octets)

section Packing

theorem length_beBytes (width value : Nat) :
    (beBytes width value).length = width := by
  rw [beBytes, List.length_reverse, Vault.length_leBytes]

theorem fromBe_beBytes {width value : Nat} (fits : value < 256 ^ width) :
    fromBe (beBytes width value) = value := by
  rw [fromBe, beBytes, List.reverse_reverse, Vault.littleEndian_leBytes fits]

/-- An address as the octets it is packed into, and read from. -/
structure Packs (width : Nat) (ip : Nat → Rust.IpAddr) (octets : Nat)
    (addr : SocketAddr) : Prop where
  packed : packCompact addr = beBytes width octets ++ beBytes 2 addr.port
  fits : octets < 256 ^ width
  read : ip octets = addr.ip

variable {addr : SocketAddr} {peers : List SocketAddr}
variable {width : Nat} {ip : Nat → Rust.IpAddr}

theorem Packs.length {octets : Nat} (packs : Packs width ip octets addr) :
    (packCompact addr).length = width + 2 := by
  rw [packs.packed, List.length_append, length_beBytes, length_beBytes]

theorem packs_v4 (isIpv4 : addr.isIpv4 = true) :
    ∃ octets, Packs 4 (fun octets => .v4 (BitVec.ofNat 32 octets)) octets
      addr := by
  obtain ⟨ip, port⟩ := addr
  cases ip with
  | v6 bits => cases isIpv4
  | v4 bits =>
    refine ⟨bits.toNat, rfl, bits.isLt, ?_⟩
    simp only [BitVec.ofNat_toNat, BitVec.setWidth_eq]

theorem packs_v6 (isIpv6 : addr.isIpv6 = true) :
    ∃ octets, Packs 16 (fun octets => .v6 (BitVec.ofNat 128 octets)) octets
      addr := by
  obtain ⟨ip, port⟩ := addr
  cases ip with
  | v4 bits => cases isIpv6
  | v6 bits =>
    refine ⟨bits.toNat, rfl, bits.isLt, ?_⟩
    simp only [BitVec.ofNat_toNat, BitVec.setWidth_eq]

theorem length_packed
    (each : ∀ addr ∈ peers, ∃ octets, Packs width ip octets addr) :
    (peers.flatMap packCompact).length = peers.length * (width + 2) := by
  refine Rust.length_flatMap_of_full fun addr member => ?_
  obtain ⟨octets, packs⟩ := each addr member
  exact packs.length

/-- What was packed is taken apart again, in the same order. -/
theorem unpack_packed
    (each : ∀ addr ∈ peers, ∃ octets, Packs width ip octets addr)
    (ports : ∀ addr ∈ peers, addr.port < 65536) :
    unpack width ip (peers.flatMap packCompact) = peers := by
  have full : ∀ addr ∈ peers, (packCompact addr).length = width + 2 := by
    intro addr member
    obtain ⟨octets, packs⟩ := each addr member
    exact packs.length
  rw [unpack, Rust.chunks_flatMap (Nat.succ_pos _) full, List.map_map]
  refine (List.map_congr_left fun addr member => ?_).trans (List.map_id _)
  obtain ⟨octets, packs⟩ := each addr member
  have port : fromBe (beBytes 2 addr.port) = addr.port :=
    fromBe_beBytes (ports addr member)
  rw [Function.comp_apply, packs.packed, List.take_left' (length_beBytes _ _),
    List.drop_left' (length_beBytes _ _), fromBe_beBytes packs.fits, port,
    packs.read]
  rfl

end Packing

section Encoding

variable {response : AnnounceResponse} {compact : Bool}

theorem isIpv6_eq_not (addr : SocketAddr) : addr.isIpv6 = !addr.isIpv4 := by
  obtain ⟨ip, port⟩ := addr
  cases ip with
  | v4 bits => rfl
  | v6 bits => rfl

/-- No peer is of both families, and none of neither. -/
theorem families_perm (response : AnnounceResponse) :
    (response.v4 ++ response.v6).Perm response.peers := by
  have other : response.v6 =
      response.peers.filter fun addr => !addr.isIpv4 := by
    rw [AnnounceResponse.v6]
    exact List.filter_congr fun addr _ => isIpv6_eq_not addr
  rw [other, AnnounceResponse.v4]
  exact List.filter_append_perm _ _

theorem length_v4 (response : AnnounceResponse) :
    response.peers.length - response.v6.length = response.v4.length := by
  have whole := (families_perm response).length_eq
  rw [List.length_append] at whole
  omega

theorem all_v4 (response : AnnounceResponse) :
    ∀ addr ∈ response.v4, addr.isIpv4 = true :=
  fun _ member => (List.mem_filter.mp member).2

theorem all_v6 (response : AnnounceResponse) :
    ∀ addr ∈ response.v6, addr.isIpv6 = true :=
  fun _ member => (List.mem_filter.mp member).2

theorem flatMap_putPeer (peers : List SocketAddr) :
    peers.flatMap putPeer =
      Bencode.writeItems (peers.map AnnounceResponse.peerValue) := by
  induction peers with
  | nil => rfl
  | cons addr peers ih =>
    have one : putPeer addr = (AnnounceResponse.peerValue addr).write := by
      simp only [putPeer, AnnounceResponse.peerValue, Value.write,
        Bencode.writeEntries, List.append_nil, List.append_assoc]
    rw [List.flatMap_cons, ih, List.map_cons, Bencode.writeItems, one]

theorem asI64_of_small {number : Nat} (small : number < 9223372036854775808) :
    asI64 number = number :=
  if_pos small

/-- What is streamed is what the encoder writes. -/
theorem toBencode_eq (inMemory : response.InMemory) (compact : Bool) :
    response.toBencode compact =
      (Value.dict (response.fields compact)).encode := by
  have packed4 : writeBytes (response.v4.flatMap packCompact) =
      writeLen (response.v4.length * 6) ++
        response.v4.flatMap packCompact := by
    rw [writeBytes, length_packed fun addr member =>
      packs_v4 (all_v4 response addr member)]
  have packed6 : writeBytes (response.v6.flatMap packCompact) =
      writeLen (response.v6.length * 18) ++
        response.v6.flatMap packCompact := by
    rw [writeBytes, length_packed fun addr member =>
      packs_v6 (all_v6 response addr member)]
  have some6 : 0 < response.v6.length ↔ response.v6 ≠ [] :=
    List.length_pos_iff
  cases compact with
  | true =>
    by_cases any6 : response.v6 ≠ []
    · simp only [AnnounceResponse.toBencode, putInt, length_v4,
        asI64_of_small inMemory.complete, asI64_of_small inMemory.incomplete,
        if_true, some6, any6, and_self, AnnounceResponse.fields,
        AnnounceResponse.peersValue, Value.encode, Value.write,
        Bencode.writeEntries, packed4, packed6, List.cons_append,
        List.nil_append, List.append_assoc, List.append_nil, ne_eq,
        not_false_eq_true]
    · simp only [AnnounceResponse.toBencode, putInt, length_v4,
        asI64_of_small inMemory.complete, asI64_of_small inMemory.incomplete,
        if_true, some6, any6, and_false, if_false, AnnounceResponse.fields,
        AnnounceResponse.peersValue, Value.encode, Value.write,
        Bencode.writeEntries, packed4, List.cons_append, List.append_assoc,
        List.append_nil]
  | false =>
    simp only [AnnounceResponse.toBencode, putInt, length_v4,
      asI64_of_small inMemory.complete, asI64_of_small inMemory.incomplete,
      if_false, Bool.false_eq_true, false_and, AnnounceResponse.fields,
      AnnounceResponse.peersValue, Value.encode, Value.write,
      Bencode.writeEntries, flatMap_putPeer, List.cons_append,
      List.nil_append, List.append_assoc, List.append_nil]

theorem wellFormed_peerValue {addr : SocketAddr} (port : addr.port < 65536) :
    (AnnounceResponse.peerValue addr).WellFormed ∧
      (AnnounceResponse.peerValue addr).levels = 2 := by
  have text := Rust.IpAddr.length_text addr.ip
  have keys : (Vault.toUtf8 "ip").length < Rust.u64Bound ∧
      (Vault.toUtf8 "port").length < Rust.u64Bound ∧
      Vault.toUtf8 "ip" < Vault.toUtf8 "port" := by
    decide +kernel
  refine ⟨.dict ?_ ?_ ?_, rfl⟩
  · exact List.pairwise_pair.mpr keys.2.2
  · exact List.forall_mem_cons.mpr
      ⟨keys.1, List.forall_mem_singleton.mpr keys.2.1⟩
  · refine List.forall_mem_cons.mpr
      ⟨.bytes (Nat.lt_of_le_of_lt text (by decide)),
        List.forall_mem_singleton.mpr (.int ?_ ?_)⟩
    · rw [Rust.i64Min]
      omega
    · rw [Rust.i64Max]
      omega

theorem packed_fits (inMemory : response.InMemory) :
    (response.v4.flatMap packCompact).length < Rust.u64Bound ∧
      (response.v6.flatMap packCompact).length < Rust.u64Bound := by
  have four := length_packed fun addr member =>
    packs_v4 (all_v4 response addr member)
  have six := length_packed fun addr member =>
    packs_v6 (all_v6 response addr member)
  have counted := (families_perm response).length_eq
  have bound := inMemory.peers
  rw [List.length_append] at counted
  omega

theorem ports_of_mem (inMemory : response.InMemory) {addr : SocketAddr}
    (member : addr ∈ response.v4 ++ response.v6) : addr.port < 65536 :=
  inMemory.ports addr ((families_perm response).mem_iff.mp member)

theorem fits_peersValue (inMemory : response.InMemory) (compact : Bool) :
    (response.peersValue compact).WellFormed ∧
      (response.peersValue compact).levels ≤ 3 := by
  cases compact with
  | true => exact ⟨.bytes (packed_fits inMemory).1, Nat.le_add_left 1 2⟩
  | false =>
    have each : ∀ addr ∈ response.v4 ++ response.v6,
        (AnnounceResponse.peerValue addr).WellFormed ∧
          (AnnounceResponse.peerValue addr).levels = 2 :=
      fun addr member => wellFormed_peerValue (ports_of_mem inMemory member)
    refine ⟨.list (List.forall_mem_map.mpr fun addr member =>
      (each addr member).1), ?_⟩
    have deep : Bencode.valueLevels ((response.v4 ++ response.v6).map
        AnnounceResponse.peerValue) ≤ 2 :=
      Bencode.valueLevels_le (List.forall_mem_map.mpr fun addr member =>
        Nat.le_of_eq (each addr member).2)
    exact Nat.succ_le_succ deep

def fieldKeys : List Bytes :=
  ["complete", "incomplete", "interval", "min interval", "peers",
    "peers6"].map Vault.toUtf8

theorem fieldKeys_ascending : fieldKeys.Pairwise (· < ·) ∧
    ∀ key ∈ fieldKeys, key.length < Rust.u64Bound := by
  decide +kernel

theorem keys_of_fields (response : AnnounceResponse) (compact : Bool) :
    ((response.fields compact).map (·.1)).Sublist fieldKeys := by
  unfold AnnounceResponse.fields
  split
  · exact List.Sublist.refl _
  · exact List.sublist_append_left
      (["complete", "incomplete", "interval", "min interval",
        "peers"].map Vault.toUtf8) _

theorem wellFormed_fields (inMemory : response.InMemory) (compact : Bool) :
    (Value.dict (response.fields compact)).WellFormed ∧
      (Value.dict (response.fields compact)).levels ≤ 4 := by
  have keys := keys_of_fields response compact
  obtain ⟨ascending, short⟩ := fieldKeys_ascending
  obtain ⟨peers, deep⟩ := fits_peersValue inMemory compact
  have number {count : Nat} (small : count < 9223372036854775808) :
      (Value.int count).WellFormed := by
    refine .int ?_ ?_
    · rw [Rust.i64Min]
      omega
    · rw [Rust.i64Max]
      omega
  have each : ∀ entry ∈ response.fields compact,
      entry.2.WellFormed ∧ entry.2.levels ≤ 3 := by
    intro entry member
    rcases List.mem_append.mp member with base | last
    · simp only [List.mem_cons, List.not_mem_nil, or_false] at base
      rcases base with rfl | rfl | rfl | rfl | rfl
      · exact ⟨number inMemory.complete, Nat.le_add_left 1 2⟩
      · exact ⟨number inMemory.incomplete, Nat.le_add_left 1 2⟩
      · exact ⟨number (by decide), Nat.le_add_left 1 2⟩
      · exact ⟨number (by decide), Nat.le_add_left 1 2⟩
      · exact ⟨peers, deep⟩
    · split at last
      · rw [List.mem_singleton.mp last]
        exact ⟨.bytes (packed_fits inMemory).2, Nat.le_add_left 1 2⟩
      · cases last
  refine ⟨.dict (ascending.sublist keys) (fun entry member => ?_)
    fun entry member => (each entry member).1, Nat.succ_le_succ
      (Bencode.entryLevels_le fun entry member => (each entry member).2)⟩
  exact short _ (keys.subset (List.mem_map_of_mem member))

theorem get_fields {key : Bytes}
    {value : Value} (member : (key, value) ∈ response.fields compact) :
    Rust.BTreeMap.get (response.fields compact) key = some value :=
  Rust.BTreeMap.get_of_mem
    (fieldKeys_ascending.1.sublist (keys_of_fields response compact)) member

theorem get_peers (response : AnnounceResponse) (compact : Bool) :
    Rust.BTreeMap.get (response.fields compact) (Vault.toUtf8 "peers") =
      some (response.peersValue compact) := by
  refine get_fields (List.mem_append_left _ ?_)
  simp

theorem get_peers6 (response : AnnounceResponse) (compact : Bool) :
    Rust.BTreeMap.get (response.fields compact) (Vault.toUtf8 "peers6") =
      if compact ∧ response.v6 ≠ [] then
        some (.bytes (response.v6.flatMap packCompact))
      else none := by
  split
  · rename_i both
    refine get_fields (List.mem_append_right _ ?_)
    rw [if_pos both]
    exact List.mem_singleton.mpr rfl
  · rename_i neither
    rw [Rust.BTreeMap.get_eq_none, AnnounceResponse.fields, if_neg neither,
      List.append_nil]
    have absent : Vault.toUtf8 "peers6" ∉ ["complete", "incomplete",
        "interval", "min interval", "peers"].map Vault.toUtf8 := by
      decide +kernel
    exact absent

/-- The answer decodes to a dictionary and is the encoding of it.  In compact
form its packed lists hold every IPv4 and every IPv6 peer, in order; in the
list form there is an entry for every peer, those of IPv4 first. -/
theorem response_read_back (response : AnnounceResponse)
    (inMemory : response.InMemory) (compact : Bool) :
    ∃ entries : List (Bytes × Value),
      Value.decode (response.toBencode compact) = .ok (.dict entries) ∧
      (Value.dict entries).encode = response.toBencode compact ∧
      (compact = true →
        (∃ packed, Rust.BTreeMap.get entries (Vault.toUtf8 "peers") =
            some (.bytes packed) ∧
          packed.length = response.v4.length * 6 ∧
          unpackV4 packed = response.v4) ∧
        (response.v6 = [] →
          Rust.BTreeMap.get entries (Vault.toUtf8 "peers6") = none) ∧
        (response.v6 ≠ [] → ∃ packed,
          Rust.BTreeMap.get entries (Vault.toUtf8 "peers6") =
            some (.bytes packed) ∧
          packed.length = response.v6.length * 18 ∧
          unpackV6 packed = response.v6)) ∧
      (compact = false →
        Rust.BTreeMap.get entries (Vault.toUtf8 "peers") =
          some (.list ((response.v4 ++ response.v6).map fun addr =>
            .dict [(Vault.toUtf8 "ip", .bytes addr.ip.text),
              (Vault.toUtf8 "port", .int addr.port)])) ∧
        Rust.BTreeMap.get entries (Vault.toUtf8 "peers6") = none) ∧
      (response.v4 ++ response.v6).Perm response.peers := by
  obtain ⟨wellFormed, shallow⟩ := wellFormed_fields inMemory compact
  have encoded := toBencode_eq inMemory compact
  refine ⟨response.fields compact, ?_, encoded.symm, ?_, ?_,
    families_perm response⟩
  · rw [encoded, Bencode.decode_encode wellFormed,
      if_pos (Nat.le_trans shallow (by decide))]
  · intro isCompact
    subst isCompact
    refine ⟨⟨_, get_peers response true, ?_, ?_⟩, fun none_ => ?_,
      fun some_ => ⟨response.v6.flatMap packCompact, ?_, ?_, ?_⟩⟩
    · exact length_packed fun addr member =>
        packs_v4 (all_v4 response addr member)
    · exact unpack_packed (fun addr member =>
        packs_v4 (all_v4 response addr member)) fun addr member =>
          ports_of_mem inMemory (List.mem_append_left _ member)
    · rw [get_peers6, if_neg (fun both => both.2 none_)]
    · rw [get_peers6, if_pos ⟨rfl, some_⟩]
    · exact length_packed fun addr member =>
        packs_v6 (all_v6 response addr member)
    · exact unpack_packed (fun addr member =>
        packs_v6 (all_v6 response addr member)) fun addr member =>
          ports_of_mem inMemory (List.mem_append_right _ member)
  · intro isList
    subst isList
    refine ⟨get_peers response false, ?_⟩
    rw [get_peers6, if_neg (fun both => Bool.false_ne_true both.1)]

/-- One peer of each family. -/
def bothFamilies : AnnounceResponse :=
  ⟨[⟨.v6 1#128, 6881⟩, ⟨.v4 0x0A000001#32, 51413⟩], 1, 1, ⟨0, 0⟩⟩

theorem both_families_read_back :
    (bothFamilies.toBencode false = Vault.toUtf8
      ("d8:completei1e10:incompletei1e8:intervali1800e12:min intervali900e" ++
        "5:peersld2:ip8:10.0.0.14:porti51413eed2:ip3:::14:porti6881eeee")) ∧
      ∃ entries, Value.decode (bothFamilies.toBencode true) =
          .ok (.dict entries) ∧
        ∃ packed, Rust.BTreeMap.get entries (Vault.toUtf8 "peers6") =
          some (.bytes packed) ∧ unpackV6 packed = [⟨.v6 1#128, 6881⟩] := by
  have inMemory : bothFamilies.InMemory :=
    ⟨by decide, by decide, by decide, by decide⟩
  obtain ⟨entries, decoded, -, compact, -⟩ :=
    response_read_back bothFamilies inMemory true
  obtain ⟨packed, given, -, read⟩ := (compact rfl).2.2 (by decide)
  exact ⟨by decide +kernel, entries, decoded, packed, given, read⟩

end Encoding

end Announce

end Sharerr
