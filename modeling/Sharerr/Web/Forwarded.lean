import Mathlib.Data.List.Basic
import Sharerr.Rust.Basic
import Sharerr.Rust.IpAddr
import Sharerr.Vault.File

/-!
# Whose request it is

A request is throttled as the nearest address its `X-Forwarded-For` headers
name that is no trusted proxy.  A header line that is not visible ASCII is left
out as a whole, with whatever a proxy wrote in it, so what a client can choose
depends on which lines the proxies have to themselves.
-/

namespace Sharerr

namespace Web

open Rust (IpAddr)

/-- One address or CIDR block. -/
structure IpRange where
  network : IpAddr
  bits : Nat
  fits : bits ≤ network.width
deriving Repr

/-- Whether an address falls inside the block. -/
def IpRange.contains (range : IpRange) (ip : IpAddr) : Bool :=
  match range.network, ip.toCanonical with
  | .v4 network, .v4 ip =>
    network >>> (32 - range.bits) = ip >>> (32 - range.bits)
  | .v6 network, .v6 ip =>
    network >>> (128 - range.bits) = ip >>> (128 - range.bits)
  | _, _ => false

/-- The part of `ServerConfig` that says whose headers are believed. -/
structure ServerConfig where
  trustedProxies : List IpRange
  authHeader : String

def ServerConfig.trusts (server : ServerConfig) (ip : IpAddr) : Bool :=
  server.trustedProxies.any (·.contains ip)

/-- The bytes a header value may have. -/
def isHeaderByte (byte : UInt8) : Bool :=
  (32 ≤ byte && byte ≠ 127) || byte = 9

abbrev HeaderValue := { bytes : Bytes // ∀ byte ∈ bytes, isHeaderByte byte }

/-- The bytes `to_str` lets through. -/
def isVisibleByte (byte : UInt8) : Bool :=
  (32 ≤ byte && byte < 127) || byte = 9

namespace HeaderValue

def isVisible (value : HeaderValue) : Bool :=
  value.1.all isVisibleByte

def text (bytes : Bytes) : String :=
  String.ofList (bytes.map fun byte => Char.ofNat byte.toNat)

/-- `HeaderValue::to_str`. -/
def toStr (value : HeaderValue) : Option String :=
  if value.isVisible then some (text value.1) else none

end HeaderValue

/-- The header lines of a request in order, under their lower-case names. -/
abbrev HeaderMap := List (String × HeaderValue)

namespace HeaderMap

def getAll (headers : HeaderMap) (name : String) : List HeaderValue :=
  (headers.filter fun line => line.1 = name).map (·.2)

/-- The first line of a name, which is looked up in lower case. -/
def get (headers : HeaderMap) (name : String) : Option HeaderValue :=
  (headers.getAll name.toLower).head?

end HeaderMap

def splitCommas (text : String) : List String :=
  (text.toList.splitOn ',').map String.ofList

def hops (headers : HeaderMap) : List String :=
  ((headers.getAll "x-forwarded-for").filterMap HeaderValue.toStr).flatMap
    splitCommas

/-- The loop of `client_address`, over the hops from the right. -/
def walk (server : ServerConfig) : IpAddr → List String → IpAddr
  | client, [] => client
  | client, hop :: hops =>
    match IpAddr.parse (Rust.trim hop) with
    | none => client
    | some ip => if server.trusts ip then walk server ip hops else ip

def clientAddress (server : ServerConfig) (peer : IpAddr)
    (headers : HeaderMap) : IpAddr :=
  if server.trusts peer then walk server peer (hops headers).reverse else peer

def vouchedUser (server : ServerConfig) (peer : Option IpAddr)
    (headers : HeaderMap) : Option String := do
  if server.authHeader.isEmpty then none
  else
    let peer ← peer
    if ¬ server.trusts peer then none
    else
      let value ← headers.get server.authHeader
      let name := Rust.trim (← value.toStr)
      if name.isEmpty then none else some name

def comma : UInt8 := 44

/-- What the proxies add to the `X-Forwarded-For` lines of a client: an ending
to its last line, if they write on it, and lines of their own. -/
structure Added where
  ending : Option HeaderValue
  lines : List HeaderValue

/-- A line of the client with an ending behind a comma. -/
def HeaderValue.ended (line ending : HeaderValue) : HeaderValue :=
  ⟨line.1 ++ comma :: ending.1, by
    intro byte member
    rcases List.mem_append.mp member with mine | theirs
    · exact line.2 byte mine
    · rcases List.mem_cons.mp theirs with rfl | theirs
      · decide
      · exact ending.2 byte theirs⟩

/-- What a client sends: whole lines, and the line an ending is written on. -/
structure Sent where
  lines : List HeaderValue
  last : HeaderValue

/-- The `X-Forwarded-For` lines that arrive. -/
def Added.arriving (added : Added) (sent : Sent) : List HeaderValue :=
  match added.ending with
  | none => sent.lines ++ added.lines
  | some ending => sent.lines ++ sent.last.ended ending :: added.lines

/-- A request with these lines, among any other headers. -/
def Arrives (added : Added) (sent : Sent) (headers : HeaderMap) : Prop :=
  headers.getAll "x-forwarded-for" = added.arriving sent

/-- The entries of a line, as the bytes between its commas. -/
def lineEntries (line : HeaderValue) : List Bytes :=
  line.1.splitOn comma

/-- The entries the proxies added. -/
def Added.entries (added : Added) : List Bytes :=
  (added.ending.toList ++ added.lines).flatMap lineEntries

/-- The address an entry is, if it is one. -/
def address? (entry : Bytes) : Option IpAddr :=
  if entry.all isVisibleByte then
    IpAddr.parse (Rust.trim (HeaderValue.text entry))
  else none

/-- An entry that is not a trusted proxy's address, or not an address at
all. -/
def stops (server : ServerConfig) (entry : Bytes) : Bool :=
  (address? entry).all fun ip => !server.trusts ip

/-- A line of the proxies' own that is visible ASCII and has such an entry. -/
def Added.Closes (server : ServerConfig) (added : Added) : Prop :=
  ∃ line ∈ added.lines, line.isVisible ∧
    ∃ entry ∈ lineEntries line, stops server entry

/-- No client has a say in the address it is throttled as: two requests with
the same additions are throttled alike, as the connection or as one of the
entries that were added. -/
def Unchosen (server : ServerConfig) (peer : IpAddr) (added : Added) : Prop :=
  ∀ sent other headers others, Arrives added sent headers →
    Arrives added other others →
      clientAddress server peer headers = clientAddress server peer others ∧
        (clientAddress server peer headers = peer ∨
          ∃ entry ∈ added.entries,
            address? entry = some (clientAddress server peer headers))

section Walk

variable {server : ServerConfig} {client peer : IpAddr} {near far : List String}

/-- A hop that ends the walk. -/
def Halts (server : ServerConfig) (hop : String) : Prop :=
  ∀ ip, IpAddr.parse (Rust.trim hop) = some ip → server.trusts ip = false

theorem walk_of_halt (halts : ∃ hop ∈ near, Halts server hop) :
    walk server client (near ++ far) = walk server client near := by
  induction near generalizing client with
  | nil =>
    obtain ⟨hop, member, -⟩ := halts
    cases member
  | cons hop near ih =>
    obtain ⟨other, member, ends⟩ := halts
    simp only [List.cons_append, walk]
    cases parsed : IpAddr.parse (Rust.trim hop) with
    | none => rfl
    | some ip =>
      dsimp only
      by_cases trusted : server.trusts ip
      · rw [if_pos trusted, if_pos trusted]
        apply ih
        rcases List.mem_cons.mp member with rfl | later
        · rw [ends ip parsed] at trusted
          cases trusted
        · exact ⟨other, later, ends⟩
      · rw [if_neg trusted, if_neg trusted]

/-- Past hops that all are trusted proxies the walk goes on, whoever it
started with. -/
theorem walk_of_trusted {hop : String} {ip : IpAddr}
    (trusted : ∀ other ∈ near, ¬ Halts server other)
    (parsed : IpAddr.parse (Rust.trim hop) = some ip) :
    walk server client (near ++ [hop]) = ip := by
  induction near generalizing client with
  | nil =>
    simp only [List.nil_append, walk, parsed]
    split <;> rfl
  | cons other near ih =>
    have goes := trusted other List.mem_cons_self
    simp only [Halts, not_forall] at goes
    obtain ⟨address, found, believed⟩ := goes
    have believes : server.trusts address = true :=
      Bool.of_not_eq_false believed
    simp only [List.cons_append, walk, found, believes, if_true]
    exact ih fun each member => trusted each (List.mem_cons_of_mem _ member)

theorem walk_eq (server : ServerConfig) (client : IpAddr)
    (hops : List String) :
    walk server client hops = client ∨ ∃ hop ∈ hops,
      IpAddr.parse (Rust.trim hop) = some (walk server client hops) := by
  induction hops generalizing client with
  | nil => exact .inl rfl
  | cons hop hops ih =>
    simp only [walk]
    cases parsed : IpAddr.parse (Rust.trim hop) with
    | none => exact .inl rfl
    | some ip =>
      right
      dsimp only
      split
      · rcases ih ip with same | ⟨other, member, found⟩
        · exact ⟨hop, List.mem_cons_self, by rw [parsed, same]⟩
        · exact ⟨other, List.mem_cons_of_mem _ member, found⟩
      · exact ⟨hop, List.mem_cons_self, parsed⟩

end Walk

theorem char_eq_comma_iff (byte : UInt8) :
    Char.ofNat byte.toNat = ',' ↔ byte = comma := by
  have only : ∀ code : Fin 256, Char.ofNat code = ',' → code.val = 44 := by
    decide +kernel
  constructor
  · intro same
    exact UInt8.toNat_inj.mp (only ⟨byte.toNat, byte.toNat_lt⟩ same)
  · rintro rfl
    rfl

theorem splitOn_map (bytes : Bytes) :
    (bytes.map fun byte => Char.ofNat byte.toNat).splitOn ',' =
      (bytes.splitOn comma).map
        (List.map fun byte => Char.ofNat byte.toNat) := by
  induction bytes with
  | nil => simp
  | cons byte bytes ih =>
    rw [List.map_cons, List.splitOn_cons_eq_if_modifyHead,
      List.splitOn_cons_eq_if_modifyHead, ih]
    by_cases separates : byte = comma
    · have same := (char_eq_comma_iff byte).mpr separates
      simp only [separates, (char_eq_comma_iff comma).mpr rfl, beq_self_eq_true,
        if_true, List.map_cons, List.map_nil]
    · have other : Char.ofNat byte.toNat ≠ ',' :=
        mt (char_eq_comma_iff byte).mp separates
      simp only [beq_iff_eq, separates, other, if_false]
      cases bytes.splitOn comma <;> rfl

theorem splitCommas_text (line : HeaderValue) :
    splitCommas (HeaderValue.text line.1) =
      (lineEntries line).map HeaderValue.text := by
  simp only [splitCommas, HeaderValue.text, String.toList_ofList, splitOn_map,
    lineEntries, List.map_map]
  rfl

theorem mem_of_mem_splitOn {bytes entry : Bytes} {byte : UInt8}
    (piece : entry ∈ bytes.splitOn comma) (member : byte ∈ entry) :
    byte ∈ bytes := by
  induction bytes generalizing entry with
  | nil =>
    rw [List.splitOn_nil, List.mem_singleton] at piece
    subst piece
    cases member
  | cons first bytes ih =>
    rw [List.splitOn_cons_eq_if_modifyHead] at piece
    split at piece
    · rcases List.mem_cons.mp piece with rfl | later
      · cases member
      · exact List.mem_cons_of_mem _ (ih later member)
    · cases split : bytes.splitOn comma with
      | nil => exact absurd split (List.splitOn_ne_nil comma bytes)
      | cons head pieces =>
        rw [split] at piece ih
        rcases List.mem_cons.mp piece with rfl | later
        · rcases List.mem_cons.mp member with rfl | inside
          · exact List.mem_cons_self
          · exact List.mem_cons_of_mem _
              (ih List.mem_cons_self inside)
        · exact List.mem_cons_of_mem _
            (ih (List.mem_cons_of_mem _ later) member)

theorem address?_of_visible {line : HeaderValue} {entry : Bytes}
    (visible : line.isVisible = true) (member : entry ∈ lineEntries line) :
    address? entry = IpAddr.parse (Rust.trim (HeaderValue.text entry)) := by
  have readable : entry.all isVisibleByte = true := by
    apply List.all_eq_true.mpr
    intro byte inside
    exact List.all_eq_true.mp visible byte (mem_of_mem_splitOn member inside)
  rw [address?, if_pos readable]

theorem halts_iff {server : ServerConfig} {line : HeaderValue} {entry : Bytes}
    (visible : line.isVisible = true) (member : entry ∈ lineEntries line) :
    Halts server (HeaderValue.text entry) ↔ stops server entry = true := by
  rw [stops, address?_of_visible visible member, Halts]
  cases IpAddr.parse (Rust.trim (HeaderValue.text entry)) with
  | none => simp
  | some ip => simp

/-- The hops of some lines. -/
def lineHops (lines : List HeaderValue) : List String :=
  (lines.filterMap HeaderValue.toStr).flatMap splitCommas

theorem lineHops_append (first second : List HeaderValue) :
    lineHops (first ++ second) = lineHops first ++ lineHops second := by
  simp [lineHops, List.filterMap_append, List.flatMap_append]

theorem mem_lineHops {lines : List HeaderValue} {hop : String} :
    hop ∈ lineHops lines ↔ ∃ line ∈ lines, line.isVisible = true ∧
      ∃ entry ∈ lineEntries line, hop = HeaderValue.text entry := by
  simp only [lineHops, List.mem_flatMap, List.mem_filterMap]
  constructor
  · rintro ⟨text, ⟨line, member, shown⟩, piece⟩
    rw [HeaderValue.toStr] at shown
    split at shown
    · rename_i visible
      cases shown
      rw [splitCommas_text] at piece
      obtain ⟨entry, inside, same⟩ := List.mem_map.mp piece
      exact ⟨line, member, visible, entry, inside, same.symm⟩
    · cases shown
  · rintro ⟨line, member, visible, entry, inside, rfl⟩
    refine ⟨HeaderValue.text line.1, ⟨line, member, ?_⟩, ?_⟩
    · rw [HeaderValue.toStr, if_pos visible]
    · rw [splitCommas_text]
      exact List.mem_map.mpr ⟨entry, inside, rfl⟩

section Unchosen

variable {server : ServerConfig} {peer : IpAddr} {added : Added}

/-- The lines of an arriving request, up to those of the proxies' own. -/
def Added.front (added : Added) (sent : Sent) : List HeaderValue :=
  sent.lines ++ (added.ending.map sent.last.ended).toList

theorem arriving_eq (added : Added) (sent : Sent) :
    added.arriving sent = added.front sent ++ added.lines := by
  cases ended : added.ending with
  | none => simp [Added.arriving, Added.front, ended]
  | some ending => simp [Added.arriving, Added.front, ended]

theorem clientAddress_of_arrives {sent : Sent} {headers : HeaderMap}
    (trusted : server.trusts peer = true)
    (arrives : Arrives added sent headers) :
    clientAddress server peer headers = walk server peer
      ((lineHops added.lines).reverse ++
        (lineHops (added.front sent)).reverse) := by
  have whole : hops headers = lineHops (added.arriving sent) := by
    rw [← show headers.getAll "x-forwarded-for" = added.arriving sent from
      arrives]
    rfl
  rw [clientAddress, if_pos trusted, whole, arriving_eq, lineHops_append,
    List.reverse_append]

theorem halt_of_closes (closes : added.Closes server) :
    ∃ hop ∈ (lineHops added.lines).reverse, Halts server hop := by
  obtain ⟨line, member, visible, entry, inside, ends⟩ := closes
  refine ⟨HeaderValue.text entry, ?_, (halts_iff visible inside).mpr ends⟩
  apply List.mem_reverse.mpr
  exact mem_lineHops.mpr ⟨line, member, visible, entry, inside, rfl⟩

theorem closes_of_halt {hop : String}
    (member : hop ∈ (lineHops added.lines).reverse)
    (halts : Halts server hop) : added.Closes server := by
  obtain ⟨line, inLines, visible, entry, inside, rfl⟩ :=
    mem_lineHops.mp (List.mem_reverse.mp member)
  exact ⟨line, inLines, visible, entry, inside,
    (halts_iff visible inside).mp halts⟩

theorem unchosen_of_closes (closes : added.Closes server) :
    Unchosen server peer added := by
  intro sent other headers others arrives arrivesToo
  by_cases trusted : server.trusts peer
  · have halts := halt_of_closes closes
    rw [clientAddress_of_arrives trusted arrives,
      clientAddress_of_arrives trusted arrivesToo, walk_of_halt halts,
      walk_of_halt halts]
    refine ⟨rfl, ?_⟩
    rcases walk_eq server peer (lineHops added.lines).reverse with
      same | ⟨hop, member, parsed⟩
    · exact .inl same
    · obtain ⟨line, inLines, visible, entry, inside, rfl⟩ :=
        mem_lineHops.mp (List.mem_reverse.mp member)
      right
      refine ⟨entry, ?_, ?_⟩
      · exact List.mem_flatMap.mpr
          ⟨line, List.mem_append_right _ inLines, inside⟩
      · rw [address?_of_visible visible inside, parsed]
  · simp [clientAddress, trusted]

theorem unchosen_of_untrusted (untrusted : server.trusts peer = false) :
    Unchosen server peer added := by
  intro sent other headers others _ _
  simp [clientAddress, untrusted]

/-- A header value that is an address. -/
def plain (digits : List Char) (digit : ∀ character ∈ digits,
    isHeaderByte (UInt8.ofNat character.toNat) = true) : HeaderValue :=
  ⟨digits.map fun character => UInt8.ofNat character.toNat, by
    intro byte member
    obtain ⟨character, inside, rfl⟩ := List.mem_map.mp member
    exact digit character inside⟩

-- otherwise all characters are enumerated, where that instance is in scope
instance headerText (digits : List Char) :
    Decidable (∀ character ∈ digits,
      isHeaderByte (UInt8.ofNat character.toNat) = true) :=
  List.decidableBAll _ digits

def oneAddress : HeaderValue := plain "1.2.3.4".toList (by decide)

def otherAddress : HeaderValue := plain "5.6.7.8".toList (by decide)

/-- A byte that a header may have and `to_str` does not let through. -/
def garbled : HeaderValue :=
  ⟨[255], List.forall_mem_singleton.mpr (by decide)⟩

def sending (line : HeaderValue) : Sent := ⟨[line], garbled⟩

/-- A request that has these lines and nothing else. -/
def onlyLines (lines : List HeaderValue) : HeaderMap :=
  lines.map fun line => ("x-forwarded-for", line)

theorem getAll_onlyLines (lines : List HeaderValue) :
    (onlyLines lines).getAll "x-forwarded-for" = lines := by
  induction lines with
  | nil => rfl
  | cons line lines ih =>
    simp only [onlyLines, HeaderMap.getAll] at ih ⊢
    simp [ih]

theorem lineHops_sending (added : Added) (line : HeaderValue) :
    lineHops (added.front (sending line)) = lineHops [line] := by
  rw [Added.front, lineHops_append]
  cases ended : added.ending with
  | none => simp [sending, lineHops]
  | some ending =>
    have dropped : (garbled.ended ending).isVisible = false := by
      simp [HeaderValue.isVisible, HeaderValue.ended, garbled,
        isVisibleByte]
    simp [sending, lineHops, HeaderValue.toStr, dropped]

/-- Without a line of the proxies' own that closes, a client is throttled as
the address it names. -/
theorem clientAddress_of_open (trusted : server.trusts peer = true)
    (opens : ¬ added.Closes server) {line : HeaderValue} {hop : String}
    {ip : IpAddr} (one : lineHops [line] = [hop])
    (parsed : IpAddr.parse (Rust.trim hop) = some ip) :
    clientAddress server peer
      (onlyLines (added.arriving (sending line))) = ip := by
  have arrives : Arrives added (sending line)
      (onlyLines (added.arriving (sending line))) :=
    getAll_onlyLines _
  rw [clientAddress_of_arrives trusted arrives, lineHops_sending, one]
  apply walk_of_trusted _ parsed
  intro other member halts
  exact opens (closes_of_halt member halts)

theorem closes_of_unchosen (trusted : server.trusts peer = true)
    (unchosen : Unchosen server peer added) : added.Closes server := by
  by_contra opens
  have first : clientAddress server peer
      (onlyLines (added.arriving (sending oneAddress))) =
        .v4 0x01020304#32 := by
    have one : lineHops [oneAddress] = ["1.2.3.4"] := by decide +kernel
    exact clientAddress_of_open trusted opens one (by decide +kernel)
  have second : clientAddress server peer
      (onlyLines (added.arriving (sending otherAddress))) =
        .v4 0x05060708#32 := by
    have one : lineHops [otherAddress] = ["5.6.7.8"] := by decide +kernel
    exact clientAddress_of_open trusted opens one (by decide +kernel)
  have same := (unchosen (sending oneAddress) (sending otherAddress) _ _
    (getAll_onlyLines _) (getAll_onlyLines _)).1
  rw [first, second] at same
  revert same
  decide

/-- No client can choose the address it is throttled as exactly when the
connection is no trusted proxy's, or some line of the proxies' own is visible
ASCII and has an entry that is not a trusted proxy's address.  From a connection
that is not trusted no header is believed. -/
theorem unchosen_iff (server : ServerConfig) (peer : IpAddr) (added : Added) :
    (Unchosen server peer added ↔
      server.trusts peer = false ∨ added.Closes server) ∧
    (server.trusts peer = false → ∀ headers,
      clientAddress server peer headers = peer ∧
        vouchedUser server (some peer) headers = none) := by
  constructor
  · constructor
    · intro unchosen
      by_cases trusted : server.trusts peer
      · exact .inr (closes_of_unchosen trusted unchosen)
      · exact .inl (by simpa using trusted)
    · rintro (untrusted | closes)
      · exact unchosen_of_untrusted untrusted
      · exact unchosen_of_closes closes
  · intro untrusted headers
    constructor
    · simp [clientAddress, untrusted]
    · simp [vouchedUser, untrusted]

end Unchosen

/-- One trusted network, `172.18.0.0/16`. -/
def behindProxy : ServerConfig :=
  ⟨[⟨.v4 0xAC120000#32, 16, by decide⟩], ""⟩

/-- The proxy at `172.18.0.2` adds the address it heard from. -/
def proxied : Added := ⟨some (plain " 203.0.113.9".toList (by decide)), []⟩

/-- The client names `1.2.3.4` on a line of its own and ends the next one with
a byte that makes it unreadable. -/
theorem client_chooses_address :
    stops behindProxy (plain " 203.0.113.9".toList (by decide)).1 = true ∧
      behindProxy.trusts (.v4 0xAC120002#32) = true ∧
        clientAddress behindProxy (.v4 0xAC120002#32)
            (onlyLines (proxied.arriving (sending oneAddress))) =
          .v4 0x01020304#32 ∧
          ¬ Unchosen behindProxy (.v4 0xAC120002#32) proxied := by
  refine ⟨by decide +kernel, by decide +kernel, by decide +kernel, ?_⟩
  intro unchosen
  have same := (unchosen (sending oneAddress) (sending otherAddress) _ _
    (getAll_onlyLines _) (getAll_onlyLines _)).1
  revert same
  decide +kernel

end Web

end Sharerr
