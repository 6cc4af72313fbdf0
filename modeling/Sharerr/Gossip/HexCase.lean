import Sharerr.Gossip.Return
import Sharerr.Lighthouse.Verify

/-!
# A friend whose key is spelled in the other case

A signature is checked against the key that a `pubkey` spells, in either case
of its digits.  The lighthouse compares what two records spell, and everyone
else compares the texts.
-/

namespace Process

variable {World Call : Type} {Answer : Call → Type} {α : Type}

/-- A program run alone ends in one of the values it can end in. -/
theorem Prog.Returns.alone (good : α → Prop) {program : Prog Call Answer α}
    (returns : program.Returns good)
    (respond : Responder World Call Answer) (calls : Nat) (world : World) :
    good (program.alone respond calls world).value := by
  induction program generalizing calls world with
  | done value => exact returns
  | call request next ih => exact ih _ (returns _) _ _

theorem Prog.bind_ne_done {β : Type} {program : Prog Call Answer α}
    {rest : α → Prog Call Answer β}
    (goesOn : ∀ value ended, rest value ≠ .done ended) (ended : β) :
    program.bind rest ≠ .done ended := by
  cases program with
  | done value => exact goesOn value ended
  | call request next =>
    intro same
    cases same

end Process

namespace Sharerr

namespace Gossip

open Process

variable {crates : Crates} {environment : Environment} {world : World}
variable {bound : String} {record : EndpointRecord}

/-- Whatever the loop has done so far, the record is taken for one of this
friend: accepted, or stale if it is no newer than theirs. -/
def SettledFor (crates : Crates) (snapshot : Snapshot)
    (record : EndpointRecord) (friend : Nat) : Prop :=
  ∀ state, ingestRecord crates snapshot state record =
    settleRecord snapshot state record friend

section Subject

variable {snapshot : Snapshot} {state : IngestState}

theorem subjectOf_of_listed {other : Peer}
    (found : byPubkey snapshot.peers record.pubkey = some other) :
    snapshot.subjectOf record =
      .done (if other.isRevoked then none else some other.id) := by
  rw [Snapshot.subjectOf, found]

theorem subjectOf_of_unlisted
    (absent : byPubkey snapshot.peers record.pubkey = none) :
    snapshot.subjectOf record = .done none ∨
      ∃ request next, snapshot.subjectOf record = .call request next := by
  rw [Snapshot.subjectOf, absent]
  dsimp only
  split
  · exact .inr ⟨_, _, rfl⟩
  · exact .inl rfl

theorem ingestRecord_of_subject {subject : Nat}
    (admissible : crates.admissible snapshot.now record = true)
    (about : snapshot.subjectOf record = .done (some subject)) :
    ingestRecord crates snapshot state record =
      settleRecord snapshot state record subject := by
  rw [ingestRecord, if_pos admissible, about]
  rfl

theorem ingestRecord_of_unknown (state : IngestState)
    (admissible : crates.admissible snapshot.now record = true)
    (about : snapshot.subjectOf record = .done none) :
    ∃ ended, ingestRecord crates snapshot state record = .done ended := by
  rw [ingestRecord, if_pos admissible, about]
  exact ⟨_, rfl⟩

theorem ingestRecord_of_call {request : Call}
    {next : Answer request → Program (Option Nat)}
    (admissible : crates.admissible snapshot.now record = true)
    (about : snapshot.subjectOf record = .call request next)
    (ended : IngestState) :
    ingestRecord crates snapshot state record ≠ .done ended := by
  rw [ingestRecord, if_pos admissible, about]
  intro same
  cases same

theorem settleRecord_of_stale (snapshot : Snapshot) {subject : Nat}
    (stale : state.isStale subject record = true) :
    ∃ ended, settleRecord snapshot state record subject = .done ended := by
  rw [settleRecord, if_pos stale]
  exact ⟨_, rfl⟩

end Subject

theorem acceptRecord_ne_done (snapshot : Snapshot) (state : IngestState)
    (subject : Nat) (ended : IngestState) :
    acceptRecord snapshot state record subject ≠ .done ended := by
  apply Prog.bind_ne_done
  intro _ _ same
  cases same

/-- A loop that has read no record of this friend, and of everyone else one
that is no older. -/
def othersAhead (friend : Nat) (record : EndpointRecord) : IngestState :=
  ⟨.default, fun id => if id = friend then none else some record.signedAt⟩

theorem settleRecord_othersAhead (snapshot : Snapshot) (friend : Nat)
    (ended : IngestState) :
    settleRecord snapshot (othersAhead friend record) record friend ≠
      .done ended := by
  have fresh : (othersAhead friend record).isStale friend record = false := by
    simp [IngestState.isStale, othersAhead]
  rw [settleRecord, fresh]
  exact acceptRecord_ne_done snapshot _ friend ended

theorem isStale_othersAhead (record : EndpointRecord) {friend other : Nat}
    (different : other ≠ friend) :
    (othersAhead friend record).isStale other record = true := by
  simp [IngestState.isStale, othersAhead, different]

theorem eq_of_listed {left right : Peer}
    (leftListed : left ∈ world.peers.listPeers)
    (rightListed : right ∈ world.peers.listPeers)
    (same : left.id = right.id) : left = right := by
  obtain ⟨row, found, rfl⟩ := PeerTable.row?_of_mem_listPeers leftListed
  obtain ⟨other, otherFound, rfl⟩ :=
    PeerTable.row?_of_mem_listPeers rightListed
  rw [same, otherFound] at found
  rw [Option.some.inj found]

section Friend

variable {snapshot : Snapshot} {friend : Peer}

theorem not_settledFor (listed : snapshot.peers = world.peers.listPeers)
    (indexed : byPubkey snapshot.peers bound = some friend)
    (admissible : crates.admissible snapshot.now record = true)
    (different : record.pubkey ≠ bound) :
    ¬ SettledFor crates snapshot record friend.id := by
  intro settled
  have ahead := settled (othersAhead friend.id record)
  cases found : byPubkey snapshot.peers record.pubkey with
  | some other =>
    have apart : other.id ≠ friend.id := by
      intro same
      obtain ⟨otherListed, otherBound⟩ := byPubkey_eq_some found
      obtain ⟨friendListed, friendBound⟩ := byPubkey_eq_some indexed
      rw [listed] at otherListed friendListed
      rw [eq_of_listed otherListed friendListed same, friendBound]
        at otherBound
      exact different (Option.some.inj otherBound).symm
    have about := subjectOf_of_listed found
    cases revoked : other.isRevoked with
    | true =>
      rw [revoked] at about
      obtain ⟨ended, counted⟩ := ingestRecord_of_unknown
        (othersAhead friend.id record) admissible about
      exact settleRecord_othersAhead snapshot _ ended
        (ahead.symm.trans counted)
    | false =>
      rw [revoked] at about
      obtain ⟨ended, counted⟩ := settleRecord_of_stale snapshot
        (isStale_othersAhead record apart)
      exact settleRecord_othersAhead snapshot _ ended
        (ahead.symm.trans
          ((ingestRecord_of_subject admissible about).trans counted))
  | none =>
    rcases subjectOf_of_unlisted found with about | ⟨request, next, about⟩
    · obtain ⟨ended, counted⟩ := ingestRecord_of_unknown
        (othersAhead friend.id record) admissible about
      exact settleRecord_othersAhead snapshot _ ended
        (ahead.symm.trans counted)
    · -- The key is offered to the presenter, where a friend whose record is
      -- no older would have had this one counted without a call.
      have stale : IngestState.isStale
          ⟨.default, fun _ => some record.signedAt⟩ friend.id record =
            true := by
        simp [IngestState.isStale]
      obtain ⟨ended, counted⟩ := settleRecord_of_stale snapshot
        stale
      exact ingestRecord_of_call admissible about ended
        ((settled _).trans counted)

/-- The record is taken for one of the friend whose key is spelled as in the
record, and of nobody else. -/
theorem settledFor_iff (listed : snapshot.peers = world.peers.listPeers)
    (indexed : byPubkey snapshot.peers bound = some friend)
    (active : friend.isRevoked = false)
    (admissible : crates.admissible snapshot.now record = true) :
    SettledFor crates snapshot record friend.id ↔ record.pubkey = bound := by
  constructor
  · intro settled
    by_contra different
    exact not_settledFor listed indexed admissible different settled
  · rintro rfl state
    have about := subjectOf_of_listed indexed
    rw [active] at about
    exact ingestRecord_of_subject admissible about

end Friend

def differentPin : Response :=
  ⟨.conflict, "a different identity is already pinned for this key"⟩

section Pair

variable {request : PairRequest} {peer : Peer}

theorem storeOutbound_returns (crates : Crates) (peer : Peer)
    (request : PairRequest) :
    (storeOutbound crates peer request).Returns (· ≠ differentPin) := by
  rintro (_ | _)
  · simp [Prog.Returns, differentPin]
  · cases gossipUrl crates (some request.url) with
    | error => simp [Prog.Returns, differentPin]
    | ok url =>
      rintro (_ | _ | _)
      · simp [Prog.Returns, differentPin]
      · simp [Prog.Returns, differentPin]
      · simp only [finishPair]
        split
        · simp [Prog.Returns, differentPin]
        · apply Prog.Returns.bind (Prog.Returns.any _)
          intro summary _
          simp [Prog.Returns, differentPin]

theorem refusal_eq_differentPin (pinned : peer.pubkey = some bound)
    (carries : request.record = some record)
    (verified : crates.verify record = .ok ()) :
    refusal crates peer request = some differentPin ↔
      record.pubkey ≠ bound ∧ validateUrl crates request.url = .ok () ∧
        validateKey request.key = .ok () := by
  cases address : validateUrl crates request.url with
  | error reason => simp [refusal, address, differentPin]
  | ok _ =>
    cases key : validateKey request.key with
    | error reason => simp [refusal, address, key, differentPin]
    | ok _ =>
      by_cases same : bound = record.pubkey
      · simp [refusal, address, key, carries, verified, pinned, same]
      · simp [refusal, address, key, carries, verified, pinned, same,
          Ne.symm same, differentPin]

theorem paired_eq_differentPin {callerId : Nat} {row : PeerRow}
    (found : world.peers.row? callerId = some row) :
    (environment.paired crates world callerId request).value =
        differentPin ↔
      environment.fault 0 (.peer callerId) = none ∧
        refusal crates row.toPeer request = some differentPin := by
  unfold Environment.paired pair
  rw [Prog.alone_call]
  cases first : environment.fault 0 (.peer callerId) with
  | some detail =>
    rw [respond_fault first rfl]
    simp [differentPin]
  | none =>
    have answer : environment.respond 0 world (.peer callerId) =
        (.ok (some row.toPeer), world) := by
      rw [respond_of_no_fault first, answered, found]
      rfl
    rw [answer]
    cases refused : refusal crates row.toPeer request with
    | some response => simp [refused]
    | none =>
      simp only [refused, reduceCtorEq, and_false, iff_false]
      refine Prog.Returns.alone (· ≠ differentPin) ?_ _ _ _
      rintro (_ | secrets)
      · simp [Prog.Returns, differentPin]
      · simp only
        split
        · simp [Prog.Returns, differentPin]
        · exact storeOutbound_returns crates row.toPeer request

end Pair

def differentIdentity (label : String) : String :=
  s!"{label}'s sharerr now presents " ++
    "a different identity from the one pinned here; if they " ++
    "reinstalled, delete this friend and pair again"

theorem ne_differentIdentity {label text : String}
    (apart : text.toList.getLast? ≠ some 'n') :
    text ≠ differentIdentity label := by
  rintro rfl
  apply apart
  simp [differentIdentity, String.toList_append]

section Invite

variable {peer : Peer} {invite : Invite}

theorem applyOutbound_returns (crates : Crates) (peer : Peer)
    (invite : Invite) :
    (applyOutbound crates peer invite).Returns
      (· ≠ .error (differentIdentity peer.label)) := by
  have other : ∀ text : String, text.toList.getLast? ≠ some 'n' →
      (.error text : Except String Unit) ≠
        .error (differentIdentity peer.label) := by
    intro text apart same
    exact ne_differentIdentity apart (Except.error.inj same)
  unfold applyOutbound
  cases gossipUrl crates (some invite.url) with
  | error => exact other _ (by decide)
  | ok url =>
    rintro (_ | _ | _)
    · exact other _ (by decide)
    · exact other _ (by decide)
    · rintro (_ | _)
      · exact other _ (by decide)
      · exact fun same => by cases same

theorem applied_eq_differentIdentity {row : PeerRow} {spelled : String}
    (found : world.peers.row? peer.id = some row)
    (pinned : row.pubkey = some bound)
    (names : invite.pubkey = some spelled) :
    ((applyInvite crates peer invite).alone environment.respond 0
        world).value = .error (differentIdentity peer.label) ↔
      environment.fault 0 (.bindPeerPubkey peer.id spelled) = none ∧
        spelled ≠ bound := by
  unfold applyInvite
  rw [names]
  dsimp only
  rw [Prog.alone_call]
  cases first : environment.fault 0 (.bindPeerPubkey peer.id spelled) with
  | some detail =>
    rw [respond_fault first rfl]
    simp only [Prog.alone_done, reduceCtorEq, false_and, iff_false]
    intro same
    refine ne_differentIdentity ?_ (Except.error.inj same)
    change ("could not pin " ++ peer.label ++ "'s identity").toList.getLast? ≠
      some 'n'
    rw [String.toList_append, List.getLast?_append]
    simp
  | none =>
    have bindable : world.bindable peer.id spelled =
        decide (spelled = bound) := by
      simp [World.bindable, found, pinned, eq_comm]
    rw [respond_of_no_fault first, answered, bindable]
    by_cases same : spelled = bound
    · simp only [same, decide_true, if_true, ne_eq, not_true, and_false,
        iff_false]
      exact Prog.Returns.alone
        (fun value : Except String Unit =>
          value ≠ .error (differentIdentity peer.label))
        (applyOutbound_returns crates peer invite) _ _ _
    · simp [same, differentIdentity]

end Invite

/-- Nothing fails, and the lighthouse answers with this record. -/
def Environment.answering (record : EndpointRecord) : Environment where
  clock := fun _ => 0
  fault := fun _ _ => none
  lighthouse := fun _ _ _ => .ok record

/-- What `lookup_one` makes of a record that answers it. -/
def lookedUp (crates : Crates) (world : World)
    (url keyHash expectedPubkey : String) (record : EndpointRecord) :
    Except String (Option EndpointRecord) :=
  ((lookupOne crates url keyHash expectedPubkey).alone
    (Environment.answering record).respond 0 world).value

theorem lookedUp_eq (crates : Crates) (world : World)
    (url keyHash expectedPubkey : String) (record : EndpointRecord) :
    lookedUp crates world url keyHash expectedPubkey record =
      if record.pubkey ≠ expectedPubkey ∨
          (crates.verify record).toBool = false then .ok none
      else .ok (some record) := by
  rw [lookedUp, lookupOne, Prog.alone_call, respond_of_no_fault rfl]
  simp only [answered, Environment.answering]
  split <;> rfl

theorem lookedUp_eq_some {url keyHash : String}
    (verified : crates.verify record = .ok ()) :
    lookedUp crates world url keyHash bound record = .ok (some record) ↔
      record.pubkey = bound := by
  rw [lookedUp_eq, verified]
  by_cases same : record.pubkey = bound
  · simp [same, Except.toBool]
  · simp [same]

/-- Spellings of one key that differ in case.  The check of a signature and
the lighthouse take them for the same key.  Everyone else takes them for the
same identity exactly where they are the same text, or where the two are not
compared at all. -/
theorem same_identity_iff_same_spelling (bound spelled : String)
    (alike : Rust.eqIgnoreAsciiCase bound spelled = true) :
    (∀ dalek : Lighthouse.Dalek,
      dalek.verifyingKey bound = dalek.verifyingKey spelled) ∧
    (∀ (verify : Lighthouse.Verify) (records : Lighthouse.Records)
        (report : Lighthouse.Report) (existing : EndpointRecord),
      records.map.get report.slot = some existing →
      existing.pubkey = bound → report.record.pubkey = spelled →
      (records.report verify report).1 ≠ .error .pubkeyMismatch) ∧
    (∀ (crates : Crates) (world : World) (snapshot : Snapshot)
        (friend : Peer) (record : EndpointRecord),
      snapshot.peers = world.peers.listPeers →
      byPubkey snapshot.peers bound = some friend →
      friend.isRevoked = false → record.pubkey = spelled →
      crates.admissible snapshot.now record = true →
      (SettledFor crates snapshot record friend.id ↔ spelled = bound)) ∧
    (∀ (crates : Crates) (environment : Environment) (world : World)
        (callerId : Nat) (row : PeerRow) (request : PairRequest)
        (record : EndpointRecord),
      world.peers.row? callerId = some row → row.pubkey = some bound →
      request.record = some record → record.pubkey = spelled →
      crates.verify record = .ok () →
      ((environment.paired crates world callerId request).value ≠
          differentPin ↔
        spelled = bound ∨ environment.fault 0 (.peer callerId) ≠ none ∨
          validateUrl crates request.url ≠ .ok () ∨
            validateKey request.key ≠ .ok ())) ∧
    (∀ (crates : Crates) (environment : Environment) (world : World)
        (peer : Peer) (row : PeerRow) (invite : Invite),
      world.peers.row? peer.id = some row → row.pubkey = some bound →
      invite.pubkey = some spelled →
      (((applyInvite crates peer invite).alone environment.respond 0
            world).value ≠ .error (differentIdentity peer.label) ↔
        spelled = bound ∨
          environment.fault 0 (.bindPeerPubkey peer.id spelled) ≠ none)) ∧
    (∀ (crates : Crates) (world : World) (url keyHash : String)
        (record other : EndpointRecord),
      record.pubkey = spelled → other.pubkey = bound →
      crates.verify record = .ok () → crates.verify other = .ok () →
      ((lookedUp crates world url keyHash bound record =
            .ok (some record) ↔
          lookedUp crates world url keyHash bound other =
            .ok (some other)) ↔
        spelled = bound)) := by
  refine ⟨fun dalek => dalek.verifyingKey_of_alike alike, ?_, ?_, ?_, ?_, ?_⟩
  · rintro verify records report existing held rfl rfl
    exact Lighthouse.report_of_alike held alike
  · rintro crates world snapshot friend record listed indexed active rfl
      admissible
    exact settledFor_iff listed indexed active admissible
  · rintro crates environment world callerId row request record found pinned
      carries rfl verified
    rw [ne_eq, paired_eq_differentPin found,
      refusal_eq_differentPin pinned carries verified]
    simp only [ne_eq, not_and_or, not_not]
    exact or_left_comm
  · intro crates environment world peer row invite found pinned names
    rw [ne_eq, applied_eq_differentIdentity found pinned names]
    simp only [ne_eq, not_and_or, not_not]
    exact or_comm
  · rintro crates world url keyHash record other rfl spelled verified
      otherVerified
    rw [lookedUp_eq_some verified, lookedUp_eq_some otherVerified]
    simp [spelled]

/-- A key of one digit, in the case the digit is written in. -/
def spelling (digit : Char) : String :=
  String.ofList (List.replicate 64 digit)

/-- Sam's key is bound in lower case. -/
def samBound : World := samAndAlex.bindPeerPubkey 1 (spelling 'a')

def samUpper : EndpointRecord :=
  signedRecord (spelling 'A') "http://sam:6969" 200

def upperInvite : Invite := ⟨"http://sam/", "sam's key", some (spelling 'A')⟩

theorem sam_told_apart_by_case :
    (¬ SettledFor plainCrates ⟨1, samBound.peers.listPeers, 300⟩ samUpper 1) ∧
      ((applyInvite plainCrates (freshPeer 1 "sam" "hash of sam")
          upperInvite).alone (Environment.quiet fun _ => 300).respond 0
            samBound).value = .error (differentIdentity "sam") := by
  obtain ⟨-, -, ingested, -, applied, -⟩ :=
    same_identity_iff_same_spelling (spelling 'a') (spelling 'A')
      (by decide +kernel)
  constructor
  · intro settled
    have same := (ingested plainCrates samBound
      ⟨1, samBound.peers.listPeers, 300⟩
      { freshPeer 1 "sam" "hash of sam" with pubkey := some (spelling 'a') }
      samUpper rfl (by decide +kernel) rfl rfl (by decide +kernel)).mp settled
    revert same
    decide
  · by_contra accepted
    have same := (applied plainCrates (Environment.quiet fun _ => 300)
      samBound (freshPeer 1 "sam" "hash of sam")
      ⟨{ freshPeer 1 "sam" "hash of sam" with
          pubkey := some (spelling 'a') }, none⟩
      upperInvite (by decide +kernel) rfl rfl).mp accepted
    revert same
    decide

/-- Sam's own record, verified and dated well, counts as unknown, and his
invite as one of somebody else. -/
theorem sam_unknown_in_upper_case :
    Rust.eqIgnoreAsciiCase (spelling 'a') (spelling 'A') = true ∧
      plainCrates.verify samUpper = .ok () ∧
      ((ingest plainCrates 1 [samUpper]).alone
        (Environment.quiet fun _ => 300).respond 0 samBound).value =
          ⟨0, 0, 1, 0⟩ ∧
      ((applyInvite plainCrates (freshPeer 1 "sam" "hash of sam")
          upperInvite).alone (Environment.quiet fun _ => 300).respond 0
            samBound).value = .error (differentIdentity "sam") := by
  decide +kernel

end Gossip

end Sharerr
