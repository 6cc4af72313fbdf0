import Mathlib.Data.List.Induction
import Sharerr.Arr.Tags
import Sharerr.Feed.Visible
import Sharerr.Rust.Padded

/-!
# Whom a `<tag>-<friend>` tag names

Labels are unique as texts, and a tag names the slug of a label.  A tag names
one friend as long as no friend is created whose slug another active friend
has already.
-/

namespace Sharerr

namespace Friends

theorem toAsciiLowercase_eq (text : String) :
    Rust.toAsciiLowercase text =
      String.ofList (text.toList.map toAsciiLower) :=
  rfl

theorem toAsciiLower_idem (character : Char) :
    toAsciiLower (toAsciiLower character) = toAsciiLower character := by
  have twice := Rust.toAsciiLowercase_idem (String.ofList [character])
  simpa [toAsciiLowercase_eq] using twice

theorem lower_slugStep {slug : List Char} {character : Char}
    (lower : ∀ other ∈ slug, toAsciiLower other = other) :
    ∀ other ∈ slugStep slug character, toAsciiLower other = other := by
  intro other member
  unfold slugStep at member
  split at member
  · rcases List.mem_append.mp member with old | new
    · exact lower other old
    · rw [List.mem_singleton.mp new, toAsciiLower_idem]
  · split at member
    · rcases List.mem_append.mp member with old | new
      · exact lower other old
      · rw [List.mem_singleton.mp new]
        decide
    · exact lower other member

theorem lower_foldl_slugStep (label slug : List Char)
    (lower : ∀ other ∈ slug, toAsciiLower other = other) :
    ∀ other ∈ label.foldl slugStep slug, toAsciiLower other = other := by
  induction label generalizing slug with
  | nil => exact lower
  | cons character label ih => exact ih _ (lower_slugStep lower)

theorem toAsciiLowercase_friendSlug (label : String) :
    Rust.toAsciiLowercase (friendSlug label) = friendSlug label := by
  have lower : ∀ character ∈ (friendSlug label).toList,
      toAsciiLower character = character := by
    intro character member
    rw [friendSlug, String.toList_ofList] at member
    have kept := (List.dropWhile_sublist _).subset (List.mem_reverse.mp member)
    exact lower_foldl_slugStep label.toList [] (by simp) character
      (List.mem_reverse.mp kept)
  rw [toAsciiLowercase_eq, List.map_congr_left lower, List.map_id',
    String.ofList_toList]

theorem toAsciiLowercase_append (left right : String) :
    Rust.toAsciiLowercase (left ++ right) =
      Rust.toAsciiLowercase left ++ Rust.toAsciiLowercase right := by
  simp [toAsciiLowercase_eq, String.ofList_append]

theorem friendOf_slug {label : String} (named : friendSlug label ≠ "") :
    Arr.friendOf "sharerr" ("sharerr-" ++ friendSlug label) =
      some (friendSlug label) := by
  have head : Rust.toAsciiLowercase "sharerr-" =
      Rust.toAsciiLowercase "sharerr" ++ "-" := by
    decide +kernel
  rw [Arr.friendOf, toAsciiLowercase_append, toAsciiLowercase_friendSlug, head,
    Rust.stripPrefix_append]
  simp [named]

inductive Change where
  | created (label keyHash : String) (scope : PeerScope) (now : Int)
  | revoked (id : Nat) (now : Int)
  | deleted (id : Nat)

namespace Store

def change (store : Store) : Change → Store
  | .created label keyHash scope now =>
    (store.createPeer label keyHash scope now).2
  | .revoked id now => store.revokePeer id now
  | .deleted id => store.deletePeer id

def changed (changes : List Change) : Store :=
  changes.foldl change empty

theorem changed_append (changes : List Change) (next : Change) :
    changed (changes ++ [next]) = (changed changes).change next := by
  simp [changed]

/-- No tag lets two active friends through, and what is tagged for one friend
is in the feed of one key. -/
structure TagNamesOne (store : Store) : Prop where
  admitted : ∀ friends, store.activePeers = .ok friends →
    ∀ left ∈ friends, ∀ right ∈ friends, left.id ≠ right.id →
      ∀ tagLabel label friend item, Arr.friendOf tagLabel label = some friend →
        ¬ (left.limits.admits item (some [friend]) = true ∧
          right.limits.admits item (some [friend]) = true)
  offered : ∀ (library : Library) (item : SharedItem) tagLabel label friend,
    Arr.friendOf tagLabel label = some friend →
      library.audience.audiences item.key = some [friend] →
        ∀ leftKey rightKey left right,
          store.peerByKeyHash leftKey = .ok (some left) →
            store.peerByKeyHash rightKey = .ok (some right) →
              item ∈ library.seedingItemsFor left.scope left.limits →
                item ∈ library.seedingItemsFor right.scope right.limits →
                  leftKey = rightKey

/-- Different active friends have different slugs, where they have any. -/
def Apart (store : Store) : Prop :=
  ∀ left ∈ store.peers.rows, ∀ right ∈ store.peers.rows,
    left.revokedAt = none → right.revokedAt = none →
      friendSlug left.label = friendSlug right.label →
        friendSlug left.label ≠ "" → left = right

/-- A friend about to be created has a slug no active friend has. -/
def Fresh (store : Store) : Change → Prop
  | .created label keyHash _ now => ∀ trimmed peer peers,
      validateLabel label = .ok trimmed →
        store.peers.insert trimmed keyHash now = some (peer, peers) →
          ∀ row ∈ store.peers.rows, row.revokedAt = none →
            friendSlug row.label = friendSlug trimmed →
              friendSlug trimmed = ""
  | _ => True

/-- No caps, and nothing moved. -/
def Plain (store : Store) : Prop :=
  ∀ id, ∃ scope, store.columns id = Columns.new scope

variable {store : Store}

theorem Plain.change (plain : store.Plain) (next : Change) :
    (store.change next).Plain := by
  cases next with
  | created label keyHash scope now =>
    rw [Store.change]
    rcases store.createPeer_cases label keyHash scope now with
      ⟨same, -⟩ | ⟨trimmed, peer, peers, -, -, created⟩
    · rw [same]
      exact plain
    · rw [created]
      intro id
      by_cases new : id = peer.id
      · exact ⟨scope, by simp [withColumns, new]⟩
      · obtain ⟨other, kept⟩ := plain id
        exact ⟨other, by simp [withColumns, new, kept]⟩
  | revoked id now => exact plain
  | deleted id => exact plain

theorem plain_changed (changes : List Change) : (changed changes).Plain := by
  induction changes using List.reverseRecOn with
  | nil => exact fun _ => ⟨.all, rfl⟩
  | append_singleton changes next ih =>
    rw [changed_append]
    exact ih.change next

theorem inAudience_single {limits : PeerLimits} {friend : String} :
    limits.inAudience (some [friend]) = true ↔ limits.friend = some friend := by
  cases named : limits.friend with
  | none => simp [PeerLimits.inAudience, named]
  | some other => simp [PeerLimits.inAudience, named]

variable {friend : Friend} {keyHash : String}

theorem slug_of_admits {item : SharedItem} {named : String}
    (admitted : friend.limits.admits item (some [named]) = true) :
    friendSlug friend.label = named ∧ named ≠ "" := by
  simp only [PeerLimits.admits, Bool.and_eq_true] at admitted
  have slug := inAudience_single.mp admitted.1.1
  simp only [Friend.limits, Option.filter_eq_some_iff, Option.some.injEq,
    decide_eq_true_eq] at slug
  exact slug

theorem admits_of_slug (item : SharedItem)
    (uncapped : friend.maxSizeBytes = none ∧ friend.maxHeight = none)
    (named : friendSlug friend.label ≠ "") :
    friend.limits.admits item (some [friendSlug friend.label]) = true := by
  have slug : friend.limits.friend = some (friendSlug friend.label) := by
    simp [Friend.limits, named]
  have noSize : friend.limits.maxSizeBytes = none := uncapped.1
  have noHeight : friend.limits.maxHeight = none := uncapped.2
  simp [PeerLimits.admits, inAudience_single.mpr slug, noSize, noHeight]

theorem mem_activePeers {peer : Sharerr.Peer} :
    peer ∈ store.peers.activePeers ↔
      ∃ row ∈ store.peers.rows, row.toPeer = peer ∧ row.revokedAt = none := by
  rw [PeerTable.activePeers, List.mem_filter, PeerTable.mem_listPeers]
  constructor
  · intro listed
    obtain ⟨⟨row, among, rfl⟩, active⟩ := listed
    refine ⟨row, among, rfl, ?_⟩
    simpa [Sharerr.Peer.isRevoked] using active
  · intro found
    obtain ⟨row, among, rfl, active⟩ := found
    exact ⟨⟨row, among, rfl⟩, by simp [Sharerr.Peer.isRevoked, active]⟩

theorem row_of_peerByKeyHash
    (found : store.peerByKeyHash keyHash = .ok (some friend)) :
    ∃ row ∈ store.peers.rows, row.toPeer = friend.toPeer ∧
      row.revokedAt = none ∧ row.keyHash = keyHash := by
  unfold peerByKeyHash at found
  split at found
  · cases found
  · rename_i row holds
    have tested := List.find?_some holds
    simp only [Bool.and_eq_true, decide_eq_true_eq, Option.isNone_iff_eq_none]
      at tested
    cases read : rowToPeer row.toPeer (store.columns row.id) with
    | error reason =>
      rw [read] at found
      cases found
    | ok other =>
      rw [read] at found
      cases found
      exact ⟨row, List.mem_of_find?_eq_some holds,
        (rowToPeer_eq_ok read).1.symm, tested.2, tested.1⟩

theorem Apart.tagNamesOne (apart : store.Apart) : store.TagNamesOne where
  admitted := by
    intro friends read left leftMember right rightMember different tagLabel
      label named item _ both
    obtain ⟨leftSlug, nonempty⟩ := slug_of_admits both.1
    obtain ⟨rightSlug, -⟩ := slug_of_admits both.2
    obtain ⟨leftPeer, leftListed, leftRead⟩ := mem_of_decoded read leftMember
    obtain ⟨rightPeer, rightListed, rightRead⟩ :=
      mem_of_decoded read rightMember
    obtain ⟨leftRow, leftAmong, rfl, leftActive⟩ :=
      mem_activePeers.mp leftListed
    obtain ⟨rightRow, rightAmong, rfl, rightActive⟩ :=
      mem_activePeers.mp rightListed
    have leftSame := (rowToPeer_eq_ok leftRead).1
    have rightSame := (rowToPeer_eq_ok rightRead).1
    rw [leftSame] at leftSlug different
    rw [rightSame] at rightSlug different
    have same := apart leftRow leftAmong rightRow rightAmong leftActive
      rightActive (leftSlug.trans rightSlug.symm) (by rwa [leftSlug])
    exact different (congrArg (·.id) same)
  offered := by
    intro library item tagLabel label named _ tagged leftKey rightKey left
      right leftFound rightFound leftListed rightListed
    have leftAdmits := (Library.mem_seedingItemsFor.mp leftListed).2.2.2.2
    have rightAdmits := (Library.mem_seedingItemsFor.mp rightListed).2.2.2.2
    rw [Library.admits, tagged] at leftAdmits rightAdmits
    obtain ⟨leftSlug, nonempty⟩ := slug_of_admits leftAdmits
    obtain ⟨rightSlug, -⟩ := slug_of_admits rightAdmits
    obtain ⟨leftRow, leftAmong, leftSame, leftActive, rfl⟩ :=
      row_of_peerByKeyHash leftFound
    obtain ⟨rightRow, rightAmong, rightSame, rightActive, rfl⟩ :=
      row_of_peerByKeyHash rightFound
    rw [← leftSame] at leftSlug
    rw [← rightSame] at rightSlug
    rw [apart leftRow leftAmong rightRow rightAmong leftActive rightActive
      (leftSlug.trans rightSlug.symm) (by rwa [leftSlug])]

/-- A row without caps decodes to a friend without any. -/
theorem Plain.read (plain : store.Plain) (peer : Sharerr.Peer) :
    ∃ friend, rowToPeer peer (store.columns peer.id) = .ok friend ∧
      friend.toPeer = peer ∧ friend.maxSizeBytes = none ∧
        friend.maxHeight = none := by
  obtain ⟨scope, columns⟩ := plain peer.id
  rw [columns]
  exact ⟨_, rfl, rfl, rfl, rfl⟩

theorem Plain.apart (plain : store.Plain) (one : store.TagNamesOne) :
    store.Apart := by
  intro left leftAmong right rightAmong leftActive rightActive same nonempty
  by_contra different
  have idsDiffer : left.id ≠ right.id := fun equal =>
    different (List.inj_on_of_nodup_map store.peers.ids leftAmong rightAmong
      equal)
  obtain ⟨friends, listed⟩ : ∃ friends, store.activePeers = .ok friends := by
    apply decoded_isOk_iff.mpr
    intro peer _
    obtain ⟨friend, read, -⟩ := plain.read peer
    exact ⟨friend, read⟩
  obtain ⟨leftFriend, leftRead, leftSame, leftUncapped⟩ :=
    plain.read left.toPeer
  obtain ⟨rightFriend, rightRead, rightSame, rightUncapped⟩ :=
    plain.read right.toPeer
  have leftMember := mem_decoded listed
    (mem_activePeers.mpr ⟨left, leftAmong, rfl, leftActive⟩) leftRead
  have rightMember := mem_decoded listed
    (mem_activePeers.mpr ⟨right, rightAmong, rfl, rightActive⟩) rightRead
  have leftSlug : friendSlug leftFriend.label = friendSlug left.label := by
    rw [leftSame]
  have rightSlug : friendSlug rightFriend.label = friendSlug left.label := by
    rw [rightSame, same]
  have item := Library.seeding 1 .sonarr (.book "" "")
  apply one.admitted friends listed leftFriend leftMember rightFriend
    rightMember (by rwa [leftSame, rightSame]) "sharerr"
    ("sharerr-" ++ friendSlug left.label) (friendSlug left.label) item
    (friendOf_slug nonempty)
  constructor
  · rw [← leftSlug]
    exact admits_of_slug item leftUncapped (by rwa [leftSlug])
  · rw [← rightSlug]
    exact admits_of_slug item rightUncapped (by rwa [rightSlug])

theorem revokedAt_of_insert {table after : PeerTable} {label : String}
    {createdAt : Int} {peer : Sharerr.Peer}
    (inserted : table.insert label keyHash createdAt = some (peer, after)) :
    peer.revokedAt = none := by
  simp only [PeerTable.insert] at inserted
  split at inserted
  · simp only [Option.some.injEq, Prod.mk.injEq] at inserted
    rw [← inserted.1]
  · cases inserted

/-- A statement that creates nobody leaves the active rows it leaves. -/
theorem Apart.of_active {after : Store} (apart : store.Apart)
    (kept : ∀ row ∈ after.peers.rows, row.revokedAt = none →
      row ∈ store.peers.rows) : after.Apart := by
  intro left leftAmong right rightAmong leftActive rightActive
  exact apart left (kept left leftAmong leftActive) right
    (kept right rightAmong rightActive) leftActive rightActive

theorem apart_created_iff {label : String} {scope : PeerScope} {now : Int}
    (apart : store.Apart) :
    (store.change (.created label keyHash scope now)).Apart ↔
      store.Fresh (.created label keyHash scope now) := by
  rw [change]
  rcases store.createPeer_cases label keyHash scope now with
    ⟨same, refused⟩ | ⟨trimmed, peer, peers, valid, inserted, created⟩
  · rw [same]
    constructor
    · intro _ trimmed peer peers valid inserted
      rw [refused trimmed valid] at inserted
      cases inserted
    · intro _
      exact apart
  · rw [created]
    obtain ⟨fresh, -, -, -, rows⟩ := PeerTable.insert_eq_some inserted
    have named := PeerTable.label_of_insert inserted
    have active := revokedAt_of_insert inserted
    have old : ∀ row ∈ store.peers.rows, row ∈ peers.rows := fun row among =>
      by rw [rows]; exact List.mem_append_left _ among
    have new : (⟨peer, none⟩ : PeerRow) ∈ peers.rows := by
      rw [rows]
      exact List.mem_append_right _ List.mem_cons_self
    constructor
    · intro after other _ _ valid' inserted' row among rowActive same
      cases valid.symm.trans valid'
      by_contra nonempty
      have equal := after row (old row among) ⟨peer, none⟩ new rowActive active
        (same.trans (by rw [named])) (by rwa [same])
      have below := store.peers.below row among
      rw [equal] at below
      exact Nat.ne_of_lt below fresh
    · intro unused left leftAmong right rightAmong leftActive rightActive same
        nonempty
      have leftCases : left ∈ store.peers.rows ∨ left = ⟨peer, none⟩ := by
        simpa [withColumns, rows] using leftAmong
      have rightCases : right ∈ store.peers.rows ∨ right = ⟨peer, none⟩ := by
        simpa [withColumns, rows] using rightAmong
      have nobody : ∀ row ∈ store.peers.rows, row.revokedAt = none →
          friendSlug row.label ≠ friendSlug trimmed ∨
            friendSlug trimmed = "" := by
        intro row among rowActive
        by_cases taken : friendSlug row.label = friendSlug trimmed
        · exact .inr (unused trimmed peer peers valid inserted row among
            rowActive taken)
        · exact .inl taken
      rcases leftCases with leftOld | rfl
      · rcases rightCases with rightOld | rfl
        · exact apart left leftOld right rightOld leftActive rightActive same
            nonempty
        · rw [named] at same
          rcases nobody left leftOld leftActive with differs | empty
          · exact absurd same differs
          · exact absurd (same.trans empty) nonempty
      · rcases rightCases with rightOld | rfl
        · rw [named] at same nonempty
          rcases nobody right rightOld rightActive with differs | empty
          · exact absurd same.symm differs
          · exact absurd empty nonempty
        · rfl

theorem apart_change_iff (apart : store.Apart) (next : Change) :
    (store.change next).Apart ↔ store.Fresh next := by
  cases next with
  | created label keyHash scope now => exact apart_created_iff apart
  | revoked id now =>
    refine iff_of_true (apart.of_active ?_) trivial
    intro row among active
    obtain ⟨before, old, rfl | ⟨-, rfl⟩⟩ := Keyed.mem_modify among
    · exact old
    · -- the row just revoked is not active
      cases revoked : before.revokedAt with
      | none => simp [revoked] at active
      | some stamp => simp [revoked] at active
  | deleted id =>
    refine iff_of_true (apart.of_active ?_) trivial
    intro row among _
    exact Keyed.remove_sublist.subset among

theorem apart_empty : empty.Apart := by
  intro left among
  cases among

/-- A tag names one friend throughout a run if and only if nobody is ever
created under a slug an active friend has. -/
theorem tags_name_one_iff (changes : List Change) :
    (∀ past later, changes = past ++ later → (changed past).TagNamesOne) ↔
      ∀ past next later, changes = past ++ next :: later →
        (changed past).Fresh next := by
  constructor
  · intro one past next later whole
    have before := (plain_changed past).apart (one past (next :: later) whole)
    rw [← apart_change_iff before, ← changed_append]
    exact (plain_changed _).apart (one (past ++ [next]) later (by simp [whole]))
  · intro fresh past later whole
    apply Apart.tagNamesOne
    induction past using List.reverseRecOn generalizing later with
    | nil => exact apart_empty
    | append_singleton past next ih =>
      have split : changes = past ++ next :: later := by
        simp [whole]
      rw [changed_append, apart_change_iff (ih _ split)]
      exact fresh past next later split

def twoSams : List Change :=
  [.created "Sam B" "5f" .all 0, .created "sam-b" "6e" .all 1]

def sam (id : Nat) (label keyHash : String) (createdAt : Int) : PeerRow :=
  ⟨⟨id, label, createdAt, none, none, none, keyHash⟩, none⟩

/-- Both get what is tagged `sharerr-sam-b`. -/
theorem tag_names_both :
    ¬ ∀ past later, twoSams = past ++ later → (changed past).TagNamesOne := by
  intro one
  have rows : (changed twoSams).peers.rows =
      [sam 1 "Sam B" "5f" 0, sam 2 "sam-b" "6e" 1] := by
    decide +kernel
  have apart := (plain_changed twoSams).apart (one twoSams [] (by simp))
  have equal := apart (sam 1 "Sam B" "5f" 0) (by simp [rows])
    (sam 2 "sam-b" "6e" 1) (by simp [rows]) rfl rfl (by decide +kernel)
    (by decide +kernel)
  cases equal

end Store

end Friends

end Sharerr
