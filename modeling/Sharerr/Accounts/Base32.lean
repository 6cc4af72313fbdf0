import Sharerr.Accounts.Totp
import Sharerr.Rust.Regroup

/-!
# Base32

A secret is shown in letters of five bits each and read back in whatever case,
with whitespace and padding anywhere.  Both directions are one regrouping of
bits, where fewer than five are padded with zeros and fewer than eight are
dropped.
-/

namespace Sharerr

namespace Totp

/-- A letter of the alphabet, by its lowest five bits. -/
def symbol (value : Nat) : Char :=
  alphabet.get ⟨value % 32, Nat.lt_of_lt_of_eq
    (Nat.mod_lt value (by decide)) (by decide)⟩

/-- The inner loop of `base32_encode`: what is left of the bits, and the
letters so far. -/
def pushSymbols (buffer : Nat) : Nat → List Char → Nat × List Char
  | bits + 5, out =>
    pushSymbols buffer bits (out ++ [symbol (buffer / 2 ^ bits)])
  | bits, out => (bits, out)

def encodeStep (state : Nat × Nat × List Char) (byte : UInt8) :
    Nat × Nat × List Char :=
  let (buffer, bits, out) := state
  let buffer := (buffer * 256 + byte.toNat) % 2 ^ 32
  let (bits, out) := pushSymbols buffer (bits + 8) out
  (buffer % 2 ^ bits, bits, out)

/-- `base32_encode`: no padding. -/
def base32Encode (bytes : Bytes) : String :=
  let (buffer, bits, out) := bytes.foldl encodeStep (0, 0, [])
  String.ofList
    (if 0 < bits then out ++ [symbol (buffer * 2 ^ (5 - bits))] else out)

example : base32Encode (Vault.toUtf8 "foob") = "MZXW6YQ" := by decide

/-- The same letters in whatever case, with whitespace and padding
anywhere. -/
inductive Respelled : List Char → List Char → Prop where
  | done : Respelled [] []
  | ignored {character : Char} {letters spelled : List Char}
      (blank : Rust.isWhitespace character = true ∨ character = '=')
      (rest : Respelled letters spelled) :
      Respelled letters (character :: spelled)
  | letter {letter character : Char} {letters spelled : List Char}
      (same : character = letter ∨ character = letter.toLower)
      (rest : Respelled letters spelled) :
      Respelled (letter :: letters) (character :: spelled)

section Encoding

open Rust (Regrouped)

/-- Letters for digits of five bits. -/
def Shows (given : List Nat) (letters : List Char) : Prop :=
  letters = given.map symbol ∧ ∀ digit ∈ given, digit < 32

theorem Shows.concat {given : List Nat} {letters : List Char}
    (shows_ : Shows given letters) {digit value : Nat} (low : digit < 32)
    (same : value % 32 = digit) :
    Shows (given ++ [digit]) (letters ++ [symbol value]) := by
  obtain ⟨rfl, small⟩ := shows_
  refine ⟨?_, ?_⟩
  · have lowest : symbol value = symbol digit := by
      simp only [symbol, same, Nat.mod_eq_of_lt low]
    rw [List.map_append, List.map_singleton, lowest]
  · intro other member
    rcases List.mem_append.mp member with before | last
    · exact small other before
    · rw [List.mem_singleton.mp last]
      exact low

theorem pushSymbols_spec {taken given : List Nat} {buffer bits : Nat}
    {out : List Char}
    (regrouped : Regrouped 8 5 taken given (buffer % 2 ^ bits) bits)
    (shows_ : Shows given out) :
    (pushSymbols buffer bits out).1 < 5 ∧ ∃ given,
      Shows given (pushSymbols buffer bits out).2 ∧
        Regrouped 8 5 taken given
          (buffer % 2 ^ (pushSymbols buffer bits out).1)
          (pushSymbols buffer bits out).1 := by
  fun_induction pushSymbols buffer bits out generalizing given with
  | case1 bits out ih =>
    obtain ⟨next, low⟩ := regrouped.give
    have digit : buffer / 2 ^ bits % 32 =
        buffer % 2 ^ (bits + 5) / 2 ^ bits := by
      rw [Nat.pow_add]
      exact (Nat.mod_mul_right_div_self buffer (2 ^ bits) 32).symm
    rw [Nat.mod_mod_of_dvd _ (Nat.pow_dvd_pow 2 (Nat.le_add_right bits 5))]
      at next
    exact ih next (shows_.concat low digit)
  | case2 bits out few =>
    refine ⟨?_, given, shows_, regrouped⟩
    by_contra many
    exact few (bits - 5) (by omega)

/-- What is known behind some bytes: the letters so far and the bits left. -/
def Encoded (taken : List Nat) (state : Nat × Nat × List Char) : Prop :=
  state.2.1 < 5 ∧ ∃ given, Shows given state.2.2 ∧
    Regrouped 8 5 taken given state.1 state.2.1

theorem Encoded.step {taken : List Nat} {state : Nat × Nat × List Char}
    (encoded : Encoded taken state) (byte : UInt8) :
    Encoded (taken ++ [byte.toNat]) (encodeStep state byte) := by
  obtain ⟨buffer, bits, out⟩ := state
  obtain ⟨few, given, shows_, regrouped⟩ := encoded
  dsimp only at few shows_ regrouped
  have next := regrouped.take (byte.toNat_lt)
  have word : (buffer * 256 + byte.toNat) % 2 ^ 32 =
      buffer * 2 ^ 8 + byte.toNat := by
    have room : 2 ^ (bits + 8) ≤ 2 ^ 32 :=
      Nat.pow_le_pow_right (by decide) (by omega)
    exact Nat.mod_eq_of_lt (Nat.lt_of_lt_of_le next.small room)
  rw [← Nat.mod_eq_of_lt next.small, ← word] at next
  have pushed := @pushSymbols_spec _ given _ (bits + 8) out next shows_
  exact pushed

theorem encoded_foldl (bytes : Bytes) :
    Encoded (bytes.map UInt8.toNat) (bytes.foldl encodeStep (0, 0, [])) := by
  induction bytes using List.reverseRecOn with
  | nil =>
    exact ⟨by decide, [], ⟨rfl, List.forall_mem_nil _⟩, .start 8 5⟩
  | append_singleton bytes byte ih =>
    rw [List.foldl_append, List.map_append]
    exact ih.step byte

theorem base32Encode_spec (bytes : Bytes) : ∃ given padding,
    Shows given (base32Encode bytes).toList ∧ padding < 5 ∧
      Regrouped 5 8 given (bytes.map UInt8.toNat) 0 padding := by
  obtain ⟨few, given, shows_, regrouped⟩ := encoded_foldl bytes
  rw [base32Encode]
  generalize bytes.foldl encodeStep (0, 0, []) = state at *
  obtain ⟨buffer, bits, out⟩ := state
  dsimp only at few shows_ regrouped ⊢
  rw [String.toList_ofList]
  split
  · next some_ =>
      have low : buffer * 2 ^ (5 - bits) < 32 := by
        have room := Nat.mul_lt_mul_of_pos_right regrouped.small
          (Nat.two_pow_pos (5 - bits))
        rwa [← Nat.pow_add, Nat.add_sub_cancel' few.le] at room
      exact ⟨_, 5 - bits, shows_.concat low (Nat.mod_eq_of_lt low), by omega,
        regrouped.flip_padded few.le⟩
  · next none_ =>
      obtain rfl : bits = 0 := by omega
      have empty : buffer = 0 := Nat.lt_one_iff.mp regrouped.small
      rw [empty] at regrouped
      exact ⟨given, 0, shows_, by decide, regrouped.flip⟩

end Encoding

section Decoding

open Rust (Regrouped)

/-- Characters that are read as digits of five bits. -/
def Reads (characters : List Char) (given : List Nat) : Prop :=
  List.Forall₂ (fun character digit =>
    alphabet.idxOf? character.toUpper = some digit ∧ digit < 32)
    characters given

/-- What is known behind some characters: the bytes so far and the bits
left. -/
def Decoded (taken : List Nat) (state : Nat × Nat × Bytes) : Prop :=
  state.2.1 < 8 ∧
    Regrouped 5 8 taken (state.2.2.map UInt8.toNat) state.1 state.2.1

theorem Decoded.step {taken : List Nat} {state : Nat × Nat × Bytes}
    (decoded : Decoded taken state) {character : Char} {digit : Nat}
    (found : alphabet.idxOf? character.toUpper = some digit)
    (low : digit < 32) : ∃ next, decodeStep state character = some next ∧
      Decoded (taken ++ [digit]) next := by
  obtain ⟨buffer, bits, out⟩ := state
  obtain ⟨few, regrouped⟩ := decoded
  dsimp only at few regrouped
  have next := regrouped.take low
  have word : (buffer * 32 + digit) % 2 ^ 32 = buffer * 2 ^ 5 + digit := by
    have room : 2 ^ (bits + 5) ≤ 2 ^ 32 :=
      Nat.pow_le_pow_right (by decide) (by omega)
    exact Nat.mod_eq_of_lt (Nat.lt_of_lt_of_le next.small room)
  simp only [decodeStep, found, Option.bind_eq_bind, Option.bind_some, word]
  split
  · next many =>
      rw [← Nat.sub_add_cancel many] at next
      obtain ⟨given, byte⟩ := next.give
      refine ⟨_, rfl, by dsimp only; omega, ?_⟩
      dsimp only
      rw [List.map_append, List.map_singleton, UInt8.toNat_ofNat',
        Nat.mod_mod, Nat.mod_eq_of_lt (show _ < 256 from byte)]
      exact given
  · next short =>
      exact ⟨_, rfl, by dsimp only; omega, next⟩

theorem decoded_foldlM {characters : List Char} {taken given : List Nat}
    {state : Nat × Nat × Bytes} (decoded : Decoded taken state)
    (reads : Reads characters given) :
    ∃ last, characters.foldlM decodeStep state = some last ∧
      Decoded (taken ++ given) last := by
  induction reads generalizing taken state with
  | nil =>
    rw [List.append_nil]
    exact ⟨state, rfl, decoded⟩
  | @cons character digit characters given here _ ih =>
    obtain ⟨next, step, decoded_⟩ := decoded.step here.1 here.2
    obtain ⟨last, rest, done⟩ := ih decoded_
    rw [List.append_assoc] at done
    refine ⟨last, ?_, done⟩
    rw [List.foldlM_cons, step]
    exact rest

/-- What is ignored is dropped, and a letter is read in either case. -/
theorem Respelled.reads {letters spelled : List Char} {given : List Nat}
    (respelled : Respelled letters spelled) (shows_ : Shows given letters) :
    Reads (spelled.filter fun character =>
      !Rust.isWhitespace character && character ≠ '=') given := by
  have letter_ : ∀ digit < 32, ∀ character,
      (character = symbol digit ∨ character = (symbol digit).toLower) →
        Rust.isWhitespace character = false ∧ character ≠ '=' ∧
          alphabet.idxOf? character.toUpper = some digit := by
    have all : ∀ digit < 32,
        [symbol digit, (symbol digit).toLower].all (fun character =>
          Rust.isWhitespace character = false ∧ character ≠ '=' ∧
            alphabet.idxOf? character.toUpper = some digit) = true := by
      decide +kernel
    intro digit low character same
    have each := List.all_eq_true.mp (all digit low) character
      (by simpa using same)
    exact of_decide_eq_true each
  induction respelled generalizing given with
  | done =>
    obtain ⟨none_, -⟩ := shows_
    rw [List.map_eq_nil_iff.mp none_.symm]
    exact .nil
  | @ignored character letters spelled blank _ ih =>
    rw [List.filter_cons_of_neg]
    · exact ih shows_
    · rcases blank with blank | rfl
      · rw [blank]
        exact Bool.false_ne_true
      · decide
  | @letter letter character letters spelled same _ ih =>
    obtain ⟨shown, small⟩ := shows_
    cases given with
    | nil => cases shown
    | cons digit given =>
      rw [List.map_cons, List.cons.injEq] at shown
      obtain ⟨rfl, shown⟩ := shown
      obtain ⟨low, small⟩ := List.forall_mem_cons.mp small
      obtain ⟨plain, noPadding, found⟩ := letter_ digit low character same
      rw [List.filter_cons_of_pos]
      · exact .cons ⟨found, low⟩ (ih ⟨shown, small⟩)
      · rw [plain, Bool.not_false, Bool.true_and, decide_eq_true noPadding]

/-- Whatever the case of its letters, and whatever is ignored in between, what
was encoded is decoded. -/
theorem base32Decode_respelled {bytes : Bytes} {text : String}
    (respelled : Respelled (base32Encode bytes).toList text.toList) :
    base32Decode text = some bytes := by
  obtain ⟨given, padding, shows_, few, encoded⟩ := base32Encode_spec bytes
  have start : Decoded [] (0, 0, []) := ⟨by decide, .start 5 8⟩
  obtain ⟨⟨buffer, bits, out⟩, read, left, decoded⟩ :=
    decoded_foldlM start (respelled.reads shows_)
  dsimp only at left decoded
  rw [List.nil_append] at decoded
  have small (bytes : Bytes) :
      ∀ digit ∈ bytes.map UInt8.toNat, digit < 2 ^ 8 := by
    intro digit member
    obtain ⟨byte, -, rfl⟩ := List.mem_map.mp member
    exact byte.toNat_lt
  have same := encoded.unique decoded (by omega) left (small bytes) (small out)
  have bytes_ : bytes = out :=
    List.map_injective_iff.mpr (fun _ _ => UInt8.toNat_inj.mp) same
  rw [base32Decode, read, bytes_]
  rfl

end Decoding

end Totp

end Sharerr
