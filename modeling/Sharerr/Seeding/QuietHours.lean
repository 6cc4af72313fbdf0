import Mathlib.Tactic.IntervalCases
import Sharerr.Rust.Padded
import Sharerr.Sync.Seed

/-!
# Quiet hours

A daily window written `HH:MM-HH:MM`.  The two numbers of a time are read like
any others, and what keeps their digits at two is that a time has five bytes.
Signs and zeros that make up for missing digits pass.
-/

namespace Sharerr

namespace QuietHours

inductive ParseError where
  /-- `is not HH:MM-HH:MM, e.g. 01:00-07:00` -/
  | bad (text : String)
  /-- `opens and closes at the same minute` -/
  | sameMinute (text : String)
deriving DecidableEq, Repr

def parseU16 : String → Option Nat := Rust.parseUnsigned 65536

/-- The closure `minutes` of `from_str`. -/
def minutes (part : String) : Option Nat := do
  let (hours, mins) ← Rust.splitOnce (· = ':') (Rust.trim part)
  let hours ← parseU16 hours
  let mins ← parseU16 mins
  if hours < 24 ∧ mins < 60 ∧ (Rust.trim part).utf8ByteSize = 5 then
    some (hours * 60 + mins)
  else none

def fromStr (text : String) : Except ParseError QuietHours :=
  match Rust.splitOnce (· = '-') text with
  | none => .error (.bad text)
  | some (start, close) =>
    match minutes start, minutes close with
    | some start, some close =>
      if start = close then .error (.sameMinute text)
      else .ok ⟨start, close⟩
    | _, _ => .error (.bad text)

/-- `Display`. -/
def text (window : QuietHours) : String :=
  Rust.twoDigits (window.start / 60) ++ ":" ++
    Rust.twoDigits (window.start % 60) ++ "-" ++
      Rust.twoDigits (window.end_ / 60) ++ ":" ++
        Rust.twoDigits (window.end_ % 60)

/-- Two digits and the number they stand for. -/
inductive TwoDigits : List Char → Nat → Prop where
  | digits (tens ones : Fin 10) :
      TwoDigits [Nat.digitChar tens, Nat.digitChar ones] (tens * 10 + ones)

/-- `HH:MM`, and its minute of the day. -/
inductive IsTime : List Char → Nat → Prop where
  | time {hour minute : List Char} {hours mins : Nat}
      (hour_ : TwoDigits hour hours) (minute_ : TwoDigits minute mins)
      (inDay : hours < 24) (inHour : mins < 60) :
      IsTime (hour ++ ':' :: minute) (hours * 60 + mins)

/-- Two halves with a dash between them, and whitespace around each. -/
structure Joined (text : String) (start close : List Char) : Prop where
  spelled : ∃ first second third fourth, Rust.IsBlank first ∧
    Rust.IsBlank second ∧ Rust.IsBlank third ∧ Rust.IsBlank fourth ∧
      text.toList = (first ++ start ++ second) ++ '-' ::
        (third ++ close ++ fourth)

/-- Two different times, joined. -/
def Spelled (text : String) (window : QuietHours) : Prop :=
  ∃ start close, Joined text start close ∧ IsTime start window.start ∧
    IsTime close window.end_ ∧ window.start ≠ window.end_

/-- Walking forward from the start around the clock, the minute is met before
the end. -/
def Reaches (window : QuietHours) (minute : Nat) : Prop :=
  ∃ steps, (window.start + steps) % 1440 = minute ∧
    ∀ earlier ≤ steps, (window.start + earlier) % 1440 ≠ window.end_

/-- Five characters that are a number, a colon and a number. -/
inductive Passes : List Char → Nat → Prop where
  | time {hour minute : List Char} {hours mins : Nat}
      (hour_ : Rust.IsNumber (String.ofList hour) hours)
      (minute_ : Rust.IsNumber (String.ofList minute) mins)
      (inDay : hours < 24) (inHour : mins < 60)
      (five : (hour ++ ':' :: minute).length = 5) :
      Passes (hour ++ ':' :: minute) (hours * 60 + mins)

/-- There is a sign, or the colon is not in the middle. -/
def Lopsided (time : List Char) : Prop :=
  '+' ∈ time ∨ time[2]? ≠ some ':'

/-- Two halves that pass, at different minutes, and not both of them are
times. -/
def Misspelled (text : String) : Prop :=
  ∃ start close opens closes, Joined text start close ∧ Passes start opens ∧
    Passes close closes ∧ opens ≠ closes ∧ (Lopsided start ∨ Lopsided close)

section Halves

variable {character : Char}

theorem mem_of_isNumber {characters : List Char} {number : Nat}
    (isNumber : Rust.IsNumber (String.ofList characters) number)
    (member : character ∈ characters) :
    character = '+' ∨ character.isDigit = true := by
  rcases isNumber with isNumeral | ⟨digits, signed, isNumeral⟩
  · refine .inr (isNumeral.digits character ?_)
    rwa [String.toList_ofList]
  · rw [String.toList_ofList] at signed
    rw [signed] at member
    rcases List.mem_cons.mp member with plus | later
    · exact .inl plus
    · refine .inr (isNumeral.digits character ?_)
      rwa [String.toList_ofList]

theorem plain_of_numbers {hour minute : List Char} {hours mins : Nat}
    (hour_ : Rust.IsNumber (String.ofList hour) hours)
    (minute_ : Rust.IsNumber (String.ofList minute) mins)
    (member : character ∈ hour ++ ':' :: minute) :
    character.toNat < 128 ∧ Rust.isWhitespace character = false ∧
      character ≠ '-' := by
  have number : character = '+' ∨ character.isDigit = true →
      character.toNat < 128 ∧ Rust.isWhitespace character = false ∧
        character ≠ '-' := by
    rintro (rfl | digit)
    · decide
    · have alphanum : character.isAlphanum = true := by
        rw [Char.isAlphanum, digit, Bool.or_true]
      refine ⟨Rust.ascii_of_isAlphanum alphanum,
        Rust.isWhitespace_of_isAlphanum alphanum, ?_⟩
      rintro rfl
      cases digit
  rcases List.mem_append.mp member with before | behind
  · exact number (mem_of_isNumber hour_ before)
  · rcases List.mem_cons.mp behind with rfl | behind
    · decide
    · exact number (mem_of_isNumber minute_ behind)

variable {time start close : List Char} {minute : Nat} {text : String}

theorem Passes.plain (passes : Passes time minute) (member : character ∈ time) :
    character.toNat < 128 ∧ Rust.isWhitespace character = false ∧
      character ≠ '-' := by
  cases passes with
  | time hour_ minute_ => exact plain_of_numbers hour_ minute_ member

theorem Passes.trimmed (passes : Passes time minute) :
    Rust.IsTrimmed time :=
  .of_plain fun _ member => (passes.plain member).2.1

theorem Passes.five (passes : Passes time minute) : time.length = 5 := by
  cases passes with
  | time hour_ minute_ inDay inHour five => exact five

theorem Passes.lt (passes : Passes time minute) : minute < 1440 := by
  cases passes with
  | time hour_ minute_ inDay inHour => omega

theorem minutes_eq_some {part : String} : minutes part = some minute ↔
    Passes (Rust.trim part).toList minute := by
  rw [minutes]
  constructor
  · intro read
    obtain ⟨⟨hours, mins⟩, split_, read⟩ := Option.bind_eq_some_iff.mp read
    obtain ⟨hour, hourRead, read⟩ := Option.bind_eq_some_iff.mp read
    obtain ⟨min_, minRead, read⟩ := Option.bind_eq_some_iff.mp read
    obtain ⟨mark, colon, whole, -⟩ := Rust.splitOnce_eq_some.mp split_
    obtain rfl := of_decide_eq_true colon
    have hour_ := (Rust.parseUnsigned_eq_some.mp hourRead).1
    have minute_ := (Rust.parseUnsigned_eq_some.mp minRead).1
    rw [← String.ofList_toList (s := hours)] at hour_
    rw [← String.ofList_toList (s := mins)] at minute_
    split at read
    · next valid =>
        cases read
        obtain ⟨inDay, inHour, size⟩ := valid
        have ascii : ∀ character ∈ (Rust.trim part).toList,
            character.toNat < 128 := by
          intro character member
          rw [whole] at member
          exact (plain_of_numbers hour_ minute_ member).1
        have bytes := Rust.utf8ByteSize_of_ascii ascii
        rw [String.ofList_toList, size, whole] at bytes
        rw [whole]
        exact .time hour_ minute_ inDay inHour bytes.symm
    · cases read
  · intro passes
    have bytes := Rust.utf8ByteSize_of_ascii fun _ member =>
      (passes.plain member).1
    have size : (Rust.trim part).utf8ByteSize = 5 := by
      rw [← passes.five, ← bytes, String.ofList_toList]
    generalize whole : (Rust.trim part).toList = time at passes
    cases passes with
    | @time hour minute_ hours mins hourIs minuteIs inDay inHour five =>
      have split_ : Rust.splitOnce (· = ':') (Rust.trim part) =
          some (String.ofList hour, String.ofList minute_) := by
        refine Rust.splitOnce_eq_some.mpr ⟨':', rfl, ?_, ?_⟩
        · rw [whole, String.toList_ofList, String.toList_ofList]
        · intro character member
          rw [String.toList_ofList] at member
          rcases mem_of_isNumber hourIs member with rfl | digit
          · rfl
          · refine decide_eq_false ?_
            rintro rfl
            cases digit
      have hourRead : parseU16 (String.ofList hour) = some hours :=
        Rust.parseUnsigned_eq_some.mpr ⟨hourIs, by omega⟩
      have minRead : parseU16 (String.ofList minute_) = some mins :=
        Rust.parseUnsigned_eq_some.mpr ⟨minuteIs, by omega⟩
      rw [split_]
      simp only [Option.bind_eq_bind, Option.bind_some, hourRead, minRead]
      exact if_pos ⟨inDay, inHour, size⟩

theorem Joined.halves (joined : Joined text start close) {opens closes : Nat}
    (start_ : Passes start opens) (close_ : Passes close closes) :
    ∃ front back, Rust.splitOnce (· = '-') text = some (front, back) ∧
      Rust.trim front = String.ofList start ∧
        Rust.trim back = String.ofList close := by
  obtain ⟨first, second, third, fourth, blank₁, blank₂, blank₃, blank₄,
    whole⟩ := joined.spelled
  refine ⟨String.ofList (first ++ start ++ second),
    String.ofList (third ++ close ++ fourth), ?_,
    Rust.trim_padded blank₁ start_.trimmed blank₂,
    Rust.trim_padded blank₃ close_.trimmed blank₄⟩
  refine Rust.splitOnce_eq_some.mpr ⟨'-', rfl, ?_, ?_⟩
  · rw [whole, String.toList_ofList, String.toList_ofList]
  · have blank {padding : List Char} (blank_ : Rust.IsBlank padding)
        {character : Char} (member : character ∈ padding) :
        character ≠ '-' := by
      rintro rfl
      cases blank_ '-' member
    intro character member
    rw [String.toList_ofList, List.mem_append, List.mem_append] at member
    refine decide_eq_false ?_
    rcases member with (before | here) | behind
    · exact blank blank₁ before
    · exact (start_.plain here).2.2
    · exact blank blank₂ behind

/-- The texts that are read, and the windows they are read as. -/
theorem fromStr_eq_ok {window : QuietHours} : fromStr text = .ok window ↔
    ∃ start close, Joined text start close ∧ Passes start window.start ∧
      Passes close window.end_ ∧ window.start ≠ window.end_ := by
  constructor
  · intro read
    rw [fromStr] at read
    split at read
    · cases read
    · next front back split_ =>
        split at read
        · next opens closes opensRead closesRead =>
            split at read
            · cases read
            · next other =>
                cases read
                obtain ⟨mark, dash, whole, -⟩ :=
                  Rust.splitOnce_eq_some.mp split_
                obtain rfl := of_decide_eq_true dash
                obtain ⟨first, second, blank₁, blank₂, -, front_⟩ :=
                  Rust.exists_padding front
                obtain ⟨third, fourth, blank₃, blank₄, -, back_⟩ :=
                  Rust.exists_padding back
                rw [front_, back_] at whole
                exact ⟨_, _, ⟨_, _, _, _, blank₁, blank₂, blank₃, blank₄,
                  whole⟩, minutes_eq_some.mp opensRead,
                  minutes_eq_some.mp closesRead, other⟩
        · cases read
  · rintro ⟨start, close, joined, start_, close_, other⟩
    obtain ⟨front, back, split_, trim₁, trim₂⟩ := joined.halves start_ close_
    have opens : minutes front = some window.start := by
      rw [minutes_eq_some, trim₁, String.toList_ofList]
      exact start_
    have closes : minutes back = some window.end_ := by
      rw [minutes_eq_some, trim₂, String.toList_ofList]
      exact close_
    rw [fromStr, split_]
    simp only [opens, closes]
    exact if_neg other

end Halves

section Times

variable {time : List Char} {minute : Nat}

theorem exists_digitChar {character : Char}
    (digit : character.isDigit = true) :
    ∃ value : Fin 10, character = Nat.digitChar value := by
  have range : 48 ≤ character.toNat ∧ character.toNat ≤ 57 := by
    simpa [Char.isDigit, UInt32.le_iff_toNat_le] using digit
  obtain ⟨value, same⟩ : ∃ value : Fin 10, character.toNat = 48 + value :=
    ⟨⟨character.toNat - 48, by omega⟩, by simp only; omega⟩
  refine ⟨value, ?_⟩
  rw [← Char.ofNat_toNat character, same]
  clear same
  revert value
  decide

theorem ofDigitChars_two (tens ones : Fin 10) :
    Nat.ofDigitChars 10 [Nat.digitChar tens, Nat.digitChar ones] 0 =
      tens * 10 + ones := by
  revert tens ones
  decide

theorem isDigit_digitChar (digit : Fin 10) :
    (Nat.digitChar digit).isDigit = true := by
  revert digit
  decide

variable {digits : List Char} {number : Nat}

theorem TwoDigits.numeral (two : TwoDigits digits number) :
    Rust.IsNumeral (String.ofList digits) number := by
  cases two with
  | digits tens ones =>
    refine ⟨by simp, ?_, ?_⟩
    · intro character member
      rw [String.toList_ofList] at member
      simp only [List.mem_cons, List.not_mem_nil, or_false] at member
      rcases member with rfl | rfl
      · exact isDigit_digitChar tens
      · exact isDigit_digitChar ones
    · rw [String.toList_ofList, ofDigitChars_two]

theorem TwoDigits.of_numeral
    (numeral : Rust.IsNumeral (String.ofList digits) number)
    (two : digits.length = 2) : TwoDigits digits number := by
  obtain ⟨first, second, rfl⟩ := List.length_eq_two.mp two
  have all := numeral.digits
  have value := numeral.value
  rw [String.toList_ofList] at all value
  obtain ⟨tens, rfl⟩ := exists_digitChar (all first (by simp))
  obtain ⟨ones, rfl⟩ := exists_digitChar (all second (by simp))
  rw [ofDigitChars_two] at value
  rw [← value]
  exact .digits tens ones

theorem TwoDigits.length_eq (two : TwoDigits digits number) :
    digits.length = 2 := by
  cases two
  rfl

theorem TwoDigits.unsigned (two : TwoDigits digits number) : '+' ∉ digits := by
  intro member
  have digit := two.numeral.digits '+' (by rwa [String.toList_ofList])
  cases digit

theorem IsTime.passes (isTime : IsTime time minute) :
    Passes time minute ∧ ¬ Lopsided time := by
  cases isTime with
  | time hour_ minute_ inDay inHour =>
    have five := hour_.length_eq
    have rest := minute_.length_eq
    refine ⟨.time (.inl hour_.numeral) (.inl minute_.numeral) inDay inHour
      ?_, ?_⟩
    · rw [List.length_append, List.length_cons]
      omega
    · rintro (plus | middle)
      · rcases List.mem_append.mp plus with before | behind
        · exact hour_.unsigned before
        · rcases List.mem_cons.mp behind with colon | behind
          · cases colon
          · exact minute_.unsigned behind
      · refine middle ?_
        rw [List.getElem?_append_right (by omega), five]
        rfl

theorem Passes.isTime (passes : Passes time minute)
    (straight : ¬ Lopsided time) : IsTime time minute := by
  obtain ⟨unsigned, middle⟩ := not_or.mp straight
  rw [not_not] at middle
  cases passes with
  | @time hour minute_ hours mins hourIs minuteIs inDay inHour five =>
    rw [List.length_append, List.length_cons] at five
    have digits {part : List Char} {number : Nat}
        (isNumber : Rust.IsNumber (String.ofList part) number)
        (plain : '+' ∉ part) :
        Rust.IsNumeral (String.ofList part) number := by
      rcases isNumber with isNumeral | ⟨rest, signed, -⟩
      · exact isNumeral
      · rw [String.toList_ofList] at signed
        rw [signed] at plain
        exact absurd List.mem_cons_self plain
    have hour_ := digits hourIs fun plus =>
      unsigned (List.mem_append_left _ plus)
    have mins_ := digits minuteIs fun plus =>
      unsigned (List.mem_append_right _ (List.mem_cons_of_mem _ plus))
    have colon {part : List Char} {number : Nat}
        (isNumeral : Rust.IsNumeral (String.ofList part) number) :
        ':' ∉ part := by
      intro member
      have digit := isNumeral.digits ':' (by rwa [String.toList_ofList])
      cases digit
    have two : hour.length = 2 := by
      rcases Nat.lt_trichotomy hour.length 2 with short | two | long
      · rw [List.getElem?_append_right (by omega)] at middle
        obtain ⟨offset, same⟩ : ∃ offset, 2 - hour.length = offset + 1 :=
          ⟨1 - hour.length, by omega⟩
        rw [same, List.getElem?_cons_succ] at middle
        exact absurd (List.mem_of_getElem? middle) (colon mins_)
      · exact two
      · rw [List.getElem?_append_left (by omega)] at middle
        exact absurd (List.mem_of_getElem? middle) (colon hour_)
    exact .time (.of_numeral hour_ two) (.of_numeral mins_ (by omega))
      inDay inHour

end Times

section Printed

theorem twoDigits_printed {number : Nat} (low : number < 60) :
    TwoDigits (Rust.twoDigits number).toList number := by
  have isNumeral := Rust.isNumeral_twoDigits number
  rw [← String.ofList_toList (s := Rust.twoDigits number)] at isNumeral
  have two : ∀ low < 60, (Rust.twoDigits low).toList.length = 2 := by decide
  exact .of_numeral isNumeral (two number low)

theorem fromStr_text {window : QuietHours} (opens : window.start < 1440)
    (closes : window.end_ < 1440) (other : window.start ≠ window.end_) :
    fromStr window.text = .ok window := by
  have time {minute : Nat} (inDay : minute < 1440) :
      IsTime ((Rust.twoDigits (minute / 60)).toList ++ ':' ::
        (Rust.twoDigits (minute % 60)).toList) minute := by
    have hour : minute / 60 < 60 := by omega
    have minute_ : minute % 60 < 60 := by omega
    have printed := IsTime.time (twoDigits_printed hour)
      (twoDigits_printed minute_) (by omega) minute_
    rwa [Nat.div_add_mod'] at printed
  refine fromStr_eq_ok.mpr ⟨_, _, ⟨[], [], [], [], List.forall_mem_nil _,
    List.forall_mem_nil _, List.forall_mem_nil _, List.forall_mem_nil _, ?_⟩,
    (time opens).passes.1, (time closes).passes.1, other⟩
  simp [text]

end Printed

/-- The window holds the minutes a walk from its start meets before its end. -/
theorem contains_iff_reaches {window : QuietHours} {minute : Nat}
    (opens : window.start < 1440) (closes : window.end_ < 1440)
    (other : window.start ≠ window.end_) (inDay : minute < 1440) :
    window.contains minute = true ↔ Reaches window minute := by
  rw [QuietHours.contains]
  constructor
  · intro inside
    -- the walk stops at the minute the first time around
    refine ⟨(minute + 1440 - window.start) % 1440, by omega, ?_⟩
    intro earlier within
    split at inside
    · rw [Bool.and_eq_true, decide_eq_true_eq, decide_eq_true_eq] at inside
      omega
    · rw [Bool.or_eq_true, decide_eq_true_eq, decide_eq_true_eq] at inside
      omega
  · rintro ⟨steps, arrives, notClosed⟩
    -- a walk as long as the window would have met its end
    have short : steps < (window.end_ + 1440 - window.start) % 1440 := by
      refine Nat.lt_of_not_le fun long => ?_
      exact notClosed _ long (by omega)
    split
    · rw [Bool.and_eq_true, decide_eq_true_eq, decide_eq_true_eq]
      omega
    · rw [Bool.or_eq_true, decide_eq_true_eq, decide_eq_true_eq]
      omega

theorem Spelled.unsigned {text : String} {window : QuietHours}
    (spelled : Spelled text window) : '+' ∉ text.toList := by
  obtain ⟨start, close, ⟨first, second, third, fourth, blank₁, blank₂, blank₃,
    blank₄, whole⟩, time₁, time₂, -⟩ := spelled
  have blank {padding : List Char} (blank_ : Rust.IsBlank padding) :
      '+' ∉ padding := by
    intro member
    cases blank_ '+' member
  obtain ⟨plain₁, -⟩ := not_or.mp time₁.passes.2
  obtain ⟨plain₂, -⟩ := not_or.mp time₂.passes.2
  intro member
  rw [whole] at member
  simp only [List.mem_append, List.mem_cons, blank blank₁, blank blank₂,
    blank blank₃, blank blank₄, plain₁, plain₂] at member
  simp at member

/-- The text is read as the grammar says, its window is printed as a text that
is read back, and the window holds the minutes from its start to its end. -/
def IsReadRight (text : String) : Prop :=
  (∀ window, fromStr text = .ok window ↔ Spelled text window) ∧
    ∀ window, fromStr text = .ok window →
      fromStr window.text = .ok window ∧
        ∀ minute < 1440,
          window.contains minute = true ↔ Reaches window minute

/-- Every text is read right but those where a sign or a zero makes up for a
digit in another place. -/
theorem read_right_iff (text : String) :
    IsReadRight text ↔ ¬ Misspelled text := by
  constructor
  · rintro ⟨accepts, -⟩ ⟨start, close, opens, closes, joined, start_, close_,
      other, lopsided⟩
    have read : fromStr text = .ok ⟨opens, closes⟩ :=
      fromStr_eq_ok.mpr ⟨start, close, joined, start_, close_, other⟩
    obtain ⟨start', close', joined', time₁, time₂, -⟩ :=
      (accepts ⟨opens, closes⟩).mp read
    obtain ⟨front, back, split_, trim₁, trim₂⟩ := joined.halves start_ close_
    obtain ⟨front', back', split', trim₁', trim₂'⟩ :=
      joined'.halves time₁.passes.1 time₂.passes.1
    rw [split_, Option.some.injEq, Prod.mk.injEq] at split'
    obtain ⟨rfl, rfl⟩ := split'
    rw [trim₁, String.ofList_inj] at trim₁'
    rw [trim₂, String.ofList_inj] at trim₂'
    obtain rfl := trim₁'
    obtain rfl := trim₂'
    exact lopsided.elim time₁.passes.2 time₂.passes.2
  · intro spelled
    refine ⟨fun window => ?_, fun window read => ?_⟩
    · rw [fromStr_eq_ok]
      refine exists_congr fun start => exists_congr fun close =>
        and_congr_right fun joined => ?_
      constructor
      · rintro ⟨start_, close_, other⟩
        obtain ⟨straight₁, straight₂⟩ := not_or.mp fun lopsided => spelled
          ⟨_, _, _, _, joined, start_, close_, other, lopsided⟩
        exact ⟨start_.isTime straight₁, close_.isTime straight₂, other⟩
      · rintro ⟨time₁, time₂, other⟩
        exact ⟨time₁.passes.1, time₂.passes.1, other⟩
    · obtain ⟨start, close, -, start_, close_, other⟩ :=
        fromStr_eq_ok.mp read
      exact ⟨fromStr_text start_.lt close_.lt other, fun minute inDay =>
        contains_iff_reaches start_.lt close_.lt other inDay⟩

/-- A sign in front of an hour is taken for its first digit. -/
theorem signed_not_read_right : ¬ IsReadRight "+5:30-07:00" := by
  intro right
  have read : fromStr "+5:30-07:00" = .ok ⟨330, 420⟩ := by decide
  exact ((right.1 ⟨330, 420⟩).mp read).unsigned (by decide)

end QuietHours

end Sharerr
