import Mathlib.Algebra.Order.Ring.Nat
import Mathlib.Data.List.DropRight
import Mathlib.Data.List.Forall2
import Mathlib.Data.Nat.Digits.Defs
import RegionStore.ByteSize

/-!
The sizes in words that are accepted, told by a grammar: digits, then blanks, then a suffix in any
letter case, with blanks around the whole. Each text has one reading, and each text without one is
refused for the first thing that is wrong with it.
-/
namespace RegionStore

/-! ### Trimming -/

namespace Text

/-- The text has blanks at neither end, and just blanks stand around it. -/
structure Trimmed (cs text : List Char) : Prop where
  surrounded : ∃ front back, cs = front ++ (text ++ back) ∧ (∀ c ∈ front, isBlank c = true) ∧
    ∀ c ∈ back, isBlank c = true
  first : ∀ c ∈ text.head?, isBlank c = false
  last : ∀ c ∈ text.getLast?, isBlank c = false

theorem eq_false_of_mem_head?_dropWhile {p : Char → Bool} {cs : List Char} {c : Char}
    (first : c ∈ (cs.dropWhile p).head?) : p c = false := by
  have := cs.head?_dropWhile_not p
  rw [Option.mem_def.1 first] at this
  exact this

theorem dropWhile_of_head? {p : Char → Bool} {cs : List Char}
    (first : ∀ c ∈ cs.head?, p c = false) : cs.dropWhile p = cs := by
  cases cs with
  | nil => rfl
  | cons c rest =>
    apply List.dropWhile_cons_of_neg
    simp [first c rfl]

theorem trimRight_append_of_blank {cs back : List Char} (blank : ∀ c ∈ back, isBlank c = true)
    (last : ∀ c ∈ cs.getLast?, isBlank c = false) : trimRight (cs ++ back) = cs := by
  have blank' : ∀ c ∈ back.reverse, isBlank c = true := by
    intro c member
    exact blank c (List.mem_reverse.1 member)
  rw [trimRight, List.reverse_append, List.dropWhile_append_of_pos blank', dropWhile_of_head?,
    List.reverse_reverse]
  rwa [List.head?_reverse]

theorem trimmed_trim (cs : List Char) : Trimmed cs (trim cs) := by
  have hleft : cs.takeWhile isBlank ++ trimLeft cs = cs := List.takeWhile_append_dropWhile
  have hright : trim cs ++ (trimLeft cs).rtakeWhile isBlank = trimLeft cs :=
    List.rdropWhile_append_rtakeWhile
  refine ⟨⟨cs.takeWhile isBlank, (trimLeft cs).rtakeWhile isBlank, ?_, ?_, ?_⟩, ?_, ?_⟩
  · rw [hright, hleft]
  · exact fun c => List.mem_takeWhile_imp
  · exact fun c => List.mem_rtakeWhile_imp
  · intro c first
    have front : (trimLeft cs).head? = some c := by
      rw [← hright, List.head?_append, Option.mem_def.1 first]
      rfl
    exact eq_false_of_mem_head?_dropWhile front
  · intro c last
    rw [trim, trimRight, List.getLast?_reverse] at last
    exact eq_false_of_mem_head?_dropWhile last

/-- There is one way to trim. -/
theorem trimmed_iff {cs text : List Char} : Trimmed cs text ↔ text = trim cs := by
  constructor
  · rintro ⟨⟨front, back, rfl, hfront, hback⟩, first, last⟩
    rw [trim, trimLeft, List.dropWhile_append_of_pos hfront]
    cases text with
    | nil =>
      rw [List.nil_append, List.dropWhile_eq_nil_iff.2 hback]
      rfl
    | cons c rest =>
      have stays : (c :: rest ++ back).dropWhile isBlank = c :: rest ++ back :=
        dropWhile_of_head? first
      rw [stays, trimRight_append_of_blank hback last]
  · rintro rfl
    exact trimmed_trim cs

end Text

/-! ### Letters and digits -/

/-- The letter, which is in upper case, or the same one in lower case. -/
def InCase (letter c : Char) : Prop := c = letter ∨ c.toNat = letter.toNat + 32

theorem toNat_toUpper (c : Char) :
    c.toUpper.toNat = if 97 ≤ c.toNat ∧ c.toNat ≤ 122 then c.toNat - 32 else c.toNat := by
  have hlower : ('a'.val ≤ c.val ∧ c.val ≤ 'z'.val) ↔ 97 ≤ c.toNat ∧ c.toNat ≤ 122 := by
    simp [UInt32.le_iff_toNat_le]
  unfold Char.toUpper
  split
  · next lower =>
    have bounds := hlower.1 lower
    have step : ('A'.val - 'a'.val).toNat = UInt32.size - 32 := by decide
    rw [if_pos bounds]
    change (c.val + ('A'.val - 'a'.val)).toNat = c.val.toNat - 32
    change 97 ≤ c.val.toNat ∧ c.val.toNat ≤ 122 at bounds
    rw [UInt32.toNat_add, step, UInt32.size]
    omega
  · next other => rw [if_neg (mt hlower.2 other)]

theorem isUpper_iff {c : Char} : c.isUpper = true ↔ 65 ≤ c.toNat ∧ c.toNat ≤ 90 := by
  change decide ('A'.val ≤ c.val ∧ c.val ≤ 'Z'.val) = true ↔ _
  simp [UInt32.le_iff_toNat_le]

theorem isDigit_iff {c : Char} : c.isDigit = true ↔ 48 ≤ c.toNat ∧ c.toNat ≤ 57 := by
  simp [Char.isDigit, UInt32.le_iff_toNat_le]

theorem toUpper_eq_iff {letter c : Char} (upper : letter.isUpper = true) :
    c.toUpper = letter ↔ InCase letter c := by
  rw [isUpper_iff] at upper
  rw [InCase, ← Char.toNat_inj, ← Char.toNat_inj, toNat_toUpper]
  split <;> omega

theorem isDigit_eq_false_of_isBlank {c : Char} (blank : Text.isBlank c = true) :
    c.isDigit = false := by
  rw [Bool.eq_false_iff, ne_eq, isDigit_iff]
  simp only [Text.isBlank, Bool.or_eq_true, Bool.and_eq_true, decide_eq_true_eq, beq_iff_eq] at blank
  omega

/-- A letter in either case is neither a digit nor a blank. -/
theorem InCase.isDigit_isBlank {letter c : Char} (h : InCase letter c)
    (upper : letter.isUpper = true) : c.isDigit = false ∧ Text.isBlank c = false := by
  rw [isUpper_iff] at upper
  rw [InCase, ← Char.toNat_inj] at h
  constructor
  · rw [Bool.eq_false_iff, ne_eq, isDigit_iff]
    omega
  · rw [Bool.eq_false_iff]
    simp only [Text.isBlank, ne_eq, Bool.or_eq_true, Bool.and_eq_true, decide_eq_true_eq, beq_iff_eq]
    omega

namespace ByteSize

/-- The number that decimal digits stand for, by the places of the digits. -/
def value (digits : List Char) : Nat :=
  Nat.ofDigits 10 (digits.reverse.map fun c => c.toNat - '0'.toNat)

theorem decimal_eq_value (digits : List Char) : decimal digits = value digits := by
  induction digits using List.reverseRecOn with
  | nil => rfl
  | append_singleton digits c ih =>
    rw [decimal_append_singleton, ih, value, value, List.reverse_append, List.reverse_singleton,
      List.singleton_append, List.map_cons, Nat.ofDigits_cons, Nat.add_comm]

/-! ### Suffixes -/

/-- The suffixes in upper case, in groups for the powers of 1024 from the zeroth on. -/
def suffixGroups : List (List (List Char)) := [
  [[], ['B']],
  [['K'], ['K', 'B'], ['K', 'I', 'B']],
  [['M'], ['M', 'B'], ['M', 'I', 'B']],
  [['G'], ['G', 'B'], ['G', 'I', 'B']]]

/-- The word is a suffix of a group, in any letter case. -/
def IsSuffix (word : List Char) (power : Nat) : Prop :=
  ∃ group, suffixGroups[power]? = some group ∧ ∃ suffix ∈ group, List.Forall₂ InCase suffix word

theorem suffixes_eq : suffixes = suffixGroups.zipIdx.flatMap fun p =>
    p.1.map fun suffix => (suffix, 1024 ^ p.2) := by decide

theorem nodup_suffixes : (suffixes.map Prod.fst).Nodup := by decide

theorem isUpper_of_mem_suffixes {suffix : List Char} {unit : Nat}
    (member : (suffix, unit) ∈ suffixes) : ∀ letter ∈ suffix, letter.isUpper = true := by
  have all : ∀ p ∈ suffixes, p.1.all Char.isUpper = true := by decide
  exact List.all_eq_true.1 (all _ member)

theorem mem_suffixes_iff {suffix : List Char} {unit : Nat} : (suffix, unit) ∈ suffixes ↔
    ∃ power group, unit = 1024 ^ power ∧ suffixGroups[power]? = some group ∧ suffix ∈ group := by
  simp only [suffixes_eq, List.mem_flatMap, List.mem_map, Prod.exists, List.mem_zipIdx_iff_getElem?,
    Prod.mk.injEq]
  constructor
  · rintro ⟨group, power, found, _, member, rfl, rfl⟩
    exact ⟨power, group, rfl, found, member⟩
  · rintro ⟨power, group, rfl, found, member⟩
    exact ⟨group, power, found, suffix, member, rfl, rfl⟩

/-- Where no key is repeated, every pair is what its key looks up. -/
theorem lookup_eq_some_iff_mem {pairs : List (List Char × Nat)} {key : List Char} {n : Nat}
    (once : (pairs.map Prod.fst).Nodup) : pairs.lookup key = some n ↔ (key, n) ∈ pairs := by
  rw [List.lookup_eq_some_iff]
  constructor
  · rintro ⟨front, back, rfl, -⟩
    simp
  · intro member
    obtain ⟨front, back, rfl⟩ := List.append_of_mem member
    rw [List.map_append, List.map_cons, List.nodup_append] at once
    refine ⟨front, back, rfl, fun p hp => bne_iff_ne.2 ?_⟩
    exact (once.2.2 p.1 (List.mem_map_of_mem hp) key List.mem_cons_self).symm

theorem map_toUpper_eq_iff {suffix word : List Char}
    (upper : ∀ letter ∈ suffix, letter.isUpper = true) :
    word.map Char.toUpper = suffix ↔ List.Forall₂ InCase suffix word := by
  induction suffix generalizing word with
  | nil => rw [List.map_eq_nil_iff, List.forall₂_nil_left_iff]
  | cons letter suffix ih =>
    rw [List.forall_mem_cons] at upper
    cases word with
    | nil => exact iff_of_false nofun nofun
    | cons c word => rw [List.map_cons, List.cons.injEq, List.forall₂_cons, ih upper.2,
        toUpper_eq_iff upper.1]

theorem lookup_toUpper_eq_some_iff {word : List Char} {unit : Nat} :
    suffixes.lookup (word.map Char.toUpper) = some unit ↔
      ∃ power, unit = 1024 ^ power ∧ IsSuffix word power := by
  rw [lookup_eq_some_iff_mem nodup_suffixes]
  constructor
  · intro member
    obtain ⟨power, group, hunit, found, listed⟩ := mem_suffixes_iff.1 member
    exact ⟨power, hunit, group, found, _, listed,
      (map_toUpper_eq_iff (isUpper_of_mem_suffixes member)).1 rfl⟩
  · rintro ⟨power, rfl, group, found, suffix, listed, spelled⟩
    have member := mem_suffixes_iff.2 ⟨power, group, rfl, found, listed⟩
    rwa [(map_toUpper_eq_iff (isUpper_of_mem_suffixes member)).2 spelled]

theorem lookup_toUpper_eq_none_iff {word : List Char} :
    suffixes.lookup (word.map Char.toUpper) = none ↔ ¬ ∃ power, IsSuffix word power := by
  rw [Option.eq_none_iff_forall_ne_some]
  constructor
  · rintro none ⟨power, known⟩
    exact none _ (lookup_toUpper_eq_some_iff.2 ⟨power, rfl, known⟩)
  · intro unknown unit found
    obtain ⟨power, -, known⟩ := lookup_toUpper_eq_some_iff.1 found
    exact unknown ⟨power, known⟩

/-- What a suffix is spelled with is neither a digit nor a blank. -/
theorem IsSuffix.letters {word : List Char} {power : Nat} (h : IsSuffix word power) :
    ∀ c ∈ word, c.isDigit = false ∧ Text.isBlank c = false := by
  obtain ⟨group, found, suffix, listed, spelled⟩ := h
  have upper := isUpper_of_mem_suffixes (mem_suffixes_iff.2 ⟨power, group, rfl, found, listed⟩)
  intro c hc
  have listed : c.toUpper ∈ suffix := by
    rw [← (map_toUpper_eq_iff upper).2 spelled]
    exact List.mem_map_of_mem hc
  exact ((toUpper_eq_iff (upper _ listed)).1 rfl).isDigit_isBlank (upper _ listed)

/-! ### The grammar -/

/-- The text is a number, then blanks, then a suffix. -/
def Written (text : List Char) (n power : Nat) : Prop :=
  ∃ digits blanks word, text = digits ++ (blanks ++ word) ∧ digits ≠ [] ∧
    (∀ c ∈ digits, c.isDigit = true) ∧ value digits = n ∧
    (∀ c ∈ blanks, Text.isBlank c = true) ∧ IsSuffix word power

/-- A text is split where its digits end, and blanks are dropped from what is left. -/
theorem written_iff {text : List Char} {n power : Nat}
    (last : ∀ c ∈ text.getLast?, Text.isBlank c = false) : Written text n power ↔
    text.takeWhile Char.isDigit ≠ [] ∧ value (text.takeWhile Char.isDigit) = n ∧
      IsSuffix (Text.trim (text.dropWhile Char.isDigit)) power := by
  constructor
  · rintro ⟨digits, blanks, word, rfl, some, hdigits, rfl, hblanks, suffix⟩
    have stop : ∀ c ∈ (blanks ++ word).head?, c.isDigit = false := by
      intro c first
      rcases List.mem_append.1 (List.mem_of_mem_head? first) with blank | letter
      · exact isDigit_eq_false_of_isBlank (hblanks c blank)
      · exact (suffix.letters c letter).1
    have hrest := Text.dropWhile_of_head? stop
    have hnone : (blanks ++ word).takeWhile Char.isDigit = [] := by
      have := List.takeWhile_append_dropWhile (p := Char.isDigit) (l := blanks ++ word)
      rwa [hrest, List.append_left_eq_self] at this
    have trimmed : Text.Trimmed (blanks ++ word) word := by
      refine ⟨⟨blanks, [], by rw [List.append_nil], hblanks, nofun⟩, ?_, ?_⟩
      · exact fun c first => (suffix.letters c (List.mem_of_mem_head? first)).2
      · exact fun c last => (suffix.letters c (List.mem_of_mem_getLast? last)).2
    rw [List.takeWhile_append_of_pos hdigits, List.dropWhile_append_of_pos hdigits, hnone,
      List.append_nil, hrest, ← Text.trimmed_iff.1 trimmed]
    exact ⟨some, rfl, suffix⟩
  · rintro ⟨some, rfl, suffix⟩
    obtain ⟨⟨front, back, hrest, hfront, hback⟩, -⟩ :=
      Text.trimmed_trim (text.dropWhile Char.isDigit)
    have htext := List.takeWhile_append_dropWhile (p := Char.isDigit) (l := text)
    -- the text does not end with a blank, so that nothing is dropped behind the suffix
    have ends : back = [] := by
      rcases List.eq_nil_or_concat back with rfl | ⟨init, c, rfl⟩
      · rfl
      · have blank := hback c (by simp)
        rw [last c (by rw [← htext, hrest]; simp)] at blank
        cases blank
    subst ends
    rw [List.append_nil] at hrest
    exact ⟨_, front, _, by rw [← hrest, htext], some, fun c => List.mem_takeWhile_imp, rfl, hfront,
      suffix⟩

/-- What a text that has been trimmed is read as. -/
inductive Reads (text : List Char) : Except Malformed Nat → Prop
  | noNumber (none : ∀ c ∈ text.head?, c.isDigit = false) : Reads text (.error (.noNumber text))
  | unknownSuffix (some : ∃ c ∈ text.head?, c.isDigit = true)
      (unknown : ¬ ∃ n power, Written text n power) : Reads text (.error (.unknownSuffix
        ((Text.trim (text.dropWhile Char.isDigit)).map Char.toUpper)))
  | numberTooLarge {n power : Nat} (written : Written text n power) (large : limit ≤ n) :
      Reads text (.error (.numberTooLarge text))
  | sizeTooLarge {n power : Nat} (written : Written text n power) (small : n < limit)
      (large : limit ≤ n * 1024 ^ power) : Reads text (.error (.sizeTooLarge text))
  | size {n power : Nat} (written : Written text n power) (small : n * 1024 ^ power < limit) :
      Reads text (.ok (n * 1024 ^ power))

theorem takeWhile_isDigit_eq_nil_iff {text : List Char} :
    text.takeWhile Char.isDigit = [] ↔ ∀ c ∈ text.head?, c.isDigit = false := by
  cases text with
  | nil => simp
  | cons c rest => cases hc : c.isDigit <;> simp [hc]

/-- A number with a suffix is read up to the two bounds on sizes. -/
theorem read_of_written {input : List Char} {n power : Nat}
    (written : Written (Text.trim input) n power) : read input =
      if limit ≤ n then .error (.numberTooLarge (Text.trim input))
      else if limit ≤ n * 1024 ^ power then .error (.sizeTooLarge (Text.trim input))
      else .ok (n * 1024 ^ power) := by
  obtain ⟨some, rfl, suffix⟩ := (written_iff (Text.trimmed_trim input).last).1 written
  have found := lookup_toUpper_eq_some_iff.2 ⟨power, rfl, suffix⟩
  rw [read]
  simp only [List.isEmpty_eq_false_iff.2 some, found, decimal_eq_value, Bool.false_eq_true,
    if_false]

theorem Reads.read_eq {input : List Char} {answer : Except Malformed Nat}
    (h : Reads (Text.trim input) answer) : read input = answer := by
  cases h with
  | noNumber none =>
    rw [read]
    simp only [takeWhile_isDigit_eq_nil_iff.2 none, List.isEmpty_nil, if_true]
  | unknownSuffix some unknown =>
    have digits : (Text.trim input).takeWhile Char.isDigit ≠ [] := by
      obtain ⟨c, first, digit⟩ := some
      rw [ne_eq, takeWhile_isDigit_eq_nil_iff]
      intro none
      rw [none c first] at digit
      cases digit
    have missing := lookup_toUpper_eq_none_iff.2 fun ⟨power, suffix⟩ =>
      unknown ⟨_, power, (written_iff (Text.trimmed_trim input).last).2 ⟨digits, rfl, suffix⟩⟩
    rw [read]
    simp only [List.isEmpty_eq_false_iff.2 digits, missing, Bool.false_eq_true, if_false]
  | numberTooLarge written large => rw [read_of_written written, if_pos large]
  | sizeTooLarge written small large =>
    rw [read_of_written written, if_neg (Nat.not_le.2 small), if_pos large]
  | @size n power written small =>
    have : n ≤ n * 1024 ^ power := Nat.le_mul_of_pos_right n (by positivity)
    rw [read_of_written written, if_neg (by omega), if_neg (by omega)]

theorem exists_reads (text : List Char) : ∃ answer, Reads text answer := by
  by_cases none : ∀ c ∈ text.head?, c.isDigit = false
  · exact ⟨_, .noNumber none⟩
  by_cases known : ∃ n power, Written text n power
  · obtain ⟨n, power, written⟩ := known
    by_cases large : limit ≤ n
    · exact ⟨_, .numberTooLarge written large⟩
    by_cases exceeds : limit ≤ n * 1024 ^ power
    · exact ⟨_, .sizeTooLarge written (Nat.not_le.1 large) exceeds⟩
    · exact ⟨_, .size written (Nat.not_le.1 exceeds)⟩
  · simp only [not_forall, Bool.not_eq_false, exists_prop] at none
    exact ⟨_, .unknownSuffix none known⟩

/-- Each text has one reading. -/
theorem read_eq_iff {input : List Char} {answer : Except Malformed Nat} :
    read input = answer ↔ Reads (Text.trim input) answer := by
  constructor
  · rintro rfl
    obtain ⟨answer, reads⟩ := exists_reads (Text.trim input)
    rwa [reads.read_eq]
  · exact Reads.read_eq

/-- A size is accepted exactly if it is a number and a suffix, with blanks around and between the
two, and if what they stand for is less than 2 ^ 64. That is what it is read as then. Whatever else
is refused: first for want of a digit, then for its suffix, then for its number or its size, which
are too large. -/
theorem parse_grammar (s : String) : ∃ text, (∀ t, Text.Trimmed s.toList t ↔ t = text) ∧
    (∀ size, parse s = .ok size ↔
      ∃ n power, Written text n power ∧ size = n * 1024 ^ power ∧ size < 2 ^ 64) ∧
    (parse s = .error (.noNumber text) ↔ ∀ c ∈ text.head?, c.isDigit = false) ∧
    ((∃ suffix, parse s = .error (.unknownSuffix suffix)) ↔
      (∃ c ∈ text.head?, c.isDigit = true) ∧ ¬ ∃ n power, Written text n power) ∧
    (parse s = .error (.numberTooLarge text) ↔ ∃ n power, Written text n power ∧ 2 ^ 64 ≤ n) ∧
    (parse s = .error (.sizeTooLarge text) ↔
      ∃ n power, Written text n power ∧ n < 2 ^ 64 ∧ 2 ^ 64 ≤ n * 1024 ^ power) := by
  refine ⟨Text.trim s.toList, fun t => Text.trimmed_iff, fun size => ?_, ?_, ?_, ?_, ?_⟩
  all_goals simp only [parse, read_eq_iff]
  · constructor
    · intro reads
      cases reads with
      | size written small => exact ⟨_, _, written, rfl, small⟩
    · rintro ⟨n, power, written, rfl, small⟩
      exact .size written small
  · constructor
    · rintro ⟨none⟩
      exact none
    · exact .noNumber
  · constructor
    · rintro ⟨suffix, reads⟩
      cases reads with
      | unknownSuffix some unknown => exact ⟨some, unknown⟩
    · rintro ⟨some, unknown⟩
      exact ⟨_, .unknownSuffix some unknown⟩
  · constructor
    · intro reads
      cases reads with
      | numberTooLarge written large => exact ⟨_, _, written, large⟩
    · rintro ⟨n, power, written, large⟩
      exact .numberTooLarge written large
  · constructor
    · intro reads
      cases reads with
      | sizeTooLarge written small large => exact ⟨_, _, written, small, large⟩
    · rintro ⟨n, power, written, small, large⟩
      exact .sizeTooLarge written small large

example : parse " 007\u2003kIb\n" = .ok 7168 := by decide

example : parse "1\u212a" = .error (.unknownSuffix ['\u212a']) := by decide

end ByteSize

end RegionStore
