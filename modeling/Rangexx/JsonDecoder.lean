import Rangexx.JsonText

/-!
# A decoder for JSON

A recursive descent along the grammar of JSON.  The members of an object are
returned in the order of the text; the surrogates of an escaped character have
to come in pairs.  The number of calls in a row is bounded, and no bound that
lets the decoder return changes what it returns.
-/

namespace JsonText

/-! ## Whitespace and words -/

def isWhitespace (char : Char) : Bool :=
  char = ' ' || char = '\t' || char = '\n' || char = '\r'

def skip (text : List Char) : List Char :=
  text.dropWhile isWhitespace

/-- The text behind a word. -/
def behind (word text : List Char) : Option (List Char) :=
  if word.isPrefixOf text then some (text.drop word.length) else none

/-! ## Strings -/

/-- The character that a backslash and a letter stand for. -/
def shortEscape (letter : Char) : Option Char :=
  if letter = '"' ∨ letter = '\\' ∨ letter = '/' then some letter
  else if letter = 'b' then some (Char.ofNat 8)
  else if letter = 'f' then some (Char.ofNat 12)
  else if letter = 'n' then some '\n'
  else if letter = 'r' then some '\r'
  else if letter = 't' then some '\t'
  else none

def hexDigit (digit : Char) : Option Nat :=
  if '0' ≤ digit ∧ digit ≤ '9' then some (digit.toNat - '0'.toNat)
  else if 'a' ≤ digit ∧ digit ≤ 'f' then some (digit.toNat - 'a'.toNat + 10)
  else if 'A' ≤ digit ∧ digit ≤ 'F' then some (digit.toNat - 'A'.toNat + 10)
  else none

/-- Four hexadecimal digits. -/
def hexNumber : List Char → Option (Nat × List Char)
  | a :: b :: c :: d :: rest => do
      let a ← hexDigit a
      let b ← hexDigit b
      let c ← hexDigit c
      let d ← hexDigit d
      some (((a * 16 + b) * 16 + c) * 16 + d, rest)
  | _ => none

/-- What follows the `u` of an escape: a number, or a pair of surrogates. -/
def unicodeEscape (text : List Char) : Option (Char × List Char) := do
  let (first, rest) ← hexNumber text
  if first < 0xD800 ∨ 0xDFFF < first then some (Char.ofNat first, rest)
  else if first < 0xDC00 then
    let rest ← behind ['\\', 'u'] rest
    let (second, rest) ← hexNumber rest
    if 0xDC00 ≤ second ∧ second ≤ 0xDFFF then
      some (Char.ofNat (0x10000 + (first - 0xD800) * 0x400 + (second - 0xDC00)), rest)
    else none
  else none

/-- What follows the backslash of an escape. -/
def escape : List Char → Option (Char × List Char)
  | [] => none
  | letter :: rest =>
      if letter = 'u' then unicodeEscape rest
      else (shortEscape letter).map fun char => (char, rest)

/-- A character of a string, of which the first letter has been read. -/
def character (letter : Char) (rest : List Char) : Option (Char × List Char) :=
  if letter = '\\' then escape rest
  else if letter.toNat < 32 then none
  else some (letter, rest)

/-- A string from behind its opening quote to behind its closing one. -/
def stringTail : Nat → List Char → Option (List Char × List Char)
  | 0, _ | _, [] => none
  | calls + 1, letter :: rest =>
      if letter = '"' then some ([], rest)
      else do
        let (char, rest) ← character letter rest
        let (string, rest) ← stringTail calls rest
        some (char :: string, rest)

/-! ## Numbers -/

/-- One digit or more. -/
def digits (text : List Char) : Option (List Char × List Char) :=
  if text.takeWhile Char.isDigit = [] then none
  else some (text.takeWhile Char.isDigit, text.dropWhile Char.isDigit)

/-- A part of a number that may be missing. -/
def optional (part : List Char → Option (List Char × List Char)) (starts : Char → Bool) :
    List Char → Option (List Char × List Char)
  | [] => some ([], [])
  | char :: rest =>
      if starts char then (part rest).map fun read => (char :: read.1, read.2)
      else some ([], char :: rest)

/-- A number without zeros before it. -/
def integer : List Char → Option (List Char × List Char)
  | [] => none
  | char :: rest => if char = '0' then some (['0'], rest) else digits (char :: rest)

def sequence (first second : List Char → Option (List Char × List Char)) (text : List Char) :
    Option (List Char × List Char) := do
  let (literal, rest) ← first text
  let (more, rest) ← second rest
  some (literal ++ more, rest)

def sign : List Char → Option (List Char × List Char)
  | [] => some ([], [])
  | char :: rest =>
      if char = '-' ∨ char = '+' then some ([char], rest) else some ([], char :: rest)

def minus : List Char → Option (List Char × List Char) :=
  optional (fun rest => some ([], rest)) fun char => char = '-'

def fraction : List Char → Option (List Char × List Char) :=
  optional digits fun char => char = '.'

def exponent : List Char → Option (List Char × List Char) :=
  optional (sequence sign digits) fun char => char = 'e' || char = 'E'

def numberLiteral : List Char → Option (List Char × List Char) :=
  sequence minus (sequence integer (sequence fraction exponent))

/-! ## Values -/

mutual

/-- A value at the head of a text, and the text behind it. -/
def value : Nat → List Char → Option (Json (List Char) × List Char)
  | 0, _ | _, [] => none
  | calls + 1, char :: rest =>
      if char = '"' then
        (stringTail calls rest).map fun read => (.string read.1, read.2)
      else if char = '[' then
        match skip rest with
        | [] => none
        | next :: behindNext =>
            if next = ']' then some (.array [], behindNext)
            else (elements calls (next :: behindNext)).map fun read => (.array read.1, read.2)
      else if char = '{' then
        match skip rest with
        | [] => none
        | next :: behindNext =>
            if next = '}' then some (.object [], behindNext)
            else (members calls (next :: behindNext)).map fun read => (.object read.1, read.2)
      else if char = 'n' then
        (behind ['n', 'u', 'l', 'l'] (char :: rest)).map fun rest => (.null, rest)
      else if char = 't' then
        (behind ['t', 'r', 'u', 'e'] (char :: rest)).map fun rest => (.bool true, rest)
      else if char = 'f' then
        (behind ['f', 'a', 'l', 's', 'e'] (char :: rest)).map fun rest => (.bool false, rest)
      else (numberLiteral (char :: rest)).map fun read => (.number read.1, read.2)

/-- The values of an array that has some, to behind the bracket. -/
def elements : Nat → List Char → Option (List (Json (List Char)) × List Char)
  | 0, _ => none
  | calls + 1, text => do
      let (first, rest) ← value calls (skip text)
      match skip rest with
      | [] => none
      | next :: rest =>
          if next = ']' then some ([first], rest)
          else if next = ',' then
            (elements calls rest).map fun read => (first :: read.1, read.2)
          else none

/-- The members of an object that has some, to behind the brace. -/
def members : Nat → List Char → Option (List (List Char × Json (List Char)) × List Char)
  | 0, _ => none
  | calls + 1, text => do
      let rest ← behind ['"'] (skip text)
      let (key, rest) ← stringTail calls rest
      let rest ← behind [':'] (skip rest)
      let (first, rest) ← value calls (skip rest)
      match skip rest with
      | [] => none
      | next :: rest =>
          if next = '}' then some ([(key, first)], rest)
          else if next = ',' then
            (members calls rest).map fun read => ((key, first) :: read.1, read.2)
          else none

end

/-- A text that is one value. -/
def decode (text : List Char) : Option (Json (List Char)) := do
  let (json, rest) ← value text.length (skip text)
  if skip rest = [] then some json else none

/-! ## How much is read -/

theorem length_skip_le (text : List Char) : (skip text).length ≤ text.length :=
  (List.dropWhile_sublist isWhitespace).length_le

theorem eq_of_behind {word text rest : List Char} (read : behind word text = some rest) :
    text = word ++ rest := by
  unfold behind at read
  split at read
  · rename_i starts
    obtain ⟨tail, rfl⟩ := List.isPrefixOf_iff_prefix.mp starts
    rw [List.drop_left, Option.some.injEq] at read
    rw [read]
  · cases read

theorem behind_append (word rest : List Char) : behind word (word ++ rest) = some rest := by
  rw [behind, if_pos (List.isPrefixOf_iff_prefix.mpr (List.prefix_append word rest)),
    List.drop_left]

theorem length_hexNumber {text rest : List Char} {number : Nat}
    (read : hexNumber text = some (number, rest)) : text.length = rest.length + 4 := by
  unfold hexNumber at read
  split at read
  · simp only [Option.bind_eq_bind, Option.bind_eq_some_iff, Option.some.injEq,
      Prod.mk.injEq] at read
    obtain ⟨_, _, _, _, _, _, _, _, _, rfl⟩ := read
    rfl
  · cases read

theorem length_unicodeEscape {text rest : List Char} {char : Char}
    (read : unicodeEscape text = some (char, rest)) : rest.length + 4 ≤ text.length := by
  unfold unicodeEscape at read
  obtain ⟨⟨first, behindFirst⟩, firstRead, read⟩ := Option.bind_eq_some_iff.mp read
  have lengths := length_hexNumber firstRead
  dsimp only at read
  split at read
  · obtain ⟨_, rfl⟩ := Prod.mk.inj (Option.some.inj read)
    omega
  · split at read
    · obtain ⟨behindU, uRead, read⟩ := Option.bind_eq_some_iff.mp read
      obtain ⟨⟨second, behindSecond⟩, secondRead, read⟩ := Option.bind_eq_some_iff.mp read
      have uLengths := congrArg List.length (eq_of_behind uRead)
      have secondLengths := length_hexNumber secondRead
      dsimp only at read
      split at read
      · obtain ⟨_, rfl⟩ := Prod.mk.inj (Option.some.inj read)
        rw [List.length_append] at uLengths
        omega
      · cases read
    · cases read

theorem length_escape {text rest : List Char} {char : Char}
    (read : escape text = some (char, rest)) : rest.length < text.length := by
  cases text with
  | nil => cases read
  | cons letter behindLetter =>
      rw [escape] at read
      split at read
      · have := length_unicodeEscape read
        rw [List.length_cons]
        omega
      · obtain ⟨_, _, pair⟩ := Option.map_eq_some_iff.mp read
        obtain ⟨_, rfl⟩ := Prod.mk.inj pair
        exact Nat.lt_succ_self _

theorem length_character {letter char : Char} {tail next : List Char}
    (read : character letter tail = some (char, next)) : next.length ≤ tail.length := by
  unfold character at read
  split at read
  · exact Nat.le_of_lt (length_escape read)
  · split at read
    · cases read
    · obtain ⟨_, rfl⟩ := Prod.mk.inj (Option.some.inj read)
      exact Nat.le_refl _

/-- A reader of literals returns the letters it has read. -/
def Literal (read : List Char → Option (List Char × List Char)) : Prop :=
  ∀ text literal rest, read text = some (literal, rest) → literal ++ rest = text

theorem literal_digits : Literal digits := by
  intro text literal rest read
  unfold digits at read
  split at read
  · cases read
  · obtain ⟨rfl, rfl⟩ := Prod.mk.inj (Option.some.inj read)
    exact List.takeWhile_append_dropWhile

theorem Literal.optional {part : List Char → Option (List Char × List Char)}
    (literal : Literal part) (starts : Char → Bool) : Literal (optional part starts) := by
  intro text read rest found
  cases text with
  | nil =>
      obtain ⟨rfl, rfl⟩ := Prod.mk.inj (Option.some.inj found)
      rfl
  | cons char behindChar =>
      rw [JsonText.optional] at found
      split at found
      · obtain ⟨more, partRead, pair⟩ := Option.map_eq_some_iff.mp found
        obtain ⟨rfl, rfl⟩ := Prod.mk.inj pair
        rw [List.cons_append, literal _ _ _ partRead]
      · obtain ⟨rfl, rfl⟩ := Prod.mk.inj (Option.some.inj found)
        rfl

/-- What a sequence reads is what its parts read. -/
theorem sequence_cases {first second : List Char → Option (List Char × List Char)}
    {text literal rest : List Char} (read : sequence first second text = some (literal, rest)) :
    ∃ head behindHead tail, first text = some (head, behindHead) ∧
      second behindHead = some (tail, rest) ∧ literal = head ++ tail := by
  obtain ⟨⟨head, behindHead⟩, firstRead, read⟩ := Option.bind_eq_some_iff.mp read
  obtain ⟨⟨tail, behindTail⟩, secondRead, read⟩ := Option.bind_eq_some_iff.mp read
  obtain ⟨rfl, rfl⟩ := Prod.mk.inj (Option.some.inj read)
  exact ⟨head, behindHead, tail, firstRead, secondRead, rfl⟩

theorem Literal.sequence {first second : List Char → Option (List Char × List Char)}
    (firstLiteral : Literal first) (secondLiteral : Literal second) :
    Literal (sequence first second) := by
  intro text read rest found
  obtain ⟨_, _, _, firstRead, secondRead, rfl⟩ := sequence_cases found
  rw [List.append_assoc, secondLiteral _ _ _ secondRead, firstLiteral _ _ _ firstRead]

theorem literal_integer : Literal integer := by
  intro text literal rest read
  cases text with
  | nil => cases read
  | cons char behindChar =>
      rw [integer] at read
      split at read
      · rename_i zero
        obtain ⟨rfl, rfl⟩ := Prod.mk.inj (Option.some.inj read)
        rw [zero]
        rfl
      · exact literal_digits _ _ _ read

theorem integer_ne_nil {text literal rest : List Char}
    (read : integer text = some (literal, rest)) : literal ≠ [] := by
  cases text with
  | nil => cases read
  | cons char behindChar =>
      rw [integer] at read
      split at read
      · obtain ⟨rfl, _⟩ := Prod.mk.inj (Option.some.inj read)
        exact List.cons_ne_nil _ _
      · rw [digits] at read
        split at read
        · cases read
        · rename_i some
          obtain ⟨rfl, _⟩ := Prod.mk.inj (Option.some.inj read)
          exact some

theorem literal_sign : Literal sign := by
  intro text literal rest read
  cases text with
  | nil =>
      obtain ⟨rfl, rfl⟩ := Prod.mk.inj (Option.some.inj read)
      rfl
  | cons char behindChar =>
      rw [sign] at read
      split at read <;>
        · obtain ⟨rfl, rfl⟩ := Prod.mk.inj (Option.some.inj read)
          rfl

theorem literal_numberLiteral : Literal numberLiteral := by
  have nothing : Literal fun rest => some ([], rest) := by
    intro text literal rest read
    obtain ⟨rfl, rfl⟩ := Prod.mk.inj (Option.some.inj read)
    rfl
  have optionalFraction := literal_digits.optional fun char => char = '.'
  have optionalExponent := (literal_sign.sequence literal_digits).optional fun char =>
    char = 'e' || char = 'E'
  exact (nothing.optional fun char => char = '-').sequence
    (literal_integer.sequence (optionalFraction.sequence optionalExponent))

theorem length_numberLiteral {text literal rest : List Char}
    (read : numberLiteral text = some (literal, rest)) : rest.length < text.length := by
  have whole := literal_numberLiteral _ _ _ read
  obtain ⟨_, behindMinus, _, _, behindRead, rfl⟩ := sequence_cases read
  obtain ⟨_, _, _, integerRead, _, rfl⟩ := sequence_cases behindRead
  have some := List.length_pos_iff.mpr (integer_ne_nil integerRead)
  rw [← whole]
  simp only [List.length_append]
  omega

/-! ## What a call reads -/

/-- The part of a string that is read first, and the call for the others. -/
inductive StringRead (calls : Nat) : List Char → List Char → List Char → Prop
  | closed (rest : List Char) : StringRead calls ('"' :: rest) [] rest
  | character {letter char : Char} {tail next string rest : List Char} (open_ : letter ≠ '"')
      (read : character letter tail = some (char, next))
      (others : stringTail calls next = some (string, rest)) :
      StringRead calls (letter :: tail) (char :: string) rest

theorem stringRead_iff {calls : Nat} {text string rest : List Char} :
    stringTail (calls + 1) text = some (string, rest) ↔ StringRead calls text string rest := by
  constructor
  · intro read
    cases text with
    | nil => cases read
    | cons letter tail =>
        rw [stringTail] at read
        split at read
        · rename_i quote
          obtain ⟨rfl, rfl⟩ := Prod.mk.inj (Option.some.inj read)
          rw [quote]
          exact .closed tail
        · rename_i open_
          obtain ⟨⟨char, next⟩, firstRead, read⟩ := Option.bind_eq_some_iff.mp read
          obtain ⟨⟨more, behindMore⟩, others, read⟩ := Option.bind_eq_some_iff.mp read
          obtain ⟨rfl, rfl⟩ := Prod.mk.inj (Option.some.inj read)
          exact .character open_ firstRead others
  · intro read
    cases read with
    | closed => rfl
    | character open_ read others =>
        rw [stringTail, if_neg open_, read]
        exact Option.bind_eq_some_iff.mpr
          ⟨_, rfl, Option.bind_eq_some_iff.mpr ⟨_, others, rfl⟩⟩

/-- What a value begins with, and the call for what is behind that. -/
inductive ValueRead (calls : Nat) : List Char → Json (List Char) → List Char → Prop
  | string {tail string rest : List Char} (read : stringTail calls tail = some (string, rest)) :
      ValueRead calls ('"' :: tail) (.string string) rest
  | noValues {tail rest : List Char} (closed : skip tail = ']' :: rest) :
      ValueRead calls ('[' :: tail) (.array []) rest
  | values {tail next rest : List Char} {char : Char} {values : List (Json (List Char))}
      (opened : skip tail = char :: next) (open_ : char ≠ ']')
      (read : elements calls (char :: next) = some (values, rest)) :
      ValueRead calls ('[' :: tail) (.array values) rest
  | noMembers {tail rest : List Char} (closed : skip tail = '}' :: rest) :
      ValueRead calls ('{' :: tail) (.object []) rest
  | members {tail next rest : List Char} {char : Char}
      {found : List (List Char × Json (List Char))}
      (opened : skip tail = char :: next) (open_ : char ≠ '}')
      (read : members calls (char :: next) = some (found, rest)) :
      ValueRead calls ('{' :: tail) (.object found) rest
  | null {tail rest : List Char} (read : behind ['n', 'u', 'l', 'l'] ('n' :: tail) = some rest) :
      ValueRead calls ('n' :: tail) .null rest
  | true {tail rest : List Char} (read : behind ['t', 'r', 'u', 'e'] ('t' :: tail) = some rest) :
      ValueRead calls ('t' :: tail) (.bool true) rest
  | false {tail rest : List Char} (read : behind ['f', 'a', 'l', 's', 'e'] ('f' :: tail) = some rest) :
      ValueRead calls ('f' :: tail) (.bool false) rest
  | number {char : Char} {tail literal rest : List Char}
      (other : char ∉ ['"', '[', '{', 'n', 't', 'f'])
      (read : numberLiteral (char :: tail) = some (literal, rest)) :
      ValueRead calls (char :: tail) (.number literal) rest

/-- A part was read, and the value made of it. -/
theorem exists_of_map {Part Whole : Type} {make : Part → Whole}
    {read : Option (Part × List Char)} {whole : Whole} {rest : List Char}
    (taken : (read.map fun found => (make found.1, found.2)) = some (whole, rest)) :
    ∃ part, read = some (part, rest) ∧ make part = whole := by
  obtain ⟨⟨part, behindPart⟩, found, pair⟩ := Option.map_eq_some_iff.mp taken
  obtain ⟨same, rfl⟩ := Prod.mk.inj pair
  exact ⟨part, found, same⟩

theorem valueRead_iff {calls : Nat} {text rest : List Char} {json : Json (List Char)} :
    value (calls + 1) text = some (json, rest) ↔ ValueRead calls text json rest := by
  constructor
  · intro read
    cases text with
    | nil => cases read
    | cons char tail =>
        rw [value] at read
        split at read
        · rename_i quote
          obtain ⟨string, stringRead, rfl⟩ := exists_of_map read
          rw [quote]
          exact .string stringRead
        rename_i notQuote
        split at read
        · rename_i bracket
          rw [bracket]
          split at read
          · cases read
          rename_i char next opened
          split at read
          · rename_i closed
            obtain ⟨rfl, rfl⟩ := Prod.mk.inj (Option.some.inj read)
            rw [closed] at opened
            exact .noValues opened
          · rename_i open_
            obtain ⟨values, valuesRead, rfl⟩ := exists_of_map read
            exact .values opened open_ valuesRead
        rename_i notBracket
        split at read
        · rename_i brace
          rw [brace]
          split at read
          · cases read
          rename_i char next opened
          split at read
          · rename_i closed
            obtain ⟨rfl, rfl⟩ := Prod.mk.inj (Option.some.inj read)
            rw [closed] at opened
            exact .noMembers opened
          · rename_i open_
            obtain ⟨found, foundRead, rfl⟩ := exists_of_map read
            exact .members opened open_ foundRead
        rename_i notBrace
        split at read
        · rename_i isN
          obtain ⟨behindWord, wordRead, pair⟩ := Option.map_eq_some_iff.mp read
          obtain ⟨rfl, rfl⟩ := Prod.mk.inj pair
          subst isN
          exact .null wordRead
        rename_i notN
        split at read
        · rename_i isT
          obtain ⟨behindWord, wordRead, pair⟩ := Option.map_eq_some_iff.mp read
          obtain ⟨rfl, rfl⟩ := Prod.mk.inj pair
          subst isT
          exact .true wordRead
        rename_i notT
        split at read
        · rename_i isF
          obtain ⟨behindWord, wordRead, pair⟩ := Option.map_eq_some_iff.mp read
          obtain ⟨rfl, rfl⟩ := Prod.mk.inj pair
          subst isF
          exact .false wordRead
        rename_i notF
        obtain ⟨literal, literalRead, rfl⟩ := exists_of_map read
        exact .number (by simp [notQuote, notBracket, notBrace, notN, notT, notF]) literalRead
  · intro read
    cases read with
    | string read => simp [value, read]
    | noValues closed => simp [value, closed]
    | values opened open_ read => simp [value, opened, open_, read]
    | noMembers closed => simp [value, closed]
    | members opened open_ read => simp [value, opened, open_, read]
    | null read => simp [value, read]
    | true read => simp [value, read]
    | false read => simp [value, read]
    | number other read =>
        simp only [List.mem_cons, List.not_mem_nil, or_false, not_or] at other
        simp [value, other, read]

/-- The first value of those of an array, and the call for the others. -/
inductive ElementsRead (calls : Nat) (text : List Char) :
    List (Json (List Char)) → List Char → Prop
  | last {first : Json (List Char)} {tail rest : List Char}
      (read : value calls (skip text) = some (first, tail)) (closed : skip tail = ']' :: rest) :
      ElementsRead calls text [first] rest
  | more {first : Json (List Char)} {tail next rest : List Char}
      {others : List (Json (List Char))}
      (read : value calls (skip text) = some (first, tail)) (comma : skip tail = ',' :: next)
      (othersRead : elements calls next = some (others, rest)) :
      ElementsRead calls text (first :: others) rest

theorem elementsRead_iff {calls : Nat} {text rest : List Char}
    {values : List (Json (List Char))} :
    elements (calls + 1) text = some (values, rest) ↔ ElementsRead calls text values rest := by
  constructor
  · intro read
    rw [elements] at read
    obtain ⟨⟨first, tail⟩, firstRead, read⟩ := Option.bind_eq_some_iff.mp read
    dsimp only at read
    split at read
    · cases read
    rename_i char next follows
    split at read
    · rename_i closed
      obtain ⟨rfl, rfl⟩ := Prod.mk.inj (Option.some.inj read)
      rw [closed] at follows
      exact .last firstRead follows
    split at read
    · rename_i comma
      obtain ⟨others, othersRead, rfl⟩ := exists_of_map read
      rw [comma] at follows
      exact .more firstRead follows othersRead
    · cases read
  · intro read
    cases read with
    | last read closed => simp [elements, read, closed]
    | more read comma othersRead => simp [elements, read, comma, othersRead]

/-- The first of the members of an object, and the call for the others. -/
inductive MembersRead (calls : Nat) (text : List Char) :
    List (List Char × Json (List Char)) → List Char → Prop
  | last {key quoted colon tail rest : List Char} {first : Json (List Char)}
      (quote : behind ['"'] (skip text) = some quoted)
      (keyRead : stringTail calls quoted = some (key, colon))
      {behindColon : List Char} (colonRead : behind [':'] (skip colon) = some behindColon)
      (read : value calls (skip behindColon) = some (first, tail))
      (closed : skip tail = '}' :: rest) :
      MembersRead calls text [(key, first)] rest
  | more {key quoted colon tail next rest : List Char} {first : Json (List Char)}
      {others : List (List Char × Json (List Char))}
      (quote : behind ['"'] (skip text) = some quoted)
      (keyRead : stringTail calls quoted = some (key, colon))
      {behindColon : List Char} (colonRead : behind [':'] (skip colon) = some behindColon)
      (read : value calls (skip behindColon) = some (first, tail))
      (comma : skip tail = ',' :: next)
      (othersRead : members calls next = some (others, rest)) :
      MembersRead calls text ((key, first) :: others) rest

theorem membersRead_iff {calls : Nat} {text rest : List Char}
    {found : List (List Char × Json (List Char))} :
    members (calls + 1) text = some (found, rest) ↔ MembersRead calls text found rest := by
  constructor
  · intro read
    rw [members] at read
    obtain ⟨quoted, quote, read⟩ := Option.bind_eq_some_iff.mp read
    obtain ⟨⟨key, colon⟩, keyRead, read⟩ := Option.bind_eq_some_iff.mp read
    obtain ⟨behindColon, colonRead, read⟩ := Option.bind_eq_some_iff.mp read
    obtain ⟨⟨first, tail⟩, firstRead, read⟩ := Option.bind_eq_some_iff.mp read
    dsimp only at read
    split at read
    · cases read
    rename_i char next follows
    split at read
    · rename_i closed
      obtain ⟨rfl, rfl⟩ := Prod.mk.inj (Option.some.inj read)
      rw [closed] at follows
      exact .last quote keyRead colonRead firstRead follows
    split at read
    · rename_i comma
      obtain ⟨others, othersRead, rfl⟩ := exists_of_map read
      rw [comma] at follows
      exact .more quote keyRead colonRead firstRead follows othersRead
    · cases read
  · intro read
    cases read with
    | last quote keyRead colonRead read closed =>
        simp [members, quote, keyRead, colonRead, read, closed]
    | more quote keyRead colonRead read comma othersRead =>
        simp [members, quote, keyRead, colonRead, read, comma, othersRead]

/-! ## How many calls are enough -/

theorem stringTail_settled {calls : Nat} {text string rest : List Char}
    (read : stringTail calls text = some (string, rest)) :
    rest.length < text.length ∧ ∀ more, text.length ≤ more + rest.length →
      stringTail more text = some (string, rest) := by
  induction calls generalizing text string with
  | zero => cases text <;> cases read
  | succ calls ih =>
      cases stringRead_iff.mp read with
      | closed =>
          refine ⟨Nat.lt_succ_self _, fun more enough => ?_⟩
          cases more with
          | zero =>
              rw [List.length_cons] at enough
              omega
          | succ more => rfl
      | character open_ charRead others =>
          have ⟨shorter, settled⟩ := ih others
          have charShorter := length_character charRead
          refine ⟨by rw [List.length_cons]; omega, fun more enough => ?_⟩
          rw [List.length_cons] at enough
          cases more with
          | zero => omega
          | succ more =>
              exact stringRead_iff.mpr (.character open_ charRead (settled more (by omega)))

/-- What is read with so many calls is shorter than the text, and is read with
as many calls as it has letters. -/
structure Settled (calls : Nat) : Prop where
  value {text rest : List Char} {json : Json (List Char)}
    (read : value calls text = some (json, rest)) :
    rest.length < text.length ∧ ∀ more, text.length ≤ more + rest.length →
      value more text = some (json, rest)
  elements {text rest : List Char} {values : List (Json (List Char))}
    (read : elements calls text = some (values, rest)) :
    rest.length < text.length ∧ ∀ more, text.length ≤ more + rest.length →
      elements more text = some (values, rest)
  members {text rest : List Char} {found : List (List Char × Json (List Char))}
    (read : members calls text = some (found, rest)) :
    rest.length < text.length ∧ ∀ more, text.length ≤ more + rest.length →
      members more text = some (found, rest)

theorem Settled.valueRead {calls : Nat} (settled : Settled calls) {text rest : List Char}
    {json : Json (List Char)} (read : ValueRead calls text json rest) :
    rest.length < text.length ∧ ∀ more, text.length ≤ more + 1 + rest.length →
      ValueRead more text json rest := by
  cases read with
  | string read =>
      have ⟨shorter, again⟩ := stringTail_settled read
      rw [List.length_cons]
      exact ⟨by omega, fun more enough => .string (again more (by omega))⟩
  | @noValues tail _ closed =>
      have shorter := length_skip_le tail
      rw [closed, List.length_cons] at shorter
      rw [List.length_cons]
      exact ⟨by omega, fun more _ => .noValues closed⟩
  | @values tail next _ char values opened open_ read =>
      have start := length_skip_le tail
      have ⟨shorter, again⟩ := settled.elements read
      rw [opened] at start
      rw [List.length_cons]
      exact ⟨by omega, fun more enough => .values opened open_ (again more (by omega))⟩
  | @noMembers tail _ closed =>
      have shorter := length_skip_le tail
      rw [closed, List.length_cons] at shorter
      rw [List.length_cons]
      exact ⟨by omega, fun more _ => .noMembers closed⟩
  | @members tail next _ char found opened open_ read =>
      have start := length_skip_le tail
      have ⟨shorter, again⟩ := settled.members read
      rw [opened] at start
      rw [List.length_cons]
      exact ⟨by omega, fun more enough => .members opened open_ (again more (by omega))⟩
  | null read =>
      refine ⟨?_, fun more _ => .null read⟩
      rw [eq_of_behind read, List.length_append]
      exact Nat.lt_add_of_pos_left (by decide)
  | true read =>
      refine ⟨?_, fun more _ => .true read⟩
      rw [eq_of_behind read, List.length_append]
      exact Nat.lt_add_of_pos_left (by decide)
  | false read =>
      refine ⟨?_, fun more _ => .false read⟩
      rw [eq_of_behind read, List.length_append]
      exact Nat.lt_add_of_pos_left (by decide)
  | number other read => exact ⟨length_numberLiteral read, fun more _ => .number other read⟩

theorem Settled.elementsRead {calls : Nat} (settled : Settled calls) {text rest : List Char}
    {values : List (Json (List Char))} (read : ElementsRead calls text values rest) :
    rest.length < text.length ∧ ∀ more, text.length ≤ more + 1 + rest.length →
      ElementsRead more text values rest := by
  have start := length_skip_le text
  cases read with
  | @last first tail _ read closed =>
      have ⟨shorter, again⟩ := settled.value read
      have follows := length_skip_le tail
      rw [closed, List.length_cons] at follows
      exact ⟨by omega, fun more enough => .last (again more (by omega)) closed⟩
  | @more first tail next _ others read comma othersRead =>
      have ⟨shorter, again⟩ := settled.value read
      have ⟨othersShorter, othersAgain⟩ := settled.elements othersRead
      have follows := length_skip_le tail
      rw [comma, List.length_cons] at follows
      exact ⟨by omega, fun more enough =>
        .more (again more (by omega)) comma (othersAgain more (by omega))⟩

theorem Settled.membersRead {calls : Nat} (settled : Settled calls) {text rest : List Char}
    {found : List (List Char × Json (List Char))} (read : MembersRead calls text found rest) :
    rest.length < text.length ∧ ∀ more, text.length ≤ more + 1 + rest.length →
      MembersRead more text found rest := by
  have start := length_skip_le text
  cases read with
  | @last key quoted colon tail _ first quote keyRead behindColon colonRead read closed =>
      have ⟨keyShorter, keyAgain⟩ := stringTail_settled keyRead
      have ⟨shorter, again⟩ := settled.value read
      have colonFollows := length_skip_le colon
      have valueFollows := length_skip_le behindColon
      have follows := length_skip_le tail
      rw [eq_of_behind quote, List.singleton_append, List.length_cons] at start
      rw [eq_of_behind colonRead, List.singleton_append, List.length_cons] at colonFollows
      rw [closed, List.length_cons] at follows
      exact ⟨by omega, fun more enough =>
        .last quote (keyAgain more (by omega)) colonRead (again more (by omega)) closed⟩
  | @more key quoted colon tail next _ first others quote keyRead behindColon colonRead read
      comma othersRead =>
      have ⟨keyShorter, keyAgain⟩ := stringTail_settled keyRead
      have ⟨shorter, again⟩ := settled.value read
      have ⟨othersShorter, othersAgain⟩ := settled.members othersRead
      have colonFollows := length_skip_le colon
      have valueFollows := length_skip_le behindColon
      have follows := length_skip_le tail
      rw [eq_of_behind quote, List.singleton_append, List.length_cons] at start
      rw [eq_of_behind colonRead, List.singleton_append, List.length_cons] at colonFollows
      rw [comma, List.length_cons] at follows
      exact ⟨by omega, fun more enough =>
        .more quote (keyAgain more (by omega)) colonRead (again more (by omega)) comma
          (othersAgain more (by omega))⟩

theorem settled (calls : Nat) : Settled calls := by
  induction calls with
  | zero =>
      constructor
      · intro text _ _ read
        cases text <;> cases read
      · intro _ _ _ read
        cases read
      · intro _ _ _ read
        cases read
  | succ calls ih =>
      constructor
      · intro text rest json read
        have ⟨shorter, again⟩ := ih.valueRead (valueRead_iff.mp read)
        refine ⟨shorter, fun more enough => ?_⟩
        cases more with
        | zero => omega
        | succ more => exact valueRead_iff.mpr (again more enough)
      · intro text rest values read
        have ⟨shorter, again⟩ := ih.elementsRead (elementsRead_iff.mp read)
        refine ⟨shorter, fun more enough => ?_⟩
        cases more with
        | zero => omega
        | succ more => exact elementsRead_iff.mpr (again more enough)
      · intro text rest found read
        have ⟨shorter, again⟩ := ih.membersRead (membersRead_iff.mp read)
        refine ⟨shorter, fun more enough => ?_⟩
        cases more with
        | zero => omega
        | succ more => exact membersRead_iff.mpr (again more enough)

/-- However many calls it takes to read a value that is the whole text, it is
decoded. -/
theorem decode_of_value {calls : Nat} {text rest : List Char} {json : Json (List Char)}
    (read : value calls (skip text) = some (json, rest)) (ends : skip rest = []) :
    decode text = some json := by
  have start := length_skip_le text
  have again := ((settled calls).value read).2 text.length (by omega)
  rw [decode, again]
  exact if_pos ends

end JsonText
