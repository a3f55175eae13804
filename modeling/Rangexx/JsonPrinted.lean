import Rangexx.JsonDecoder

/-!
# Decoding printed texts

What the decoder reads is no shorter than the text printed for it, with one
letter more for each character of a string that needs an escape.  A text
printed without escapes therefore decodes to its value just when no string or
key of the value needs one.
-/

namespace JsonText

/-- A character that a string only holds in an escape. -/
def Special (char : Char) : Prop :=
  char = '"' ∨ char = '\\' ∨ char.toNat < 32

instance : DecidablePred Special := fun char =>
  inferInstanceAs (Decidable (char = '"' ∨ char = '\\' ∨ char.toNat < 32))

/-- How many characters need an escape. -/
def specials (texts : List (List Char)) : Nat :=
  texts.flatten.countP fun char => decide (Special char)

theorem specials_append (first second : List (List Char)) :
    specials (first ++ second) = specials first + specials second := by
  rw [specials, List.flatten_append, List.countP_append, specials, specials]

theorem specials_eq_zero_iff {texts : List (List Char)} :
    specials texts = 0 ↔ ∀ text ∈ texts, ∀ char ∈ text, ¬ Special char := by
  simp only [specials, List.countP_eq_zero, List.mem_flatten, decide_eq_true_eq]
  constructor
  · exact fun none text member char inText => none char ⟨text, member, inText⟩
  · rintro none char ⟨text, member, inText⟩
    exact none text member char inText

/-- The text printed for a value. -/
def Json.plain (json : Json (List Char)) : List Char :=
  json.print (fun char => [char]) id

/-! ## How much is read -/

/-- A character that needs an escape takes two letters. -/
theorem length_special {letter char : Char} {tail next : List Char} (open_ : letter ≠ '"')
    (read : character letter tail = some (char, next)) :
    next.length + (if Special char then 1 else 0) ≤ tail.length := by
  unfold character at read
  split at read
  · have shorter := length_escape read
    split <;> omega
  · rename_i notBackslash
    split at read
    · cases read
    · rename_i notControl
      obtain ⟨rfl, rfl⟩ := Prod.mk.inj (Option.some.inj read)
      have isPlain : ¬ Special letter := fun special =>
        special.elim open_ (·.elim notBackslash notControl)
      rw [if_neg isPlain]
      exact Nat.le_refl _

theorem length_stringTail {calls : Nat} {text string rest : List Char}
    (read : stringTail calls text = some (string, rest)) :
    string.length + specials [string] + 1 + rest.length ≤ text.length := by
  induction calls generalizing text string with
  | zero => cases text <;> cases read
  | succ calls ih =>
      cases stringRead_iff.mp read with
      | closed => simp [specials, Nat.add_comm]
      | @character letter char tail next string _ open_ charRead others =>
          have shorter := length_special open_ charRead
          have covered := ih others
          simp only [specials, List.flatten_cons, List.flatten_nil, List.append_nil,
            List.countP_cons, List.length_cons, decide_eq_true_eq] at covered ⊢
          omega

/-! ## Values -/

theorem specials_nil : specials [] = 0 :=
  rfl

theorem specials_cons (text : List Char) (texts : List (List Char)) :
    specials (text :: texts) = specials [text] + specials texts :=
  specials_append [text] texts

/-- The text for the values of an array, without its brackets. -/
def plainValues (values : List (Json (List Char))) : List Char :=
  [','].intercalate (Json.printValues (fun char => [char]) id values)

/-- The text for the members of an object, without its braces. -/
def plainMembers (members : List (List Char × Json (List Char))) : List Char :=
  [','].intercalate (Json.printMembers (fun char => [char]) id members)

theorem plain_array (values : List (Json (List Char))) :
    (Json.array values).plain = '[' :: plainValues values ++ [']'] :=
  rfl

theorem plain_object (members : List (List Char × Json (List Char))) :
    (Json.object members).plain = '{' :: plainMembers members ++ ['}'] :=
  rfl

theorem plain_array_append (values : List (Json (List Char))) (rest : List Char) :
    (Json.array values).plain ++ rest = '[' :: (plainValues values ++ ']' :: rest) := by
  rw [plain_array, List.append_assoc]
  rfl

theorem plain_object_append (members : List (List Char × Json (List Char))) (rest : List Char) :
    (Json.object members).plain ++ rest = '{' :: (plainMembers members ++ '}' :: rest) := by
  rw [plain_object, List.append_assoc]
  rfl

theorem plainValues_cons (first : Json (List Char)) {others : List (Json (List Char))}
    (nonempty : others ≠ []) :
    plainValues (first :: others) = first.plain ++ ',' :: plainValues others := by
  cases others with
  | nil => exact absurd rfl nonempty
  | cons second others =>
      simp only [plainValues, Json.printValues, List.intercalate_cons_cons]
      simp [Json.plain]

theorem plainValues_singleton (first : Json (List Char)) : plainValues [first] = first.plain :=
  List.append_nil _

def plainMember (key : List Char) (json : Json (List Char)) : List Char :=
  '"' :: key ++ '"' :: ':' :: json.plain

theorem plainMembers_cons (key : List Char) (first : Json (List Char))
    {others : List (List Char × Json (List Char))} (nonempty : others ≠ []) :
    plainMembers ((key, first) :: others) = plainMember key first ++ ',' :: plainMembers others := by
  cases others with
  | nil => exact absurd rfl nonempty
  | cons second others =>
      simp only [plainMembers, Json.printMembers, List.intercalate_cons_cons]
      simp [Json.plain, plainMember, Json.quoted]

theorem plainMembers_singleton (key : List Char) (first : Json (List Char)) :
    plainMembers [(key, first)] = plainMember key first := by
  simp [plainMembers, Json.printMembers, Json.plain, plainMember, Json.quoted]

/-- What is read is at least as long as what is printed, with the escapes. -/
structure Covered (calls : Nat) : Prop where
  value {text rest : List Char} {json : Json (List Char)}
    (read : value calls text = some (json, rest)) :
    json.plain.length + specials json.texts + rest.length ≤ text.length
  elements {text rest : List Char} {values : List (Json (List Char))}
    (read : elements calls text = some (values, rest)) :
    values ≠ [] ∧ (plainValues values).length + specials (Json.textsOf values) + 1 +
      rest.length ≤ text.length
  members {text rest : List Char} {found : List (List Char × Json (List Char))}
    (read : members calls text = some (found, rest)) :
    found ≠ [] ∧ (plainMembers found).length + specials (Json.textsOfMembers found) + 1 +
      rest.length ≤ text.length

theorem Covered.valueRead {calls : Nat} (covered : Covered calls) {text rest : List Char}
    {json : Json (List Char)} (read : ValueRead calls text json rest) :
    json.plain.length + specials json.texts + rest.length ≤ text.length := by
  cases read with
  | @string tail string _ read =>
      have := length_stringTail read
      simp only [Json.plain, Json.print, Json.quoted, Json.texts, List.length_append,
        List.length_cons, List.length_nil, id_eq]
      omega
  | @noValues tail _ closed =>
      have shorter := length_skip_le tail
      rw [closed, List.length_cons] at shorter
      simp only [Json.texts, Json.textsOf, specials_nil, plain_array, List.length_cons,
        List.length_append, List.length_nil]
      have : (plainValues []).length = 0 := rfl
      omega
  | @values tail next _ char values opened open_ read =>
      have shorter := length_skip_le tail
      obtain ⟨_, within⟩ := covered.elements read
      rw [opened] at shorter
      simp only [Json.texts, plain_array, List.length_cons, List.length_append,
        List.length_nil] at shorter within ⊢
      omega
  | @noMembers tail _ closed =>
      have shorter := length_skip_le tail
      rw [closed, List.length_cons] at shorter
      simp only [Json.texts, Json.textsOfMembers, specials_nil, plain_object, List.length_cons,
        List.length_append, List.length_nil]
      have : (plainMembers []).length = 0 := rfl
      omega
  | @members tail next _ char found opened open_ read =>
      have shorter := length_skip_le tail
      obtain ⟨_, within⟩ := covered.members read
      rw [opened] at shorter
      simp only [Json.texts, plain_object, List.length_cons, List.length_append,
        List.length_nil] at shorter within ⊢
      omega
  | null read | true read | false read =>
      rw [eq_of_behind read]
      exact Nat.le_of_eq (by rw [List.length_append]; rfl)
  | number other read =>
      rw [← literal_numberLiteral _ _ _ read, List.length_append]
      exact Nat.le_refl _

theorem Covered.elementsRead {calls : Nat} (covered : Covered calls) {text rest : List Char}
    {values : List (Json (List Char))} (read : ElementsRead calls text values rest) :
    values ≠ [] ∧ (plainValues values).length + specials (Json.textsOf values) + 1 +
      rest.length ≤ text.length := by
  have start := length_skip_le text
  cases read with
  | @last first tail _ read closed =>
      have within := covered.value read
      have shorter := length_skip_le tail
      rw [closed, List.length_cons] at shorter
      refine ⟨List.cons_ne_nil _ _, ?_⟩
      rw [plainValues_singleton, Json.textsOf, Json.textsOf, List.append_nil]
      omega
  | @more first tail next _ others read comma othersRead =>
      have within := covered.value read
      obtain ⟨nonempty, othersWithin⟩ := covered.elements othersRead
      have shorter := length_skip_le tail
      rw [comma, List.length_cons] at shorter
      refine ⟨List.cons_ne_nil _ _, ?_⟩
      rw [plainValues_cons first nonempty, Json.textsOf, specials_append, List.length_append,
        List.length_cons]
      omega

theorem Covered.membersRead {calls : Nat} (covered : Covered calls) {text rest : List Char}
    {found : List (List Char × Json (List Char))} (read : MembersRead calls text found rest) :
    found ≠ [] ∧ (plainMembers found).length + specials (Json.textsOfMembers found) + 1 +
      rest.length ≤ text.length := by
  have start := length_skip_le text
  have headLength {key quoted colon behindColon tail : List Char} {first : Json (List Char)}
      (quote : behind ['"'] (skip text) = some quoted)
      (keyRead : stringTail calls quoted = some (key, colon))
      (colonRead : behind [':'] (skip colon) = some behindColon)
      (read : JsonText.value calls (skip behindColon) = some (first, tail)) :
      (plainMember key first).length + specials (key :: first.texts) + tail.length ≤
        text.length := by
    have keyWithin := length_stringTail keyRead
    have within := covered.value read
    have colonShorter := length_skip_le colon
    have valueShorter := length_skip_le behindColon
    rw [eq_of_behind quote] at start
    rw [eq_of_behind colonRead] at colonShorter
    rw [specials_cons]
    simp only [plainMember, List.length_append, List.length_cons, List.cons_append,
      List.nil_append] at start colonShorter ⊢
    omega
  cases read with
  | @last key quoted colon tail _ first quote keyRead behindColon colonRead read closed =>
      have within := headLength quote keyRead colonRead read
      have shorter := length_skip_le tail
      rw [closed, List.length_cons] at shorter
      refine ⟨List.cons_ne_nil _ _, ?_⟩
      rw [plainMembers_singleton, Json.textsOfMembers, Json.textsOfMembers, List.append_nil]
      omega
  | @more key quoted colon tail next _ first others quote keyRead behindColon colonRead read
      comma othersRead =>
      have within := headLength quote keyRead colonRead read
      obtain ⟨nonempty, othersWithin⟩ := covered.members othersRead
      have shorter := length_skip_le tail
      rw [comma, List.length_cons] at shorter
      refine ⟨List.cons_ne_nil _ _, ?_⟩
      rw [plainMembers_cons key first nonempty, Json.textsOfMembers, specials_append,
        List.length_append, List.length_cons]
      omega

theorem covered (calls : Nat) : Covered calls := by
  induction calls with
  | zero =>
      constructor
      · intro text _ _ read
        cases text <;> cases read
      · intro _ _ _ read
        cases read
      · intro _ _ _ read
        cases read
  | succ calls ih =>
      exact ⟨fun read => ih.valueRead (valueRead_iff.mp read),
        fun read => ih.elementsRead (elementsRead_iff.mp read),
        fun read => ih.membersRead (membersRead_iff.mp read)⟩

theorem length_of_decode {text : List Char} {json : Json (List Char)}
    (decoded : decode text = some json) :
    json.plain.length + specials json.texts ≤ text.length := by
  obtain ⟨⟨_, rest⟩, read, decoded⟩ := Option.bind_eq_some_iff.mp decoded
  dsimp only at decoded
  split at decoded
  · cases decoded
    have within := (covered _).value read
    have shorter := length_skip_le text
    omega
  · cases decoded

/-! ## Reading what was printed -/

theorem skip_cons {char : Char} (text : List Char) (letter : isWhitespace char = false) :
    skip (char :: text) = char :: text :=
  List.dropWhile_cons_of_neg (by simp [letter])

/-- The strings of a value need no escapes. -/
def Plain (texts : List (List Char)) : Prop :=
  ∀ text ∈ texts, ∀ char ∈ text, ¬ Special char

theorem stringTail_plain {calls : Nat} {string : List Char}
    (plain : ∀ char ∈ string, ¬ Special char) (enough : string.length < calls)
    (rest : List Char) : stringTail calls (string ++ '"' :: rest) = some (string, rest) := by
  induction string generalizing calls with
  | nil =>
      cases calls with
      | zero => cases enough
      | succ calls => rfl
  | cons char string ih =>
      have ⟨notSpecial, others⟩ := List.forall_mem_cons.mp plain
      simp only [Special, not_or] at notSpecial
      cases calls with
      | zero => cases enough
      | succ calls =>
          have read : character char (string ++ '"' :: rest) =
              some (char, string ++ '"' :: rest) := by
            rw [character, if_neg notSpecial.2.1, if_neg notSpecial.2.2]
          exact stringRead_iff.mpr (.character notSpecial.1 read
            (ih others (Nat.lt_of_succ_lt_succ enough)))

/-- A value other than a number begins with a letter that tells what it is. -/
theorem plain_head {json : Json (List Char)} (noNumbers : json.numbers = []) :
    ∃ char tail, json.plain = char :: tail ∧ isWhitespace char = false ∧ char ≠ ']' := by
  cases json with
  | null => exact ⟨'n', _, rfl, rfl, by decide⟩
  | bool value =>
      cases value with
      | true => exact ⟨'t', _, rfl, rfl, by decide⟩
      | false => exact ⟨'f', _, rfl, rfl, by decide⟩
  | number literal => cases noNumbers
  | string text => exact ⟨'"', _, rfl, rfl, by decide⟩
  | array values => exact ⟨'[', _, rfl, rfl, by decide⟩
  | object members => exact ⟨'{', _, rfl, rfl, by decide⟩

theorem skip_plain {json : Json (List Char)} (noNumbers : json.numbers = []) (rest : List Char) :
    skip (json.plain ++ rest) = json.plain ++ rest := by
  obtain ⟨char, tail, shape, letter, _⟩ := plain_head noNumbers
  rw [shape, List.cons_append, skip_cons _ letter]

/-- With enough calls, the value is read from its printed text, whatever is
behind it. -/
def Reads (json : Json (List Char)) : Prop :=
  ∀ calls rest, json.plain.length ≤ calls → value calls (json.plain ++ rest) = some (json, rest)

theorem elements_plain {values : List (Json (List Char))} (nonempty : values ≠ [])
    (noNumbers : Json.numbersOf values = []) (reads : ∀ json ∈ values, Reads json)
    {calls : Nat} (enough : (plainValues values).length < calls) (rest : List Char) :
    elements calls (plainValues values ++ ']' :: rest) = some (values, rest) := by
  induction values generalizing calls with
  | nil => exact absurd rfl nonempty
  | cons first others ih =>
      have ⟨firstReads, othersRead⟩ := List.forall_mem_cons.mp reads
      have ⟨firstNone, othersNone⟩ := List.append_eq_nil_iff.mp noNumbers
      cases calls with
      | zero => cases enough
      | succ calls =>
          by_cases last : others = []
          · subst last
            rw [plainValues_singleton] at enough ⊢
            apply elementsRead_iff.mpr
            refine @ElementsRead.last calls _ first (']' :: rest) rest ?_ rfl
            rw [skip_plain firstNone]
            exact firstReads calls _ (Nat.le_of_lt_succ enough)
          · rw [plainValues_cons first last, List.length_append, List.length_cons] at enough
            rw [plainValues_cons first last, List.append_assoc, List.cons_append]
            apply elementsRead_iff.mpr
            refine @ElementsRead.more calls _ first (',' :: (plainValues others ++ ']' :: rest)) _
              rest others ?_ rfl ?_
            · rw [skip_plain firstNone]
              exact firstReads calls _ (by omega)
            · exact ih last othersNone othersRead (by omega)

/-- What is read of a member before what follows it. -/
theorem member_plain {key : List Char} {first : Json (List Char)} {calls : Nat}
    (keyPlain : ∀ char ∈ key, ¬ Special char) (noNumbers : first.numbers = [])
    (reads : Reads first) (enough : (plainMember key first).length ≤ calls) (tail : List Char) :
    ∃ quoted colon behindColon,
      behind ['"'] (skip (plainMember key first ++ tail)) = some quoted ∧
      stringTail calls quoted = some (key, colon) ∧
      behind [':'] (skip colon) = some behindColon ∧
      value calls (skip behindColon) = some (first, tail) := by
  simp only [plainMember, List.length_cons, List.length_append] at enough
  refine ⟨key ++ '"' :: ':' :: (first.plain ++ tail), ':' :: (first.plain ++ tail),
    first.plain ++ tail, ?_, ?_, behind_append [':'] _, ?_⟩
  · have shape : plainMember key first ++ tail =
        '"' :: (key ++ '"' :: ':' :: (first.plain ++ tail)) := by
      simp [plainMember]
    rw [shape]
    exact behind_append ['"'] _
  · exact stringTail_plain keyPlain (by omega) _
  · rw [skip_plain noNumbers]
    exact reads calls tail (by omega)

theorem members_plain {members : List (List Char × Json (List Char))} (nonempty : members ≠ [])
    (plain : Plain (Json.textsOfMembers members))
    (noNumbers : Json.numbersOfMembers members = [])
    (reads : ∀ member ∈ members, Reads member.2)
    {calls : Nat} (enough : (plainMembers members).length < calls) (rest : List Char) :
    JsonText.members calls (plainMembers members ++ '}' :: rest) = some (members, rest) := by
  induction members generalizing calls with
  | nil => exact absurd rfl nonempty
  | cons member others ih =>
      obtain ⟨key, first⟩ := member
      have ⟨firstReads, othersRead⟩ := List.forall_mem_cons.mp reads
      have ⟨firstNone, othersNone⟩ := List.append_eq_nil_iff.mp noNumbers
      have ⟨textsPlain, othersPlain⟩ := List.forall_mem_append.mp plain
      have keyPlain := textsPlain key List.mem_cons_self
      cases calls with
      | zero => cases enough
      | succ calls =>
          by_cases last : others = []
          · subst last
            rw [plainMembers_singleton] at enough ⊢
            obtain ⟨_, _, _, quote, keyRead, colonRead, read⟩ :=
              member_plain keyPlain firstNone firstReads (Nat.le_of_lt_succ enough) ('}' :: rest)
            exact membersRead_iff.mpr (.last quote keyRead colonRead read rfl)
          · rw [plainMembers_cons key first last, List.length_append, List.length_cons] at enough
            rw [plainMembers_cons key first last, List.append_assoc, List.cons_append]
            obtain ⟨_, _, _, quote, keyRead, colonRead, read⟩ :=
              @member_plain key first calls keyPlain firstNone firstReads (by omega)
                (',' :: (plainMembers others ++ '}' :: rest))
            exact membersRead_iff.mpr (.more quote keyRead colonRead read rfl
              (ih last othersPlain othersNone othersRead (by omega)))

theorem plainValues_head {values : List (Json (List Char))} (nonempty : values ≠ [])
    (noNumbers : Json.numbersOf values = []) :
    ∃ char tail, plainValues values = char :: tail ∧ isWhitespace char = false ∧ char ≠ ']' := by
  cases values with
  | nil => exact absurd rfl nonempty
  | cons first others =>
      obtain ⟨char, tail, shape, letter⟩ := plain_head (List.append_eq_nil_iff.mp noNumbers).1
      by_cases last : others = []
      · subst last
        exact ⟨char, tail, by rw [plainValues_singleton, shape], letter⟩
      · exact ⟨char, tail ++ ',' :: plainValues others,
          by rw [plainValues_cons first last, shape, List.cons_append], letter⟩

theorem plainMembers_head {members : List (List Char × Json (List Char))}
    (nonempty : members ≠ []) : ∃ tail, plainMembers members = '"' :: tail := by
  cases members with
  | nil => exact absurd rfl nonempty
  | cons member others =>
      obtain ⟨key, first⟩ := member
      by_cases last : others = []
      · subst last
        exact ⟨_, plainMembers_singleton key first⟩
      · exact ⟨_, plainMembers_cons key first last⟩

theorem reads_plain {json : Json (List Char)} (plain : Plain json.texts)
    (noNumbers : json.numbers = []) : Reads json := by
  induction json using Json.induct with
  | null =>
      intro calls rest enough
      obtain ⟨calls, rfl⟩ := Nat.exists_eq_add_of_lt enough
      exact valueRead_iff.mpr (.null (behind_append ['n', 'u', 'l', 'l'] rest))
  | bool value =>
      cases value with
      | true =>
          intro calls rest enough
          obtain ⟨calls, rfl⟩ := Nat.exists_eq_add_of_lt enough
          exact valueRead_iff.mpr (.true (behind_append ['t', 'r', 'u', 'e'] rest))
      | false =>
          intro calls rest enough
          obtain ⟨calls, rfl⟩ := Nat.exists_eq_add_of_lt enough
          exact valueRead_iff.mpr (.false (behind_append ['f', 'a', 'l', 's', 'e'] rest))
  | number literal => cases noNumbers
  | string text =>
      intro calls rest enough
      have shape : (Json.string text).plain ++ rest = '"' :: (text ++ '"' :: rest) := by
        simp [Json.plain, Json.print, Json.quoted]
      have length : (Json.string text).plain.length = text.length + 2 := by
        simp [Json.plain, Json.print, Json.quoted]
      rw [length] at enough
      cases calls with
      | zero => cases enough
      | succ calls =>
          rw [shape]
          exact valueRead_iff.mpr (.string
            (stringTail_plain (plain text List.mem_cons_self) (by omega) rest))
  | array values ih =>
      intro calls rest enough
      rw [plain_array, List.length_append, List.length_cons] at enough
      rw [plain_array_append]
      cases calls with
      | zero => cases enough
      | succ calls =>
          by_cases none : values = []
          · subst none
            exact valueRead_iff.mpr (.noValues rfl)
          · have reads : ∀ json ∈ values, Reads json := by
              intro json member
              exact ih json member
                (fun text inTexts => plain text (Json.mem_texts_array member inTexts))
                (Json.numbers_array_eq_nil.mp noNumbers json member)
            obtain ⟨char, tail, shape, letter, open_⟩ := plainValues_head none noNumbers
            have read := @elements_plain values none noNumbers reads calls
              (Nat.lt_of_succ_le (Nat.le_of_succ_le_succ enough)) rest
            rw [shape, List.cons_append] at read ⊢
            exact valueRead_iff.mpr (.values (skip_cons _ letter) open_ read)
  | object members ih =>
      intro calls rest enough
      rw [plain_object, List.length_append, List.length_cons] at enough
      rw [plain_object_append]
      cases calls with
      | zero => cases enough
      | succ calls =>
          by_cases none : members = []
          · subst none
            exact valueRead_iff.mpr (.noMembers rfl)
          · have reads : ∀ member ∈ members, Reads member.2 := by
              intro member inMembers
              exact ih member inMembers
                (fun text inTexts => plain text
                  (Json.mem_texts_object inMembers (List.mem_cons_of_mem _ inTexts)))
                (Json.numbers_object_eq_nil.mp noNumbers member inMembers)
            obtain ⟨tail, shape⟩ := plainMembers_head none
            have read := @members_plain members none plain noNumbers reads calls
              (Nat.lt_of_succ_le (Nat.le_of_succ_le_succ enough)) rest
            rw [shape, List.cons_append] at read ⊢
            exact valueRead_iff.mpr (.members (skip_cons _ (by decide)) (by decide) read)

/-- A printed text decodes to its value just when no string or key needs an
escape. -/
theorem decode_plain_iff {json : Json (List Char)} (noNumbers : json.numbers = []) :
    decode json.plain = some json ↔ Plain json.texts := by
  constructor
  · intro decoded
    have covered := length_of_decode decoded
    exact specials_eq_zero_iff.mp (by omega)
  · intro plain
    have read := reads_plain plain noNumbers json.plain.length [] (Nat.le_refl _)
    rw [← skip_plain noNumbers, List.append_nil] at read
    exact decode_of_value read rfl

end JsonText
