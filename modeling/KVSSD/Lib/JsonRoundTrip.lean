import KVSSD.Lib.JsonText
import Mathlib.Data.List.Nodup

/-!
# Reading what was written

Every value whose numbers are integers and whose keys are distinct is read back from its text.  A
text that is cut off inside of its outermost container is refused: what has been read of it leaves
a container open.
-/

namespace KVSSD.Json

theorem toList_negSucc (number : Nat) :
    (toString (Int.negSucc number)).toList = '-' :: Nat.toDigits 10 (number + 1) := by
  change ("-" ++ Nat.repr (number + 1)).toList = _
  rw [String.toList_append, Nat.toList_repr]
  rfl

namespace Reader

@[simp] theorem read_nil (reader : Reader) : reader.read [] = reader.finish := rfl

@[simp] theorem read_cons (reader : Reader) (character : Char) (text : List Char) :
    reader.read (character :: text) =
      (reader.step character).bind fun reader => reader.read text := by
  simp only [read, run, List.foldlM_cons, Option.bind_eq_bind, Option.bind_assoc]

theorem read_append (reader : Reader) (front back : List Char) :
    reader.read (front ++ back) = (reader.run front).bind fun reader => reader.read back := by
  simp only [read, run, List.foldlM_append, Option.bind_eq_bind, Option.bind_assoc]

@[simp] theorem run_cons (reader : Reader) (character : Char) (text : List Char) :
    reader.run (character :: text) =
      (reader.step character).bind fun reader => reader.run text := rfl

theorem run_append (reader : Reader) (front back : List Char) :
    reader.run (front ++ back) = (reader.run front).bind fun reader => reader.run back :=
  List.foldlM_append ..

section Strings

variable (stack : List Frame) (characters : List Char)

theorem hexDigit_digitChar : ∀ digit < 16,
    stepText.hexDigit (Nat.digitChar digit) = some digit := by
  decide

theorem run_unit (half : Option Nat) {number : Nat} (small : number < 0x10000) :
    run ⟨stack, .text characters (.unit half 0 0)⟩
      [Nat.digitChar (number / 4096 % 16), Nat.digitChar (number / 256 % 16),
        Nat.digitChar (number / 16 % 16), Nat.digitChar (number % 16)] =
      giveUnit stack characters half number := by
  have digits : 16 * (16 * (16 * (number / 4096 % 16) + number / 256 % 16) +
      number / 16 % 16) + number % 16 = number := by omega
  simp only [run, List.foldlM_cons, List.foldlM_nil, step, stepText,
    hexDigit_digitChar _ (Nat.mod_lt _ (by omega : 0 < 16)), Option.bind_eq_bind,
    Option.bind_some, Option.pure_def]
  simp [digits]

theorem run_escapeUnit {number : Nat} (small : number < 0x10000) :
    run ⟨stack, .text characters .none⟩ (escapeUnit number) =
      giveUnit stack characters none number := by
  rw [← run_unit stack characters none small]
  rfl

theorem run_escapeChar (character : Char) :
    run ⟨stack, .text characters .none⟩ (escapeChar character) =
      some ⟨stack, .text (characters ++ [character]) .none⟩ := by
  have valid : character.toNat < 0xd800 ∨ 0xdfff < character.toNat ∧ character.toNat < 0x110000 :=
    character.valid
  have same : Char.ofNat character.toNat = character := Char.ofNat_toNat character
  unfold escapeChar
  simp only
  split
  · rename_i quote
    subst quote
    rfl
  split
  · rename_i slash
    subst slash
    rfl
  split
  · rename_i line
    subst line
    rfl
  split
  · rename_i carriage
    subst carriage
    rfl
  split
  · rename_i tab
    subst tab
    rfl
  split
  · rename_i feed
    rw [← same, feed]
    rfl
  split
  · rename_i back
    rw [← same, back]
    rfl
  split
  · rename_i quote slash _ _ _ _ _ printable
    simp [run, step, stepText, quote, slash, Nat.not_lt.mpr printable.1]
  split
  · rename_i small
    rw [run_escapeUnit stack characters small, giveUnit, if_neg (by omega), if_neg (by omega), same]
  · rename_i large
    obtain ⟨offset, code⟩ : ∃ offset, character.toNat = 0x10000 + offset :=
      ⟨character.toNat - 0x10000, by omega⟩
    have highSmall : 0xd800 + offset / 1024 % 1024 < 0x10000 := by omega
    have lowSmall : 0xdc00 + offset % 1024 < 0x10000 := by omega
    have high : run ⟨stack, .text characters .none⟩
        (escapeUnit (0xd800 + offset / 1024 % 1024)) =
          some ⟨stack, .text characters (.half (0xd800 + offset / 1024 % 1024))⟩ := by
      rw [run_escapeUnit stack characters highSmall, giveUnit, if_pos (by omega)]
    have low : run ⟨stack, .text characters (.half (0xd800 + offset / 1024 % 1024))⟩
        (escapeUnit (0xdc00 + offset % 1024)) =
          some ⟨stack, .text (characters ++ [character]) .none⟩ := by
      have restored : 0x10000 + (1024 * (0xd800 + offset / 1024 % 1024 - 0xd800) +
          (0xdc00 + offset % 1024 - 0xdc00)) = character.toNat := by omega
      have digits := run_unit stack characters (some (0xd800 + offset / 1024 % 1024)) lowSmall
      rw [giveUnit, if_pos (by omega), joined, restored, same] at digits
      exact digits
    rw [code, Nat.add_sub_cancel_left, run_append, high]
    exact low

theorem run_escapes (text : List Char) :
    run ⟨stack, .text characters .none⟩ (text.flatMap escapeChar) =
      some ⟨stack, .text (characters ++ text) .none⟩ := by
  induction text generalizing characters with
  | nil => simp [run]
  | cons character text induction =>
      rw [List.flatMap_cons, run_append, run_escapeChar, Option.bind_some, induction,
        List.append_assoc]
      rfl

theorem read_quoted (text : String) (rest : List Char) :
    read ⟨stack, .text [] .none⟩ (text.toList.flatMap escapeChar ++ '"' :: rest) =
      (giveText stack text.toList).bind fun reader => reader.read rest := by
  rw [read_append, run_escapes, Option.bind_some, read_cons]
  rfl

end Strings

section Numbers

variable (stack : List Frame) (literal : List Char)

theorem run_digits {digits : List Char} (all : ∀ digit ∈ digits, digit.isDigit = true) :
    run ⟨stack, .number literal .digits⟩ digits =
      some ⟨stack, .number (literal ++ digits) .digits⟩ := by
  induction digits generalizing literal with
  | nil => simp [run]
  | cons digit digits induction =>
      have first : step ⟨stack, .number literal .digits⟩ digit =
          some ⟨stack, .number (literal ++ [digit]) .digits⟩ := by
        simp [step, Part.next, all digit (by simp)]
      rw [run_cons, first, Option.bind_some,
        induction _ fun other member => all other (by simp [member]), List.append_assoc]
      rfl

theorem isDigit_digitChar : ∀ digit < 10, (Nat.digitChar digit).isDigit = true := by
  decide

theorem digitChar_ne_zero : ∀ digit < 10, 0 < digit → Nat.digitChar digit ≠ '0' := by
  decide

theorem toDigits_cons {number : Nat} (positive : 0 < number) : ∃ first digits,
    Nat.toDigits 10 number = first :: digits ∧ first.isDigit = true ∧ first ≠ '0' ∧
      ∀ digit ∈ digits, digit.isDigit = true := by
  induction number using Nat.strongRecOn with
  | _ number induction =>
      rw [Nat.toDigits_eq_if (by omega)]
      by_cases small : number < 10
      · rw [if_pos small]
        exact ⟨_, [], rfl, isDigit_digitChar _ small, digitChar_ne_zero _ small positive, by simp⟩
      · rw [if_neg small]
        obtain ⟨first, digits, front, digit, nonzero, all⟩ :=
          induction (number / 10) (by omega) (by omega)
        refine ⟨first, digits ++ [Nat.digitChar (number % 10)], by rw [front]; rfl, digit, nonzero,
          ?_⟩
        intro other member
        rcases List.mem_append.mp member with old | new
        · exact all other old
        · obtain rfl := List.mem_singleton.mp new
          exact isDigit_digitChar _ (Nat.mod_lt _ (by omega))

variable {stack} {mode : Mode}

/-- A value may begin here. -/
inductive Ready : Mode → Prop where
  | value : Ready .value
  | item : Ready .item

theorem step_ready (ready : Ready mode) {character : Char} (dark : isBlank character = false)
    (inside : character ≠ ']') : step ⟨stack, mode⟩ character = begin stack character := by
  cases ready with
  | value => simp [step, stepToken, dark]
  | item => simp [step, stepToken, dark, inside]

theorem ne_of_isDigit {digit other : Char} (isDigit : digit.isDigit = true)
    (no_digit : other.isDigit = false) : digit ≠ other := by
  rintro rfl
  rw [isDigit] at no_digit
  cases no_digit

theorem step_digit (ready : Ready mode) {digit : Char} (isDigit : digit.isDigit = true)
    (nonzero : digit ≠ '0') :
    step ⟨stack, mode⟩ digit = some ⟨stack, .number [digit] .digits⟩ := by
  have other : ∀ other : Char, other.isDigit = false → digit ≠ other :=
    fun _ no_digit => ne_of_isDigit isDigit no_digit
  have dark : isBlank digit = false := by
    simp [isBlank, other ' ' rfl, other '\t' rfl, other '\n' rfl,
      other '\r' rfl]
  rw [step_ready ready dark (other ']' rfl)]
  simp [begin, other '"' rfl, other '[' rfl, other '\x7b' rfl,
    other 'n' rfl, other 't' rfl, other 'f' rfl, other 'N' rfl,
    other 'I' rfl, other '-' rfl, nonzero, isDigit]

/-- The literal of an integer. -/
theorem run_int (ready : Ready mode) (number : Int) : ∃ literal part,
    run ⟨stack, mode⟩ (toString number).toList = some ⟨stack, .number literal part⟩ ∧
      (part = .zero ∨ part = .digits) ∧ readInt literal = number := by
  cases number with
  | ofNat number =>
      have text : (toString (Int.ofNat number)).toList = Nat.toDigits 10 number :=
        Nat.toList_repr
      have back : Nat.ofDigitChars 10 (Nat.toDigits 10 number) 0 = number :=
        Nat.ofDigitChars_ten_toDigits
      rw [text]
      rcases Nat.eq_zero_or_pos number with rfl | positive
      · refine ⟨['0'], .zero, ?_, .inl rfl, rfl⟩
        cases ready <;> rfl
      · obtain ⟨first, digits, front, digit, nonzero, all⟩ := toDigits_cons positive
        rw [front] at back ⊢
        refine ⟨first :: digits, .digits, ?_, .inr rfl, ?_⟩
        · rw [run_cons, step_digit ready digit nonzero, Option.bind_some, run_digits _ _ all]
          rfl
        · have unsigned : first ≠ '-' := ne_of_isDigit digit rfl
          rw [readInt]
          · exact congrArg Int.ofNat back
          · simpa using unsigned
  | negSucc number =>
      have back : Nat.ofDigitChars 10 (Nat.toDigits 10 (number + 1)) 0 = number + 1 :=
        Nat.ofDigitChars_ten_toDigits
      rw [toList_negSucc]
      obtain ⟨first, digits, front, digit, nonzero, all⟩ := toDigits_cons (Nat.succ_pos number)
      rw [front] at back ⊢
      refine ⟨'-' :: first :: digits, .digits, ?_, .inr rfl, ?_⟩
      · have sign : step ⟨stack, mode⟩ '-' = some ⟨stack, .number ['-'] .minus⟩ := by
          cases ready <;> rfl
        have begins : step ⟨stack, .number ['-'] .minus⟩ first =
            some ⟨stack, .number ['-', first] .digits⟩ := by
          have infinite : first ≠ 'I' := ne_of_isDigit digit rfl
          simp [step, Part.next, infinite, nonzero, digit]
        rw [run_cons, sign, Option.bind_some, run_cons, begins, Option.bind_some,
          run_digits _ _ all]
        rfl
      · rw [readInt, back]
        rfl

end Numbers

end Reader

mutual

/-- The numbers are integers, and the keys of every dictionary are distinct. -/
def Value.Written : Value → Prop
  | .float _ => False
  | .list items => WrittenItems items
  | .dict members => (members.map Prod.fst).Nodup ∧ WrittenMembers members
  | _ => True

def WrittenItems : List Value → Prop
  | [] => True
  | item :: items => item.Written ∧ WrittenItems items

def WrittenMembers : List (String × Value) → Prop
  | [] => True
  | (_, value) :: members => value.Written ∧ WrittenMembers members

end

namespace Reader

section Values

variable {stack : List Frame} {mode : Mode} {given : Reader} {rest : List Char}

/-- What follows a value: a comma, a new line, or nothing. -/
def Tail (rest : List Char) : Prop :=
  ∀ character ∈ rest.head?, character = ',' ∨ character = '\n'

theorem mode_of_give {value : Value} (gives : give stack value = some given) :
    given.mode = .more ∧ given.stack ≠ [] ∨ given = ⟨[], .done value⟩ := by
  unfold give at gives
  split at gives
  · cases gives
    exact .inr rfl
  · cases gives
    exact .inl ⟨rfl, by simp⟩
  · cases gives
    exact .inl ⟨rfl, by simp⟩
  · cases gives

theorem stack_of_give {value : Value} (gives : give stack value = some given) :
    given.stack.length = stack.length := by
  unfold give at gives
  split at gives
  all_goals cases gives
  all_goals rfl

theorem step_of_give {value : Value} (gives : give stack value = some given) (character : Char) :
    given.step character = given.stepToken character := by
  rcases mode_of_give gives with ⟨more, _⟩ | done
  · unfold step
    rw [more]
  · rw [done]
    rfl

theorem finish_inside {reader : Reader} (inside : reader.stack ≠ []) : reader.finish = none := by
  obtain ⟨frame, stack, split⟩ := List.exists_cons_of_ne_nil inside
  unfold finish
  rw [split]

theorem read_number {literal : List Char} {part : Part}
    (integer : part = .zero ∨ part = .digits)
    (gives : give stack (.int (readInt literal)) = some given) (tail : Tail rest) :
    read ⟨stack, .number literal part⟩ rest = given.read rest := by
  have ended : giveNumber stack literal part = some given := by
    rw [giveNumber, if_pos integer, gives]
  cases rest with
  | nil =>
      rw [read_nil, read_nil]
      cases stack with
      | nil =>
          cases gives
          simp only [finish, ended]
          rfl
      | cons frame stack =>
          have inside : given.stack ≠ [] := by
            rw [← List.length_pos_iff, stack_of_give gives]
            exact Nat.succ_pos _
          rw [finish_inside inside]
          rfl
  | cons character rest =>
      have next : part.next character = none ∧ character ≠ 'I' := by
        rcases tail character rfl with rfl | rfl
        · rcases integer with rfl | rfl <;> decide
        · rcases integer with rfl | rfl <;> decide
      rw [read_cons, read_cons, step_of_give gives]
      simp [step, next.1, next.2, ended]

theorem read_blanks {reader : Reader} (between : ∀ character,
      reader.step character = reader.stepToken character) (level : Nat) (rest : List Char) :
    reader.read (newline level ++ rest) = reader.read rest := by
  have blank : ∀ {character : Char}, isBlank character = true →
      reader.step character = some reader := by
    intro character dark
    rw [between, stepToken, if_pos dark]
  rw [newline, List.cons_append, read_cons, blank rfl, Option.bind_some]
  induction 2 * level with
  | zero => rfl
  | succ count induction =>
      rw [List.replicate_succ, List.cons_append, read_cons, blank rfl, Option.bind_some, induction]

theorem read_key (members : List (String × Value)) (key : String) (rest : List Char) :
    read ⟨.dict members :: stack, .text [] .none⟩
      (key.toList.flatMap escapeChar ++ '"' :: ':' :: ' ' :: rest) =
      read ⟨.member members key :: stack, .value⟩ rest := by
  rw [read_quoted]
  simp [giveText, step, stepToken, isBlank]

theorem giveText_of_give {text : String} (gives : give stack (.str text) = some given) :
    giveText stack text.toList = some given := by
  unfold giveText
  split
  · cases gives
  · rw [String.ofList_toList, gives]

theorem setMember_new {members : List (String × Value)} {key : String}
    (new : key ∉ members.map Prod.fst) (value : Value) :
    setMember members key value = members ++ [(key, value)] := by
  have absent : ¬ (members.any fun member => member.1 = key) = true := by
    intro present
    obtain ⟨member, inside, same⟩ := List.any_eq_true.mp present
    exact new (List.mem_map.mpr ⟨member, inside, of_decide_eq_true same⟩)
  rw [setMember, if_neg absent]

theorem tail_items (level : Nat) (items : List Value) (tail : Tail rest) :
    Tail (dumpItems level items ++ rest) := by
  cases items with
  | nil => exact tail
  | cons item items =>
      intro character member
      exact .inl (Option.some.inj member).symm

theorem tail_members (level : Nat) (members : List (String × Value)) (tail : Tail rest) :
    Tail (dumpMembers level members ++ rest) := by
  cases members with
  | nil => exact tail
  | cons member members =>
      intro character first
      exact .inl (Option.some.inj first).symm

theorem tail_newline (level : Nat) (rest : List Char) : Tail (newline level ++ rest) := by
  intro character member
  exact .inr (Option.some.inj member).symm

mutual

/-- Reading the text of a value gives the value to its container. -/
theorem read_dump (value : Value) (written : value.Written) (level : Nat) {stack : List Frame}
    {mode : Mode} {given : Reader} (ready : Ready mode) (gives : give stack value = some given)
    {rest : List Char} (tail : Tail rest) :
    read ⟨stack, mode⟩ (value.dump level ++ rest) = given.read rest := by
  cases value with
  | null => cases ready <;> simp [Value.dump, step, stepToken, isBlank, begin, gives]
  | bool flag =>
      cases flag with
      | true => cases ready <;> simp [Value.dump, step, stepToken, isBlank, begin, gives]
      | false => cases ready <;> simp [Value.dump, step, stepToken, isBlank, begin, gives]
  | int number =>
      obtain ⟨literal, part, runs, integer, same⟩ := run_int ready number
      rw [Value.dump, read_append, runs, Option.bind_some]
      exact read_number integer (same ▸ gives) tail
  | float literal => exact absurd written (by simp [Value.Written])
  | str text =>
      have quote : step ⟨stack, mode⟩ '"' = some ⟨stack, .text [] .none⟩ := by
        cases ready <;> rfl
      simp only [Value.dump, quoted, List.cons_append, List.append_assoc, List.nil_append]
      rw [read_cons, quote, Option.bind_some, read_quoted, giveText_of_give gives]
      rfl
  | list items =>
      cases items with
      | nil => cases ready <;> simp [Value.dump, step, stepToken, isBlank, begin, separate, gives]
      | cons item items =>
          have bracket : step ⟨stack, mode⟩ '[' = some ⟨.list [] :: stack, .item⟩ := by
            cases ready <;> rfl
          have closes : step ⟨.list (item :: items) :: stack, .more⟩ ']' = some given := gives
          have inner := tail_newline level (']' :: rest)
          simp only [Value.dump, List.cons_append, List.append_assoc, List.nil_append]
          rw [read_cons, bracket, Option.bind_some, read_blanks (fun _ => rfl),
            read_dump item written.1 (level + 1) .item rfl (tail_items (level + 1) items inner),
            List.nil_append, read_items items written.2 (level + 1) [item] stack inner,
            read_blanks (fun _ => rfl), List.singleton_append, read_cons, closes, Option.bind_some]
  | dict members =>
      cases members with
      | nil => cases ready <;> simp [Value.dump, step, stepToken, isBlank, begin, separate, gives]
      | cons member members =>
          obtain ⟨key, value⟩ := member
          have brace : step ⟨stack, mode⟩ '\x7b' = some ⟨.dict [] :: stack, .firstKey⟩ := by
            cases ready <;> rfl
          have quote : step ⟨.dict [] :: stack, .firstKey⟩ '"' =
              some ⟨.dict [] :: stack, .text [] .none⟩ := rfl
          have closes : step ⟨.dict ((key, value) :: members) :: stack, .more⟩ '\x7d' =
              some given := gives
          have inner := tail_newline level ('\x7d' :: rest)
          simp only [Value.dump, quoted, List.cons_append, List.append_assoc, List.nil_append]
          rw [read_cons, brace, Option.bind_some, read_blanks (fun _ => rfl), read_cons, quote,
            Option.bind_some, read_key,
            read_dump value written.2.1 (level + 1) .value rfl
              (tail_members (level + 1) members inner)]
          have first : setMember [] key value = [(key, value)] := setMember_new (by simp) value
          rw [first, read_members members written.2.2 (level + 1) [(key, value)] stack written.1
            inner, read_blanks (fun _ => rfl), List.singleton_append, read_cons, closes,
            Option.bind_some]

theorem read_items (items : List Value) (written : WrittenItems items) (level : Nat)
    (seen : List Value) (stack : List Frame) {rest : List Char} (tail : Tail rest) :
    read ⟨.list seen :: stack, .more⟩ (dumpItems level items ++ rest) =
      read ⟨.list (seen ++ items) :: stack, .more⟩ rest := by
  cases items with
  | nil => rw [dumpItems, List.nil_append, List.append_nil]
  | cons item items =>
      have comma : step ⟨.list seen :: stack, .more⟩ ',' =
          some ⟨.list seen :: stack, .value⟩ := rfl
      rw [dumpItems, List.cons_append, read_cons, comma, Option.bind_some, List.append_assoc,
        read_blanks (fun _ => rfl), List.append_assoc,
        read_dump item written.1 level .value rfl (tail_items level items tail),
        read_items items written.2 level (seen ++ [item]) stack tail, List.append_assoc]
      rfl

theorem read_members (members : List (String × Value)) (written : WrittenMembers members)
    (level : Nat) (seen : List (String × Value)) (stack : List Frame)
    (distinct : ((seen ++ members).map Prod.fst).Nodup) {rest : List Char} (tail : Tail rest) :
    read ⟨.dict seen :: stack, .more⟩ (dumpMembers level members ++ rest) =
      read ⟨.dict (seen ++ members) :: stack, .more⟩ rest := by
  cases members with
  | nil => rw [dumpMembers, List.nil_append, List.append_nil]
  | cons member members =>
      obtain ⟨key, value⟩ := member
      have comma : step ⟨.dict seen :: stack, .more⟩ ',' = some ⟨.dict seen :: stack, .key⟩ := rfl
      have quote : step ⟨.dict seen :: stack, .key⟩ '"' =
          some ⟨.dict seen :: stack, .text [] .none⟩ := rfl
      have new : key ∉ seen.map Prod.fst := by
        intro old
        rw [List.map_append, List.nodup_append] at distinct
        exact distinct.2.2 key old key (by simp) rfl
      have regroup : seen ++ (key, value) :: members = seen ++ [(key, value)] ++ members := by simp
      simp only [dumpMembers, quoted, List.cons_append, List.append_assoc, List.nil_append]
      rw [read_cons, comma, Option.bind_some, read_blanks (fun _ => rfl), read_cons, quote,
        Option.bind_some, read_key,
        read_dump value written.1 level .value rfl (tail_members level members tail),
        setMember_new new, read_members members written.2 level _ stack (regroup ▸ distinct) tail,
        regroup]

end

end Values

section Torn

variable {reader next : Reader} {stack : List Frame} {character : Char}

/-- A container has begun, and what has been read is inside of it or ends with it. -/
def Begun (reader : Reader) : Prop :=
  reader.stack ≠ [] ∨ ∃ value, reader = ⟨[], .done value⟩

theorem begun_of_give {value : Value} (gives : give stack value = some next) : next.Begun := by
  rcases mode_of_give gives with ⟨_, inside⟩ | done
  · exact .inl inside
  · exact .inr ⟨value, done⟩

theorem begun_of_stack (inside : stack ≠ []) {mode : Mode}
    (steps : some (⟨stack, mode⟩ : Reader) = some next) : next.Begun := by
  obtain rfl := Option.some.inj steps
  exact .inl inside

theorem begun_of_push {frame : Frame} {mode : Mode}
    (steps : some (⟨frame :: stack, mode⟩ : Reader) = some next) : next.Begun :=
  begun_of_stack (List.cons_ne_nil _ _) steps

theorem begun_of_giveText {characters : List Char}
    (gives : giveText stack characters = some next) : next.Begun := by
  unfold giveText at gives
  split at gives
  · exact begun_of_push gives
  · exact begun_of_give gives

theorem begun_of_giveUnit (inside : stack ≠ []) {characters : List Char} {half : Option Nat}
    {number : Nat} (gives : giveUnit stack characters half number = some next) :
    next.Begun := by
  unfold giveUnit at gives
  repeat' split at gives
  all_goals first
    | exact begun_of_stack inside gives
    | cases gives

theorem begun_of_begin (inside : stack ≠ []) (begins : begin stack character = some next) :
    next.Begun := by
  unfold begin at begins
  repeat' split at begins
  all_goals first
    | exact begun_of_stack inside begins
    | exact begun_of_push begins
    | cases begins

theorem begun_of_separate (separates : separate stack character = some next) : next.Begun := by
  unfold separate at separates
  repeat' split at separates
  all_goals first
    | exact begun_of_push separates
    | exact begun_of_give separates
    | cases separates

theorem begun_of_stepText (inside : stack ≠ []) {characters : List Char} {escape : Escape}
    (steps : stepText stack characters escape character = some next) : next.Begun := by
  cases escape with
  | none =>
      simp only [stepText] at steps
      repeat' split at steps
      all_goals first
        | exact begun_of_giveText steps
        | exact begun_of_stack inside steps
        | cases steps
  | backslash =>
      simp only [stepText] at steps
      split at steps
      · exact begun_of_stack inside steps
      · obtain ⟨plain, _, steps⟩ := Option.bind_eq_some_iff.mp steps
        exact begun_of_stack inside steps
  | unit half count number =>
      obtain ⟨digit, _, steps⟩ := Option.bind_eq_some_iff.mp steps
      split at steps
      · exact begun_of_stack inside steps
      · exact begun_of_giveUnit inside steps
  | half unit =>
      simp only [stepText] at steps
      split at steps
      · exact begun_of_stack inside steps
      · cases steps
  | halfBackslash unit =>
      simp only [stepText] at steps
      split at steps
      · exact begun_of_stack inside steps
      · cases steps

theorem begun_of_stepToken (begun : reader.Begun)
    (steps : reader.stepToken character = some next) : next.Begun := by
  unfold stepToken at steps
  split at steps
  · obtain rfl := Option.some.inj steps
    exact begun
  rcases begun with inside | ⟨value, rfl⟩
  · repeat' split at steps
    all_goals first
      | exact begun_of_separate steps
      | exact begun_of_begin inside steps
      | exact begun_of_stack inside steps
      | cases steps
  · cases steps

theorem begun_of_step (begun : reader.Begun) (steps : reader.step character = some next) :
    next.Begun := by
  rcases begun with inside | ⟨value, rfl⟩
  · unfold step at steps
    split at steps
    · exact begun_of_stepText inside steps
    · repeat' split at steps
      all_goals first
        | exact begun_of_give steps
        | exact begun_of_stack inside steps
        | cases steps
    · split at steps
      · exact begun_of_stack inside steps
      split at steps
      · exact begun_of_stack inside steps
      · obtain ⟨given, gives, steps⟩ := Option.bind_eq_some_iff.mp steps
        refine begun_of_stepToken ?_ steps
        unfold giveNumber at gives
        repeat' split at gives
        all_goals first
          | exact begun_of_give gives
          | cases gives
    · exact begun_of_stepToken (.inl inside) steps
  · exact begun_of_stepToken (.inr ⟨value, rfl⟩) steps

theorem begun_of_run {text : List Char} (begun : reader.Begun)
    (runs : reader.run text = some next) : next.Begun := by
  induction text generalizing reader with
  | nil =>
      cases runs
      exact begun
  | cons character text induction =>
      obtain ⟨middle, steps, runs⟩ := Option.bind_eq_some_iff.mp runs
      exact induction (begun_of_step begun steps) runs

theorem read_done {value result : Value} {text : List Char}
    (reads : read ⟨[], .done value⟩ text = some result) :
    ∀ character ∈ text, isBlank character = true := by
  induction text with
  | nil => simp
  | cons character text induction =>
      rw [read_cons] at reads
      obtain ⟨next, steps, reads⟩ := Option.bind_eq_some_iff.mp reads
      by_cases blank : isBlank character = true
      · have stays : step ⟨[], .done value⟩ character = some ⟨[], .done value⟩ := by
          simp [step, stepToken, blank]
        obtain rfl := Option.some.inj (stays.symm.trans steps)
        rw [List.forall_mem_cons]
        exact ⟨blank, induction reads⟩
      · have refused : step ⟨[], .done value⟩ character = none := by
          simp [step, stepToken, blank]
        rw [refused] at steps
        cases steps

end Torn

end Reader

/-- Every character is one byte. -/
def Ascii (text : List Char) : Prop := ∀ character ∈ text, character.toNat < 128

section Ascii

variable {front back : List Char} {character : Char}

theorem Ascii.nil : Ascii [] := by simp [Ascii]

theorem Ascii.cons (small : character.toNat < 128) (ascii : Ascii back) :
    Ascii (character :: back) :=
  List.forall_mem_cons.mpr ⟨small, ascii⟩

theorem Ascii.append (first : Ascii front) (second : Ascii back) : Ascii (front ++ back) :=
  List.forall_mem_append.mpr ⟨first, second⟩

theorem ascii_escapeUnit (unit : Nat) : Ascii (escapeUnit unit) := by
  have digits : ∀ digit < 16, (Nat.digitChar digit).toNat < 128 := by decide
  have small : ∀ number, (Nat.digitChar (number % 16)).toNat < 128 :=
    fun number => digits _ (Nat.mod_lt _ (by omega))
  simp [Ascii, escapeUnit, small]

theorem ascii_escapeChar (character : Char) : Ascii (escapeChar character) := by
  unfold escapeChar
  simp only
  repeat' split
  all_goals first
    | exact (ascii_escapeUnit _).append (ascii_escapeUnit _)
    | exact ascii_escapeUnit _
    | simp [Ascii] <;> omega

theorem ascii_quoted (text : String) : Ascii (quoted text) := by
  refine .append (.cons (by decide) ?_) (.cons (by decide) .nil)
  intro character member
  obtain ⟨source, _, inside⟩ := List.mem_flatMap.mp member
  exact ascii_escapeChar source character inside

theorem ascii_newline (level : Nat) : Ascii (newline level) := by
  refine .cons (by decide) ?_
  intro character member
  rw [List.eq_of_mem_replicate member]
  decide

theorem ascii_digits (number : Nat) : Ascii (Nat.toDigits 10 number) := by
  intro character member
  have digit := Nat.isDigit_of_mem_toDigits (by omega) (by omega) member
  exact Nat.lt_of_le_of_lt (Char.isDigit_iff_toNat.mp digit).2 (by decide)

theorem ascii_int (number : Int) : Ascii (toString number).toList := by
  cases number with
  | ofNat number =>
      have text : (toString (Int.ofNat number)).toList = Nat.toDigits 10 number :=
        Nat.toList_repr
      rw [text]
      exact ascii_digits number
  | negSucc number =>
      rw [toList_negSucc]
      exact .cons (by decide) (ascii_digits _)

mutual

theorem ascii_dump (value : Value) (written : value.Written) (level : Nat) :
    Ascii (value.dump level) := by
  cases value with
  | null => simp [Ascii, Value.dump]
  | bool flag => cases flag <;> simp [Ascii, Value.dump]
  | int number => exact ascii_int number
  | float literal => exact absurd written (by simp [Value.Written])
  | str text => exact ascii_quoted text
  | list items =>
      cases items with
      | nil => simp [Ascii, Value.dump]
      | cons item items =>
          exact .cons (by decide) (.append (ascii_newline _) (.append
            (ascii_dump item written.1 _) (.append (ascii_items items written.2 _)
              (.append (ascii_newline _) (.cons (by decide) .nil)))))
  | dict members =>
      cases members with
      | nil => simp [Ascii, Value.dump]
      | cons member members =>
          exact .cons (by decide) (.append (ascii_newline _) (.append (ascii_quoted _)
            (.cons (by decide) (.cons (by decide) (.append (ascii_dump member.2 written.2.1 _)
              (.append (ascii_members members written.2.2 _)
                (.append (ascii_newline _) (.cons (by decide) .nil))))))))

theorem ascii_items (items : List Value) (written : WrittenItems items) (level : Nat) :
    Ascii (dumpItems level items) := by
  cases items with
  | nil => exact .nil
  | cons item items =>
      exact .cons (by decide) (.append (ascii_newline _)
        (.append (ascii_dump item written.1 _) (ascii_items items written.2 _)))

theorem ascii_members (members : List (String × Value)) (written : WrittenMembers members)
    (level : Nat) : Ascii (dumpMembers level members) := by
  cases members with
  | nil => exact .nil
  | cons member members =>
      exact .cons (by decide) (.append (ascii_newline _) (.append (ascii_quoted _)
        (.cons (by decide) (.cons (by decide) (.append (ascii_dump member.2 written.1 _)
          (ascii_members members written.2 _))))))

end

end Ascii

theorem read_dumpsIndented {value : Value} (written : value.Written) {blanks : List Char}
    (ends : blanks = [] ∨ blanks = ['\n']) :
    read (dumpsIndented value ++ blanks) = some value := by
  have gives : Reader.give [] value = some ⟨[], .done value⟩ := rfl
  rcases ends with rfl | rfl
  · exact Reader.read_dump value written 0 .value gives (by simp [Reader.Tail])
  · exact Reader.read_dump value written 0 .value gives (by simp [Reader.Tail])

theorem read_behind {value : Value} (written : value.Written) {rest : List Char}
    (behind : ∃ character ∈ rest, isBlank character = false) :
    read (dumpsIndented value ++ '\n' :: rest) = none := by
  have gives : Reader.give [] value = some ⟨[], .done value⟩ := rfl
  have tail : Reader.Tail ('\n' :: rest) := Reader.tail_newline 0 rest
  rw [read, dumpsIndented, Reader.read_dump value written 0 .value gives tail,
    ← Option.not_isSome_iff_eq_none, Option.isSome_iff_exists]
  rintro ⟨result, reads⟩
  obtain ⟨character, member, dark⟩ := behind
  rw [Reader.read_done reads character (List.mem_cons_of_mem _ member)] at dark
  cases dark

theorem read_torn {front back rest : List Char} {first : Char} {value : Value}
    (text : front ++ back = first :: rest) (container : first = '[' ∨ first = '\x7b')
    (whole : read (front ++ back) = some value)
    (torn : ∃ character ∈ back, isBlank character = false) : read front = none := by
  cases front with
  | nil => rfl
  | cons character front =>
      obtain ⟨rfl, _⟩ := List.cons.inj text
      obtain ⟨begins, starts, begun⟩ : ∃ begins,
          Reader.step ⟨[], .value⟩ character = some begins ∧ begins.Begun := by
        rcases container with rfl | rfl
        · exact ⟨_, rfl, .inl (List.cons_ne_nil _ _)⟩
        · exact ⟨_, rfl, .inl (List.cons_ne_nil _ _)⟩
      rw [read, List.cons_append, Reader.read_cons, starts, Option.bind_some,
        Reader.read_append] at whole
      obtain ⟨reached, runs, whole⟩ := Option.bind_eq_some_iff.mp whole
      have stays : read (character :: front) = reached.finish := by
        rw [read, Reader.read_cons, starts, Option.bind_some, Reader.read, runs]
        rfl
      rw [stays]
      rcases Reader.begun_of_run begun runs with inside | ⟨done, rfl⟩
      · exact Reader.finish_inside inside
      · obtain ⟨dark, member, isDark⟩ := torn
        rw [Reader.read_done whole dark member] at isDark
        cases isDark

theorem dump_dict (member : String × Value) (members : List (String × Value)) (level : Nat) :
    ∃ inner, (Value.dict (member :: members)).dump level = '\x7b' :: inner ++ ['\x7d'] := by
  obtain ⟨key, value⟩ := member
  refine ⟨newline (level + 1) ++ (quoted key ++ (':' :: ' ' :: (value.dump (level + 1) ++
    (dumpMembers (level + 1) members ++ newline level)))), ?_⟩
  simp [Value.dump]

theorem read_take {member : String × Value} {members : List (String × Value)}
    (written : (Value.dict (member :: members)).Written) {blanks : List Char}
    (ends : blanks = [] ∨ blanks = ['\n']) {count : Nat}
    (torn : count < (dumpsIndented (.dict (member :: members))).length) :
    read ((dumpsIndented (.dict (member :: members)) ++ blanks).take count) = none := by
  have whole := read_dumpsIndented written ends
  obtain ⟨inner, text⟩ := dump_dict member members 0
  rw [dumpsIndented, text] at torn whole ⊢
  have inside : count ≤ ('\x7b' :: inner).length := by
    rw [List.length_append, List.length_singleton] at torn
    omega
  rw [List.append_assoc] at whole ⊢
  have parts := List.take_append_drop count ('\x7b' :: inner ++ (['\x7d'] ++ blanks))
  rw [← parts] at whole
  refine read_torn parts (.inr rfl) whole ⟨'\x7d', ?_, rfl⟩
  rw [List.drop_append_of_le_length inside]
  simp

end KVSSD.Json
