import KVSSD.Lib.Json
import KVSSD.Lib.Python

/-!
# JSON texts of nested values

`json.dumps` with an indentation of two, and `json.loads`.  The reader takes a text character by
character and keeps the containers it is inside of on a stack, so reading a text and then more of it
is reading both, and a text that ends inside of a container is refused.
-/

namespace KVSSD.Json

open KVSSD.Python

/-- A number that is no integer stands as it is written. -/
inductive Value where
  | null
  | bool (flag : Bool)
  | int (number : Int)
  | float (literal : List Char)
  | str (text : String)
  | list (items : List Value)
  | dict (members : List (String × Value))

/-- A new line at a level of nesting. -/
def newline (level : Nat) : List Char := '\n' :: List.replicate (2 * level) ' '

mutual

def Value.dump (level : Nat) : Value → List Char
  | .null => ['n', 'u', 'l', 'l']
  | .bool true => ['t', 'r', 'u', 'e']
  | .bool false => ['f', 'a', 'l', 's', 'e']
  | .int number => (toString number).toList
  | .float literal => literal
  | .str text => quoted text
  | .list [] => ['[', ']']
  | .list (item :: items) =>
      '[' :: (newline (level + 1) ++ (item.dump (level + 1) ++
        (dumpItems (level + 1) items ++ (newline level ++ [']']))))
  | .dict [] => ['\x7b', '\x7d']
  | .dict ((key, value) :: members) =>
      '\x7b' :: (newline (level + 1) ++ (quoted key ++ (':' :: ' ' :: (value.dump (level + 1) ++
        (dumpMembers (level + 1) members ++ (newline level ++ ['\x7d']))))))

/-- The further items of a list. -/
def dumpItems (level : Nat) : List Value → List Char
  | [] => []
  | item :: items => ',' :: (newline level ++ (item.dump level ++ dumpItems level items))

/-- The further members of a dictionary. -/
def dumpMembers (level : Nat) : List (String × Value) → List Char
  | [] => []
  | (key, value) :: members =>
      ',' :: (newline level ++ (quoted key ++ (':' :: ' ' :: (value.dump level ++
        dumpMembers level members))))

end

/-- `json.dumps(value, indent=2)`. -/
def dumpsIndented (value : Value) : List Char := value.dump 0

/-- `value[key]`. -/
def Value.item (value : Value) (key : String) : Except PyError Value :=
  match value with
  | .dict members =>
      match members.find? fun member => member.1 = key with
      | some member => .ok member.2
      | none => .error (.keyError key)
  | _ => .error (.typeError "indices must be integers")

/-- `list(value)`. -/
def Value.elements : Value → Except PyError (List Value)
  | .list items => .ok items
  | .dict members => .ok (members.map fun member => .str member.1)
  | .str text => .ok (text.toList.map fun character => .str (String.singleton character))
  | _ => .error (.typeError "object is not iterable")

/-- `Class(**value)` for a data class: its fields with their defaults, in order.  The class does not
look at what the fields are. -/
def Value.keywords (fields : List (String × Option Value)) (value : Value) :
    Except PyError (List Value) :=
  match value with
  | .dict members =>
      if members.all fun member => fields.any fun field => field.1 = member.1 then
        fields.mapM fun (name, default) =>
          match members.find? fun member => member.1 = name, default with
          | some member, _ => .ok member.2
          | none, some default => .ok default
          | none, none => .error (.typeError s!"missing required argument: {name}")
      else .error (.typeError "unexpected keyword argument")
  | _ => .error (.typeError "argument after ** must be a mapping")

/-- A container that has begun. -/
inductive Frame where
  | list (items : List Value)
  | dict (members : List (String × Value))
  /-- A dictionary with a key that waits for its value. -/
  | member (members : List (String × Value)) (key : String)

/-- How much of an escape has been read. -/
inductive Escape where
  | none
  | backslash
  /-- Some digits of a unit, maybe behind the first half of a pair. -/
  | unit (half : Option Nat) (count number : Nat)
  /-- The first half of a pair waits for the other. -/
  | half (unit : Nat)
  | halfBackslash (unit : Nat)

/-- How much of a number has been read. -/
inductive Part where
  | minus
  | zero
  | digits
  | point
  | fraction
  | exponent
  | sign
  | power
  deriving DecidableEq

/-- The number with one character more. -/
def Part.next (part : Part) (character : Char) : Option Part :=
  match part with
  | .minus =>
      if character = '0' then some .zero else if character.isDigit then some .digits else none
  | .zero => behind character
  | .digits => if character.isDigit then some .digits else behind character
  | .point => if character.isDigit then some .fraction else none
  | .fraction =>
      if character.isDigit then some .fraction
      else if character = 'e' ∨ character = 'E' then some .exponent
      else none
  | .exponent =>
      if character = '+' ∨ character = '-' then some .sign
      else if character.isDigit then some .power
      else none
  | .sign => if character.isDigit then some .power else none
  | .power => if character.isDigit then some .power else none
where
  /-- What may follow the whole part. -/
  behind (character : Char) : Option Part :=
    if character = '.' then some .point
    else if character = 'e' ∨ character = 'E' then some .exponent
    else none

/-- What comes next. -/
inductive Mode where
  | value
  /-- The first item of a list, or its end. -/
  | item
  /-- The first key of a dictionary, or its end. -/
  | firstKey
  | key
  | colon
  /-- A comma, or the end of the container. -/
  | more
  | text (characters : List Char) (escape : Escape)
  | word (left : List Char) (value : Value)
  | number (literal : List Char) (part : Part)
  | done (value : Value)

structure Reader where
  stack : List Frame
  mode : Mode

def isBlank (character : Char) : Bool :=
  character = ' ' || character = '\t' || character = '\n' || character = '\r'

/-- `int(literal)`. -/
def readInt : List Char → Int
  | '-' :: digits => -(Nat.ofDigitChars 10 digits 0 : Int)
  | digits => (Nat.ofDigitChars 10 digits 0 : Int)

/-- `members[key] = value`. -/
def setMember (members : List (String × Value)) (key : String) (value : Value) :
    List (String × Value) :=
  if members.any fun member => member.1 = key then
    members.map fun member => if member.1 = key then (key, value) else member
  else members ++ [(key, value)]

namespace Reader

/-- A value has ended. -/
def give : List Frame → Value → Option Reader
  | [], value => some ⟨[], .done value⟩
  | .list items :: stack, value => some ⟨.list (items ++ [value]) :: stack, .more⟩
  | .member members key :: stack, value =>
      some ⟨.dict (setMember members key value) :: stack, .more⟩
  | .dict _ :: _, _ => none

/-- A string has ended: a key of a dictionary, or a value. -/
def giveText (stack : List Frame) (characters : List Char) : Option Reader :=
  match stack with
  | .dict members :: stack =>
      some ⟨.member members (String.ofList characters) :: stack, .colon⟩
  | stack => give stack (.str (String.ofList characters))

/-- The first character of a value. -/
def begin (stack : List Frame) (character : Char) : Option Reader :=
  if character = '"' then some ⟨stack, .text [] .none⟩
  else if character = '[' then some ⟨.list [] :: stack, .item⟩
  else if character = '\x7b' then some ⟨.dict [] :: stack, .firstKey⟩
  else if character = 'n' then some ⟨stack, .word ['u', 'l', 'l'] .null⟩
  else if character = 't' then some ⟨stack, .word ['r', 'u', 'e'] (.bool true)⟩
  else if character = 'f' then some ⟨stack, .word ['a', 'l', 's', 'e'] (.bool false)⟩
  else if character = 'N' then some ⟨stack, .word ['a', 'N'] (.float "NaN".toList)⟩
  else if character = 'I' then
    some ⟨stack, .word "nfinity".toList (.float "Infinity".toList)⟩
  else if character = '-' then some ⟨stack, .number [character] .minus⟩
  else if character = '0' then some ⟨stack, .number [character] .zero⟩
  else if character.isDigit then some ⟨stack, .number [character] .digits⟩
  else none

/-- A comma or the end of a container. -/
def separate (stack : List Frame) (character : Char) : Option Reader :=
  match stack with
  | .list items :: rest =>
      if character = ',' then some ⟨stack, .value⟩
      else if character = ']' then give rest (.list items)
      else none
  | .dict members :: rest =>
      if character = ',' then some ⟨stack, .key⟩
      else if character = '\x7d' then give rest (.dict members)
      else none
  | _ => none

/-- The character of a pair of units. -/
def joined (half number : Nat) : Char :=
  Char.ofNat (0x10000 + (1024 * (half - 0xd800) + (number - 0xdc00)))

/-- A unit of an escape has ended; half a pair alone is no character. -/
def giveUnit (stack : List Frame) (characters : List Char) (half : Option Nat) (number : Nat) :
    Option Reader :=
  match half with
  | none =>
      if 0xd800 ≤ number ∧ number < 0xdc00 then some ⟨stack, .text characters (.half number)⟩
      else if 0xdc00 ≤ number ∧ number < 0xe000 then none
      else some ⟨stack, .text (characters ++ [Char.ofNat number]) .none⟩
  | some half =>
      if 0xdc00 ≤ number ∧ number < 0xe000 then
        some ⟨stack, .text (characters ++ [joined half number]) .none⟩
      else none

/-- A character of a string, or of an escape in it. -/
def stepText (stack : List Frame) (characters : List Char) (escape : Escape) (character : Char) :
    Option Reader :=
  match escape with
  | .none =>
      if character = '"' then giveText stack characters
      else if character = '\\' then some ⟨stack, .text characters .backslash⟩
      else if character.toNat < 32 then none
      else some ⟨stack, .text (characters ++ [character]) .none⟩
  | .backslash =>
      if character = 'u' then some ⟨stack, .text characters (.unit none 0 0)⟩
      else do
        let plain ← escaped character
        return ⟨stack, .text (characters ++ [plain]) .none⟩
  | .unit half count number => do
      let digit ← hexDigit character
      let number := 16 * number + digit
      if count < 3 then return ⟨stack, .text characters (.unit half (count + 1) number)⟩
      else giveUnit stack characters half number
  | .half unit =>
      if character = '\\' then some ⟨stack, .text characters (.halfBackslash unit)⟩ else none
  | .halfBackslash unit =>
      if character = 'u' then some ⟨stack, .text characters (.unit (some unit) 0 0)⟩ else none
where
  escaped (character : Char) : Option Char :=
    if character = '"' ∨ character = '\\' ∨ character = '/' then some character
    else if character = 'b' then some (Char.ofNat 8)
    else if character = 'f' then some (Char.ofNat 12)
    else if character = 'n' then some '\n'
    else if character = 'r' then some '\r'
    else if character = 't' then some '\t'
    else none
  hexDigit (character : Char) : Option Nat :=
    let code := character.toNat
    if character.isDigit then some (code - 48)
    else if 97 ≤ code ∧ code ≤ 102 then some (code - 87)
    else if 65 ≤ code ∧ code ≤ 70 then some (code - 55)
    else none

/-- The end of a number. -/
def giveNumber (stack : List Frame) (literal : List Char) (part : Part) : Option Reader :=
  if part = .zero ∨ part = .digits then give stack (.int (readInt literal))
  else if part = .fraction ∨ part = .power then give stack (.float literal)
  else none

/-- A character between the tokens, or the first one of a token. -/
def stepToken (reader : Reader) (character : Char) : Option Reader :=
  if isBlank character then some reader
  else match reader.mode with
    | .value => begin reader.stack character
    | .item =>
        if character = ']' then separate reader.stack character else begin reader.stack character
    | .firstKey =>
        if character = '"' then some ⟨reader.stack, .text [] .none⟩
        else if character = ',' then none
        else separate reader.stack character
    | .key => if character = '"' then some ⟨reader.stack, .text [] .none⟩ else none
    | .colon => if character = ':' then some ⟨reader.stack, .value⟩ else none
    | .more => separate reader.stack character
    | _ => none

def step (reader : Reader) (character : Char) : Option Reader :=
  match reader.mode with
  | .text characters escape => stepText reader.stack characters escape character
  | .word left value =>
      match left with
      | [last] => if character = last then give reader.stack value else none
      | first :: left =>
          if character = first then some ⟨reader.stack, .word left value⟩ else none
      | [] => none
  | .number literal part =>
      if part = .minus ∧ character = 'I' then
        some ⟨reader.stack, .word "nfinity".toList (.float "-Infinity".toList)⟩
      else match part.next character with
        | some part => some ⟨reader.stack, .number (literal ++ [character]) part⟩
        | none => do
            let reader ← giveNumber reader.stack literal part
            stepToken reader character
  | _ => stepToken reader character

def finish (reader : Reader) : Option Value :=
  match reader.stack, reader.mode with
  | [], .done value => some value
  | [], .number literal part => do
      let reader ← giveNumber [] literal part
      match reader.mode with
      | .done value => return value
      | _ => none
  | _, _ => none

def run (reader : Reader) (text : List Char) : Option Reader := text.foldlM step reader

def read (reader : Reader) (text : List Char) : Option Value := do
  let reader ← run reader text
  reader.finish

end Reader

/-- The value of a text that is read to its end. -/
def read (text : List Char) : Option Value := Reader.read ⟨[], .value⟩ text

/-- `json.loads(text)`. -/
def loads (text : List Char) : Except PyError Value :=
  match read text with
  | some value => .ok value
  | none => .error (.valueError "JSONDecodeError")

/-- A key that comes again replaces its value, and a pair of units is one character. -/
example : (read "\x7b\"a\": 1, \"b\": [-20, 0.5e+1], \"a\":\"\\ud83d\\ude00\\n\"\x7d\n".toList).map
    dumpsIndented = some
      ("\x7b\n  \"a\": \"\\ud83d\\ude00\\n\",\n  \"b\": [\n    -20,\n" ++
        "    0.5e+1\n  ]\n\x7d").toList := by
  decide +kernel

example : read "[1, 02]".toList = none ∧ read "[1,]".toList = none ∧ read "[1".toList = none := by
  refine ⟨?_, ?_, ?_⟩ <;> decide +kernel

end KVSSD.Json
