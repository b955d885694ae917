import Mathlib.Data.List.Sort

/-!
# JSON texts

`json.dumps` of a flat object of strings and integers, with sorted keys and without
blanks.  Characters outside printable ASCII are escaped.
-/

namespace KVSSD.Json

inductive Scalar where
  | str (text : String)
  | int (number : Int)
  deriving DecidableEq, Repr

/-- `str(value)`. -/
def Scalar.toStr : Scalar → String
  | str text => text
  | int number => toString number

/-- The escape of one UTF-16 unit. -/
def escapeUnit (unit : Nat) : List Char :=
  ['\\', 'u', Nat.digitChar (unit / 4096 % 16), Nat.digitChar (unit / 256 % 16),
    Nat.digitChar (unit / 16 % 16), Nat.digitChar (unit % 16)]

/-- A character as `ensure_ascii` writes it. -/
def escapeChar (character : Char) : List Char :=
  let code := character.toNat
  if character = '"' then ['\\', '"']
  else if character = '\\' then ['\\', '\\']
  else if character = '\n' then ['\\', 'n']
  else if character = '\r' then ['\\', 'r']
  else if character = '\t' then ['\\', 't']
  else if code = 12 then ['\\', 'f']
  else if code = 8 then ['\\', 'b']
  else if 32 ≤ code ∧ code ≤ 126 then [character]
  else if code < 0x10000 then escapeUnit code
  else
    let offset := code - 0x10000
    escapeUnit (0xd800 + offset / 1024 % 1024) ++ escapeUnit (0xdc00 + offset % 1024)

def quoted (text : String) : List Char :=
  '"' :: text.toList.flatMap escapeChar ++ ['"']

def Scalar.dump : Scalar → List Char
  | str text => quoted text
  | int number => (toString number).toList

/-- `json.dumps(object, sort_keys=True, separators=(",", ":"))`. -/
def dumps (object : List (String × Scalar)) : String :=
  let sorted := object.insertionSort fun first second => first.1 ≤ second.1
  let members := sorted.map fun member => quoted member.1 ++ ':' :: member.2.dump
  String.ofList (Char.ofNat 123 :: [','].intercalate members ++ [Char.ofNat 125])

/-- Two members in the other order, with a quote and a character outside ASCII. -/
example : dumps [("model", .str "a\"é"), ("bits", .int 4)] =
    "\x7b\"bits\":4,\"model\":\"a\\\"\\u00e9\"\x7d" := by
  decide +kernel

end KVSSD.Json
